import CrashMonkey.Bio
import CrashMonkey.Lib.Image

/-!
# Replaying a log

`test_write_data` writes the operations of a log to a block device. How much a call
of `write` accepts is up to the device, so a run is given the results of the calls.
-/

namespace CrashMonkey

/-- What one call of `write` reports: an error, or that at most `n` bytes were taken. -/
inductive WriteResult where
  | failed
  | accepted (n : ℕ)
deriving DecidableEq, Repr

def sectorSize : BitVec 64 := 512

def DiskWrite.byteAddr {δ : Type} (w : DiskWrite δ) : ℕ :=
  (w.metadata.writeSector * sectorSize).toNat

/-- `lseek` takes a signed offset, and on a block device none past its end. -/
def seekable (capacity addr : ℕ) : Bool := addr < 2 ^ 63 && addr ≤ capacity

/-- The loop around `write`, at file position `pos` with `left` bytes to go; `data`
are the bytes from the current source address on. A null source and the end of the
device are errors unless nothing is written. `none` is a run that is still waiting
for a call. -/
def writeLoop (capacity : ℕ) : List WriteResult → ℕ → ℕ → Option Payload → (ℕ → UInt8) →
    Option (Bool × (ℕ → UInt8) × List WriteResult)
  | [], _, _, _, _ => none
  | .failed :: calls, _, _, _, img => some (false, img, calls)
  | .accepted n :: calls, pos, left, data, img =>
    if left = 0 then some (true, img, calls)
    else match data with
      | none => some (false, img, calls)
      | some src =>
        if capacity ≤ pos then some (false, img, calls)
        else
          let res := min n (min left (capacity - pos))
          let img := Image.overlay img pos res src
          if left - res = 0 then some (true, img, calls)
          else writeLoop capacity calls (pos + res) (left - res) (some fun i => src (res + i)) img

/-- `Tester::test_write_data` on a device of `capacity` bytes with content `img`:
the result, the content afterwards and the results of calls not made. -/
def testWriteData (capacity : ℕ) : List (DiskWrite Payload) → List WriteResult → (ℕ → UInt8) →
    Option (Bool × (ℕ → UInt8) × List WriteResult)
  | [], calls, img => some (true, img, calls)
  | w :: ws, calls, img =>
    if w.hasWriteFlag = false then testWriteData capacity ws calls img
    else if seekable capacity w.byteAddr = false then some (false, img, calls)
    else match writeLoop capacity calls w.byteAddr w.metadata.size.toNat w.data img with
      | some (true, img, calls) => testWriteData capacity ws calls img
      | r => r

def replayOp (img : ℕ → UInt8) (w : DiskWrite Payload) : ℕ → UInt8 :=
  if w.hasWriteFlag then
    Image.overlay img w.byteAddr w.metadata.size.toNat (w.data.getD fun _ => 0)
  else img

/-- The operation can be written to a device of `capacity` bytes. -/
def Replayable (capacity : ℕ) (w : DiskWrite Payload) : Prop :=
  w.hasWriteFlag = true → seekable capacity w.byteAddr = true ∧
    w.byteAddr + w.metadata.size.toNat ≤ capacity ∧
    (w.data = none → w.metadata.size.toNat = 0)

theorem writeLoop_true {capacity : ℕ} {calls calls' : List WriteResult} {pos left : ℕ}
    {data : Option Payload} {img img' : ℕ → UInt8} (hpos : pos ≤ capacity)
    (h : writeLoop capacity calls pos left data img = some (true, img', calls')) :
    img' = Image.overlay img pos left (data.getD fun _ => 0) ∧ pos + left ≤ capacity ∧
      (data = none → left = 0) := by
  induction calls generalizing pos left data img with
  | nil => simp [writeLoop] at h
  | cons call calls ih =>
    cases call with
    | failed => simp [writeLoop] at h
    | accepted n =>
      obtain rfl | hleft := eq_or_ne left 0
      · simp only [writeLoop, if_true, Option.some.injEq, Prod.mk.injEq, true_and] at h
        exact ⟨by simp [h.1], by omega, fun _ => rfl⟩
      · simp only [writeLoop, hleft, if_false] at h
        cases data with
        | none => simp at h
        | some src =>
          simp only at h
          split_ifs at h with hend hdone
          · simp at h
          · have hres : min n (min left (capacity - pos)) = left := by omega
            simp only [hres, Option.some.injEq, Prod.mk.injEq, true_and] at h
            exact ⟨h.1.symm, by omega, by simp⟩
          · obtain ⟨himg, hcap, -⟩ := ih (by omega) h
            refine ⟨?_, by omega, by simp⟩
            simp only [Option.getD_some] at himg ⊢
            rw [himg, Image.overlay_overlay]
            congr 1
            omega

theorem writeLoop_no_failure {capacity : ℕ} {calls calls' : List WriteResult} {pos left : ℕ}
    {data : Option Payload} {img img' : ℕ → UInt8} {res : Bool} (hcalls : .failed ∉ calls)
    (hcap : pos + left ≤ capacity) (hdata : data = none → left = 0)
    (h : writeLoop capacity calls pos left data img = some (res, img', calls')) :
    res = true ∧ .failed ∉ calls' := by
  induction calls generalizing pos left data img with
  | nil => simp [writeLoop] at h
  | cons call calls ih =>
    obtain ⟨hcall, hrest⟩ := not_or.mp (mt List.mem_cons.mpr hcalls)
    cases call with
    | failed => simp at hcall
    | accepted n =>
      obtain rfl | hleft := eq_or_ne left 0
      · simp only [writeLoop, if_true, Option.some.injEq, Prod.mk.injEq] at h
        exact ⟨h.1.symm, h.2.2 ▸ hrest⟩
      · simp only [writeLoop, hleft, if_false] at h
        cases data with
        | none => exact absurd (hdata rfl) hleft
        | some src =>
          simp only at h
          split_ifs at h with hend hdone
          · omega
          · simp only [Option.some.injEq, Prod.mk.injEq] at h
            exact ⟨h.1.symm, h.2.2 ▸ hrest⟩
          · exact ih hrest (by omega) (by simp) h

/-- A replay that succeeds has written all operations completely, in order. -/
theorem testWriteData_true {capacity : ℕ} {ws : List (DiskWrite Payload)}
    {calls calls' : List WriteResult} {img img' : ℕ → UInt8}
    (h : testWriteData capacity ws calls img = some (true, img', calls')) :
    img' = ws.foldl replayOp img ∧ ∀ w ∈ ws, Replayable capacity w := by
  induction ws generalizing calls img with
  | nil => simp_all [testWriteData]
  | cons w ws ih =>
    simp only [testWriteData] at h
    split_ifs at h with hw hseek
    · obtain ⟨himg, hall⟩ := ih h
      refine ⟨by simpa [replayOp, hw] using himg, List.forall_mem_cons.mpr ⟨?_, hall⟩⟩
      simp [Replayable, hw]
    · simp at h
    · cases hloop : writeLoop capacity calls w.byteAddr w.metadata.size.toNat w.data img with
      | none => simp [hloop] at h
      | some x =>
        obtain ⟨res, img₁, calls₁⟩ := x
        cases res with
        | false => simp [hloop] at h
        | true =>
          rw [hloop] at h
          rw [Bool.not_eq_false] at hw hseek
          have hle : w.byteAddr ≤ capacity := by
            simp only [seekable, Bool.and_eq_true, decide_eq_true_eq] at hseek
            exact hseek.2
          obtain ⟨rfl, hcap, hdata⟩ := writeLoop_true hle hloop
          obtain ⟨himg, hall⟩ := ih h
          refine ⟨by simpa [replayOp, hw] using himg, List.forall_mem_cons.mpr ⟨?_, hall⟩⟩
          exact fun _ => ⟨hseek, hcap, hdata⟩

/-- Without a failing call, operations that can be written are written. -/
theorem testWriteData_no_failure {capacity : ℕ} {ws : List (DiskWrite Payload)}
    {calls calls' : List WriteResult} {img img' : ℕ → UInt8} {res : Bool}
    (hcalls : .failed ∉ calls) (hws : ∀ w ∈ ws, Replayable capacity w)
    (h : testWriteData capacity ws calls img = some (res, img', calls')) : res = true := by
  induction ws generalizing calls img with
  | nil => simp_all [testWriteData]
  | cons w ws ih =>
    obtain ⟨hw, hrest⟩ := List.forall_mem_cons.mp hws
    simp only [testWriteData] at h
    split_ifs at h with hflag hseek
    · exact ih hcalls hrest h
    · simp [(hw (by simpa using hflag)).1] at hseek
    · obtain ⟨-, hcap, hdata⟩ := hw (by simpa using hflag)
      cases hloop : writeLoop capacity calls w.byteAddr w.metadata.size.toNat w.data img with
      | none => simp [hloop] at h
      | some x =>
        obtain ⟨res₁, img₁, calls₁⟩ := x
        obtain ⟨rfl, hcalls₁⟩ := writeLoop_no_failure hcalls hcap hdata hloop
        rw [hloop] at h
        exact ih hcalls₁ hrest h

theorem writeLoop_congr (capacity : ℕ) (calls : List WriteResult) (pos left : ℕ)
    (data : Option Payload) (img img' : ℕ → UInt8) :
    (writeLoop capacity calls pos left data img).map (fun r => (r.1, r.2.2)) =
      (writeLoop capacity calls pos left data img').map fun r => (r.1, r.2.2) := by
  induction calls generalizing pos left data img img' with
  | nil => rfl
  | cons call calls ih =>
    cases call with
    | failed => rfl
    | accepted n =>
      cases data with
      | none =>
        simp only [writeLoop]
        split_ifs <;> rfl
      | some src =>
        simp only [writeLoop]
        split_ifs
        · rfl
        · rfl
        · rfl
        · exact ih _ _ _ _ _

/-- Whether a replay succeeds does not depend on what is overwritten. -/
theorem testWriteData_congr (capacity : ℕ) (ws : List (DiskWrite Payload))
    (calls : List WriteResult) (img img' : ℕ → UInt8) :
    (testWriteData capacity ws calls img).map (fun r => (r.1, r.2.2)) =
      (testWriteData capacity ws calls img').map fun r => (r.1, r.2.2) := by
  induction ws generalizing calls img img' with
  | nil => rfl
  | cons w ws ih =>
    have hloop := writeLoop_congr capacity calls w.byteAddr w.metadata.size.toNat w.data img img'
    simp only [testWriteData]
    split_ifs
    · exact ih _ _ _
    · rfl
    · cases h : writeLoop capacity calls w.byteAddr w.metadata.size.toNat w.data img with
      | none =>
        rw [h] at hloop
        rw [Option.map_eq_none_iff.mp hloop.symm]
      | some r =>
        obtain ⟨res, img₁, calls₁⟩ := r
        rw [h, Option.map_some] at hloop
        obtain ⟨⟨res', img₂, calls₂⟩, h', heq⟩ := Option.map_eq_some_iff.mp hloop.symm
        obtain ⟨rfl, rfl⟩ := Prod.mk.inj heq
        rw [h']
        cases res' with
        | true => exact ih _ _ _
        | false => rfl

def Accepting (calls : List WriteResult) : Prop := ∀ call ∈ calls, ∃ n, call = .accepted (n + 1)

theorem writeLoop_ends {capacity : ℕ} {calls : List WriteResult} (pos left : ℕ)
    (data : Option Payload) (img : ℕ → UInt8) (hcalls : Accepting calls)
    (hcap : pos + left ≤ capacity) (hdata : data = none → left = 0) (hlen : left < calls.length) :
    ∃ img' calls', writeLoop capacity calls pos left data img = some (true, img', calls') ∧
      Accepting calls' ∧ calls.length ≤ calls'.length + (left + 1) := by
  induction calls generalizing pos left data img with
  | nil => cases hlen
  | cons call calls ih =>
    obtain ⟨⟨n, rfl⟩, hrest⟩ := List.forall_mem_cons.mp hcalls
    rw [List.length_cons] at hlen
    obtain rfl | hleft := eq_or_ne left 0
    · exact ⟨img, calls, by simp [writeLoop], hrest, by simp⟩
    · cases data with
      | none => exact absurd (hdata rfl) hleft
      | some src =>
        by_cases hdone : left ≤ n + 1
        · have hres : min (n + 1) (min left (capacity - pos)) = left := by omega
          refine ⟨Image.overlay img pos left src, calls, ?_, hrest, by simp⟩
          simp [writeLoop, hleft, show ¬ capacity ≤ pos by omega, hres]
        · have hres : min (n + 1) (min left (capacity - pos)) = n + 1 := by omega
          obtain ⟨img', calls', hloop, hrest', hlen'⟩ := ih (pos + (n + 1))
            (left - (n + 1)) (some fun i => src (n + 1 + i))
            (Image.overlay img pos (n + 1) src) hrest (by omega) (by simp) (by omega)
          refine ⟨img', calls', ?_, hrest', by rw [List.length_cons]; omega⟩
          simp only [writeLoop, hleft, if_false, show ¬ capacity ≤ pos by omega, hres,
            show left - (n + 1) ≠ 0 by omega, hloop]

def callsNeeded (ws : List (DiskWrite Payload)) : ℕ :=
  (ws.map fun w => w.metadata.size.toNat + 1).sum

theorem testWriteData_ends {capacity : ℕ} {ws : List (DiskWrite Payload)}
    {calls : List WriteResult} (img : ℕ → UInt8) (hcalls : Accepting calls)
    (hws : ∀ w ∈ ws, Replayable capacity w) (hlen : callsNeeded ws ≤ calls.length) :
    ∃ img' calls', testWriteData capacity ws calls img = some (true, img', calls') := by
  induction ws generalizing calls img with
  | nil => exact ⟨img, calls, rfl⟩
  | cons w ws ih =>
    obtain ⟨hw, hrest⟩ := List.forall_mem_cons.mp hws
    simp only [callsNeeded, List.map_cons, List.sum_cons] at hlen
    cases hflag : w.hasWriteFlag with
    | false =>
      obtain ⟨img', calls', heq⟩ := ih img hcalls hrest
        (le_trans (Nat.le_add_left _ _) hlen)
      exact ⟨img', calls', by simp [testWriteData, hflag, heq]⟩
    | true =>
      obtain ⟨hseek, hcap, hdata⟩ := hw hflag
      obtain ⟨img₁, calls₁, hloop, hcalls₁, hlen₁⟩ :=
        writeLoop_ends _ _ _ img hcalls hcap hdata (by omega)
      obtain ⟨img', calls', heq⟩ := ih img₁ hcalls₁ hrest (by unfold callsNeeded; omega)
      exact ⟨img', calls', by simp [testWriteData, hflag, hseek, hloop, heq]⟩

end CrashMonkey
