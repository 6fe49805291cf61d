import CrashMonkey.Harness.Replay

namespace CrashMonkey

/-- The loop around `write` where a result of 2^31 or more counts as negative. -/
def writeLoopInt (capacity : ℕ) : List WriteResult → ℕ → ℕ → Option Payload → (ℕ → UInt8) →
    Option (Bool × (ℕ → UInt8) × List WriteResult)
  | [], _, _, _, _ => none
  | .failed :: calls, _, _, _, img => some (false, img, calls)
  | .accepted n :: calls, pos, left, data, img =>
    if left = 0 then some (true, img, calls)
    else match data with
      | none => some (false, img, calls)
      | some src =>
        if capacity ≤ pos then some (false, img, calls)
        else
          let res := min n (min left (capacity - pos))
          let img := Image.overlay img pos res src
          if 2 ^ 31 ≤ res then some (false, img, calls)
          else if left - res = 0 then some (true, img, calls)
          else writeLoopInt capacity calls (pos + res) (left - res) (some fun i => src (res + i)) img

def testWriteDataInt (capacity : ℕ) : List (DiskWrite Payload) → List WriteResult → (ℕ → UInt8) →
    Option (Bool × (ℕ → UInt8) × List WriteResult)
  | [], calls, img => some (true, img, calls)
  | w :: ws, calls, img =>
    if w.hasWriteFlag = false then testWriteDataInt capacity ws calls img
    else if seekable capacity w.byteAddr = false then some (false, img, calls)
    else match writeLoopInt capacity calls w.byteAddr w.metadata.size.toNat w.data img with
      | some (true, img, calls) => testWriteDataInt capacity ws calls img
      | r => r

/-- No call takes 2^31 bytes or more. -/
def Fitting (calls : List WriteResult) : Prop := ∀ n, .accepted n ∈ calls → n < 2 ^ 31

theorem writeLoopInt_eq {capacity : ℕ} {calls : List WriteResult} (hcalls : Fitting calls)
    (pos left : ℕ) (data : Option Payload) (img : ℕ → UInt8) :
    writeLoopInt capacity calls pos left data img = writeLoop capacity calls pos left data img := by
  induction calls generalizing pos left data img with
  | nil => rfl
  | cons call calls ih =>
    cases call with
    | failed => rfl
    | accepted n =>
      have hn : n < 2 ^ 31 := hcalls n List.mem_cons_self
      have hrest : Fitting calls := fun m hm => hcalls m (List.mem_cons_of_mem _ hm)
      have hfits : ¬ 2 ^ 31 ≤ min n (min left (capacity - pos)) := by omega
      cases data with
      | none => rfl
      | some src => simp only [writeLoopInt, writeLoop, hfits, if_false, ih hrest]

/-- How many of `left` bytes the call takes at `pos`, and whether its result is one that
the program takes for a success. -/
def WriteResult.takes (capacity pos left : ℕ) (present : Bool) : WriteResult → ℕ × Bool
  | .failed => (0, false)
  | .accepted n =>
    if left = 0 then (0, true)
    else if present = false ∨ capacity ≤ pos then (0, false)
    else (min n (min left (capacity - pos)), decide (min n (min left (capacity - pos)) < 2 ^ 31))

theorem WriteResult.takes_zero (capacity pos n : ℕ) (present : Bool) :
    (WriteResult.accepted n).takes capacity pos 0 present = (0, true) := rfl

theorem WriteResult.takes_accepted {capacity pos left n : ℕ} (hleft : left ≠ 0)
    (hend : ¬ capacity ≤ pos) : (WriteResult.accepted n).takes capacity pos left true =
      (min n (min left (capacity - pos)), decide (min n (min left (capacity - pos)) < 2 ^ 31)) := by
  simp [WriteResult.takes, hleft, hend]

/-- Calls that take `m` of the `left` bytes from `pos` on, one call behind the other. All
but the last one succeed with some bytes left, and that one succeeds with none left or fails. -/
inductive Transfers (capacity : ℕ) (present : Bool) :
    ℕ → ℕ → List WriteResult → ℕ → Bool → Prop
  | done {pos left : ℕ} {call : WriteResult}
      (h : call.takes capacity pos left present = (left, true)) :
      Transfers capacity present pos left [call] left true
  | failed {pos left m : ℕ} {call : WriteResult}
      (h : call.takes capacity pos left present = (m, false)) :
      Transfers capacity present pos left [call] m false
  | more {pos left n m : ℕ} {call : WriteResult} {calls : List WriteResult} {res : Bool}
      (h : call.takes capacity pos left present = (n, true)) (hleft : n < left)
      (hrest : Transfers capacity present (pos + n) (left - n) calls m res) :
      Transfers capacity present pos left (call :: calls) (n + m) res

/-- The loop makes such calls, and what they take is written. -/
theorem writeLoopInt_written {capacity : ℕ} {calls calls' : List WriteResult} {pos left : ℕ}
    {data : Option Payload} {img img' : ℕ → UInt8} {res : Bool}
    (h : writeLoopInt capacity calls pos left data img = some (res, img', calls')) :
    ∃ made m, calls = made ++ calls' ∧ Transfers capacity data.isSome pos left made m res ∧
      img' = Image.overlay img pos m (data.getD fun _ => 0) := by
  induction calls generalizing pos left data img with
  | nil => simp [writeLoopInt] at h
  | cons call calls ih =>
    have hlast (b : Bool) (img₁ : ℕ → UInt8) (m : ℕ)
        (h : some (b, img₁, calls) = some (res, img', calls'))
        (hwritten : Transfers capacity data.isSome pos left [call] m b)
        (himg : img₁ = Image.overlay img pos m (data.getD fun _ => 0)) :
        ∃ made m, call :: calls = made ++ calls' ∧
          Transfers capacity data.isSome pos left made m res ∧
          img' = Image.overlay img pos m (data.getD fun _ => 0) := by
      simp only [Option.some.injEq, Prod.mk.injEq] at h
      obtain ⟨rfl, rfl, rfl⟩ := h
      exact ⟨[call], m, rfl, hwritten, himg⟩
    cases call with
    | failed => exact hlast false img 0 h (.failed rfl) (by simp)
    | accepted n =>
      cases data with
      | none =>
        simp only [writeLoopInt] at h
        split_ifs at h with hleft
        · subst hleft
          exact hlast true img 0 h (.done (WriteResult.takes_zero ..)) (by simp)
        · exact hlast false img 0 h (.failed (by simp [WriteResult.takes, hleft])) (by simp)
      | some src =>
        simp only [writeLoopInt] at h
        split_ifs at h with hleft hend hneg hdone
        · subst hleft
          exact hlast true img 0 h (.done (WriteResult.takes_zero ..)) (by simp)
        · exact hlast false img 0 h (.failed (by simp [WriteResult.takes, hleft, hend])) (by simp)
        · -- the bytes are written, but the result is negative
          refine hlast false _ _ h (.failed ?_) rfl
          rw [Option.isSome_some, WriteResult.takes_accepted hleft hend,
            decide_eq_false (not_lt.mpr hneg)]
        · have hall : min n (min left (capacity - pos)) = left := by omega
          refine hlast true _ left h (.done ?_) (by rw [hall]; rfl)
          rw [Option.isSome_some, WriteResult.takes_accepted hleft hend,
            decide_eq_true (not_le.mp hneg), hall]
        · obtain ⟨made, m, hmade, hwritten, himg⟩ := ih h
          refine ⟨.accepted n :: made, _, by simp [hmade], .more ?_ (by omega) hwritten, ?_⟩
          · rw [Option.isSome_some, WriteResult.takes_accepted hleft hend,
              decide_eq_true (not_le.mp hneg)]
          · simp only [Option.getD_some] at himg ⊢
            rw [himg, Image.overlay_overlay]

namespace Transfers

variable {capacity pos left m : ℕ} {present : Bool} {calls : List WriteResult} {res : Bool}

theorem eq_left (h : Transfers capacity present pos left calls m res) (hres : res = true) :
    m = left := by
  induction h with
  | done => rfl
  | failed => cases hres
  | more _ hleft _ ih =>
    have := ih hres
    omega

theorem not_failed (h : Transfers capacity present pos left calls m res) (hres : res = true) :
    .failed ∉ calls := by
  have hcall {call : WriteResult} {pos left n : ℕ}
      (h : call.takes capacity pos left present = (n, true)) : .failed ≠ call := by
    rintro rfl
    cases h
  induction h with
  | done h => simpa using hcall h
  | failed => cases hres
  | more h _ _ ih => exact List.not_mem_cons_of_ne_of_not_mem (hcall h) (ih hres)

end Transfers

/-- Where all results fit, the type of `res` makes no difference. -/
theorem testWriteDataInt_eq {capacity : ℕ} {ws : List (DiskWrite Payload)}
    {calls : List WriteResult} (hcalls : Fitting calls) (img : ℕ → UInt8) :
    testWriteDataInt capacity ws calls img = testWriteData capacity ws calls img := by
  induction ws generalizing calls img with
  | nil => rfl
  | cons w ws ih =>
    simp only [testWriteDataInt, testWriteData]
    rw [← writeLoopInt_eq hcalls]
    split_ifs
    · exact ih hcalls img
    · rfl
    · cases hloop : writeLoopInt capacity calls w.byteAddr w.metadata.size.toNat w.data img with
      | none => rfl
      | some r =>
        obtain ⟨res, img₁, calls₁⟩ := r
        obtain ⟨made, -, hmade, -⟩ := writeLoopInt_written hloop
        cases res with
        | false => rfl
        | true =>
          exact ih (fun n hn => hcalls n (hmade ▸ List.mem_append_right _ hn)) img₁

inductive Completed (capacity : ℕ) : List (DiskWrite Payload) → List WriteResult → Prop
  | nil : Completed capacity [] []
  | skip {w : DiskWrite Payload} {ws : List (DiskWrite Payload)} {made : List WriteResult}
      (hw : w.hasWriteFlag = false) (hrest : Completed capacity ws made) :
      Completed capacity (w :: ws) made
  | write {w : DiskWrite Payload} {ws : List (DiskWrite Payload)} {made made' : List WriteResult}
      (hw : w.hasWriteFlag = true) (hseek : seekable capacity w.byteAddr = true)
      (hmade : Transfers capacity w.data.isSome w.byteAddr w.metadata.size.toNat made
        w.metadata.size.toNat true) (hrest : Completed capacity ws made') :
      Completed capacity (w :: ws) (made ++ made')

/-- The seek of the operation fails, or the last of its calls after `m` bytes. -/
def FailsAfter (capacity : ℕ) (w : DiskWrite Payload) (made : List WriteResult) (m : ℕ) : Prop :=
  seekable capacity w.byteAddr = false ∧ made = [] ∧ m = 0 ∨
    seekable capacity w.byteAddr = true ∧
      Transfers capacity w.data.isSome w.byteAddr w.metadata.size.toNat made m false

/-- What a replay with the calls `made` leaves. If it fails, then in one of the operations,
and the content is that with the operations before it and the bytes it took. -/
structure Replayed (capacity : ℕ) (ws : List (DiskWrite Payload)) (img : ℕ → UInt8)
    (made : List WriteResult) (res : Bool) (img' : ℕ → UInt8) : Prop where
  complete : res = true → Completed capacity ws made ∧ img' = ws.foldl replayOp img
  cut : res = false → ∃ pre w post before last m, ws = pre ++ w :: post ∧
    w.hasWriteFlag = true ∧ made = before ++ last ∧ Completed capacity pre before ∧
    FailsAfter capacity w last m ∧
    img' = Image.overlay (pre.foldl replayOp img) w.byteAddr m (w.data.getD fun _ => 0)
  write_failed : .failed ∈ made → res = false
  seek_failed : (∃ w ∈ ws, w.hasWriteFlag = true ∧ seekable capacity w.byteAddr = false) →
    res = false

theorem Completed.not_failed {capacity : ℕ} {ws : List (DiskWrite Payload)}
    {made : List WriteResult} (h : Completed capacity ws made) : .failed ∉ made := by
  induction h with
  | nil => exact List.not_mem_nil
  | skip _ _ ih => exact ih
  | write _ _ hmade _ ih =>
    rw [List.mem_append, not_or]
    exact ⟨hmade.not_failed rfl, ih⟩

theorem Completed.seekable {capacity : ℕ} {ws : List (DiskWrite Payload)}
    {made : List WriteResult} (h : Completed capacity ws made) :
    ∀ w ∈ ws, w.hasWriteFlag = true → CrashMonkey.seekable capacity w.byteAddr = true := by
  induction h with
  | nil => simp
  | skip hw _ ih => exact List.forall_mem_cons.mpr ⟨fun hw' => by simp [hw] at hw', ih⟩
  | write _ hseek _ _ ih => exact List.forall_mem_cons.mpr ⟨fun _ => hseek, ih⟩

/-- What is said of failing calls and seeks follows from what is completed. -/
theorem Replayed.of_complete {capacity : ℕ} {ws : List (DiskWrite Payload)} {img img' : ℕ → UInt8}
    {made : List WriteResult} {res : Bool}
    (hcomplete : res = true → Completed capacity ws made ∧ img' = ws.foldl replayOp img)
    (hcut : res = false → ∃ pre w post before last m, ws = pre ++ w :: post ∧
      w.hasWriteFlag = true ∧ made = before ++ last ∧ Completed capacity pre before ∧
      FailsAfter capacity w last m ∧
      img' = Image.overlay (pre.foldl replayOp img) w.byteAddr m (w.data.getD fun _ => 0)) :
    Replayed capacity ws img made res img' where
  complete := hcomplete
  cut := hcut
  write_failed hfailed := by
    by_contra hres
    exact (hcomplete (by simpa using hres)).1.not_failed hfailed
  seek_failed := by
    rintro ⟨w, hmem, hw, hfails⟩
    by_contra hres
    rw [(hcomplete (by simpa using hres)).1.seekable w hmem hw] at hfails
    cases hfails

/-- The replay goes on from what an operation has left. -/
theorem Replayed.cons {capacity : ℕ} {w : DiskWrite Payload} {ws : List (DiskWrite Payload)}
    {img img' : ℕ → UInt8} {made' : List WriteResult} {res : Bool}
    (h : Replayed capacity ws (replayOp img w) made' res img') (made : List WriteResult)
    (hfirst : ∀ {ws made'}, Completed capacity ws made' →
      Completed capacity (w :: ws) (made ++ made')) :
    Replayed capacity (w :: ws) img (made ++ made') res img' := by
  refine .of_complete (fun hres => ?_) fun hres => ?_
  · obtain ⟨hcompleted, himg⟩ := h.complete hres
    exact ⟨hfirst hcompleted, himg⟩
  · obtain ⟨pre, w', post, before, last, m, rfl, hw', rfl, hcompleted, hfails, himg⟩ := h.cut hres
    exact ⟨w :: pre, w', post, made ++ before, last, m, rfl, hw', (List.append_assoc ..).symm,
      hfirst hcompleted, hfails, himg⟩

theorem Replayed.skip {capacity : ℕ} {w : DiskWrite Payload} {ws : List (DiskWrite Payload)}
    {img img' : ℕ → UInt8} {made : List WriteResult} {res : Bool}
    (h : Replayed capacity ws (replayOp img w) made res img') (hw : w.hasWriteFlag = false) :
    Replayed capacity (w :: ws) img made res img' :=
  h.cons [] fun hrest => .skip hw hrest

/-- The replay ends in its first operation. -/
theorem Replayed.fails {capacity m : ℕ} {w : DiskWrite Payload} {ws : List (DiskWrite Payload)}
    {img img' : ℕ → UInt8} {made : List WriteResult} (hw : w.hasWriteFlag = true)
    (hfails : FailsAfter capacity w made m)
    (himg : img' = Image.overlay img w.byteAddr m (w.data.getD fun _ => 0)) :
    Replayed capacity (w :: ws) img made false img' :=
  .of_complete (fun hres => by cases hres) fun _ =>
    ⟨[], w, ws, [], made, m, rfl, hw, rfl, .nil, hfails, himg⟩

theorem testWriteDataInt_replayed {capacity : ℕ} {ws : List (DiskWrite Payload)}
    {calls calls' : List WriteResult} {img img' : ℕ → UInt8} {res : Bool}
    (h : testWriteDataInt capacity ws calls img = some (res, img', calls')) :
    ∃ made, calls = made ++ calls' ∧ Replayed capacity ws img made res img' := by
  induction ws generalizing calls img with
  | nil =>
    simp only [testWriteDataInt, Option.some.injEq, Prod.mk.injEq] at h
    obtain ⟨rfl, rfl, rfl⟩ := h
    exact ⟨[], rfl, .of_complete (fun _ => ⟨.nil, rfl⟩) fun hres => by cases hres⟩
  | cons w ws ih =>
    simp only [testWriteDataInt] at h
    split_ifs at h with hw hseek
    · obtain ⟨made, hmade, hres⟩ := ih h
      have himg : replayOp img w = img := by simp [replayOp, hw]
      exact ⟨made, hmade, (himg ▸ hres).skip hw⟩
    · simp only [Option.some.injEq, Prod.mk.injEq] at h
      obtain ⟨rfl, rfl, rfl⟩ := h
      rw [Bool.not_eq_false] at hw
      exact ⟨[], rfl, .fails hw (.inl ⟨hseek, rfl, rfl⟩) (by simp)⟩
    · rw [Bool.not_eq_false] at hw hseek
      cases hloop : writeLoopInt capacity calls w.byteAddr w.metadata.size.toNat w.data img with
      | none => simp [hloop] at h
      | some r =>
        obtain ⟨res₁, img₁, calls₁⟩ := r
        obtain ⟨made₁, m, hmade₁, hwritten, himg₁⟩ := writeLoopInt_written hloop
        rw [hloop] at h
        cases res₁ with
        | true =>
          obtain ⟨made, hmade, hres⟩ := ih h
          obtain rfl := hwritten.eq_left rfl
          have himg : replayOp img w = img₁ := by rw [himg₁, replayOp, if_pos hw]
          refine ⟨made₁ ++ made, by rw [hmade₁, hmade, List.append_assoc], ?_⟩
          exact (himg ▸ hres).cons _ fun hrest => .write hw hseek hwritten hrest
        | false =>
          simp only [Option.some.injEq, Prod.mk.injEq] at h
          obtain ⟨rfl, rfl, rfl⟩ := h
          exact ⟨made₁, hmade₁, .fails hw (.inr ⟨hseek, hwritten⟩) himg₁⟩

def Taking (call : WriteResult) : Prop := call ≠ .accepted 0

theorem writeLoopInt_returns (capacity : ℕ) {calls : List WriteResult}
    (hcalls : ∀ call ∈ calls, Taking call) (pos left : ℕ) (data : Option Payload)
    (img : ℕ → UInt8) (hlen : left < calls.length) :
    ∃ res img' calls', writeLoopInt capacity calls pos left data img = some (res, img', calls') ∧
      calls.length ≤ calls'.length + (left + 1) := by
  induction calls generalizing pos left data img with
  | nil => cases hlen
  | cons call calls ih =>
    obtain ⟨hcall, hrest⟩ := List.forall_mem_cons.mp hcalls
    rw [List.length_cons] at hlen ⊢
    have hstop : calls.length + 1 ≤ calls.length + (left + 1) := by omega
    cases call with
    | failed => exact ⟨_, _, _, rfl, hstop⟩
    | accepted n =>
      have hn : n ≠ 0 := fun h => hcall (congrArg WriteResult.accepted h)
      cases data with
      | none =>
        simp only [writeLoopInt]
        split_ifs with hleft
        · exact ⟨_, _, _, rfl, hstop⟩
        · exact ⟨_, _, _, rfl, hstop⟩
      | some src =>
        simp only [writeLoopInt]
        split_ifs with hleft hend hneg hdone
        · exact ⟨_, _, _, rfl, hstop⟩
        · exact ⟨_, _, _, rfl, hstop⟩
        · exact ⟨_, _, _, rfl, hstop⟩
        · exact ⟨_, _, _, rfl, hstop⟩
        · obtain ⟨res, img', calls', hloop, hleft'⟩ := ih hrest
            (pos + min n (min left (capacity - pos))) (left - min n (min left (capacity - pos)))
            (some fun i => src (min n (min left (capacity - pos)) + i))
            (Image.overlay img pos (min n (min left (capacity - pos))) src) (by omega)
          exact ⟨res, img', calls', hloop, by omega⟩

theorem testWriteDataInt_returns (capacity : ℕ) {ws : List (DiskWrite Payload)}
    {calls : List WriteResult} (hcalls : ∀ call ∈ calls, Taking call) (img : ℕ → UInt8)
    (hlen : callsNeeded ws ≤ calls.length) :
    ∃ r, testWriteDataInt capacity ws calls img = some r := by
  induction ws generalizing calls img with
  | nil => exact ⟨_, rfl⟩
  | cons w ws ih =>
    simp only [callsNeeded, List.map_cons, List.sum_cons] at hlen
    simp only [testWriteDataInt]
    split_ifs with hw hseek
    · exact ih hcalls img (le_trans (Nat.le_add_left _ _) hlen)
    · exact ⟨_, rfl⟩
    · obtain ⟨res, img₁, calls₁, hloop, hlen₁⟩ := writeLoopInt_returns capacity hcalls
        w.byteAddr w.metadata.size.toNat w.data img (by omega)
      rw [hloop]
      cases res with
      | false => exact ⟨_, rfl⟩
      | true =>
        obtain ⟨made, -, hmade, -⟩ := writeLoopInt_written hloop
        refine ih (fun call hcall => hcalls call ?_) img₁ (by unfold callsNeeded; omega)
        rw [hmade]
        exact List.mem_append_right _ hcall

/-- With as many results as it may need, a replay returns, and what it leaves fits to what
it returns. Where the results fit into an `int`, it is the replay of the other modules. -/
theorem testWriteDataInt_exact (capacity : ℕ) (ws : List (DiskWrite Payload)) (img : ℕ → UInt8)
    {calls : List WriteResult} (hcalls : ∀ call ∈ calls, Taking call)
    (hlen : callsNeeded ws ≤ calls.length) :
    ∃ res img' calls' made, testWriteDataInt capacity ws calls img = some (res, img', calls') ∧
      (Fitting calls → testWriteData capacity ws calls img = some (res, img', calls')) ∧
      calls = made ++ calls' ∧ Replayed capacity ws img made res img' := by
  obtain ⟨⟨res, img', calls'⟩, heq⟩ := testWriteDataInt_returns capacity hcalls img hlen
  obtain ⟨made, hmade, hres⟩ := testWriteDataInt_replayed heq
  exact ⟨res, img', calls', made, heq, fun hfits => by rw [← testWriteDataInt_eq hfits, heq], hmade,
    hres⟩

/-- A write of two bytes of which the device takes one before it fails. -/
theorem testWriteDataInt_exact_cut : ∃ res img' calls' made,
    testWriteDataInt 4096 [⟨⟨0, 1, 1, 2⟩, some fun _ => 7⟩] [.accepted 1, .failed, .failed]
        (fun _ => 0) = some (res, img', calls') ∧
      (Fitting [.accepted 1, .failed, .failed] →
        testWriteData 4096 [⟨⟨0, 1, 1, 2⟩, some fun _ => 7⟩] [.accepted 1, .failed, .failed]
          (fun _ => 0) = some (res, img', calls')) ∧
      [.accepted 1, .failed, .failed] = made ++ calls' ∧
      Replayed 4096 [⟨⟨0, 1, 1, 2⟩, some fun _ => 7⟩] (fun _ => 0) made res img' :=
  testWriteDataInt_exact 4096 _ _ (by simp [Taking]) (by decide)

end CrashMonkey
