import Mathlib.Logic.Function.Basic
import CrashMonkey.Harness.Rounds
import CrashMonkey.Harness.Snapshot
import CrashMonkey.Lib.Transition

/-!
# The flags of a tester

A `Tester` notes in its fields which modules it has loaded, whether a file system is
mounted and which device it has open. The kernel knows better, and every command that the
tester gives it can fail.
-/

namespace CrashMonkey.Resources

def MNT_BAD_DEV_ERR : Int := -12

def COW_BRD_PATH : String := "/dev/cow_ram0"
def SNAPSHOT_PATH : String := "/dev/cow_ram_snapshot1_0"
def FULL_WRAPPER_PATH : String := "/dev/hwm"

inductive KernelModule where
  | cowBrd
  | wrapper
deriving DecidableEq, Repr

def moduleOf (dev : String) : Option KernelModule :=
  if dev = FULL_WRAPPER_PATH then some .wrapper
  else if dev = COW_BRD_PATH ∨ dev = SNAPSHOT_PATH then some .cowBrd
  else none

/-- The modules that are loaded, the devices that are mounted at the mount point, the last
one first, and the open descriptors of the harness with their devices. -/
structure Kernel where
  loaded : KernelModule → Bool
  mounts : List String
  files : List (ℕ × String)

namespace Kernel

def present (dev : String) (k : Kernel) : Bool := (moduleOf dev).all k.loaded

/-- The wrapper keeps its target open, which is a disk of cow_brd. -/
def inUse (m : KernelModule) (k : Kernel) : Bool :=
  (m == .cowBrd && k.loaded .wrapper) || k.mounts.any (fun dev => moduleOf dev == some m) ||
    k.files.any (fun f => moduleOf f.2 == some m)

def insmod (m : KernelModule) (ok : Bool) (k : Kernel) : Option Kernel :=
  if ok && !k.loaded m then some { k with loaded := Function.update k.loaded m true } else none

def rmmod (m : KernelModule) (ok : Bool) (k : Kernel) : Option Kernel :=
  if ok && k.loaded m && !k.inUse m then
    some { k with loaded := Function.update k.loaded m false }
  else none

/-- `open`, where `fd` is the number that the descriptor would get. -/
def openFile (dev : String) (fd : Option ℕ) (k : Kernel) : Option (ℕ × Kernel) :=
  match fd with
  | none => none
  | some fd =>
    if k.present dev && k.files.all (·.1 != fd) then
      some (fd, { k with files := (fd, dev) :: k.files })
    else none

def close (fd : ℕ) (k : Kernel) : Kernel := { k with files := k.files.filter (·.1 != fd) }

def mount (dev : String) (ok : Bool) (k : Kernel) : Option Kernel :=
  if ok && k.present dev then some { k with mounts := dev :: k.mounts } else none

def umount (ok : Bool) (k : Kernel) : Option Kernel :=
  if ok && !k.mounts.isEmpty then some { k with mounts := k.mounts.tail } else none

end Kernel

namespace Kernel

variable {m : KernelModule} {ok : Bool} {k k' : Kernel} {dev : String} {fd : ℕ}

theorem insmod_eq_some : k.insmod m ok = some k' ↔
    (ok = true ∧ k.loaded m = false) ∧ k' = { k with loaded := Function.update k.loaded m true } := by
  simp [insmod, @eq_comm _ k']

theorem rmmod_eq_some : k.rmmod m ok = some k' ↔
    (ok = true ∧ k.loaded m = true ∧ k.inUse m = false) ∧
      k' = { k with loaded := Function.update k.loaded m false } := by
  simp [rmmod, and_assoc, @eq_comm _ k']

theorem mount_eq_some : k.mount dev ok = some k' ↔
    (ok = true ∧ k.present dev = true) ∧ k' = { k with mounts := dev :: k.mounts } := by
  simp [mount, @eq_comm _ k']

theorem umount_eq_some : k.umount ok = some k' ↔
    (ok = true ∧ k.mounts ≠ []) ∧ k' = { k with mounts := k.mounts.tail } := by
  simp [umount, @eq_comm _ k']

theorem openFile_eq_some {fd? : Option ℕ} (h : k.openFile dev fd? = some (fd, k')) :
    k' = { k with files := (fd, dev) :: k.files } := by
  unfold openFile at h
  split at h
  · cases h
  · split_ifs at h
    cases h
    rfl

end Kernel

/-- Which of the commands of a call are `ok`. -/
structure Outcomes where
  insmod : Bool
  rmmod : KernelModule → Bool
  opened : Option ℕ
  mount : Bool
  umount : Bool

/-- What of a `Tester` concerns modules, mounts and descriptors, and the kernel it works
on. A descriptor that is -1 is `none`. -/
structure Tester where
  deviceMount : String
  wrapperInserted : Bool := false
  cowBrdInserted : Bool := false
  cowBrdFd : Option ℕ := none
  diskMounted : Bool := false
  ioctlFd : Option ℕ := none
  kernel : Kernel := ⟨fun _ => false, [], []⟩

namespace Tester

def mountDevice (dev : String) (x : Outcomes) (s : Tester) : Int × Tester :=
  match s.kernel.mount dev x.mount with
  | none => (MNT_MNT_ERR, { s with diskMounted := false })
  | some kernel => (SUCCESS, { s with diskMounted := true, kernel })

def mountDeviceRaw (x : Outcomes) (s : Tester) : Int × Tester :=
  if s.deviceMount = "" then (MNT_BAD_DEV_ERR, s) else s.mountDevice s.deviceMount x

def mountWrapperDevice (x : Outcomes) (s : Tester) : Int × Tester :=
  s.mountDevice FULL_WRAPPER_PATH x

def umountDevice (x : Outcomes) (s : Tester) : Int × Tester :=
  if !s.diskMounted then (SUCCESS, { s with diskMounted := false })
  else
    match s.kernel.umount x.umount with
    | none => (MNT_UMNT_ERR, { s with diskMounted := true })
    | some kernel => (SUCCESS, { s with diskMounted := false, kernel })

/-- The module is loaded only if `cow_brd_fd` is not open. -/
def insmodCowBrd (x : Outcomes) (s : Tester) : Option Kernel :=
  if s.cowBrdFd = none then s.kernel.insmod .cowBrd x.insmod else some s.kernel

def insertCowBrd (x : Outcomes) (s : Tester) : Int × Tester :=
  match s.insmodCowBrd x with
  | none => (WRAPPER_INSERT_ERR, { s with cowBrdFd := none })
  | some kernel =>
    match kernel.openFile COW_BRD_PATH x.opened with
    | some (fd, kernel) =>
      (SUCCESS, { s with cowBrdInserted := true, cowBrdFd := some fd, kernel })
    | none =>
      match kernel.rmmod .cowBrd (x.rmmod .cowBrd) with
      | none =>
        (WRAPPER_REMOVE_ERR, { s with cowBrdInserted := false, cowBrdFd := none, kernel })
      | some kernel => (SUCCESS, { s with cowBrdInserted := true, cowBrdFd := none, kernel })

def closeCowBrd (s : Tester) : Tester :=
  match s.cowBrdFd with
  | none => s
  | some fd => { s with cowBrdInserted := false, cowBrdFd := none, kernel := s.kernel.close fd }

def removeCowBrd (x : Outcomes) (s : Tester) : Int × Tester :=
  if !s.cowBrdInserted then (SUCCESS, s)
  else
    let s := s.closeCowBrd
    match s.kernel.rmmod .cowBrd (x.rmmod .cowBrd) with
    | none => (WRAPPER_REMOVE_ERR, { s with cowBrdInserted := true })
    | some kernel => (SUCCESS, { s with kernel })

def insertWrapper (x : Outcomes) (s : Tester) : Int × Tester :=
  if s.wrapperInserted then (SUCCESS, { s with wrapperInserted := true })
  else
    match s.kernel.insmod .wrapper x.insmod with
    | none => (WRAPPER_INSERT_ERR, { s with wrapperInserted := false })
    | some kernel => (SUCCESS, { s with wrapperInserted := true, kernel })

def removeWrapper (x : Outcomes) (s : Tester) : Int × Tester :=
  if !s.wrapperInserted then (SUCCESS, { s with wrapperInserted := false })
  else
    match s.kernel.rmmod .wrapper (x.rmmod .wrapper) with
    | none => (WRAPPER_REMOVE_ERR, { s with wrapperInserted := true })
    | some kernel => (SUCCESS, { s with wrapperInserted := false, kernel })

section Cases

variable (x : Outcomes) (s : Tester)

theorem mountDevice_cases (dev : String) :
    (s.kernel.mount dev x.mount = none ∧
      s.mountDevice dev x = (MNT_MNT_ERR, { s with diskMounted := false })) ∨
    ((s.kernel.mount dev x.mount).isSome ∧
      s.mountDevice dev x = (SUCCESS, { s with
        diskMounted := true, kernel := { s.kernel with mounts := dev :: s.kernel.mounts } })) := by
  cases hmount : s.kernel.mount dev x.mount with
  | none => exact .inl ⟨rfl, by rw [mountDevice, hmount]⟩
  | some k =>
    refine .inr ⟨rfl, ?_⟩
    rw [mountDevice, hmount, ← (Kernel.mount_eq_some.mp hmount).2]

theorem umountDevice_cases :
    (s.diskMounted = false ∧ s.umountDevice x = (SUCCESS, s)) ∨
    (s.diskMounted = true ∧ s.kernel.umount x.umount = none ∧
      s.umountDevice x = (MNT_UMNT_ERR, s)) ∨
    (s.diskMounted = true ∧ (s.kernel.umount x.umount).isSome ∧
      s.umountDevice x = (SUCCESS, { s with
        diskMounted := false, kernel := { s.kernel with mounts := s.kernel.mounts.tail } })) := by
  cases hmounted : s.diskMounted with
  | false =>
    refine .inl ⟨rfl, ?_⟩
    simp only [umountDevice, hmounted, Bool.not_false, if_true]
    rw [← hmounted]
  | true =>
    cases humount : s.kernel.umount x.umount with
    | none =>
      refine .inr (.inl ⟨rfl, rfl, ?_⟩)
      simp only [umountDevice, hmounted, humount, Bool.not_true, Bool.false_eq_true, if_false]
      rw [← hmounted]
    | some k =>
      refine .inr (.inr ⟨rfl, rfl, ?_⟩)
      simp only [umountDevice, hmounted, humount, Bool.not_true, Bool.false_eq_true, if_false]
      rw [(Kernel.umount_eq_some.mp humount).2]

theorem insmodCowBrd_cases :
    (s.cowBrdFd = none ∧ s.insmodCowBrd x = none) ∨
    (s.cowBrdFd = none ∧ s.kernel.loaded .cowBrd = false ∧ s.insmodCowBrd x =
      some { s.kernel with loaded := Function.update s.kernel.loaded .cowBrd true }) ∨
    (s.cowBrdFd.isSome ∧ s.insmodCowBrd x = some s.kernel) := by
  unfold insmodCowBrd
  split_ifs with hnone
  · cases hins : s.kernel.insmod .cowBrd x.insmod with
    | none => exact .inl ⟨hnone, rfl⟩
    | some k =>
      obtain ⟨⟨-, habsent⟩, hk⟩ := Kernel.insmod_eq_some.mp hins
      exact .inr (.inl ⟨hnone, habsent, congrArg some hk⟩)
  · exact .inr (.inr ⟨Option.isSome_iff_ne_none.mpr hnone, rfl⟩)

theorem insertCowBrd_cases {k : Kernel} (hk : s.insmodCowBrd x = some k) :
    (∃ fd, (k.openFile COW_BRD_PATH x.opened).isSome ∧
      s.insertCowBrd x = (SUCCESS, { s with
        cowBrdInserted := true, cowBrdFd := some fd,
        kernel := { k with files := (fd, COW_BRD_PATH) :: k.files } })) ∨
    (k.openFile COW_BRD_PATH x.opened = none ∧ k.rmmod .cowBrd (x.rmmod .cowBrd) = none ∧
      s.insertCowBrd x = (WRAPPER_REMOVE_ERR, { s with
        cowBrdInserted := false, cowBrdFd := none, kernel := k })) ∨
    (k.openFile COW_BRD_PATH x.opened = none ∧ (k.rmmod .cowBrd (x.rmmod .cowBrd)).isSome ∧
      s.insertCowBrd x = (SUCCESS, { s with
        cowBrdInserted := true, cowBrdFd := none,
        kernel := { k with loaded := Function.update k.loaded .cowBrd false } })) := by
  simp only [insertCowBrd, hk]
  cases hopen : k.openFile COW_BRD_PATH x.opened with
  | some p =>
    obtain ⟨fd, k'⟩ := p
    refine .inl ⟨fd, rfl, ?_⟩
    rw [Kernel.openFile_eq_some hopen]
  | none =>
    cases hrm : k.rmmod .cowBrd (x.rmmod .cowBrd) with
    | none => exact .inr (.inl ⟨rfl, rfl, rfl⟩)
    | some k' =>
      refine .inr (.inr ⟨rfl, rfl, ?_⟩)
      rw [(Kernel.rmmod_eq_some.mp hrm).2]

theorem removeCowBrd_cases :
    (s.cowBrdInserted = false ∧ s.removeCowBrd x = (SUCCESS, s)) ∨
    (s.cowBrdInserted = true ∧ s.closeCowBrd.kernel.rmmod .cowBrd (x.rmmod .cowBrd) = none ∧
      s.removeCowBrd x = (WRAPPER_REMOVE_ERR, { s.closeCowBrd with cowBrdInserted := true })) ∨
    (s.cowBrdInserted = true ∧
      (s.closeCowBrd.kernel.rmmod .cowBrd (x.rmmod .cowBrd)).isSome ∧
      s.removeCowBrd x = (SUCCESS, { s.closeCowBrd with kernel := { s.closeCowBrd.kernel with
        loaded := Function.update s.closeCowBrd.kernel.loaded .cowBrd false } })) := by
  cases hinserted : s.cowBrdInserted with
  | false => exact .inl ⟨rfl, by simp [removeCowBrd, hinserted]⟩
  | true =>
    cases hrm : s.closeCowBrd.kernel.rmmod .cowBrd (x.rmmod .cowBrd) with
    | none => exact .inr (.inl ⟨rfl, rfl, by simp [removeCowBrd, hinserted, hrm]⟩)
    | some k =>
      refine .inr (.inr ⟨rfl, rfl, ?_⟩)
      simp [removeCowBrd, hinserted, hrm, (Kernel.rmmod_eq_some.mp hrm).2]

theorem insertWrapper_cases :
    (s.wrapperInserted = true ∧ s.insertWrapper x = (SUCCESS, s)) ∨
    (s.wrapperInserted = false ∧ s.insertWrapper x = (WRAPPER_INSERT_ERR, s)) ∨
    (s.wrapperInserted = false ∧
      s.insertWrapper x = (SUCCESS, { s with
        wrapperInserted := true,
        kernel := { s.kernel with loaded := Function.update s.kernel.loaded .wrapper true } })) := by
  cases hinserted : s.wrapperInserted with
  | true =>
    refine .inl ⟨rfl, ?_⟩
    simp only [insertWrapper, hinserted, if_true]
    rw [← hinserted]
  | false =>
    cases hins : s.kernel.insmod .wrapper x.insmod with
    | none =>
      refine .inr (.inl ⟨rfl, ?_⟩)
      simp only [insertWrapper, hinserted, hins, Bool.false_eq_true, if_false]
      rw [← hinserted]
    | some k =>
      refine .inr (.inr ⟨rfl, ?_⟩)
      simp [insertWrapper, hinserted, hins, (Kernel.insmod_eq_some.mp hins).2]

theorem removeWrapper_cases :
    (s.wrapperInserted = false ∧ s.removeWrapper x = (SUCCESS, s)) ∨
    (s.wrapperInserted = true ∧ s.kernel.rmmod .wrapper (x.rmmod .wrapper) = none ∧
      s.removeWrapper x = (WRAPPER_REMOVE_ERR, s)) ∨
    (s.wrapperInserted = true ∧ (s.kernel.rmmod .wrapper (x.rmmod .wrapper)).isSome ∧
      s.removeWrapper x = (SUCCESS, { s with
        wrapperInserted := false,
        kernel := { s.kernel with loaded := Function.update s.kernel.loaded .wrapper false } })) := by
  cases hinserted : s.wrapperInserted with
  | false =>
    refine .inl ⟨rfl, ?_⟩
    simp only [removeWrapper, hinserted, Bool.not_false, if_true]
    rw [← hinserted]
  | true =>
    cases hrm : s.kernel.rmmod .wrapper (x.rmmod .wrapper) with
    | none =>
      refine .inr (.inl ⟨rfl, rfl, ?_⟩)
      simp only [removeWrapper, hinserted, hrm, Bool.not_true, Bool.false_eq_true, if_false]
      rw [← hinserted]
    | some k =>
      refine .inr (.inr ⟨rfl, rfl, ?_⟩)
      simp [removeWrapper, hinserted, hrm, (Kernel.rmmod_eq_some.mp hrm).2]

theorem mountDevice_deviceMount (dev : String) :
    (s.mountDevice dev x).2.deviceMount = s.deviceMount := by
  rcases s.mountDevice_cases x dev with ⟨-, hcall⟩ | ⟨-, hcall⟩ <;> rw [hcall]

/-- Before `rmmod` the descriptor is closed, and nothing else has changed. -/
theorem closeCowBrd_spec :
    s.closeCowBrd.cowBrdFd = none ∧ s.closeCowBrd.kernel.loaded = s.kernel.loaded ∧
      s.closeCowBrd.kernel.mounts = s.kernel.mounts ∧
      s.closeCowBrd.wrapperInserted = s.wrapperInserted ∧
      s.closeCowBrd.diskMounted = s.diskMounted ∧ s.closeCowBrd.ioctlFd = s.ioctlFd := by
  cases hfd : s.cowBrdFd <;> simp [closeCowBrd, hfd, Kernel.close]

end Cases

end Tester

def Tester.FdValid (s : Tester) : Prop :=
  ∃ fd, s.cowBrdFd = some fd ∧ (fd, COW_BRD_PATH) ∈ s.kernel.files

/-- The flags say what is loaded and mounted, and the descriptor is there exactly if
cow_brd is. -/
structure Truthful (s : Tester) : Prop where
  cowBrd : s.cowBrdInserted = s.kernel.loaded .cowBrd
  wrapper : s.wrapperInserted = s.kernel.loaded .wrapper
  mounted : s.diskMounted = !s.kernel.mounts.isEmpty
  fd : s.FdValid ↔ s.kernel.loaded .cowBrd = true

inductive Call where
  | insertCowBrd
  | removeCowBrd
  | insertWrapper
  | removeWrapper
  | mountDeviceRaw
  | mountWrapperDevice
  | umountDevice
deriving DecidableEq, Repr

namespace Call

def run (x : Outcomes) (s : Tester) : Call → Int × Tester
  | insertCowBrd => s.insertCowBrd x
  | removeCowBrd => s.removeCowBrd x
  | insertWrapper => s.insertWrapper x
  | removeWrapper => s.removeWrapper x
  | mountDeviceRaw => s.mountDeviceRaw x
  | mountWrapperDevice => s.mountWrapperDevice x
  | umountDevice => s.umountDevice x

def Reached (s : Tester) : Call → Prop
  | insertCowBrd => s.kernel.loaded .cowBrd = true
  | removeCowBrd => s.kernel.loaded .cowBrd = false
  | insertWrapper => s.kernel.loaded .wrapper = true
  | removeWrapper => s.kernel.loaded .wrapper = false
  | mountDeviceRaw => s.kernel.mounts.head? = some s.deviceMount
  | mountWrapperDevice => s.kernel.mounts.head? = some FULL_WRAPPER_PATH
  | umountDevice => s.kernel.mounts = []

end Call

def Tester.after (s : Tester) (e : Call × Outcomes) : Tester := (e.1.run e.2 s).2

/-- After the call the flags are true, and it has succeeded only if it has done its work. -/
def Honest (s : Tester) (e : Call × Outcomes) : Prop :=
  Truthful (s.after e) ∧ ((e.1.run e.2 s).1 = SUCCESS → e.1.Reached (s.after e))

/-- Where cow_brd gets loaded its disk can be opened, it can be unloaded when it is to be
removed, no mount fails over a file system that is mounted, and no file system comes to
light when another is unmounted. -/
def Guarded (s : Tester) (e : Call × Outcomes) : Prop :=
  match e.1 with
  | .insertCowBrd => ∀ k, s.insmodCowBrd e.2 = some k → (k.openFile COW_BRD_PATH e.2.opened).isSome
  | .removeCowBrd => s.cowBrdInserted = true →
    (s.closeCowBrd.kernel.rmmod .cowBrd (e.2.rmmod .cowBrd)).isSome
  | .mountDeviceRaw => s.deviceMount ≠ "" → s.diskMounted = true →
    (s.kernel.mount s.deviceMount e.2.mount).isSome
  | .mountWrapperDevice => s.diskMounted = true →
    (s.kernel.mount FULL_WRAPPER_PATH e.2.mount).isSome
  | .umountDevice => ∀ k, s.kernel.umount e.2.umount = some k → k.mounts = []
  | _ => True

/-- `cow_brd_fd` was opened and not closed again. -/
def Tester.HasFd (s : Tester) : Prop :=
  ∀ fd, s.cowBrdFd = some fd → (fd, COW_BRD_PATH) ∈ s.kernel.files

section Calls

variable {s : Tester} {x : Outcomes}

theorem Tester.HasFd.fdValid (h : s.HasFd) : s.FdValid ↔ s.cowBrdFd.isSome := by
  rw [Option.isSome_iff_exists]
  exact exists_congr fun fd => and_iff_left_of_imp (h fd)

theorem Truthful.cowBrdFd (h : Truthful s) (hfd : s.HasFd) :
    s.cowBrdFd.isSome = s.kernel.loaded .cowBrd :=
  Bool.eq_iff_iff.mpr (hfd.fdValid.symm.trans h.fd)

theorem Truthful.failed (h : Truthful s) {res : Int} (hres : res ≠ SUCCESS) {P : Prop} :
    Truthful s ∧ (res = SUCCESS → P) := ⟨h, fun heq => absurd heq hres⟩

/-- Once the first part of `insert_cow_brd` is done, cow_brd is loaded. -/
theorem Truthful.insmodCowBrd (h : Truthful s) (hfd : s.HasFd) {k : Kernel}
    (hk : s.insmodCowBrd x = some k) :
    k = { s.kernel with loaded := Function.update s.kernel.loaded .cowBrd true } := by
  rcases s.insmodCowBrd_cases x with ⟨-, hins⟩ | ⟨-, -, hins⟩ | ⟨hsome, hins⟩
  · rw [hins] at hk
    cases hk
  · exact Option.some.inj (hk.symm.trans hins)
  · have hloaded : s.kernel.loaded .cowBrd = true := (h.cowBrdFd hfd).symm.trans hsome
    rw [← Option.some.inj (hins.symm.trans hk), ← hloaded, Function.update_eq_self]

theorem insertCowBrd_honest_iff (h : Truthful s) (hfd : s.HasFd) :
    Honest s (.insertCowBrd, x) ↔ Guarded s (.insertCowBrd, x) := by
  simp only [Honest, Guarded, Tester.after, Call.run, Call.Reached]
  cases hins : s.insmodCowBrd x with
  | none =>
    -- the command was issued because there is no descriptor
    have hnone : s.cowBrdFd = none := by
      rcases s.insmodCowBrd_cases x with ⟨hnone, -⟩ | ⟨hnone, -⟩ | ⟨-, hins'⟩
      · exact hnone
      · exact hnone
      · rw [hins] at hins'
        cases hins'
    have hcall : s.insertCowBrd x = (WRAPPER_INSERT_ERR, s) := by
      simp only [Tester.insertCowBrd, hins]
      rw [← hnone]
    rw [hcall]
    simp only [reduceCtorEq, false_implies, implies_true, iff_true]
    exact h.failed (by decide)
  | some k =>
    have hk := h.insmodCowBrd hfd hins
    simp only [Option.some.injEq, forall_eq']
    rcases s.insertCowBrd_cases x hins with
      ⟨fd, hopen, hcall⟩ | ⟨hopen, -, hcall⟩ | ⟨hopen, -, hcall⟩
    · rw [hcall, hk]
      simp only [← hk, hopen, iff_true]
      refine ⟨⟨?_, ?_, h.mounted, ?_⟩, fun _ => ?_⟩
      · simp
      · simpa using h.wrapper
      · simp [Tester.FdValid]
      · simp
    · rw [hcall, hopen]
      simp only [Option.isSome_none, Bool.false_eq_true, iff_false]
      rintro ⟨htrue, -⟩
      simpa [hk] using htrue.cowBrd
    · rw [hcall, hopen]
      simp only [Option.isSome_none, Bool.false_eq_true, iff_false]
      rintro ⟨htrue, -⟩
      simpa using htrue.cowBrd

theorem removeCowBrd_honest_iff (h : Truthful s) (hfd : s.HasFd) :
    Honest s (.removeCowBrd, x) ↔ Guarded s (.removeCowBrd, x) := by
  simp only [Honest, Guarded, Tester.after, Call.run, Call.Reached]
  obtain ⟨hnone, hloaded, hmounts, hwrapper, hmounted, -⟩ := s.closeCowBrd_spec
  have hinvalid : ∀ t : Tester, t.cowBrdFd = none → ¬ t.FdValid := by
    rintro t ht ⟨fd, hfd', -⟩
    rw [ht] at hfd'
    cases hfd'
  rcases s.removeCowBrd_cases x with
    ⟨hinserted, hcall⟩ | ⟨hinserted, hrm, hcall⟩ | ⟨hinserted, hrm, hcall⟩
  · simp only [hcall, hinserted, Bool.false_eq_true, false_implies, iff_true]
    exact ⟨h, fun _ => h.cowBrd.symm.trans hinserted⟩
  · rw [hcall, hrm]
    simp only [Option.isSome_none, Bool.false_eq_true, hinserted, true_implies, iff_false]
    rintro ⟨htrue, -⟩
    -- the module is still there and the descriptor is not
    exact hinvalid _ hnone (htrue.fd.mpr (htrue.cowBrd.symm.trans rfl))
  · rw [hcall]
    simp only [hrm, implies_true, iff_true]
    obtain ⟨fd, hsome⟩ := Option.isSome_iff_exists.mp
      ((h.cowBrdFd hfd).trans (h.cowBrd.symm.trans hinserted))
    refine ⟨⟨?_, ?_, ?_, ?_⟩, fun _ => ?_⟩
    · simp [Tester.closeCowBrd, hsome]
    · simpa [hwrapper, hloaded] using h.wrapper
    · simpa [hmounted, hmounts] using h.mounted
    · exact iff_of_false (hinvalid _ hnone) (by simp)
    · simp

theorem wrapper_honest (h : Truthful s) :
    Honest s (.insertWrapper, x) ∧ Honest s (.removeWrapper, x) := by
  simp only [Honest, Tester.after, Call.run, Call.Reached]
  constructor
  · rcases s.insertWrapper_cases x with ⟨hinserted, hcall⟩ | ⟨-, hcall⟩ | ⟨-, hcall⟩
    · rw [hcall]
      exact ⟨h, fun _ => h.wrapper.symm.trans hinserted⟩
    · rw [hcall]
      exact h.failed (show WRAPPER_INSERT_ERR ≠ SUCCESS by decide)
    · rw [hcall]
      exact ⟨⟨by simpa using h.cowBrd, by simp, h.mounted, by simpa [Tester.FdValid] using h.fd⟩,
        fun _ => by simp⟩
  · rcases s.removeWrapper_cases x with ⟨hinserted, hcall⟩ | ⟨-, -, hcall⟩ | ⟨-, -, hcall⟩
    · rw [hcall]
      exact ⟨h, fun _ => h.wrapper.symm.trans hinserted⟩
    · rw [hcall]
      exact h.failed (show WRAPPER_REMOVE_ERR ≠ SUCCESS by decide)
    · rw [hcall]
      exact ⟨⟨by simpa using h.cowBrd, by simp, h.mounted, by simpa [Tester.FdValid] using h.fd⟩,
        fun _ => by simp⟩

/-- A mount is honest unless it fails over a file system that is mounted. -/
theorem mountDevice_honest_iff (h : Truthful s) (dev : String) :
    (Truthful (s.mountDevice dev x).2 ∧ ((s.mountDevice dev x).1 = SUCCESS →
      (s.mountDevice dev x).2.kernel.mounts.head? = some dev)) ↔
    (s.diskMounted = true → (s.kernel.mount dev x.mount).isSome) := by
  rcases s.mountDevice_cases x dev with ⟨hmount, hcall⟩ | ⟨hmount, hcall⟩
  · rw [hcall, hmount]
    simp only [Option.isSome_none, Bool.false_eq_true, imp_false]
    constructor
    · rintro ⟨htrue, -⟩ hmounted
      have hempty := h.mounted
      rw [hmounted] at hempty
      cases htrue.mounted.trans hempty.symm
    · intro hmounted
      have hsame : { s with diskMounted := false } = s := by
        rw [← Bool.eq_false_iff.mpr hmounted]
      rw [hsame]
      exact h.failed (by decide)
  · rw [hcall]
    simp only [hmount, implies_true, iff_true]
    exact ⟨⟨h.cowBrd, h.wrapper, rfl, h.fd⟩, fun _ => rfl⟩

theorem umountDevice_honest_iff (h : Truthful s) :
    Honest s (.umountDevice, x) ↔ Guarded s (.umountDevice, x) := by
  simp only [Honest, Guarded, Tester.after, Call.run, Call.Reached]
  rcases s.umountDevice_cases x with ⟨hmounted, hcall⟩ | ⟨-, humount, hcall⟩ | ⟨-, humount, hcall⟩
  · have hempty : s.kernel.mounts = [] := by
      simpa [hmounted] using h.mounted
    rw [hcall]
    refine iff_of_true ⟨h, fun _ => hempty⟩ fun k hk => ?_
    exact absurd hempty (Kernel.umount_eq_some.mp hk).1.2
  · rw [hcall, humount]
    exact iff_of_true (h.failed (show MNT_UMNT_ERR ≠ SUCCESS by decide)) nofun
  · obtain ⟨k, hk⟩ := Option.isSome_iff_exists.mp humount
    have hmounts := congrArg Kernel.mounts (Kernel.umount_eq_some.mp hk).2
    rw [hcall, hk]
    simp only [Option.some.injEq, forall_eq', hmounts]
    constructor
    · exact fun ⟨_, hreached⟩ => hreached trivial
    · intro htail
      exact ⟨⟨h.cowBrd, h.wrapper, by simp [htail], h.fd⟩, fun _ => htail⟩

/-- A call is honest exactly if it is guarded, after honest calls. -/
theorem honest_iff_guarded (h : Truthful s) (hfd : s.HasFd) (e : Call × Outcomes) :
    Honest s e ↔ Guarded s e := by
  obtain ⟨call, x⟩ := e
  cases call with
  | insertCowBrd => exact insertCowBrd_honest_iff h hfd
  | removeCowBrd => exact removeCowBrd_honest_iff h hfd
  | insertWrapper => exact iff_of_true (wrapper_honest h).1 trivial
  | removeWrapper => exact iff_of_true (wrapper_honest h).2 trivial
  | mountDeviceRaw =>
    simp only [Honest, Guarded, Tester.after, Call.run, Call.Reached, Tester.mountDeviceRaw]
    split_ifs with hdev
    · exact iff_of_true (h.failed (show MNT_BAD_DEV_ERR ≠ SUCCESS by decide))
        fun hne => absurd hdev hne
    · have hiff := mountDevice_honest_iff (x := x) h s.deviceMount
      rw [s.mountDevice_deviceMount x s.deviceMount]
      simpa only [ne_eq, hdev, not_false_eq_true, true_implies] using hiff
  | mountWrapperDevice => exact mountDevice_honest_iff h FULL_WRAPPER_PATH
  | umountDevice => exact umountDevice_honest_iff h

end Calls

section HasFd

variable {s : Tester} {x : Outcomes}

theorem Tester.HasFd.of_eq_none (h : s.cowBrdFd = none) : s.HasFd := by
  intro fd hfd
  rw [h] at hfd
  cases hfd

theorem Tester.HasFd.insertCowBrd (s : Tester) (x : Outcomes) : (s.insertCowBrd x).2.HasFd := by
  cases hins : s.insmodCowBrd x with
  | none =>
    simp only [Tester.insertCowBrd, hins]
    exact .of_eq_none rfl
  | some k =>
    rcases s.insertCowBrd_cases x hins with
      ⟨fd, -, hcall⟩ | ⟨-, -, hcall⟩ | ⟨-, -, hcall⟩ <;> rw [hcall]
    · intro fd' hfd'
      obtain rfl := Option.some.inj hfd'
      exact List.mem_cons_self
    · exact .of_eq_none rfl
    · exact .of_eq_none rfl

theorem Tester.HasFd.removeCowBrd (h : s.HasFd) : (s.removeCowBrd x).2.HasFd := by
  obtain ⟨hclosed, -⟩ := s.closeCowBrd_spec
  rcases s.removeCowBrd_cases x with ⟨-, hcall⟩ | ⟨-, -, hcall⟩ | ⟨-, -, hcall⟩ <;> rw [hcall]
  · exact h
  · exact .of_eq_none hclosed
  · exact .of_eq_none hclosed

theorem Tester.HasFd.mountDevice (h : s.HasFd) (dev : String) : (s.mountDevice dev x).2.HasFd := by
  rcases s.mountDevice_cases x dev with ⟨-, hcall⟩ | ⟨-, hcall⟩ <;> rw [hcall] <;> exact h

/-- A call leaves no descriptor that is not open. -/
theorem Tester.HasFd.after (h : s.HasFd) (e : Call × Outcomes) : (s.after e).HasFd := by
  obtain ⟨call, x⟩ := e
  cases call with
  | insertCowBrd => exact .insertCowBrd s x
  | removeCowBrd => exact h.removeCowBrd
  | insertWrapper =>
    simp only [Tester.after, Call.run]
    rcases s.insertWrapper_cases x with ⟨-, hcall⟩ | ⟨-, hcall⟩ | ⟨-, hcall⟩ <;> rw [hcall] <;>
      exact h
  | removeWrapper =>
    simp only [Tester.after, Call.run]
    rcases s.removeWrapper_cases x with ⟨-, hcall⟩ | ⟨-, -, hcall⟩ | ⟨-, -, hcall⟩ <;>
      rw [hcall] <;> exact h
  | mountDeviceRaw =>
    simp only [Tester.after, Call.run, Tester.mountDeviceRaw]
    split_ifs
    · exact h
    · exact h.mountDevice _
  | mountWrapperDevice => exact h.mountDevice _
  | umountDevice =>
    simp only [Tester.after, Call.run]
    rcases s.umountDevice_cases x with ⟨-, hcall⟩ | ⟨-, -, hcall⟩ | ⟨-, -, hcall⟩ <;>
      rw [hcall] <;> exact h

end HasFd

def TellsTheTruth (s : Tester) (es : List (Call × Outcomes)) : Prop :=
  Transition.Always Tester.after Honest s es

def Tester.new (deviceMount : String) : Tester := { deviceMount }

theorem Tester.truthful_new (dev : String) : Truthful (Tester.new dev) :=
  ⟨rfl, rfl, rfl, by simp [Tester.FdValid, Tester.new]⟩

theorem tellsTheTruth_iff (dev : String) (es : List (Call × Outcomes)) :
    TellsTheTruth (Tester.new dev) es ↔
      Transition.Always Tester.after Guarded (Tester.new dev) es := by
  refine Transition.always_iff (I := fun s => Truthful s ∧ s.HasFd) ?_ ?_
    ⟨Tester.truthful_new dev, nofun⟩ es
  · exact fun s e ⟨htrue, hfd⟩ => honest_iff_guarded htrue hfd e
  · exact fun s e ⟨_, hfd⟩ hhonest => ⟨hhonest.1, hfd.after e⟩

def failedOpen : Outcomes := ⟨true, fun _ => true, none, true, true⟩

theorem not_tellsTheTruth_failedOpen : ¬ ∀ dev es, TellsTheTruth (Tester.new dev) es := by
  intro h
  obtain ⟨⟨htrue, -⟩, -⟩ := h COW_BRD_PATH [(.insertCowBrd, failedOpen)]
  exact absurd htrue.cowBrd (by decide)

end CrashMonkey.Resources
