import CrashMonkey.Harness.Contamination
import CrashMonkey.Harness.Flags

namespace CrashMonkey.Resources

def WRAPPER_OPEN_DEV_ERR : Int := -18

structure RoundCalls where
  outcomes : Outcomes
  restoreOk : Bool
  writeOk : Bool
  fsckOk : Bool

namespace Tester

def getWrapperIoctl (x : Outcomes) (s : Tester) : Int × Tester :=
  match s.kernel.openFile FULL_WRAPPER_PATH x.opened with
  | none => (WRAPPER_OPEN_DEV_ERR, { s with ioctlFd := none })
  | some (fd, kernel) => (SUCCESS, { s with ioctlFd := some fd, kernel })

def putWrapperIoctl (s : Tester) : Tester :=
  match s.ioctlFd with
  | none => s
  | some fd => { s with ioctlFd := none, kernel := s.kernel.close fd }

def testRound (s : Tester) (x : RoundCalls) : Tester :=
  match s.kernel.openFile SNAPSHOT_PATH x.outcomes.opened with
  | none => s
  | some (fd, kernel) =>
    -- `cow_brd_snapshot_fd` stays open
    if !x.restoreOk then { s with kernel }
    else
      let s := { s with kernel := kernel.close fd }
      if !(x.writeOk && x.fsckOk) then s
      else
        let (res, s) := s.mountDevice SNAPSHOT_PATH x.outcomes
        if res ≠ SUCCESS then s else (s.umountDevice x.outcomes).2

def cleanupHarness (x : Outcomes) (s : Tester) : Tester :=
  let (res, s) := s.umountDevice x
  if res ≠ SUCCESS then s
  else
    let (res, s) := s.removeWrapper x
    if res ≠ SUCCESS then s else (s.removeCowBrd x).2

end Tester

def Clean (s : Tester) : Prop := s.kernel.mounts = [] ∧ ∀ m, s.kernel.loaded m = false

/-- Each umount and rmmod succeeds that can. -/
def Outcomes.Reliable (x : Outcomes) : Prop := x.umount = true ∧ ∀ m, x.rmmod m = true

/-- A round that gets the snapshot restored once it is open, and mounts it only if nothing
is mounted. -/
def CarefulRound (s : Tester) (x : RoundCalls) : Prop :=
  (s.kernel.openFile SNAPSHOT_PATH x.outcomes.opened).isSome →
    x.restoreOk = true ∧ (x.writeOk = true → x.fsckOk = true → s.diskMounted = false)

/-- What main holds: the descriptor of cow_brd or a mount at most, and `ioctl_fd`
exactly. -/
structure Holding where
  cowBrd : Bool
  mounted : Bool
  ioctl : Bool
deriving DecidableEq, Repr

/-- Every module, mount and descriptor is noted in a field, and none that main does not
hold. -/
structure Tidy (u : Holding) (s : Tester) : Prop where
  wrapper : s.wrapperInserted = s.kernel.loaded .wrapper
  mounts : s.kernel.mounts.length = if s.diskMounted then 1 else 0
  cowBrd : s.kernel.loaded .cowBrd = true → s.cowBrdInserted = true
  cowBrdFd : s.cowBrdFd.isSome → s.cowBrdInserted = true ∧ u.cowBrd = true
  files : ∀ f ∈ s.kernel.files, (s.cowBrdFd = some f.1 ∧ f.2 = COW_BRD_PATH) ∨
    (s.ioctlFd = some f.1 ∧ f.2 = FULL_WRAPPER_PATH)
  mounted : s.diskMounted = true → u.mounted = true
  ioctl : s.ioctlFd.isSome = u.ioctl

/-- After a call that fails the tester holds what it did before. -/
def Leaves (u u' : Holding) (r : Int × Tester) : Prop :=
  (r.1 = SUCCESS → Tidy u' r.2) ∧ (r.1 ≠ SUCCESS → Tidy u r.2)

section Operations

variable {u : Holding} {s : Tester} {x : Outcomes}

theorem Tidy.succeed (u : Holding) {u' : Holding} (h : Tidy u' s) : Leaves u u' (SUCCESS, s) :=
  ⟨fun _ => h, fun hne => absurd rfl hne⟩

theorem Tidy.fail {u' : Holding} {res : Int} (h : Tidy u s) (hres : res ≠ SUCCESS) :
    Leaves u u' (res, s) := ⟨fun heq => absurd heq hres, fun _ => h⟩

theorem Tidy.mounts_eq_nil (h : Tidy u s) (hmounted : s.diskMounted = false) :
    s.kernel.mounts = [] := by
  have hlen := h.mounts
  rw [hmounted] at hlen
  exact List.eq_nil_of_length_eq_zero hlen

theorem Tidy.ioctlFd_eq_none (h : Tidy u s) (hu : u.ioctl = false) : s.ioctlFd = none :=
  Option.not_isSome_iff_eq_none.mp (by simp [h.ioctl, hu])

theorem mountDevice_leaves (h : Tidy u s) (hfree : s.diskMounted = false) (dev : String) :
    Leaves u { u with mounted := true } (s.mountDevice dev x) := by
  rcases s.mountDevice_cases x dev with ⟨-, hcall⟩ | ⟨-, hcall⟩ <;> rw [hcall]
  · refine Tidy.fail ?_ (by decide)
    rw [← hfree]
    exact h
  · refine Tidy.succeed u ⟨h.wrapper, ?_, h.cowBrd, h.cowBrdFd, h.files, fun _ => rfl, h.ioctl⟩
    simp [h.mounts_eq_nil hfree]

theorem umountDevice_leaves (h : Tidy u s) :
    Leaves u { u with mounted := false } (s.umountDevice x) := by
  rcases s.umountDevice_cases x with ⟨hmounted, hcall⟩ | ⟨-, -, hcall⟩ | ⟨hmounted, -, hcall⟩ <;>
    rw [hcall]
  · exact Tidy.succeed u ⟨h.wrapper, h.mounts, h.cowBrd, h.cowBrdFd, h.files,
      fun hmounted' => absurd (hmounted.symm.trans hmounted') (by decide), h.ioctl⟩
  · exact Tidy.fail h (by decide)
  · refine Tidy.succeed u ⟨h.wrapper, ?_, h.cowBrd, h.cowBrdFd, h.files, nofun, h.ioctl⟩
    simp [h.mounts, hmounted]

theorem insertWrapper_leaves (h : Tidy u s) : Leaves u u (s.insertWrapper x) := by
  rcases s.insertWrapper_cases x with ⟨-, hcall⟩ | ⟨-, hcall⟩ | ⟨-, hcall⟩ <;> rw [hcall]
  · exact Tidy.succeed u h
  · exact Tidy.fail h (by decide)
  · exact Tidy.succeed u
      ⟨by simp, h.mounts, by simpa using h.cowBrd, h.cowBrdFd, h.files, h.mounted, h.ioctl⟩

theorem removeWrapper_leaves (h : Tidy u s) : Leaves u u (s.removeWrapper x) := by
  rcases s.removeWrapper_cases x with ⟨-, hcall⟩ | ⟨-, -, hcall⟩ | ⟨-, -, hcall⟩ <;> rw [hcall]
  · exact Tidy.succeed u h
  · exact Tidy.fail h (by decide)
  · exact Tidy.succeed u
      ⟨by simp, h.mounts, by simpa using h.cowBrd, h.cowBrdFd, h.files, h.mounted, h.ioctl⟩

theorem insertCowBrd_tidy (h : Tidy u s) (hu : u.cowBrd = false)
    (hres : (s.insertCowBrd x).1 = SUCCESS) :
    Tidy { u with cowBrd := true } (s.insertCowBrd x).2 := by
  have hnone : s.cowBrdFd = none := by
    by_contra hne
    have hcowBrd := (h.cowBrdFd (Option.isSome_iff_ne_none.mpr hne)).2
    rw [hu] at hcowBrd
    cases hcowBrd
  have hfiles : ∀ f ∈ s.kernel.files, s.ioctlFd = some f.1 ∧ f.2 = FULL_WRAPPER_PATH := by
    intro f hf
    rcases h.files f hf with ⟨hfd, -⟩ | hioctl
    · rw [hnone] at hfd
      cases hfd
    · exact hioctl
  rcases s.insmodCowBrd_cases x with ⟨-, hins⟩ | ⟨-, -, hins⟩ | ⟨hsome, -⟩
  · simp [Tester.insertCowBrd, hins, WRAPPER_INSERT_ERR, SUCCESS] at hres
  · rcases s.insertCowBrd_cases x hins with ⟨fd, -, hcall⟩ | ⟨-, -, hcall⟩ | ⟨-, -, hcall⟩
    · rw [hcall]
      refine ⟨by simpa using h.wrapper, h.mounts, fun _ => rfl, fun _ => ⟨rfl, rfl⟩, ?_, h.mounted,
        h.ioctl⟩
      intro f hf
      rcases List.mem_cons.mp hf with rfl | hf
      · exact .inl ⟨rfl, rfl⟩
      · exact .inr (hfiles f hf)
    · rw [hcall] at hres
      exact absurd hres (show WRAPPER_REMOVE_ERR ≠ SUCCESS by decide)
    · rw [hcall]
      exact ⟨by simpa using h.wrapper, h.mounts, fun _ => rfl, by simp,
        fun f hf => .inr (hfiles f hf), h.mounted, h.ioctl⟩
  · rw [hnone] at hsome
    cases hsome

theorem mem_files_closeCowBrd {f : ℕ × String} (hf : f ∈ s.closeCowBrd.kernel.files) :
    f ∈ s.kernel.files ∧ s.cowBrdFd ≠ some f.1 := by
  cases hfd : s.cowBrdFd with
  | none =>
    simp only [Tester.closeCowBrd, hfd] at hf
    exact ⟨hf, by simp⟩
  | some fd =>
    simp only [Tester.closeCowBrd, hfd, Kernel.close, List.mem_filter, bne_iff_ne] at hf
    exact ⟨hf.1, fun heq => hf.2 (Option.some.inj heq).symm⟩

/-- Once the descriptor is closed only the one of the wrapper is open. -/
theorem Tidy.closed_files (h : Tidy u s) {f : ℕ × String}
    (hf : f ∈ s.closeCowBrd.kernel.files) : s.ioctlFd = some f.1 ∧ f.2 = FULL_WRAPPER_PATH := by
  obtain ⟨hmem, hne⟩ := mem_files_closeCowBrd hf
  exact (h.files f hmem).resolve_left fun hfd => hne hfd.1

theorem removeCowBrd_leaves (h : Tidy u s) : Leaves u u (s.removeCowBrd x) := by
  obtain ⟨hnone, hloaded, hmounts, hwrapper, hmounted, hioctl⟩ := s.closeCowBrd_spec
  have hsome : ∀ {P : Prop}, s.closeCowBrd.cowBrdFd.isSome → P := by
    intro P hsome
    rw [hnone] at hsome
    cases hsome
  have hfiles : ∀ f ∈ s.closeCowBrd.kernel.files,
      (s.closeCowBrd.cowBrdFd = some f.1 ∧ f.2 = COW_BRD_PATH) ∨
        (s.closeCowBrd.ioctlFd = some f.1 ∧ f.2 = FULL_WRAPPER_PATH) := by
    intro f hf
    rw [hioctl]
    exact .inr (h.closed_files hf)
  rcases s.removeCowBrd_cases x with ⟨-, hcall⟩ | ⟨-, -, hcall⟩ | ⟨-, -, hcall⟩ <;> rw [hcall]
  · exact Tidy.succeed u h
  · refine Tidy.fail ⟨?_, ?_, fun _ => rfl, hsome, hfiles, ?_, ?_⟩ (by decide)
    · simpa [hwrapper, hloaded] using h.wrapper
    · simpa [hmounts, hmounted] using h.mounts
    · simpa [hmounted] using h.mounted
    · simpa [hioctl] using h.ioctl
  · refine Tidy.succeed u ⟨?_, ?_, by simp, hsome, hfiles, ?_, ?_⟩
    · simpa [hwrapper, hloaded] using h.wrapper
    · simpa [hmounts, hmounted] using h.mounts
    · simpa [hmounted] using h.mounted
    · simpa [hioctl] using h.ioctl

theorem getWrapperIoctl_leaves (h : Tidy u s) (hu : u.ioctl = false) :
    Leaves u { u with ioctl := true } (s.getWrapperIoctl x) := by
  have hnone := h.ioctlFd_eq_none hu
  rw [Tester.getWrapperIoctl]
  cases hopen : s.kernel.openFile FULL_WRAPPER_PATH x.opened with
  | none =>
    refine Tidy.fail ?_ (by decide)
    rw [← hnone]
    exact h
  | some p =>
    obtain ⟨fd, k⟩ := p
    rw [Kernel.openFile_eq_some hopen]
    refine Tidy.succeed u ⟨h.wrapper, h.mounts, h.cowBrd, h.cowBrdFd, ?_, h.mounted, rfl⟩
    intro f hf
    rcases List.mem_cons.mp hf with rfl | hf
    · exact .inr ⟨rfl, rfl⟩
    · rcases h.files f hf with hcowBrd | ⟨hioctl, -⟩
      · exact .inl hcowBrd
      · rw [hnone] at hioctl
        cases hioctl

theorem putWrapperIoctl_tidy (h : Tidy u s) : Tidy { u with ioctl := false } s.putWrapperIoctl := by
  rw [Tester.putWrapperIoctl]
  cases hfd : s.ioctlFd with
  | none => exact ⟨h.wrapper, h.mounts, h.cowBrd, h.cowBrdFd, h.files, h.mounted, by simp [hfd]⟩
  | some fd =>
    refine ⟨h.wrapper, h.mounts, h.cowBrd, h.cowBrdFd, ?_, h.mounted, rfl⟩
    intro f hf
    obtain ⟨hmem, hne⟩ := List.mem_filter.mp hf
    rcases h.files f hmem with hcowBrd | ⟨hioctl, -⟩
    · exact .inl hcowBrd
    · rw [hfd, Option.some.injEq] at hioctl
      simp [hioctl] at hne

end Operations

section Rounds

variable {u : Holding} {s : Tester}

theorem Leaves.tidy {u' : Holding} {r : Int × Tester} (h : Leaves u u' r)
    (hmono : Tidy u' r.2 → Tidy u r.2) : Tidy u r.2 := by
  by_cases hres : r.1 = SUCCESS
  · exact hmono (h.1 hres)
  · exact h.2 hres

theorem Tidy.of_unmounted (h : Tidy { u with mounted := false } s) : Tidy u s :=
  ⟨h.wrapper, h.mounts, h.cowBrd, h.cowBrdFd, h.files,
    fun hmounted => absurd (h.mounted hmounted) Bool.false_ne_true, h.ioctl⟩

theorem Tidy.to_mounted (h : Tidy u s) : Tidy { u with mounted := true } s :=
  ⟨h.wrapper, h.mounts, h.cowBrd, h.cowBrdFd, h.files, fun _ => rfl, h.ioctl⟩

theorem testRound_tidy {x : RoundCalls} (h : Tidy u s) (hu : u.mounted = true)
    (hx : CarefulRound s x) : Tidy u (s.testRound x) := by
  unfold Tester.testRound
  cases hopen : s.kernel.openFile SNAPSHOT_PATH x.outcomes.opened with
  | none => exact h
  | some p =>
    obtain ⟨fd, k⟩ := p
    obtain ⟨hrestore, hfree⟩ := hx (hopen ▸ rfl)
    obtain rfl := Kernel.openFile_eq_some hopen
    let t := { s with
      kernel := Kernel.close fd { s.kernel with files := (fd, SNAPSHOT_PATH) :: s.kernel.files } }
    have ht : Tidy u t := by
      refine ⟨h.wrapper, h.mounts, h.cowBrd, h.cowBrdFd, ?_, h.mounted, h.ioctl⟩
      intro f hf
      obtain ⟨hmem, hne⟩ := List.mem_filter.mp hf
      rcases List.mem_cons.mp hmem with rfl | hmem
      · simp at hne
      · exact h.files f hmem
    have hsame : ({ u with mounted := true } : Holding) = u := by rw [← hu]
    simp only [hrestore, Bool.not_true, Bool.false_eq_true, if_false]
    split_ifs with hskip hres
    · exact ht
    all_goals
      have hok : x.writeOk = true ∧ x.fsckOk = true := by simpa using hskip
      have hmount := mountDevice_leaves (x := x.outcomes) ht (hfree hok.1 hok.2) SNAPSHOT_PATH
      rw [hsame] at hmount
    · exact hmount.2 hres
    · exact (umountDevice_leaves (hmount.1 (not_not.mp hres))).tidy Tidy.of_unmounted

theorem testRounds_tidy {rounds : List RoundCalls} (h : Tidy u s) (hu : u.mounted = true)
    (hrounds : Transition.Always Tester.testRound CarefulRound s rounds) :
    Tidy u (rounds.foldl Tester.testRound s) :=
  hrounds.invariant (fun _ _ ht hx => testRound_tidy ht hu hx) h

end Rounds

section Mounts

variable {s : Tester} {a : TestState}

def SameMounts (s : Tester) (a : TestState) : Prop :=
  s.diskMounted = a.diskMounted ∧ s.kernel.mounts.length = a.mounts.length

theorem Kernel.exists_unused (k : Kernel) : ∃ fd, k.files.all (·.1 != fd) = true := by
  obtain ⟨fd, hfd⟩ := Infinite.exists_notMem_finset (k.files.map Prod.fst).toFinset
  refine ⟨fd, List.all_eq_true.mpr fun f hf => bne_iff_ne.mpr ?_⟩
  rintro rfl
  exact hfd (List.mem_toFinset.mpr (List.mem_map_of_mem hf))

theorem SameMounts.mountDevice (h : SameMounts s a) (hloaded : s.kernel.loaded .cowBrd = true)
    (x : Outcomes) (r : ℕ) :
    (s.mountDevice SNAPSHOT_PATH x).1 = (a.mountDevice r x.mount).1 ∧
      SameMounts (s.mountDevice SNAPSHOT_PATH x).2 (a.mountDevice r x.mount).2 := by
  have hpresent : s.kernel.present SNAPSHOT_PATH = true := by
    simp [Kernel.present, moduleOf, SNAPSHOT_PATH, FULL_WRAPPER_PATH, COW_BRD_PATH, hloaded]
  cases hok : x.mount with
  | false => simp [Tester.mountDevice, Kernel.mount, TestState.mountDevice, SameMounts, hok, h.2]
  | true =>
    simp [Tester.mountDevice, Kernel.mount, TestState.mountDevice, SameMounts, hok, hpresent, h.2]

theorem SameMounts.umountDevice (h : SameMounts s a) (hmounts : a.mounts ≠ []) (x : Outcomes) :
    SameMounts (s.umountDevice x).2 (a.umountDevice x.umount).2 := by
  obtain ⟨hmounted, hlen⟩ := h
  have hne : s.kernel.mounts ≠ [] := by
    rw [← List.length_pos_iff, hlen]
    exact List.length_pos_iff.mpr hmounts
  cases hm : a.diskMounted <;> cases hok : x.umount <;>
    simp [Tester.umountDevice, Kernel.umount, TestState.umountDevice, SameMounts, hmounted, hm,
      hok, hne, hlen]

theorem SameMounts.congr {b : TestState} (h : SameMounts s a)
    (hmounted : b.diskMounted = a.diskMounted) (hmounts : b.mounts = a.mounts) : SameMounts s b :=
  ⟨h.1.trans hmounted.symm, h.2.trans (congrArg List.length hmounts).symm⟩

/-- What a round does once the crash state is written. -/
theorem testCrashState_sameMounts {r : ℕ} {x : Round} {y : Outcomes} (hsame : SameMounts s a)
    (hloaded : s.kernel.loaded .cowBrd = true) (hmount : y.mount = x.mountOk)
    (humount : y.umount = x.umountOk) :
    SameMounts (if fsckPassed x.fsckReturn then
        if (s.mountDevice SNAPSHOT_PATH y).1 ≠ SUCCESS then (s.mountDevice SNAPSHOT_PATH y).2
        else ((s.mountDevice SNAPSHOT_PATH y).2.umountDevice y).2
      else s) (testCrashState r x a) := by
  unfold testCrashState
  dsimp only
  cases fsckPassed x.fsckReturn with
  | false => exact hsame.congr (by simp [TestState.access]) (by simp)
  | true =>
    simp only [Bool.not_true, Bool.false_eq_true, if_false, if_true]
    generalize hb : TestState.mountedWrite _ _ = b
    have hb' : SameMounts s b := by
      subst hb
      exact hsame.congr (by simp [TestState.access]) (by simp)
    obtain ⟨hres, hdev⟩ := hb'.mountDevice hloaded y r
    rw [hmount] at hres hdev
    rw [hres]
    by_cases hne : (b.mountDevice r x.mountOk).1 ≠ SUCCESS
    · rw [if_pos hne, if_pos hne]
      exact hdev.congr (by simp) (by simp)
    · rw [if_neg hne, if_neg hne, ← humount]
      have hmounts : (b.mountDevice r x.mountOk).2.mounts ≠ [] := by
        cases hok : x.mountOk with
        | false => simp [TestState.mountDevice, hok, MNT_MNT_ERR, SUCCESS] at hne
        | true => simp [TestState.mountDevice]
      exact (hdev.congr (by simp) (by simp)).umountDevice (by simpa using hmounts) y

theorem Kernel.exists_openFile {k : Kernel} (hloaded : k.loaded .cowBrd = true) : ∃ fd,
    k.openFile SNAPSHOT_PATH (some fd) =
      some (fd, { k with files := (fd, SNAPSHOT_PATH) :: k.files }) := by
  obtain ⟨fd, hfd⟩ := k.exists_unused
  have hpresent : k.present SNAPSHOT_PATH = true := by
    simp [Kernel.present, moduleOf, SNAPSHOT_PATH, FULL_WRAPPER_PATH, COW_BRD_PATH, hloaded]
  exact ⟨fd, by simp only [Kernel.openFile, hpresent, hfd, Bool.and_self, if_true]⟩

section Round

variable {base : Content} {capacity r : ℕ} {x : Round} {b : TestState}

theorem testRound_sameMounts_of_restores (hx : x.Restores)
    (h : CrashMonkey.testRound base capacity r x a = .ok b) (hsame : SameMounts s a)
    (hloaded : s.kernel.loaded .cowBrd = true) : ∃ y, SameMounts (s.testRound y) b := by
  obtain ⟨fd, hopen⟩ := Kernel.exists_openFile hloaded
  let y : Outcomes := ⟨true, fun _ => true, some fd, x.mountOk, x.umountOk⟩
  let t : Tester := { s with
    kernel := Kernel.close fd { s.kernel with files := (fd, SNAPSHOT_PATH) :: s.kernel.files } }
  rw [testRound_of_restores hx] at h
  split at h
  · cases h
  · rename_i writeOk img rest hwrite
    refine ⟨⟨y, true, writeOk, fsckPassed x.fsckReturn⟩, ?_⟩
    have ht : SameMounts t ((a.restored base r x).setContent img) :=
      SameMounts.congr (s := t) hsame (by simp [TestState.restored, TestState.access]) (by simp)
    simp only [Tester.testRound, y, hopen]
    cases writeOk with
    | false =>
      cases h
      exact ht.congr (by simp) (by simp)
    | true =>
      cases h
      have hcrash := testCrashState_sameMounts (r := r) (x := x) (y := y) ht hloaded rfl rfl
      cases hfsck : fsckPassed x.fsckReturn with
      | false =>
        rw [hfsck] at hcrash
        exact hcrash
      | true =>
        rw [hfsck] at hcrash
        exact hcrash

/-- Without a restored snapshot nothing is mounted. -/
theorem testRound_sameMounts_of_not_restores (hx : ¬ x.Restores)
    (h : CrashMonkey.testRound base capacity r x a = .ok b) (hsame : SameMounts s a)
    (hloaded : s.kernel.loaded .cowBrd = true) : ∃ y, SameMounts (s.testRound y) b := by
  obtain ⟨fd, hopen⟩ := Kernel.exists_openFile hloaded
  let y (opened : Option ℕ) : Outcomes := ⟨true, fun _ => true, opened, x.mountOk, x.umountOk⟩
  rcases Decidable.not_and_iff_or_not.mp hx with hclosed | hrestore
  · refine ⟨⟨y none, true, true, true⟩, ?_⟩
    rw [CrashMonkey.testRound, if_pos (by simpa using hclosed)] at h
    cases h
    exact hsame.congr (by simp) (by simp)
  · refine ⟨⟨y (some fd), false, true, true⟩, ?_⟩
    simp only [Tester.testRound, y, hopen]
    unfold CrashMonkey.testRound cloneDeviceRestore at h
    cases hok : x.openOk with
    | false =>
      simp only [hok, Bool.not_false, if_true, Except.ok.injEq] at h
      subst h
      exact SameMounts.congr (s := { s with kernel := _ }) hsame (by simp) (by simp)
    | true =>
      simp only [hok, eq_false_of_ne_true hrestore] at h
      cases h
      exact SameMounts.congr (s := { s with kernel := _ }) hsame (by simp) (by simp)

theorem testRound_sameMounts (h : CrashMonkey.testRound base capacity r x a = .ok b)
    (hsame : SameMounts s a) (hloaded : s.kernel.loaded .cowBrd = true) :
    ∃ y, SameMounts (s.testRound y) b := by
  by_cases hx : x.Restores
  · exact testRound_sameMounts_of_restores hx h hsame hloaded
  · exact testRound_sameMounts_of_not_restores hx h hsame hloaded

end Round

end Mounts

section Cleanup

variable {u : Holding} {s : Tester} {x : Outcomes}

theorem cleanupHarness_tidy (h : Tidy u s) : Tidy u (s.cleanupHarness x) := by
  have humount : Tidy u (s.umountDevice x).2 := (umountDevice_leaves h).tidy Tidy.of_unmounted
  have hremove : Tidy u ((s.umountDevice x).2.removeWrapper x).2 :=
    (removeWrapper_leaves humount).tidy id
  unfold Tester.cleanupHarness
  dsimp only
  split_ifs
  · exact humount
  · exact hremove
  · exact (removeCowBrd_leaves hremove).tidy id

theorem Kernel.inUse_eq_false {m : KernelModule} {k : Kernel}
    (hwrapper : m = .cowBrd → k.loaded .wrapper = false) (hmounts : k.mounts = [])
    (hfiles : ∀ f ∈ k.files, moduleOf f.2 ≠ some m) : k.inUse m = false := by
  rw [Kernel.inUse, Bool.or_eq_false_iff, Bool.or_eq_false_iff]
  refine ⟨⟨?_, by simp [hmounts]⟩, ?_⟩
  · cases m with
    | cowBrd => simp [hwrapper rfl]
    | wrapper => rfl
  · simpa [List.any_eq_false] using hfiles

theorem umountDevice_reliable (h : Tidy u s) (hx : x.umount = true) :
    (s.umountDevice x).1 = SUCCESS ∧ (s.umountDevice x).2.kernel.mounts = [] ∧
      (s.umountDevice x).2.ioctlFd = s.ioctlFd ∧
      (s.umountDevice x).2.kernel.loaded = s.kernel.loaded ∧
      (s.umountDevice x).2.kernel.files = s.kernel.files := by
  rcases s.umountDevice_cases x with
    ⟨hmounted, hcall⟩ | ⟨hmounted, humount, hcall⟩ | ⟨hmounted, -, hcall⟩ <;> rw [hcall]
  · exact ⟨rfl, h.mounts_eq_nil hmounted, rfl, rfl, rfl⟩
  · have hlen := h.mounts
    rw [hmounted, if_pos rfl] at hlen
    have hne : s.kernel.mounts ≠ [] := by
      intro hnil
      simp [hnil] at hlen
    rw [Kernel.umount_eq_some.mpr ⟨⟨hx, hne⟩, rfl⟩] at humount
    cases humount
  · have hlen := h.mounts
    rw [hmounted, if_pos rfl] at hlen
    exact ⟨rfl, List.eq_nil_of_length_eq_zero (by simp [hlen]), rfl, rfl, rfl⟩

theorem removeWrapper_reliable (h : Tidy u s) (hx : x.rmmod .wrapper = true)
    (hmounts : s.kernel.mounts = [])
    (hioctl : s.kernel.loaded .wrapper = true → s.ioctlFd = none) :
    (s.removeWrapper x).1 = SUCCESS ∧ (s.removeWrapper x).2.kernel.loaded .wrapper = false ∧
      (s.removeWrapper x).2.kernel.mounts = [] := by
  rcases s.removeWrapper_cases x with
    ⟨hinserted, hcall⟩ | ⟨hinserted, hrm, hcall⟩ | ⟨-, -, hcall⟩ <;> rw [hcall]
  · exact ⟨rfl, h.wrapper.symm.trans hinserted, hmounts⟩
  · have hloaded := h.wrapper.symm.trans hinserted
    have hfiles : ∀ f ∈ s.kernel.files, moduleOf f.2 ≠ some .wrapper := by
      intro f hf
      rcases h.files f hf with ⟨-, hdev⟩ | ⟨hfd, -⟩
      · rw [hdev]
        decide
      · rw [hioctl hloaded] at hfd
        cases hfd
    have hidle := Kernel.inUse_eq_false (m := .wrapper) nofun hmounts hfiles
    rw [Kernel.rmmod_eq_some.mpr ⟨⟨hx, hloaded, hidle⟩, rfl⟩] at hrm
    cases hrm
  · exact ⟨rfl, by simp, hmounts⟩

theorem removeCowBrd_reliable (h : Tidy u s) (hx : x.rmmod .cowBrd = true)
    (hwrapper : s.kernel.loaded .wrapper = false) (hmounts : s.kernel.mounts = []) :
    Clean (s.removeCowBrd x).2 := by
  obtain ⟨-, hloaded, hmounts', -⟩ := s.closeCowBrd_spec
  have hclean : ∀ k : Kernel, k.mounts = s.kernel.mounts → k.loaded .wrapper = false →
      k.loaded .cowBrd = false → k.mounts = [] ∧ ∀ m, k.loaded m = false := by
    intro k hk hw hc
    refine ⟨hk.trans hmounts, fun m => ?_⟩
    cases m with
    | cowBrd => exact hc
    | wrapper => exact hw
  rcases s.removeCowBrd_cases x with
    ⟨hinserted, hcall⟩ | ⟨-, hrm, hcall⟩ | ⟨-, -, hcall⟩ <;> rw [hcall]
  · refine hclean _ rfl hwrapper (Bool.eq_false_iff.mpr fun hcowBrd => ?_)
    have hinserted' := h.cowBrd hcowBrd
    rw [hinserted] at hinserted'
    cases hinserted'
  · refine hclean _ hmounts' (by rw [hloaded]; exact hwrapper) ?_
    -- `rmmod` fails only if there is no module
    by_contra hcowBrd
    rw [Bool.not_eq_false] at hcowBrd
    have hfiles : ∀ f ∈ s.closeCowBrd.kernel.files, moduleOf f.2 ≠ some .cowBrd := by
      intro f hf
      rw [(h.closed_files hf).2]
      decide
    have hidle := Kernel.inUse_eq_false (m := .cowBrd) (fun _ => hloaded ▸ hwrapper)
      (hmounts'.trans hmounts) hfiles
    rw [Kernel.rmmod_eq_some.mpr ⟨⟨hx, hcowBrd, hidle⟩, rfl⟩] at hrm
    cases hrm
  · exact hclean _ hmounts' (by simpa [hloaded] using hwrapper) (by simp)

/-- The wrapper cannot be removed while it is open. -/
theorem removeWrapper_busy (h : Tidy u s) (hwrapper : s.kernel.loaded .wrapper = true) {fd : ℕ}
    (hopen : (fd, FULL_WRAPPER_PATH) ∈ s.kernel.files) :
    s.removeWrapper x = (WRAPPER_REMOVE_ERR, s) := by
  have hbusy : s.kernel.inUse .wrapper = true := by
    rw [Kernel.inUse, Bool.or_eq_true]
    exact .inr (List.any_eq_true.mpr ⟨_, hopen, by simp [moduleOf]⟩)
  rcases s.removeWrapper_cases x with ⟨hinserted, -⟩ | ⟨-, -, hcall⟩ | ⟨-, hrm, -⟩
  · rw [h.wrapper, hwrapper] at hinserted
    cases hinserted
  · exact hcall
  · obtain ⟨k, hk⟩ := Option.isSome_iff_exists.mp hrm
    rw [(Kernel.rmmod_eq_some.mp hk).1.2.2] at hbusy
    cases hbusy

/-- A cleanup with reliable commands leaves nothing behind exactly if the wrapper is not
open any more. -/
theorem cleanupHarness_clean_iff (h : Tidy u s) (hx : x.Reliable)
    (hfd : ∀ fd, s.ioctlFd = some fd → (fd, FULL_WRAPPER_PATH) ∈ s.kernel.files) :
    Clean (s.cleanupHarness x) ↔ (s.kernel.loaded .wrapper = true → s.ioctlFd = none) := by
  obtain ⟨hsuccess, hmounts, hkept⟩ := umountDevice_reliable h hx.1
  obtain ⟨hioctl, hloaded, hfiles⟩ := hkept
  have humount : Tidy u (s.umountDevice x).2 := (umountDevice_leaves h).tidy Tidy.of_unmounted
  unfold Tester.cleanupHarness
  simp only [hsuccess, ne_eq, not_true_eq_false, if_false]
  constructor
  · intro hclean hwrapper
    by_contra hne
    obtain ⟨fd, hsome⟩ := Option.ne_none_iff_exists'.mp hne
    have hopen : (fd, FULL_WRAPPER_PATH) ∈ (s.umountDevice x).2.kernel.files :=
      hfiles ▸ hfd fd hsome
    have hbusy := removeWrapper_busy (x := x) humount (hloaded ▸ hwrapper) hopen
    rw [hbusy, if_pos (show ¬ WRAPPER_REMOVE_ERR = SUCCESS by decide)] at hclean
    have hgone := hclean.2 .wrapper
    rw [hloaded, hwrapper] at hgone
    cases hgone
  · intro hnone
    obtain ⟨hsuccess', hwrapper, hmounts'⟩ := removeWrapper_reliable humount (hx.2 .wrapper) hmounts
      (by rw [hloaded, hioctl]; exact hnone)
    have hremove : Tidy u ((s.umountDevice x).2.removeWrapper x).2 :=
      (removeWrapper_leaves humount).tidy id
    simp only [hsuccess', not_true_eq_false, if_false]
    exact removeCowBrd_reliable hremove (hx.2 .cowBrd) hwrapper hmounts'

theorem cleanupHarness_clean (h : Tidy u s) (hu : u.ioctl = false) (hx : x.Reliable) :
    Clean (s.cleanupHarness x) := by
  have hnone := h.ioctlFd_eq_none hu
  exact (cleanupHarness_clean_iff h hx (by simp [hnone])).mpr fun _ => hnone

end Cleanup

end CrashMonkey.Resources
