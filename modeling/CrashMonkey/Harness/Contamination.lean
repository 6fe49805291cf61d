import CrashMonkey.Harness.Rounds

namespace CrashMonkey

/-- Nothing of an earlier round is mounted, and fsck finds the crash state of its own
round on the disk `base`. -/
def Event.Clean (base : Content) (x : ℕ → Round) (e : Event) : Prop :=
  (∀ m ∈ e.mounts, ¬ m < e.round) ∧
    (e.access = .fsck → e.content = (x e.round).permutes.foldl replayOp base)

def lastState {α : Type} : Except TestState (α × TestState) → TestState
  | .ok (_, s) => s
  | .error s => s

/-- No access of the run meets an earlier round. -/
def Uncontaminated {α : Type} (base : Content) (x : ℕ → Round)
    (run : Except TestState (α × TestState)) : Prop :=
  ∀ e ∈ (lastState run).events, e.Clean base x

namespace Round

variable (base : Content) (capacity : ℕ) (x : Round)

def Restores : Prop := x.openOk = true ∧ x.restoreOk = true

/-- The crash state is not written within the given calls. -/
def Waits : Prop := x.Restores ∧ testWriteData capacity x.permutes x.writes base = none

def LeavesMounted : Prop :=
  x.Restores ∧ (∃ img calls, testWriteData capacity x.permutes x.writes base =
    some (true, img, calls)) ∧
  fsckPassed x.fsckReturn = true ∧ x.mountOk = true ∧ x.umountOk = false

end Round

def Reaches (base : Content) (capacity : ℕ) (x : ℕ → Round) (k n j : ℕ) : Prop :=
  k ≤ j ∧ j < n ∧ (∀ i, k ≤ i → i ≤ j → (x i).newState = true) ∧
    ∀ i, k ≤ i → i < j → ¬ (x i).Waits base capacity

variable {base : Content} {capacity : ℕ}

def afterRound : Except TestState TestState → TestState
  | .ok s => s
  | .error s => s

namespace TestState

variable (s : TestState)

@[simp] theorem mountedWrite_events (f : Content → Content) :
    (s.mountedWrite f).events = s.events := by
  unfold mountedWrite
  split_ifs <;> rfl

@[simp] theorem mountedWrite_mounts (f : Content → Content) :
    (s.mountedWrite f).mounts = s.mounts := by
  unfold mountedWrite
  split_ifs <;> rfl

@[simp] theorem access_events (r : ℕ) (a : Access) :
    (s.access r a).events = s.events ++ [⟨r, a, s.mounts, s.content⟩] := rfl

@[simp] theorem access_mounts (r : ℕ) (a : Access) : (s.access r a).mounts = s.mounts := rfl

@[simp] theorem access_content (r : ℕ) (a : Access) : (s.access r a).content = s.content := rfl

@[simp] theorem setContent_events (img : Content) : (s.setContent img).events = s.events := rfl

@[simp] theorem setContent_mounts (img : Content) : (s.setContent img).mounts = s.mounts := rfl

@[simp] theorem setContent_content (img : Content) : (s.setContent img).content = img := rfl

@[simp] theorem addCompletedTest_events (t : SingleTestInfo) :
    (s.addCompletedTest t).events = s.events := rfl

@[simp] theorem addCompletedTest_mounts (t : SingleTestInfo) :
    (s.addCompletedTest t).mounts = s.mounts := rfl

@[simp] theorem mountedWrite_diskMounted (f : Content → Content) :
    (s.mountedWrite f).diskMounted = s.diskMounted := by
  unfold mountedWrite
  split_ifs <;> rfl

@[simp] theorem setContent_diskMounted (img : Content) :
    (s.setContent img).diskMounted = s.diskMounted := rfl

@[simp] theorem addCompletedTest_diskMounted (t : SingleTestInfo) :
    (s.addCompletedTest t).diskMounted = s.diskMounted := rfl

@[simp] theorem mountDevice_events (r : ℕ) (ok : Bool) :
    (s.mountDevice r ok).2.events = s.events := by
  unfold mountDevice
  split_ifs <;> rfl

@[simp] theorem umountDevice_events (ok : Bool) : (s.umountDevice ok).2.events = s.events := by
  unfold umountDevice
  split_ifs <;> rfl

theorem mountDevice_true (r : ℕ) : s.mountDevice r true =
    (SUCCESS, { s with mounts := r :: s.mounts, diskMounted := true }) := rfl

theorem umountDevice_mounts {s : TestState} (hs : s.diskMounted = true) (ok : Bool) :
    (s.umountDevice ok).2.mounts = if ok then s.mounts.tail else s.mounts := by
  cases ok <;> simp [umountDevice, hs]

/-- Without a mounted file system nobody else writes. -/
theorem mountedWrite_of_nil {s : TestState} (hs : s.mounts = []) (f : Content → Content) :
    s.mountedWrite f = s := if_pos hs

end TestState

theorem testRound_of_not_restores (base : Content) (capacity : ℕ) {x : Round}
    (hx : ¬ x.Restores) (r : ℕ) (s : TestState) :
    ∃ s', testRound base capacity r x s = .ok s' ∧ s'.events = s.events ∧ s'.mounts = s.mounts := by
  unfold testRound cloneDeviceRestore
  cases hopen : x.openOk with
  | false => exact ⟨_, rfl, by simp⟩
  | true =>
    cases hrestore : x.restoreOk with
    | false => exact ⟨_, rfl, by simp⟩
    | true => exact absurd ⟨hopen, hrestore⟩ hx

theorem testCrashState_events (r : ℕ) (x : Round) (s : TestState) :
    (testCrashState r x s).events =
      s.events ++ [⟨r, .fsck, s.mounts, (s.mountedWrite (x.mountedWrites 2)).content⟩] := by
  unfold testCrashState
  dsimp only
  split_ifs <;> simp

/-- Only a file system that cannot be unmounted is left. -/
theorem testCrashState_mounts (r : ℕ) (x : Round) {s : TestState} (hs : s.mounts = []) :
    (testCrashState r x s).mounts =
      if fsckPassed x.fsckReturn = true ∧ x.mountOk = true ∧ x.umountOk = false then [r]
      else [] := by
  unfold testCrashState
  cases hfsck : fsckPassed x.fsckReturn with
  | false => simp [hs]
  | true =>
    cases hmount : x.mountOk with
    | false => simp [TestState.mountDevice, hs, MNT_MNT_ERR, SUCCESS]
    | true =>
      simp only [TestState.mountDevice_true, Bool.not_true, Bool.false_eq_true, if_false, ne_eq,
        not_true_eq_false]
      rw [TestState.umountDevice_mounts (by simp)]
      cases x.umountOk <;> simp [hs]

def TestState.restored (base : Content) (r : ℕ) (x : Round) (s : TestState) : TestState :=
  (((s.mountedWrite (x.mountedWrites 0)).access r .restore).setContent base).mountedWrite
    (x.mountedWrites 1) |>.access r .write

theorem testRound_of_restores {x : Round} (hx : x.Restores) (r : ℕ) (s : TestState) :
    testRound base capacity r x s =
      match testWriteData capacity x.permutes x.writes (s.restored base r x).content with
      | none => .error (s.restored base r x)
      | some (writeDataRes, img, _) =>
        let s := (s.restored base r x).setContent img
        if !writeDataRes then
          .ok (s.addCompletedTest (SingleTestInfo.setFsError {} .kBioWrite))
        else .ok (testCrashState r x s) := by
  obtain ⟨hopen, hrestore⟩ := hx
  unfold testRound cloneDeviceRestore
  simp only [hopen, hrestore, Bool.not_true, Bool.false_eq_true, if_false, ne_eq,
    not_true_eq_false]
  rfl

theorem TestState.restored_events (base : Content) (r : ℕ) (x : Round) (s : TestState) :
    ∃ img img', (s.restored base r x).events =
      s.events ++ [⟨r, .restore, s.mounts, img⟩, ⟨r, .write, s.mounts, img'⟩] := by
  simp [restored]

@[simp] theorem TestState.restored_mounts (r : ℕ) (x : Round) (s : TestState) :
    (s.restored base r x).mounts = s.mounts := by
  simp [restored]

theorem TestState.restored_content (base : Content) (r : ℕ) (x : Round) {s : TestState}
    (hs : s.mounts = []) :
    (s.restored base r x).content = base := by
  unfold restored
  rw [access_content, mountedWrite_of_nil (by simp [hs])]
  rfl

/-- A round adds its accesses, and the restore is the first of them. -/
theorem testRound_events (base : Content) (capacity r : ℕ) (x : Round) (s : TestState) :
    ∃ new, (afterRound (testRound base capacity r x s)).events = s.events ++ new ∧
      (x.Restores → ∃ img, ⟨r, .restore, s.mounts, img⟩ ∈ new) := by
  by_cases hx : x.Restores
  · obtain ⟨img, img', hrestored⟩ := s.restored_events base r x
    rw [testRound_of_restores hx]
    cases testWriteData capacity x.permutes x.writes (s.restored base r x).content with
    | none => exact ⟨_, hrestored, fun _ => ⟨img, by simp⟩⟩
    | some res =>
      obtain ⟨writeDataRes, content, calls⟩ := res
      cases writeDataRes with
      | false => exact ⟨_, hrestored, fun _ => ⟨img, by simp⟩⟩
      | true =>
        simp only [Bool.not_true, Bool.false_eq_true, if_false, afterRound, testCrashState_events,
          TestState.setContent_events, hrestored, List.append_assoc]
        exact ⟨_, rfl, fun _ => ⟨img, by simp⟩⟩
  · obtain ⟨s', heq, hs', -⟩ := testRound_of_not_restores base capacity hx r s
    exact ⟨[], by simp [heq, afterRound, hs'], fun h => absurd h hx⟩

section Clean

variable {x : ℕ → Round} {s : TestState}

/-- A round that finds nothing mounted is clean. It leaves its own file system there or
nothing. -/
theorem testRound_clean (capacity r : ℕ) (hs : s.mounts = [])
    (hevents : ∀ e ∈ s.events, e.Clean base x) :
    (∀ e ∈ (afterRound (testRound base capacity r (x r) s)).events, e.Clean base x) ∧
      ((x r).Waits base capacity → ∃ s', testRound base capacity r (x r) s = .error s') ∧
      (¬ (x r).Waits base capacity → ∃ s', testRound base capacity r (x r) s = .ok s' ∧
        ((x r).LeavesMounted base capacity → s'.mounts = [r]) ∧
        (¬ (x r).LeavesMounted base capacity → s'.mounts = [])) := by
  by_cases hx : (x r).Restores
  · have hrestored : ∀ e ∈ (s.restored base r (x r)).events, e.Clean base x := by
      obtain ⟨img, img', hrestored⟩ := s.restored_events base r (x r)
      rw [hrestored, hs, List.forall_mem_append]
      exact ⟨hevents, by simp [Event.Clean]⟩
    have hcontent := TestState.restored_content base r (x r) hs
    rw [testRound_of_restores hx, hcontent]
    unfold Round.Waits Round.LeavesMounted
    cases hwrite : testWriteData capacity (x r).permutes (x r).writes base with
    | none => exact ⟨hrestored, fun _ => ⟨_, rfl⟩, fun h => absurd ⟨hx, rfl⟩ h⟩
    | some res =>
      obtain ⟨writeDataRes, img, calls⟩ := res
      cases writeDataRes with
      | false => exact ⟨hrestored, by simp, by simp [hs]⟩
      | true =>
        have himg := (testWriteData_true hwrite).1
        simp only [Bool.not_true, Bool.false_eq_true, if_false]
        refine ⟨?_, by simp, ?_⟩
        · rw [afterRound, testCrashState_events, List.forall_mem_append]
          refine ⟨hrestored, ?_⟩
          -- nobody has written since the crash state was
          rw [TestState.mountedWrite_of_nil (by simp [hs])]
          simp [Event.Clean, hs, himg]
        · intro _
          refine ⟨_, rfl, ?_, ?_⟩
          · rintro ⟨-, -, h⟩
            rw [testCrashState_mounts r _ (by simp [hs]), if_pos h]
          · intro h
            rw [testCrashState_mounts r _ (by simp [hs]), if_neg]
            exact fun h' => h ⟨hx, ⟨img, calls, rfl⟩, h'⟩
  · obtain ⟨s', heq, hs', hmounts⟩ :=
      testRound_of_not_restores base capacity hx r s
    rw [heq]
    refine ⟨fun e he => hevents e (hs' ▸ he), fun h => absurd h.1 hx, fun _ => ?_⟩
    exact ⟨s', rfl, fun h => absurd h.1 hx, fun _ => hmounts.trans hs⟩

end Clean

theorem mem_afterRound_bind {e : Event} {run : Except TestState TestState}
    {f : TestState → Except TestState TestState}
    (hf : ∀ s, e ∈ s.events → e ∈ (afterRound (f s)).events) (he : e ∈ (afterRound run).events) :
    e ∈ (afterRound (run >>= f)).events := by
  cases run with
  | error s => exact he
  | ok s => exact hf s he

/-- What was done stays in the list of accesses. -/
theorem mem_testRounds (base : Content) (capacity : ℕ) (x : ℕ → Round) {e : Event}
    (left k : ℕ) (s : TestState) (he : e ∈ s.events) :
    e ∈ (afterRound (testRounds base capacity x left k s)).events := by
  induction left generalizing k s with
  | zero => exact he
  | succ left ih =>
    obtain ⟨new, hnew, -⟩ := testRound_events base capacity k (x k) s
    rw [testRounds]
    split_ifs
    · exact he
    · apply mem_afterRound_bind (ih (k + 1))
      rw [hnew]
      exact List.mem_append_left new he

section Reaches

variable {x : ℕ → Round} {k n j : ℕ}

theorem reaches_of_lt (h : k < j) : Reaches base capacity x k n j ↔
    (x k).newState = true ∧ ¬ (x k).Waits base capacity ∧
      Reaches base capacity x (k + 1) n j := by
  constructor
  · rintro ⟨-, hj, hnew, hwaits⟩
    refine ⟨hnew k le_rfl h.le, hwaits k le_rfl h, h, hj, ?_, ?_⟩
    · exact fun i hi => hnew i (by omega)
    · exact fun i hi => hwaits i (by omega)
  · rintro ⟨hk, hk', -, hj, hnew, hwaits⟩
    refine ⟨h.le, hj, ?_, ?_⟩
    · intro i hi hij
      rcases hi.eq_or_lt with rfl | hi
      · exact hk
      · exact hnew i hi hij
    · intro i hi hij
      rcases hi.eq_or_lt with rfl | hi
      · exact hk'
      · exact hwaits i hi hij

theorem reaches_self : Reaches base capacity x k n k ↔ k < n ∧ (x k).newState = true := by
  constructor
  · rintro ⟨-, hk, hnew, -⟩
    exact ⟨hk, hnew k le_rfl le_rfl⟩
  · rintro ⟨hk, hnew⟩
    refine ⟨le_rfl, hk, ?_, ?_⟩
    · intro i hi hik
      rw [le_antisymm hik hi]
      exact hnew
    · intro i hi hik
      omega

theorem Reaches.newState (h : Reaches base capacity x k n j) : (x k).newState = true :=
  h.2.2.1 k le_rfl h.1

end Reaches

/-- With a file system of an earlier round mounted, a run is clean until it comes to a
restore. -/
theorem testRounds_mounted_iff (capacity : ℕ) {x : ℕ → Round} {m n k : ℕ} {s : TestState} (left : ℕ)
    (hn : k + left = n) (hm : m ∈ s.mounts) (hmk : m < k) (hs : ∀ e ∈ s.events, e.Clean base x) :
    (∀ e ∈ (afterRound (testRounds base capacity x left k s)).events, e.Clean base x) ↔
      ∀ j, Reaches base capacity x k n j → ¬ (x j).Restores := by
  induction left generalizing k s with
  | zero => exact ⟨fun _ j h => absurd h.2.1 (by have := h.1; omega), fun _ => hs⟩
  | succ left ih =>
    rw [testRounds]
    cases hnew : (x k).newState with
    | false =>
      refine ⟨fun _ j h => ?_, fun _ => hs⟩
      exact absurd (h.newState.symm.trans hnew) (by decide)
    | true =>
      simp only [Bool.not_true, Bool.false_eq_true, if_false]
      by_cases hx : (x k).Restores
      · -- the restore meets the file system
        obtain ⟨new, hevents, hrestore⟩ :=
          testRound_events base capacity k (x k) s
        obtain ⟨img, himg⟩ := hrestore hx
        constructor
        · intro hclean
          have hmem := mem_afterRound_bind (mem_testRounds base capacity x left (k + 1))
            (hevents ▸ List.mem_append_right s.events himg)
          exact absurd hmk ((hclean _ hmem).1 m hm)
        · intro h
          exact absurd hx (h k (reaches_self.mpr ⟨by omega, hnew⟩))
      · obtain ⟨s', heq, hs', hmounts⟩ :=
          testRound_of_not_restores base capacity hx k s
        rw [heq]
        have hrest := ih (k := k + 1) (s := s') (by omega) (hmounts ▸ hm) (by omega) (hs' ▸ hs)
        refine hrest.trans ⟨fun h j hj => ?_, fun h j hj => ?_⟩
        · rcases hj.1.eq_or_lt with rfl | hlt
          · exact hx
          · exact h j ((reaches_of_lt hlt).mp hj).2.2
        · exact h j ((reaches_of_lt hj.1).mpr ⟨hnew, fun hw => hx hw.1, hj⟩)

/-- While nothing is mounted, a run is clean exactly if no round restores the snapshot
after one that leaves its file system mounted. -/
theorem testRounds_iff (capacity : ℕ) {x : ℕ → Round} {n k : ℕ} {s : TestState} (left : ℕ)
    (hn : k + left = n) (hmounts : s.mounts = []) (hs : ∀ e ∈ s.events, e.Clean base x) :
    (∀ e ∈ (afterRound (testRounds base capacity x left k s)).events, e.Clean base x) ↔
      ∀ i j, k ≤ i → i < j → Reaches base capacity x k n j →
        (x i).LeavesMounted base capacity → ¬ (x j).Restores := by
  induction left generalizing k s with
  | zero => exact ⟨fun _ i j hi hj h => absurd h.2.1 (by omega), fun _ => hs⟩
  | succ left ih =>
    rw [testRounds]
    cases hnew : (x k).newState with
    | false =>
      refine ⟨fun _ i j _ _ h => ?_, fun _ => hs⟩
      exact absurd (h.newState.symm.trans hnew) (by decide)
    | true =>
      simp only [Bool.not_true, Bool.false_eq_true, if_false]
      obtain ⟨hclean, hwaits, hends⟩ := testRound_clean capacity k hmounts hs
      by_cases hw : (x k).Waits base capacity
      · -- the run waits in this round
        obtain ⟨s', heq⟩ := hwaits hw
        rw [heq] at hclean ⊢
        refine ⟨fun _ i j hi hij h => ?_, fun _ => hclean⟩
        exact absurd hw ((reaches_of_lt (by omega)).mp h).2.1
      · obtain ⟨s', heq, hleft, hgone⟩ := hends hw
        rw [heq] at hclean ⊢
        by_cases hm : (x k).LeavesMounted base capacity
        · have hrest := testRounds_mounted_iff capacity (m := k) (k := k + 1)
            (s := s') left (show k + 1 + left = n by omega) (by simp [hleft hm])
            (by omega) hclean
          refine hrest.trans ⟨fun h i j hi hij hj _ => ?_, fun h j hj => ?_⟩
          · exact h j ((reaches_of_lt (by omega)).mp hj).2.2
          · exact h k j le_rfl hj.1 ((reaches_of_lt hj.1).mpr ⟨hnew, hw, hj⟩) hm
        · have hrest := ih (k := k + 1) (by omega) (hgone hm) hclean
          refine hrest.trans ⟨fun h i j hi hij hj hi' => ?_, fun h i j hi hij hj => ?_⟩
          · rcases hi.eq_or_lt with rfl | hlt
            · exact absurd hi' hm
            · exact h i j hlt hij ((reaches_of_lt (by omega)).mp hj).2.2 hi'
          · exact h i j (by omega) hij ((reaches_of_lt (by omega)).mpr ⟨hnew, hw, hj⟩)

/-- A run is clean exactly if no round comes to restore the snapshot after one that was
unable to unmount it. -/
theorem uncontaminated_iff (base : Content) (capacity numRounds : ℕ) (x : ℕ → Round)
    (content : Content) (diskMounted : Bool) :
    Uncontaminated base x
        (testCheckRandomPermutations base capacity numRounds x content diskMounted) ↔
      ∀ i j, i < j → Reaches base capacity x 0 numRounds j →
        (x i).LeavesMounted base capacity → ¬ (x j).Restores := by
  have hevents : ∀ e ∈ ([] : List Event), e.Clean base x := by simp
  have hiff := testRounds_iff capacity (s := ⟨content, [], diskMounted, [], []⟩) numRounds
    (Nat.zero_add numRounds) rfl hevents
  have hlast : lastState (testCheckRandomPermutations base capacity numRounds x content
      diskMounted) = afterRound (testRounds base capacity x numRounds 0
      ⟨content, [], diskMounted, [], []⟩) := by
    unfold testCheckRandomPermutations
    cases testRounds base capacity x numRounds 0 ⟨content, [], diskMounted, [], []⟩ <;> rfl
  rw [Uncontaminated, hlast, hiff]
  exact forall₂_congr fun i j => ⟨fun h => h (Nat.zero_le i), fun h _ => h⟩

def busyRound : Round where
  newState := true
  permutes := []
  openOk := true
  restoreOk := true
  writes := []
  fsckReturn := 0
  fsckWrites := id
  mountOk := true
  checkReturn := 0
  checkError := 0
  checkWrites := id
  umountOk := false
  mountedWrites := fun _ => id

theorem not_uncontaminated_busy : ¬ Uncontaminated (fun _ => 0) (fun _ => busyRound)
    (testCheckRandomPermutations (fun _ => 0) 4096 2 (fun _ => busyRound) (fun _ => 0) false) := by
  intro h
  -- the restore of the second round
  have hclean := h ⟨1, .restore, [0], fun _ => 0⟩ (List.mem_of_getElem? (show _[3]? = _ from rfl))
  exact absurd Nat.zero_lt_one (hclean.1 0 List.mem_cons_self)

end CrashMonkey
