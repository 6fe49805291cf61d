import CrashMonkey.Harness.FsckContent
import CrashMonkey.Permuter.Counting

namespace CrashMonkey

open WriteCache

/-- On a disk that has room for the operations of a log, every crash state can be written. -/
theorem replayable_crashState {capacity : ℕ} {u : Uninit} {log : List (DiskWrite Payload)}
    (hlog : ∀ w ∈ log, Replayable capacity w) (hquiet : QuietStorage u log)
    {s : List (EpochOp Payload)} (hs : CrashForm (initDataVector u log) s) :
    ∀ w ∈ s.map EpochOp.op, Replayable capacity w := by
  have hepochs : ∀ ep ∈ initDataVector u log, ∀ o ∈ ep.ops, Replayable capacity o.op := by
    apply initDataVector_forall u hlog
    · intro w _ hw
      have hrange := dataHalf_range w
      unfold Replayable
      rwa [dataHalf_hasWriteFlag, hrange.1, hrange.2, dataHalf_data]
    · -- what stands for a flush half is no write
      intro b w hw hs hflag
      have hnone := flagHalf_extent (hquiet b w hw hs) w
      rw [DiskWrite.extent, if_pos hflag] at hnone
      cases hnone
  intro w hw
  obtain ⟨o, ho, rfl⟩ := List.mem_map.mp hw
  obtain ⟨ep, hep, ho⟩ := hs.mem ho
  exact hepochs ep hep o ho

/-- The crash state is written to the restored snapshot, and no file system stays there. -/
structure Round.Smooth (x : Round) : Prop where
  restores : x.Restores
  accepting : Accepting x.writes
  enough : callsNeeded x.permutes ≤ x.writes.length
  unmounted : x.umountOk = true

section Smooth

variable (base : Content) {capacity : ℕ} {x : ℕ → Round}

theorem Round.Smooth.not_leavesMounted {x : Round} (h : x.Smooth) :
    ¬ x.LeavesMounted base capacity := by
  rintro ⟨-, -, -, -, hfails⟩
  rw [h.unmounted] at hfails
  cases hfails

theorem Round.Smooth.written {x : Round} (h : x.Smooth)
    (hpermutes : ∀ w ∈ x.permutes, Replayable capacity w) (img : Content) :
    ∃ img' calls, testWriteData capacity x.permutes x.writes img = some (true, img', calls) :=
  testWriteData_ends img h.accepting hpermutes h.enough

/-- Such a round ends, and fsck was in it. -/
theorem testRound_fsck {x : Round} (h : x.Smooth)
    (hpermutes : ∀ w ∈ x.permutes, Replayable capacity w) (r : ℕ) (s : TestState) :
    ∃ s', testRound base capacity r x s = .ok s' ∧
      ∃ e ∈ s'.events, e.round = r ∧ e.access = .fsck := by
  obtain ⟨img, calls, hwritten⟩ := h.written hpermutes (s.restored base r x).content
  rw [testRound_of_restores h.restores, hwritten]
  refine ⟨_, rfl, ?_⟩
  rw [testCrashState_events]
  exact ⟨_, List.mem_append_right _ (List.mem_singleton_self _), rfl, rfl⟩

theorem testRounds_fsck (left k : ℕ) (s : TestState)
    (hx : ∀ j, k ≤ j → j < k + left → (x j).newState = true ∧ (x j).Smooth)
    (hpermutes : ∀ j, k ≤ j → j < k + left → ∀ w ∈ (x j).permutes, Replayable capacity w) :
    ∀ j, k ≤ j → j < k + left → ∃ e ∈ (afterRound (testRounds base capacity x left k s)).events,
      e.round = j ∧ e.access = .fsck := by
  induction left generalizing k s with
  | zero =>
    intro j hj hlt
    omega
  | succ left ih =>
    obtain ⟨hnew, hk⟩ := hx k le_rfl (by omega)
    obtain ⟨s', hround, e, he, hfsck⟩ :=
      testRound_fsck base hk (hpermutes k le_rfl (by omega)) k s
    have hturn : testRounds base capacity x (left + 1) k s =
        testRounds base capacity x left (k + 1) s' := by
      rw [testRounds, hnew, hround]
      rfl
    rw [hturn]
    intro j hj hlt
    obtain rfl | hne := eq_or_ne j k
    · exact ⟨e, mem_testRounds base capacity x left _ s' he, hfsck⟩
    · apply ih (k + 1) s'
      · exact fun i hi hlt => hx i (by omega) (by omega)
      · exact fun i hi hlt => hpermutes i (by omega) (by omega)
      · omega
      · omega

/-- Smooth rounds all come to fsck, each with its own crash state on the disk. -/
theorem exists_fsck {n : ℕ} (hx : ∀ k < n, (x k).newState = true ∧ (x k).Smooth)
    (hpermutes : ∀ k < n, ∀ w ∈ (x k).permutes, Replayable capacity w) (content : Content)
    (diskMounted : Bool) {k : ℕ} (hk : k < n) :
    ∃ e ∈ (lastState (testCheckRandomPermutations base capacity n x content diskMounted)).events,
      e.access = .fsck ∧ e.content = (x k).permutes.foldl replayOp base := by
  obtain ⟨e, he, hround, hfsck⟩ := testRounds_fsck base (x := x) n 0
    ⟨content, [], diskMounted, [], []⟩ (fun j _ hj => hx j (by omega))
    (fun j _ hj => hpermutes j (by omega)) k (Nat.zero_le k) (by omega)
  rw [← lastState_events] at he
  refine ⟨e, he, hfsck, ?_⟩
  rw [← hround]
  exact (fsck_content (fun j hj => (hx j hj).2.not_leavesMounted base) content diskMounted he
    hfsck).2

end Smooth

/-- A round with the crash state of its number. -/
theorem crashForm_of_round {u : Uninit} {log : List (DiskWrite Payload)} {x : Round} {k : ℕ}
    (h : (crashForms (initDataVector u log))[k]?.map (fun s => (true, s.map EpochOp.op)) =
      some (x.newState, x.permutes)) :
    ∃ s, (crashForms (initDataVector u log))[k]? = some s ∧ CrashForm (initDataVector u log) s ∧
      x.newState = true ∧ x.permutes = s.map EpochOp.op := by
  obtain ⟨s, hs, heq⟩ := Option.map_eq_some_iff.mp h
  obtain ⟨hnew, hpermutes⟩ := Prod.mk.inj heq
  have hform := (mem_crashForms_initDataVector u log).mp (List.mem_of_getElem? hs)
  exact ⟨s, hs, hform, hnew.symm, hpermutes.symm⟩

/-- In rounds with all crash states of a log, each once, fsck finds what they leave. -/
theorem exists_fsck_iff {base : Content} {capacity : ℕ} {u : Uninit}
    {log : List (DiskWrite Payload)} (hlog : ∀ w ∈ log, Replayable capacity w)
    (hquiet : QuietStorage u log) {x : ℕ → Round}
    (hx : ∀ k < (crashForms (initDataVector u log)).length,
      (crashForms (initDataVector u log))[k]?.map (fun s => (true, s.map EpochOp.op)) =
        some ((x k).newState, (x k).permutes) ∧ (x k).Smooth)
    (content : Content) (diskMounted : Bool) (img : Content) :
    (∃ e ∈ (lastState (testCheckRandomPermutations base capacity
        (crashForms (initDataVector u log)).length x content diskMounted)).events,
      e.access = .fsck ∧ e.content = img) ↔
      ∃ s, CrashForm (initDataVector u log) s ∧ (s.map EpochOp.op).foldl replayOp base = img := by
  have hround k (hk : k < (crashForms (initDataVector u log)).length) :=
    crashForm_of_round (hx k hk).1
  constructor
  · rintro ⟨e, he, hfsck, rfl⟩
    obtain ⟨hlt, hcontent⟩ := fsck_content (fun j hj => (hx j hj).2.not_leavesMounted base) content
      diskMounted he hfsck
    obtain ⟨s, -, hform, -, hpermutes⟩ := hround _ hlt
    exact ⟨s, hform, by rw [hcontent, hpermutes]⟩
  · rintro ⟨s, hform, rfl⟩
    obtain ⟨k, hk⟩ := List.getElem?_of_mem ((mem_crashForms_initDataVector u log).mpr hform)
    have hlt := (List.getElem?_eq_some_iff.mp hk).1
    obtain ⟨s', hs', -, -, hpermutes⟩ := hround k hlt
    obtain rfl : s = s' := Option.some.inj (hk.symm.trans hs')
    rw [← hpermutes]
    apply exists_fsck
    · intro j hj
      obtain ⟨-, -, -, hnew, -⟩ := hround j hj
      exact ⟨hnew, (hx j hj).2⟩
    · intro j hj
      obtain ⟨t, -, ht, -, hpermutes⟩ := hround j hj
      rw [hpermutes]
      exact replayable_crashState hlog hquiet ht
    · exact hlt

/-- For any recording there are draws with which fsck looks at the disks that a crash of the
recorded disk can leave, at all of them but the untouched one and at no others. -/
theorem fsck_everyCrash {before : List Wrapper.Event} {t : Wrapper.Traced}
    {es : List Wrapper.Event} (hbefore : Transition.Run Wrapper.Step .init before t)
    (hes : ∀ e ∈ es, Recording e)
    (hfresh : FreshRun t.dev (.ioctl .clrLog :: .ioctl .logOn :: es)) {dev dev' : Wrapper.HwmDevice}
    (hserve : serveAll t.dev (.ioctl .clrLog :: .ioctl .logOn :: es) = .ok dev)
    {access : List (Bool × Bool)} {log : List (DiskWrite Payload)}
    (hfetch : getWrapperLog access dev [] = .ok (some (SUCCESS, log, dev'))) {u : Uninit}
    (hordinary : Ordinary ((recordedBios true es).map bioOp))
    (hbarriers : BarriersFlush ((recordedBios true es).map bioOp))
    (hfollowed : FlushesFollowed ((recordedBios true es).map bioOp))
    (hquiet : QuietStorage u ((recordedBios true es).map bioOp))
    (hapart : GroupsApart ((recordedBios true es).map bioOp)) {capacity : ℕ}
    (hinside : ∀ bio ∈ recordedBios true es, Replayable capacity (bioOp bio)) :
    ∃ r xs p r', Permuter.crashStates genOneState (numCrashStates (initDataVector u log))
        ((Permuter.new Payload).initDataVector u log) r = some ((xs, p), r') ∧
      ∀ (base : Content) (x : ℕ → Round),
        (∀ k < xs.length, xs[k]? = some ((x k).newState, (x k).permutes) ∧ (x k).Smooth) →
        ∀ content diskMounted img,
          CrashImage Extent.write base (commands ((recordedBios true es).map bioOp)) img ↔
            img = base ∨ ∃ e ∈ (lastState (testCheckRandomPermutations base capacity xs.length x
              content diskMounted)).events, e.access = .fsck ∧ e.content = img := by
  obtain rfl := fetched_log hbefore hes hfresh hserve hfetch
  obtain ⟨r, p, r', hcalls⟩ := exists_crashStates_order u ((recordedBios true es).map bioOp)
    (List.Perm.refl _)
  refine ⟨r, _, p, r', hcalls, fun base x hx content diskMounted img => ?_⟩
  simp only [List.length_map, List.getElem?_map] at hx ⊢
  rw [crashImage_iff_crashForm hordinary hbarriers hfollowed hquiet hapart]
  apply or_congr_right
  symm
  apply exists_fsck_iff _ hquiet hx
  intro w hw
  obtain ⟨bio, hbio, rfl⟩ := List.mem_map.mp hw
  exact hinside bio hbio

def oneWrite : List Wrapper.Event :=
  [.bio ⟨0, reqWrite, 0, 1, [⟨fun _ => 7, 1, 0⟩]⟩ 1 fun _ => 0]

theorem oneWrite_recording : ∀ e ∈ oneWrite, Recording e := by
  intro e he
  rw [oneWrite, List.mem_singleton] at he
  subst he
  exact ⟨rfl, by decide⟩

theorem oneWrite_fresh : FreshRun .init (.ioctl .clrLog :: .ioctl .logOn :: oneWrite) := by
  have hfree : serve .init (.ioctl .clrLog) = .ok .init := by
    simp [serve, Wrapper.diskWrapperIoctl, Wrapper.freeLogs, Wrapper.freeNodes,
      Wrapper.HwmDevice.init, bind, Except.bind, pure, Except.pure]
  refine ⟨trivial, fun dev₁ h₁ => ⟨trivial, fun dev₂ h₂ => ⟨?_, fun _ _ => trivial⟩⟩⟩
  obtain rfl := Except.ok.inj (hfree.symm.trans h₁)
  cases h₂
  exact Finmap.notMem_empty

theorem oneWrite_ordinary : Ordinary ((recordedBios true oneWrite).map bioOp) :=
  ⟨by decide, by decide⟩

theorem oneWrite_barriers : BarriersFlush ((recordedBios true oneWrite).map bioOp) := by
  unfold BarriersFlush
  decide

theorem oneWrite_followed : FlushesFollowed ((recordedBios true oneWrite).map bioOp) := by
  refine (flushesFollowed_cons _ _).mpr ⟨fun hs => absurd hs (by decide), ?_⟩
  exact nofun

theorem oneWrite_quiet : QuietStorage default ((recordedBios true oneWrite).map bioOp) := by
  intro b w _ _
  have hdefault : (default : Uninit).flagHalf b = default := rfl
  rw [hdefault]
  decide

theorem oneWrite_apart : GroupsApart ((recordedBios true oneWrite).map bioOp) := by
  intro g hg
  have hgroups : (groups [] (commands ((recordedBios true oneWrite).map bioOp))).map List.length =
      [1] := rfl
  have hlen : g.length = 1 := by
    have := List.mem_map_of_mem (f := List.length) hg
    rwa [hgroups, List.mem_singleton] at this
  obtain ⟨e, rfl⟩ := List.length_eq_one_iff.mp hlen
  exact List.pairwise_singleton _ _

theorem oneWrite_inside : ∀ bio ∈ recordedBios true oneWrite, Replayable 4096 (bioOp bio) := by
  intro bio hbio
  obtain rfl := List.mem_singleton.mp hbio
  exact fun _ => ⟨by decide, by decide, nofun⟩

/-- The recording of the write is fetched as it is. -/
theorem oneWrite_fetch : ∃ dev access dev',
    serveAll .init (.ioctl .clrLog :: .ioctl .logOn :: oneWrite) = .ok dev ∧
    getWrapperLog access dev [] =
      .ok (some (SUCCESS, (recordedBios true oneWrite).map bioOp, dev')) := by
  obtain ⟨dev, hserve, left, hqueue, hdata, hentries⟩ :=
    holds_of_recording (.nil Wrapper.Traced.init) oneWrite_recording oneWrite_fresh
  have hone : left.length = 1 := by
    have hlen := congrArg List.length hentries
    rwa [Wrapper.Nodes.entries, List.length_map, List.length_map, List.length_map] at hlen
  have hmany : left.length < (List.replicate 2 (true, true)).length := by
    rw [hone]
    decide
  obtain ⟨dev', hfetch⟩ := getWrapperLog_eq hqueue hdata
    (fun a ha => List.eq_of_mem_replicate ha) hmany []
  rw [List.nil_append, hentries] at hfetch
  exact ⟨dev, _, dev', hserve, hfetch⟩

theorem fsck_everyCrash_oneWrite : ∃ r xs p r',
    Permuter.crashStates genOneState
      (numCrashStates (initDataVector default ((recordedBios true oneWrite).map bioOp)))
      ((Permuter.new Payload).initDataVector default ((recordedBios true oneWrite).map bioOp)) r =
        some ((xs, p), r') ∧
    ∀ (base : Content) (x : ℕ → Round),
      (∀ k < xs.length, xs[k]? = some ((x k).newState, (x k).permutes) ∧ (x k).Smooth) →
      ∀ content diskMounted img,
        CrashImage Extent.write base (commands ((recordedBios true oneWrite).map bioOp)) img ↔
          img = base ∨ ∃ e ∈ (lastState (testCheckRandomPermutations base 4096 xs.length x
            content diskMounted)).events, e.access = .fsck ∧ e.content = img := by
  obtain ⟨dev, access, dev', hserve, hfetch⟩ := oneWrite_fetch
  exact fsck_everyCrash (.nil Wrapper.Traced.init) oneWrite_recording oneWrite_fresh hserve
    hfetch oneWrite_ordinary oneWrite_barriers oneWrite_followed oneWrite_quiet oneWrite_apart
    oneWrite_inside

end CrashMonkey
