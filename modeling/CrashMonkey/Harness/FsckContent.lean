import CrashMonkey.Harness.Contamination
import CrashMonkey.Harness.FetchErrors
import CrashMonkey.Permuter.CrashImages

namespace CrashMonkey

open WriteCache

theorem testRound_rounds (base : Content) (capacity r : ℕ) (x : Round) (s : TestState) :
    ∀ e ∈ (afterRound (testRound base capacity r x s)).events, e ∈ s.events ∨ e.round = r := by
  by_cases hx : x.Restores
  · obtain ⟨img, img', hrestored⟩ := s.restored_events base r x
    have hnew : ∀ e ∈ (s.restored base r x).events, e ∈ s.events ∨ e.round = r := by
      intro e he
      rw [hrestored, List.mem_append, List.mem_pair] at he
      rcases he with he | rfl | rfl
      · exact .inl he
      · exact .inr rfl
      · exact .inr rfl
    rw [testRound_of_restores hx]
    cases testWriteData capacity x.permutes x.writes (s.restored base r x).content with
    | none => exact hnew
    | some res =>
      obtain ⟨writeDataRes, content, calls⟩ := res
      cases writeDataRes with
      | false => exact hnew
      | true =>
        simp only [Bool.not_true, Bool.false_eq_true, if_false, afterRound, testCrashState_events,
          TestState.setContent_events, List.forall_mem_append, List.forall_mem_singleton]
        exact ⟨hnew, .inr trivial⟩
  · obtain ⟨s', heq, hs', -⟩ := testRound_of_not_restores base capacity hx r s
    rw [heq]
    exact fun e he => .inl (hs' ▸ he)

theorem testRounds_rounds (base : Content) (capacity : ℕ) (x : ℕ → Round) (left k : ℕ)
    (s : TestState) : ∀ e ∈ (afterRound (testRounds base capacity x left k s)).events,
      e ∈ s.events ∨ k ≤ e.round ∧ e.round < k + left := by
  induction left generalizing k s with
  | zero => exact fun e he => .inl he
  | succ left ih =>
    rw [testRounds]
    split_ifs
    · exact fun e he => .inl he
    · have hround := testRound_rounds base capacity k (x k) s
      intro e he
      have hfirst : e ∈ s.events ∨ e.round = k →
          e ∈ s.events ∨ k ≤ e.round ∧ e.round < k + (left + 1) := by
        intro h
        apply h.imp_right
        omega
      cases hrun : testRound base capacity k (x k) s with
      | error s' =>
        rw [hrun] at he hround
        exact hfirst (hround e he)
      | ok s' =>
        rw [hrun] at he hround
        rcases ih (k + 1) s' e he with h | h
        · exact hfirst (hround e h)
        · right
          omega

theorem lastState_events (base : Content) (capacity n : ℕ) (x : ℕ → Round) (content : Content)
    (diskMounted : Bool) :
    (lastState (testCheckRandomPermutations base capacity n x content diskMounted)).events =
      (afterRound (testRounds base capacity x n 0 ⟨content, [], diskMounted, [], []⟩)).events := by
  unfold testCheckRandomPermutations
  cases testRounds base capacity x n 0 ⟨content, [], diskMounted, [], []⟩ with
  | error s => rfl
  | ok s => rfl

/-- If every file system can be unmounted, fsck finds the crash state of its round. -/
theorem fsck_content {base : Content} {capacity n : ℕ} {x : ℕ → Round}
    (humount : ∀ k < n, ¬ (x k).LeavesMounted base capacity) (content : Content)
    (diskMounted : Bool) {e : Event}
    (he : e ∈
      (lastState (testCheckRandomPermutations base capacity n x content diskMounted)).events)
    (hfsck : e.access = .fsck) :
    e.round < n ∧ e.content = (x e.round).permutes.foldl replayOp base := by
  rw [lastState_events] at he
  have hclean : ∀ e ∈ (afterRound (testRounds base capacity x n 0
      ⟨content, [], diskMounted, [], []⟩)).events, e.Clean base x := by
    have hnone : ∀ e ∈ ([] : List Event), e.Clean base x := fun e h => absurd h List.not_mem_nil
    apply (testRounds_iff capacity n (Nat.zero_add n) rfl hnone).mpr
    intro i j _ hij hj hleft
    have hlt := hj.2.1
    exact absurd hleft (humount i (by omega))
  refine ⟨?_, (hclean e he).2 hfsck⟩
  rcases testRounds_rounds base capacity x n 0 _ e he with h | h
  · cases h
  · omega

theorem crashStates_length {δ σ : Type} {gen : Generator δ σ} {n : ℕ} {p p' : Permuter δ} {r r' : σ}
    {xs : List (Bool × List (DiskWrite δ))}
    (h : Permuter.crashStates gen n p r = some ((xs, p'), r')) : xs.length = n := by
  induction n generalizing p r xs with
  | zero =>
    obtain rfl : [] = xs := congrArg (fun y => y.1.1) (Option.some.inj h)
    rfl
  | succ n ih =>
    rw [Permuter.crashStates_succ] at h
    obtain ⟨y, -, hrest⟩ := Option.bind_eq_some_iff.mp h
    obtain ⟨⟨⟨ys, q⟩, r₂⟩, hcalls, heq⟩ := Option.map_eq_some_iff.mp hrest
    simp only [Prod.mk.injEq] at heq
    obtain ⟨⟨rfl, rfl⟩, rfl⟩ := heq
    rw [List.length_cons, ih hcalls]

/-- A fetch that succeeds gets the recorded bios. -/
theorem fetched_log {before : List Wrapper.Event} {t : Wrapper.Traced} {es : List Wrapper.Event}
    (hbefore : Transition.Run Wrapper.Step .init before t) (hes : ∀ e ∈ es, Recording e)
    (hfresh : FreshRun t.dev (.ioctl .clrLog :: .ioctl .logOn :: es)) {dev dev' : Wrapper.HwmDevice}
    (hserve : serveAll t.dev (.ioctl .clrLog :: .ioctl .logOn :: es) = .ok dev)
    {access : List (Bool × Bool)} {log : List (DiskWrite Payload)}
    (hfetch : getWrapperLog access dev [] = .ok (some (SUCCESS, log, dev'))) :
    log = (recordedBios true es).map bioOp := by
  obtain ⟨dev₁, hserve₁, left, hqueue, hdata, hentries⟩ := holds_of_recording hbefore hes hfresh
  obtain rfl : dev₁ = dev := Except.ok.inj (hserve₁.symm.trans hserve)
  rcases getWrapperLog_cases hqueue hdata hfetch with ⟨-, -, hlog, -⟩ | ⟨hres, -⟩
  · rw [hlog, List.nil_append, hentries]
  · exact absurd rfl hres

/-- Every disk that fsck looks at could have been left by a crash of a disk that was given
the recorded bios. -/
theorem fsck_crashImage {before : List Wrapper.Event} {t : Wrapper.Traced}
    {es : List Wrapper.Event} (hbefore : Transition.Run Wrapper.Step .init before t)
    (hes : ∀ e ∈ es, Recording e)
    (hfresh : FreshRun t.dev (.ioctl .clrLog :: .ioctl .logOn :: es)) {dev dev' : Wrapper.HwmDevice}
    (hserve : serveAll t.dev (.ioctl .clrLog :: .ioctl .logOn :: es) = .ok dev)
    {access : List (Bool × Bool)} {log : List (DiskWrite Payload)}
    (hfetch : getWrapperLog access dev [] = .ok (some (SUCCESS, log, dev'))) {u : Uninit}
    (hordinary : Ordinary ((recordedBios true es).map bioOp))
    (hapart : FlushesApart ((recordedBios true es).map bioOp))
    (hquiet : QuietStorage u ((recordedBios true es).map bioOp)) {n : ℕ}
    {p p' : Permuter Payload} {r r' : Stream' ℕ} {xs : List (Bool × List (DiskWrite Payload))}
    (hcalls : Permuter.crashStates genOneState n (p.initDataVector u log) r = some ((xs, p'), r'))
    {x : ℕ → Round} (hx : ∀ k < n, xs[k]? = some ((x k).newState, (x k).permutes))
    {base : Content} {capacity : ℕ} (humount : ∀ k < n, ¬ (x k).LeavesMounted base capacity)
    (content : Content) (diskMounted : Bool) :
    ∀ e ∈ (lastState (testCheckRandomPermutations base capacity n x content diskMounted)).events,
      e.access = .fsck →
      CrashImage Extent.write base (commands ((recordedBios true es).map bioOp)) e.content := by
  obtain rfl := fetched_log hbefore hes hfresh hserve hfetch
  intro e he hfsck
  obtain ⟨hround, hcontent⟩ := fsck_content humount content diskMounted he hfsck
  have hmem := List.mem_of_getElem? (hx e.round hround)
  rw [hcontent]
  exact crashImages_replayed hordinary hapart hquiet hcalls _ hmem base

def quietRound (y : Bool × List (DiskWrite Payload)) : Round where
  newState := y.1
  permutes := y.2
  openOk := true
  restoreOk := true
  writes := List.replicate 4 (.accepted 1)
  fsckReturn := 0
  fsckWrites := id
  mountOk := true
  checkReturn := 0
  checkError := 0
  checkWrites := id
  umountOk := true
  mountedWrites := fun _ => id

theorem quietRound_unmounted (base : Content) (capacity : ℕ) (y : Bool × List (DiskWrite Payload)) :
    ¬ (quietRound y).LeavesMounted base capacity := by
  rintro ⟨-, -, -, -, hfails⟩
  cases hfails

theorem twoWrites_ordinary : Ordinary ((recordedBios true twoWrites).map bioOp) :=
  ⟨by decide, by decide⟩

theorem twoWrites_apart : FlushesApart ((recordedBios true twoWrites).map bioOp) := by
  intro i w w' hw hs hw'
  match i with
  | 0 =>
    obtain rfl : _ = w := Option.some.inj hw
    exact absurd hs (by decide)
  | i + 1 => cases hw'

theorem twoWrites_quiet : QuietStorage default ((recordedBios true twoWrites).map bioOp) := by
  intro b w _ _
  have hdefault : (default : Uninit).flagHalf b = default := rfl
  rw [hdefault]
  decide

/-- Two rounds on the recording of a write and a flush. -/
theorem fsck_crashImage_twoWrites : ∃ xs p' r' log,
    Permuter.crashStates genOneState 2 ((Permuter.new Payload).initDataVector default log)
      (Stream'.const 0) = some ((xs, p'), r') ∧
    ∀ e ∈ (lastState (testCheckRandomPermutations (fun _ => 0) 4096 2
        (fun k => quietRound (xs.getD k (false, []))) (fun _ => 0) false)).events,
      e.access = .fsck → CrashImage Extent.write (fun _ => 0)
        (commands ((recordedBios true twoWrites).map bioOp)) e.content := by
  obtain ⟨dev, hserve, left, hqueue, hdata, hentries⟩ :=
    holds_of_recording (.nil Wrapper.Traced.init) twoWrites_recording twoWrites_fresh
  have htwo : left.length = 2 := by
    have hlen := congrArg List.length hentries
    rwa [Wrapper.Nodes.entries, List.length_map, List.length_map, List.length_map] at hlen
  have hmany : min left.length (turnsBefore (List.replicate 3 (true, true))) <
      (List.replicate 3 (true, true)).length := by
    rw [htwo]
    decide
  obtain ⟨res, log, dev', hfetch⟩ := exists_getWrapperLog hqueue hdata hmany []
  rcases getWrapperLog_cases hqueue hdata hfetch with ⟨rfl, -, hlog, -⟩ | ⟨-, hlen, -⟩
  · have hnil : initDataVector default log ≠ [] := by
      rw [Ne, initDataVector_eq_nil_iff, hlog, List.nil_append, hentries]
      exact List.cons_ne_nil _ _
    obtain ⟨⟨⟨xs, p'⟩, r'⟩, hcalls⟩ :=
      exists_crashStates (initDataVector_ops_ne_nil default log) hnil 2 ∅ (Stream'.const 0)
    have hlength := crashStates_length hcalls
    refine ⟨xs, p', r', log, hcalls, ?_⟩
    apply fsck_crashImage (.nil Wrapper.Traced.init) twoWrites_recording twoWrites_fresh hserve
      hfetch twoWrites_ordinary twoWrites_apart twoWrites_quiet (p := Permuter.new Payload) hcalls
    · intro k hk
      rw [List.getD_eq_getElem _ _ (by omega), List.getElem?_eq_getElem (by omega)]
      rfl
    · exact fun k _ => quietRound_unmounted _ _ _
  · rw [htwo] at hlen
    exact absurd hlen (by decide)

end CrashMonkey
