import CrashMonkey.Harness.ClassLoader

namespace CrashMonkey.Resources

open Communication

def LoadedClass.load : LoadedClass → TesterOp
  | .test => .testLoadClass
  | .permuter => .permuterLoadClass

/-- The class was loaded, and no cleanup has followed. -/
def loadedAfter (ops : List TesterOp) (c : LoadedClass) : Bool :=
  ops.contains c.load && !ops.contains .cleanupHarness

/-- Main goes on after a setup that has failed. -/
def SetupFailed (ops : List TesterOp) : Prop := [.testSetup, .cleanupHarness] <:+: ops

instance (ops : List TesterOp) : Decidable (SetupFailed ops) :=
  inferInstanceAs (Decidable (_ <:+: _))

def basics : List TesterOp :=
  [.insertCowBrd, .testLoadClass, .permuterLoadClass, .updateDirtyExpireTime]

def sane (ops : List TesterOp) : Bool :=
  !(decide (SetupFailed ops)) || !ops.contains .testCheckRandomPermutations

def mayReturn (ops : List TesterOp) : Bool :=
  sane ops && (ops == basics || (!loadedAfter ops .test && !loadedAfter ops .permuter))

/-- A class is loaded once, main tests with both, and the run has a test case unless the
setup has failed. -/
def usable (ops : List TesterOp) (onFailure : OnFailure) : TesterOp → Bool
  | .testLoadClass => onFailure == .cleanupExit && !loadedAfter ops .test &&
      !ops.contains .cleanupHarness
  | .permuterLoadClass => onFailure == .cleanupExit && !loadedAfter ops .permuter &&
      !ops.contains .cleanupHarness
  | .testSetup => loadedAfter ops .test
  | .testRun => onFailure == .cleanupExit && (loadedAfter ops .test == !(decide (SetupFailed ops)))
  | .testCheckRandomPermutations => loadedAfter ops .test && loadedAfter ops .permuter
  | .cleanupHarness => onFailure == .ignore
  | _ => true

def goesOnWith (ops : List TesterOp) (onFailure : OnFailure) (op : TesterOp) :
    List (List TesterOp) :=
  -- the child process has no test case to run
  if op == .testRun && !loadedAfter ops .test then []
  else if onFailure == .cleanup then [ops ++ [op], ops ++ [op, .cleanupHarness]]
  else [ops ++ [op]]

/-- What main still has to do goes with the operations it has run. -/
def fits : List Instr → List TesterOp → Bool
  | [], ops => mayReturn ops && !(decide (SetupFailed ops))
  | .run op onFailure :: todo, ops =>
    sane ops && usable ops onFailure op &&
      (onFailure != .exit || mayReturn (ops ++ [op])) &&
      (onFailure != .cleanupExit || mayReturn (ops ++ [op, .cleanupHarness])) &&
      (goesOnWith ops onFailure op).all fun ops => fits todo ops
  | instr :: todo, ops =>
    sane ops && mayReturn (ops ++ [.cleanupHarness]) &&
      (match instr with
        | .check _ => mayReturn ops
        | .initSocket => mayReturn ops
        | _ => true) && fits todo ops

theorem fits_program (o : Options) : fits (program o) [] = true := by
  simp only [program, setUpBasics, createBaseImage, recordWorkload, runTests]
  -- the options decide which instructions there are
  cases o.background <;> cases o.dryRun <;> by_cases hload : o.logFileLoad = "" <;>
    by_cases hsave : o.logFileSave = "" <;> simp [hload, hsave] <;> rfl

section Main

variable {s t : MainState} {x : CallResults} {code : Int}

theorem sendCommand_exitCode {c : CmCommand} {e : SocketError}
    (h : s.sendCommand c = .ok (e, t)) : t.exitCode = s.exitCode := by
  obtain ⟨sock, -, h⟩ := Transition.bind_eq_ok.mp h
  obtain ⟨⟨e', connections⟩, -, h⟩ := Transition.bind_eq_ok.mp h
  cases h
  rfl

theorem refuse_exitCode (hs : s.exitCode = none) (h : s.refuse = .ok t)
    (hexit : t.exitCode = some code) :
    operations t = operations s ++ [.cleanupHarness] ∧ code = -1 := by
  obtain ⟨⟨e, u⟩, hsend, h⟩ := Transition.bind_eq_ok.mp h
  obtain ⟨hoperations, -⟩ := sendCommand_spec hsend
  have hu := sendCommand_exitCode hsend
  dsimp only at h
  split_ifs at h
  · cases h
    obtain rfl := Option.some.inj hexit
    exact ⟨(operations_cleanup _).trans (congrArg (· ++ _) hoperations), rfl⟩
  · obtain ⟨sock', -, h⟩ := Transition.bind_eq_ok.mp h
    cases h
    exact absurd (hexit.symm.trans (hu.trans hs)) nofun

theorem waitLoop_exitCode {c : CmCommand} {todo : List Instr} {accepted : Option Client}
    (hs : s.exitCode = none) (h : s.waitLoop c todo accepted = .ok t)
    (hexit : t.exitCode = some code) :
    operations t = operations s ++ [.cleanupHarness] ∧ code = -1 := by
  obtain ⟨sock, -, h⟩ := Transition.bind_eq_ok.mp h
  obtain ⟨⟨e, command, sock', connections⟩, -, h⟩ := Transition.bind_eq_ok.mp h
  let u := { s with backgroundCom := some sock', command, connections }.log [.waited e]
  have hu : operations u = operations s := (operations_log _ _).trans (List.append_nil _)
  dsimp only at h
  split_ifs at h
  · cases h
    obtain rfl := Option.some.inj hexit
    exact ⟨(operations_cleanup _).trans (congrArg (· ++ _) hu), rfl⟩
  · cases h
    exact absurd (hexit.symm.trans hs) nofun
  · rw [← hu]
    exact refuse_exitCode (s := u) hs h hexit

/-- Main returns without an operation at its end, after a check or `Init` that has failed,
and after the cleanup that follows on an error of the socket. -/
theorem step_exitCode (hnext : nextOp s = none) (h : MainStep s x t)
    (hexit : t.exitCode = some code) :
    (operations t = operations s ∧ s.todo = [] ∧ code = 0) ∨
      (operations t = operations s ∧ code = -1 ∧
        ∃ todo, s.todo = .check false :: todo ∨ s.todo = .initSocket :: todo) ∨
      operations t = operations s ++ [.cleanupHarness] ∧ s.todo ≠ [] ∧ code = -1 := by
  have hs := h.exitCode_eq_none
  rw [MainStep, MainState.step, if_neg (by simp [hs])] at h
  generalize htodo : s.todo = instrs at h ⊢
  rw [nextOp, htodo] at hnext
  cases instrs with
  | nil =>
    cases h
    exact .inl ⟨rfl, rfl, (Option.some.inj hexit).symm⟩
  | cons instr todo =>
    cases instr with
    | check ok =>
      cases h
      cases ok with
      | true => exact absurd (hexit.symm.trans hs) (Option.some_ne_none code)
      | false => exact .inr (.inl ⟨rfl, (Option.some.inj hexit).symm, todo, .inl rfl⟩)
    | run op onFailure => cases hnext
    | initSocket =>
      dsimp only at h
      split_ifs at h <;> cases h
      · exact .inr (.inl ⟨rfl, (Option.some.inj hexit).symm, todo, .inr rfl⟩)
      · exact absurd (hexit.symm.trans hs) (Option.some_ne_none code)
    | waitFor c =>
      obtain ⟨hoperations, hcode⟩ := waitLoop_exitCode hs h hexit
      exact .inr (.inr ⟨hoperations, List.cons_ne_nil _ _, hcode⟩)
    | sendCommand c =>
      obtain ⟨⟨e, u⟩, hsend, h⟩ := Transition.bind_eq_ok.mp h
      obtain ⟨hoperations, -⟩ := sendCommand_spec hsend
      have hu := sendCommand_exitCode hsend
      cases h
      split_ifs at hexit ⊢
      · obtain rfl := Option.some.inj hexit
        exact .inr (.inr
          ⟨(operations_cleanup _).trans (congrArg (· ++ _) hoperations),
            List.cons_ne_nil _ _, rfl⟩)
      · exact absurd (hexit.symm.trans (hu.trans hs)) (Option.some_ne_none code)
    | closeClient =>
      obtain ⟨sock, -, h⟩ := Transition.bind_eq_ok.mp h
      cases h
      exact absurd (hexit.symm.trans hs) (Option.some_ne_none code)
    | deleteSocket =>
      obtain ⟨sock, -, h⟩ := Transition.bind_eq_ok.mp h
      cases h
      exact absurd (hexit.symm.trans hs) (Option.some_ne_none code)

theorem run_exitCode (op : TesterOp) (onFailure : OnFailure) (ok : Bool) (s : MainState) :
    (s.run op onFailure ok).exitCode =
      if ok = false ∧ (onFailure = .exit ∨ onFailure = .cleanupExit) then some (-1)
      else s.exitCode := by
  unfold MainState.run
  cases ok <;> cases onFailure <;> rfl

theorem run_todo (op : TesterOp) (onFailure : OnFailure) (ok : Bool) (s : MainState) :
    (s.run op onFailure ok).todo = s.todo := by
  unfold MainState.run
  cases ok <;> cases onFailure <;> rfl

end Main

section Histories

variable {ops : List TesterOp} {op : TesterOp} {c : LoadedClass}

@[simp] theorem loadedAfter_cleanup (ops : List TesterOp) (c : LoadedClass) :
    loadedAfter (ops ++ [.cleanupHarness]) c = false := by simp [loadedAfter]

theorem loadedAfter_load (h : ops.contains .cleanupHarness = false) :
    loadedAfter (ops ++ [c.load]) c = true := by
  cases c <;> simp_all [loadedAfter, LoadedClass.load]

theorem loadedAfter_other (hload : op ≠ c.load) (hcleanup : op ≠ .cleanupHarness) :
    loadedAfter (ops ++ [op]) c = loadedAfter ops c := by
  simp [loadedAfter, hload.symm, hcleanup.symm]

theorem usable_load {onFailure : OnFailure} (h : usable ops onFailure c.load = true) :
    onFailure = .cleanupExit ∧ loadedAfter ops c = false ∧
      ops.contains .cleanupHarness = false := by
  cases c <;> simpa [usable, LoadedClass.load, and_assoc] using h

theorem SetupFailed.append (h : SetupFailed ops) (ops' : List TesterOp) :
    SetupFailed (ops ++ ops') := h.trans (List.infix_append' [] ops ops')

theorem usable_run {onFailure : OnFailure} (h : usable ops onFailure .testRun = true) :
    onFailure = .cleanupExit ∧ (loadedAfter ops .test = false ↔ SetupFailed ops) := by
  rw [usable, Bool.and_eq_true, beq_iff_eq, beq_iff_eq] at h
  rw [h.2, Bool.not_eq_false', decide_eq_true_iff]
  exact ⟨h.1, Iff.rfl⟩

end Histories

def RunsUnloaded (s : Session) (x : SessionCalls) (op : TesterOp) : Prop :=
  op = .testRun ∧ x.forked = true ∧ SetupFailed (operations s.harness.main)

instance (s : Session) (x : SessionCalls) (op : TesterOp) : Decidable (RunsUnloaded s x op) :=
  inferInstanceAs (Decidable (_ ∧ _ ∧ _))

/-- The loaders hold what main has loaded, what main still has to do goes with that, and
when it has returned it was free to. -/
structure Keeping (s : Session) : Prop where
  accounted : Accounted s
  loaded : ∀ c, (s.loader c).Is (loadedAfter (operations s.harness.main) c)
  goesOn : s.harness.main.exitCode = none →
    fits s.harness.main.todo (operations s.harness.main) = true
  returned : ∀ code, s.harness.main.exitCode = some code →
    mayReturn (operations s.harness.main) = true ∧
      (code = 0 → ¬ SetupFailed (operations s.harness.main))
  killed : s.killed = [] ∨ s.killed = [.testRun] ∧
    SetupFailed (operations s.harness.main) ∧ s.harness.main.exitCode = some (-1)

section Steps

variable {s t : Session} {x : SessionCalls}

theorem keeping_start (o : Options) (testDev : String) : Keeping (.start o testDev) where
  accounted := ⟨fun _ _ h => absurd h (Finset.notMem_empty _), rfl⟩
  loaded := fun c => by cases c <;> rfl
  goesOn := fun _ => fits_program o
  returned := nofun
  killed := .inl rfl

structure Prepared (s : Session) (x : SessionCalls) (op : TesterOp) (ok : Bool)
    (t : Session) : Prop where
  accounted : Accounted t
  harness : t.harness = s.harness
  loaded : ∃ loaded : LoadedClass → Bool, ∀ c, (t.loader c).Is (loaded c)
  /-- Main does not go on if a class could not be loaded. -/
  goesOn : (∀ c : LoadedClass, op = c.load → ok = true) →
    ∀ c, (t.loader c).Is (loadedAfter (operations s.harness.main ++ [op]) c)
  absent : op = .testRun → loadedAfter (operations s.harness.main) .test = false → ok = false
  killed : t.killed = s.killed ++ if RunsUnloaded s x op then [.testRun] else []

theorem Keeping.loadClass (h : Keeping s) {c : LoadedClass} {onFailure : OnFailure}
    (husable : usable (operations s.harness.main) onFailure c.load = true) (x : SessionCalls) :
    Prepared s x c.load (decide ((s.loadClass c x.load).1 = SUCCESS)) (s.loadClass c x.load).2 := by
  obtain ⟨-, hempty, hcleanup⟩ := usable_load husable
  obtain ⟨ht, hharness, hother, hown⟩ := h.accounted.loadClass (hempty ▸ h.loaded c) x.load
  have hrun : c.load ≠ .testRun := by cases c <;> decide
  have hothers : ∀ d ≠ c, ((s.loadClass c x.load).2.loader d).Is
      (loadedAfter (operations s.harness.main ++ [c.load]) d) := by
    intro d hd
    rw [hother d hd, loadedAfter_other (by cases c <;> cases d <;> simp_all [LoadedClass.load])
      (by cases c <;> decide)]
    exact h.loaded d
  refine ⟨ht, hharness, ⟨Function.update (loadedAfter (operations s.harness.main ++ [c.load])) c
    (decide ((s.loadClass c x.load).1 = SUCCESS)), fun d => ?_⟩, fun hok d => ?_,
    fun hop => absurd hop hrun, ?_⟩
  · by_cases hd : d = c
    · subst hd
      rwa [Function.update_self]
    · rw [Function.update_of_ne hd]
      exact hothers d hd
  · by_cases hd : d = c
    · subst hd
      rw [hok d rfl] at hown
      rwa [loadedAfter_load hcleanup]
    · exact hothers d hd
  · rw [if_neg fun hruns => hrun hruns.1, List.append_nil]
    rfl

/-- An operation that leaves the loaders alone. -/
theorem Keeping.same (h : Keeping s) {op : TesterOp} {ok : Bool} {killed : List TesterOp}
    (hload : ∀ c : LoadedClass, op ≠ c.load) (hcleanup : op ≠ .cleanupHarness)
    (habsent : op = .testRun → loadedAfter (operations s.harness.main) .test = false → ok = false)
    (hkilled : killed = s.killed ++ if RunsUnloaded s x op then [.testRun] else []) :
    Prepared s x op ok { s with killed } where
  accounted := ⟨h.accounted.keeps, h.accounted.after⟩
  harness := rfl
  loaded := ⟨_, h.loaded⟩
  goesOn := fun _ c => by
    rw [loadedAfter_other (hload c) hcleanup]
    exact h.loaded c
  absent := habsent
  killed := hkilled

/-- An operation other than the run. -/
theorem Keeping.unchanged (h : Keeping s) {op : TesterOp} (ok : Bool)
    (hload : ∀ c : LoadedClass, op ≠ c.load) (hcleanup : op ≠ .cleanupHarness)
    (hrun : op ≠ .testRun) : Prepared s x op ok s := by
  have hkilled : s.killed = s.killed ++ if RunsUnloaded s x op then [.testRun] else [] := by
    rw [if_neg fun hruns => hrun hruns.1, List.append_nil]
  exact h.same hload hcleanup (fun hop => absurd hop hrun) hkilled

/-- Main has a test case for the run exactly if the setup has not failed. -/
theorem Keeping.callTest_run (h : Keeping s) {onFailure : OnFailure}
    (husable : usable (operations s.harness.main) onFailure .testRun = true) :
    Prepared s x .testRun (s.callTest .testRun x).1 (s.callTest .testRun x).2 := by
  have hload : ∀ c : LoadedClass, .testRun ≠ c.load := fun c => by cases c <;> decide
  have hfailed := (usable_run husable).2
  have hisSome := (h.loaded .test).isSome
  rw [Session.callTest]
  split_ifs with hforked
  · split
    · rename_i object hobject
      rw [hobject, Option.isSome_some] at hisSome
      refine h.same hload (by decide) (fun _ hnot => absurd (hisSome.trans hnot) nofun) ?_
      rw [if_neg, List.append_nil]
      rintro ⟨-, -, hsetup⟩
      exact absurd (hisSome.trans (hfailed.mpr hsetup)) nofun
    · rename_i hobject
      rw [hobject, Option.isSome_none] at hisSome
      refine h.same hload (by decide) (fun _ _ => rfl) ?_
      rw [if_pos ⟨rfl, hforked, hfailed.mp hisSome.symm⟩]
  · refine h.same hload (by decide) (fun _ _ => rfl) ?_
    rw [if_neg (fun hruns => hforked hruns.2.1), List.append_nil]

/-- An operation that main may run calls through no null pointer in main itself. -/
theorem Keeping.classOp (h : Keeping s) {op : TesterOp} {onFailure : OnFailure}
    (husable : usable (operations s.harness.main) onFailure op = true) :
    ∃ ok t, s.classOp x op = .ok (ok, t) ∧ Prepared s x op ok t := by
  cases op with
  | testLoadClass => exact ⟨_, _, rfl, h.loadClass (c := .test) husable x⟩
  | permuterLoadClass => exact ⟨_, _, rfl, h.loadClass (c := .permuter) husable x⟩
  | testSetup =>
    obtain ⟨i, hi⟩ := Option.isSome_iff_exists.mp ((h.loaded .test).isSome.trans husable)
    have hcall : s.callTest .testSetup x = (x.forked && x.harness.calls.ok, s) := by
      rw [Session.callTest, hi]
      cases x.forked <;> rfl
    exact ⟨_, _, congrArg Except.ok hcall,
      h.unchanged _ (fun c => by cases c <;> decide) (by decide) (by decide)⟩
  | testRun => exact ⟨_, _, rfl, h.callTest_run husable⟩
  | testCheckRandomPermutations =>
    rw [usable, Bool.and_eq_true] at husable
    obtain ⟨i, hi⟩ := Option.isSome_iff_exists.mp ((h.loaded .test).isSome.trans husable.1)
    obtain ⟨j, hj⟩ := Option.isSome_iff_exists.mp ((h.loaded .permuter).isSome.trans husable.2)
    exact ⟨x.harness.calls.ok, s, by rw [Session.classOp, hi, hj],
      h.unchanged _ (fun c => by cases c <;> decide) (by decide) (by decide)⟩
  | cleanupHarness =>
    obtain ⟨t, hunload, ht, hharness, hkilled, hempty⟩ := h.accounted.unloadClasses h.loaded
    refine ⟨x.harness.calls.ok, t, ?_, ht, hharness, ⟨_, hempty⟩, fun _ c => ?_,
      fun hop => absurd hop (by decide), ?_⟩
    · rw [Session.classOp, hunload]
      rfl
    · rw [loadedAfter_cleanup]
      exact hempty c
    · rw [hkilled, if_neg (fun hruns => absurd hruns.1 (by decide)), List.append_nil]
  | _ =>
    exact ⟨_, _, rfl, h.unchanged _ (fun c => by cases c <;> decide) (by decide) (by decide)⟩

/-- The rest of a step, after the part that the classes have in its operation. -/
theorem Session.step_eq (hexit : s.harness.main.exitCode = none) {ok : Bool}
    (hoperate : s.operate x = .ok (ok, t)) :
    s.step x = ((s.harness.step { x.harness with calls := { x.harness.calls with ok } }).mapError
      .main).bind fun harness => if CleansUp s.harness.main harness.main
        then ({ t with harness } : Session).unloadClasses else .ok { t with harness } := by
  have hgoes : ¬ s.harness.main.exitCode.isSome := by simp [hexit]
  rw [Session.step, if_neg hgoes, hoperate]
  rfl

theorem fits_run {op : TesterOp} {onFailure : OnFailure} {todo : List Instr}
    {ops : List TesterOp} (h : fits (.run op onFailure :: todo) ops = true) :
    usable ops onFailure op = true ∧ (onFailure = .exit → mayReturn (ops ++ [op]) = true) ∧
      (onFailure = .cleanupExit → mayReturn (ops ++ [op, .cleanupHarness]) = true) ∧
      ∀ ops' ∈ goesOnWith ops onFailure op, fits todo ops' = true := by
  simp only [fits, Bool.and_eq_true, List.all_eq_true] at h
  obtain ⟨⟨⟨⟨-, husable⟩, hexit⟩, hcleanup⟩, hgoes⟩ := h
  refine ⟨husable, ?_, ?_, hgoes⟩
  · rintro rfl
    simpa using hexit
  · rintro rfl
    simpa using hcleanup

theorem fits_other {s : MainState} (hnext : nextOp s = none) {ops : List TesterOp}
    (h : fits s.todo ops = true) (hne : s.todo ≠ []) :
    mayReturn (ops ++ [.cleanupHarness]) = true ∧ fits s.todo.tail ops = true ∧
      ((∃ todo, s.todo = .check false :: todo ∨ s.todo = .initSocket :: todo) →
        mayReturn ops = true) := by
  rw [nextOp] at hnext
  generalize s.todo = todo at h hnext hne
  cases todo with
  | nil => exact absurd rfl hne
  | cons instr todo =>
    cases instr <;> simp_all [fits]

/-- The child process and the loaders decide alone whether these operations succeed. -/
theorem runOp_ok (y : HarnessCalls) (u : Tester) {op : TesterOp}
    (hop : op = .testRun ∨ ∃ c : LoadedClass, op = c.load) :
    decide ((runOp y u op).1 = SUCCESS) = y.calls.ok := by
  have hdecide : decide ((if y.calls.ok then SUCCESS else -1) = SUCCESS) = y.calls.ok := by
    cases y.calls.ok <;> decide
  rcases hop with rfl | ⟨c, rfl⟩
  · exact hdecide
  · cases c <;> exact hdecide

theorem Accounted.setHarness (h : Accounted s) (harness : Harness) :
    Accounted { s with harness } := ⟨h.keeps, h.after⟩

/-- A step that ends with a cleanup. -/
theorem Keeping.of_cleanup (ht : Accounted t) (hloaded : ∃ loaded : LoadedClass → Bool,
      ∀ c, (t.loader c).Is (loaded c)) {ops : List TesterOp}
    (hops : operations t.harness.main = ops ++ [.cleanupHarness])
    (hgoes : t.harness.main.exitCode = none →
      fits t.harness.main.todo (operations t.harness.main) = true)
    (hreturns : ∀ code, t.harness.main.exitCode = some code →
      mayReturn (operations t.harness.main) = true ∧ code ≠ 0)
    (hkilled : t.killed = [] ∨ t.killed = [.testRun] ∧
      SetupFailed (operations t.harness.main) ∧ t.harness.main.exitCode = some (-1)) :
    ∃ u, t.unloadClasses = .ok u ∧ u.killed = t.killed ∧ Keeping u := by
  obtain ⟨loaded, hloaded⟩ := hloaded
  obtain ⟨u, hunload, hu, hharness, hkilled', hempty⟩ := ht.unloadClasses hloaded
  refine ⟨u, hunload, hkilled', hu, fun c => ?_, ?_, fun code hexit => ?_, ?_⟩
  · rw [hharness, hops, loadedAfter_cleanup]
    exact hempty c
  · rwa [hharness]
  · rw [hharness] at hexit ⊢
    exact ⟨(hreturns code hexit).1, fun hcode => absurd hcode (hreturns code hexit).2⟩
  · rwa [hkilled', hharness]

theorem Keeping.killed_of_running (h : Keeping s) (hexit : s.harness.main.exitCode = none) :
    s.killed = [] :=
  h.killed.resolve_right fun hkilled => absurd (hexit.symm.trans hkilled.2.2) nofun

theorem Keeping.step_other (h : Keeping s) (x : SessionCalls)
    (hexit : s.harness.main.exitCode = none) (hnext : nextOp s.harness.main = none) :
    (∃ f, s.step x = .error (.main f)) ∨
      ∃ t, s.step x = .ok t ∧ t.killed = s.killed ∧ Keeping t := by
  have hfits := h.goesOn hexit
  have hkilled := h.killed_of_running hexit
  have hoperate : s.operate x = .ok (x.harness.calls.ok, s) := by rw [Session.operate, hnext]
  rw [Session.step_eq hexit hoperate]
  cases hstep : s.harness.step x.harness with
  | error f => exact .inl ⟨f, rfl⟩
  | ok harness =>
    right
    have hmain := (HarnessStep.other hstep hnext).1
    simp only [Except.mapError, Except.bind]
    obtain ⟨e, -, ⟨⟨hops, -, htodo⟩, -⟩ | ⟨⟨hops, -, hreturn⟩, -⟩⟩ := step_cases hnext hmain
    · have hcleanup : ¬ CleansUp s.harness.main harness.main := by
        rw [CleansUp, hops]
        simp
      rw [if_neg hcleanup]
      refine ⟨_, rfl, rfl, h.accounted.setHarness harness, fun c => ?_, fun hnone => ?_,
        fun code hcode => ?_, .inl hkilled⟩
      · rw [hops]
        exact h.loaded c
      · rw [hops]
        by_cases hnil : s.harness.main.todo = []
        · rw [hnil] at htodo hfits
          rw [show harness.main.todo = [] from htodo.elim id id]
          exact hfits
        · rcases htodo with htodo | htodo <;> rw [htodo]
          · exact hfits
          · exact (fits_other hnext hfits hnil).2.1
      · rw [hops]
        rcases step_exitCode hnext hmain hcode with
          ⟨-, hnil, rfl⟩ | ⟨-, rfl, todo, hinstr⟩ | ⟨hops', -⟩
        · rw [hnil, fits, Bool.and_eq_true, Bool.not_eq_true', decide_eq_false_iff_not] at hfits
          exact ⟨hfits.1, fun _ => hfits.2⟩
        · have hne : s.harness.main.todo ≠ [] := by
            rcases hinstr with hinstr | hinstr <;> rw [hinstr] <;> exact List.cons_ne_nil _ _
          refine ⟨(fits_other hnext hfits hne).2.2 ⟨todo, hinstr⟩, fun hzero => ?_⟩
          exact absurd hzero (by decide)
        · rw [hops] at hops'
          simp at hops'
    · have hcleanup : CleansUp s.harness.main harness.main := by
        rw [CleansUp, hops, hnext]
        rfl
      rw [if_pos hcleanup]
      have hne : s.harness.main.todo ≠ [] := by
        rcases step_exitCode hnext hmain hreturn with ⟨hsame, -⟩ | ⟨hsame, -⟩ | ⟨-, hne, -⟩
        · simp [hsame] at hops
        · simp [hsame] at hops
        · exact hne
      refine Keeping.of_cleanup (t := { s with harness }) (h.accounted.setHarness harness)
        ⟨_, h.loaded⟩ hops (fun hnone => ?_) (fun code hcode => ?_) (.inl hkilled)
      · rw [hreturn] at hnone
        cases hnone
      · rw [hops]
        rw [hreturn] at hcode
        obtain rfl := Option.some.inj hcode
        exact ⟨(fits_other hnext hfits hne).1, by decide⟩

theorem goesOnWith_success {ops : List TesterOp} {onFailure : OnFailure} {op : TesterOp}
    (h : op = .testRun → loadedAfter ops .test = true) :
    ops ++ [op] ∈ goesOnWith ops onFailure op := by
  unfold goesOnWith
  split_ifs with habsent
  · simp only [Bool.and_eq_true, beq_iff_eq, Bool.not_eq_true'] at habsent
    rw [h habsent.1] at habsent
    cases habsent.2
  · exact List.mem_cons_self
  · exact List.mem_cons_self

/-- A failure that main cleans up after. -/
theorem Prepared.of_failure {op : TesterOp} {onFailure : OnFailure} {ok : Bool}
    (h : Prepared s x op ok t) (hexit : s.harness.main.exitCode = none)
    (hkilled : s.killed = []) {todo : List Instr}
    (hfits : fits (.run op onFailure :: todo) (operations s.harness.main) = true)
    (hfailure : onFailure = .cleanup ∨ onFailure = .cleanupExit) {harness : Harness}
    (hmain : harness.main = { s.harness.main with todo }.run op onFailure false) :
    ∃ u, ({ t with harness } : Session).unloadClasses = .ok u ∧ u.killed = t.killed ∧
      Keeping u := by
  obtain ⟨husable, -, hmayReturn, hgoes⟩ := fits_run hfits
  have hops := operations_run op onFailure false { s.harness.main with todo }
  have hcode := run_exitCode op onFailure false { s.harness.main with todo }
  have hrest := run_todo op onFailure false { s.harness.main with todo }
  rw [← hmain] at hops hcode hrest
  rw [if_pos ⟨rfl, hfailure⟩] at hops
  refine Keeping.of_cleanup (t := { t with harness }) (h.accounted.setHarness harness) h.loaded
    (hops.trans (List.append_cons (operations s.harness.main) op _)) (fun hnone => ?_)
    (fun code hreturn => ?_) ?_
  · have hcleanup : onFailure = .cleanup := by
      refine hfailure.resolve_right fun hexits => ?_
      rw [if_pos ⟨rfl, .inr hexits⟩] at hcode
      exact absurd (hcode.symm.trans hnone) nofun
    have hrun : op ≠ .testRun := by
      rintro rfl
      exact absurd (hcleanup.symm.trans (usable_run husable).1) nofun
    show fits harness.main.todo (operations harness.main) = true
    rw [hrest, hops]
    refine hgoes _ ?_
    rw [goesOnWith, if_neg (by simp [hrun]), hcleanup]
    exact List.mem_cons_of_mem _ List.mem_cons_self
  · split_ifs at hcode with hexits
    · have hfailure' : onFailure = .cleanupExit := by
        rcases hfailure with rfl | hfailure
        · rcases hexits.2 with hexits | hexits <;> cases hexits
        · exact hfailure
      obtain rfl := Option.some.inj (hcode.symm.trans hreturn)
      refine ⟨?_, by decide⟩
      show mayReturn (operations harness.main) = true
      rw [hops]
      exact hmayReturn hfailure'
    · exact absurd (hreturn.symm.trans (hcode.trans hexit)) nofun
  · show t.killed = [] ∨ t.killed = [.testRun] ∧ SetupFailed (operations harness.main) ∧
      harness.main.exitCode = some (-1)
    rw [h.killed, hkilled, List.nil_append]
    split_ifs with hruns
    · obtain ⟨rfl, -, hsetup⟩ := hruns
      refine .inr ⟨rfl, ?_, ?_⟩
      · rw [hops]
        exact hsetup.append _
      · rw [hcode, if_pos ⟨rfl, .inr (usable_run husable).1⟩]
    · exact .inl rfl

/-- An operation that succeeds, or a failure that main does not clean up after. -/
theorem Prepared.of_goesOn {op : TesterOp} {onFailure : OnFailure} {ok res : Bool}
    (h : Prepared s x op ok t) (hexit : s.harness.main.exitCode = none)
    (hkilled : s.killed = []) {todo : List Instr}
    (hfits : fits (.run op onFailure :: todo) (operations s.harness.main) = true)
    (hgoesOn : ¬ (res = false ∧ (onFailure = .cleanup ∨ onFailure = .cleanupExit)))
    (hok : (op = .testRun ∨ ∃ c : LoadedClass, op = c.load) → res = ok) {harness : Harness}
    (hmain : harness.main = { s.harness.main with todo }.run op onFailure res) :
    Keeping { t with harness } := by
  obtain ⟨husable, hmayReturn, -, hgoes⟩ := fits_run hfits
  have hloaded : op = .testRun → loadedAfter (operations s.harness.main) .test = true := by
    rintro rfl
    by_contra habsent
    have hres := hok (.inl rfl)
    rw [h.absent rfl (Bool.not_eq_true _ ▸ habsent)] at hres
    exact hgoesOn ⟨hres, .inr (usable_run husable).1⟩
  have hops := operations_run op onFailure res { s.harness.main with todo }
  have hcode := run_exitCode op onFailure res { s.harness.main with todo }
  have hrest := run_todo op onFailure res { s.harness.main with todo }
  rw [← hmain] at hops hcode hrest
  rw [if_neg hgoesOn] at hops
  have hsuccess : onFailure = .cleanupExit → res = true := by
    intro hfailure
    by_contra hres
    exact hgoesOn ⟨Bool.not_eq_true _ ▸ hres, .inr hfailure⟩
  refine ⟨h.accounted.setHarness harness, fun c => ?_, fun hnone => ?_, fun code hreturn => ?_,
    .inl ?_⟩
  · show (t.loader c).Is (loadedAfter (operations harness.main) c)
    rw [hops]
    refine h.goesOn (fun d hd => ?_) c
    rw [← hok (.inr ⟨d, hd⟩)]
    exact hsuccess (usable_load (hd ▸ husable)).1
  · show fits harness.main.todo (operations harness.main) = true
    rw [hrest, hops]
    exact hgoes _ (goesOnWith_success hloaded)
  · split_ifs at hcode with hexits
    · have hfailure : onFailure = .exit :=
        hexits.2.resolve_right fun hfailure => hgoesOn ⟨hexits.1, .inr hfailure⟩
      obtain rfl := Option.some.inj (hcode.symm.trans hreturn)
      refine ⟨?_, nofun⟩
      show mayReturn (operations harness.main) = true
      rw [hops]
      exact hmayReturn hfailure
    · exact absurd (hreturn.symm.trans (hcode.trans hexit)) nofun
  · show t.killed = []
    rw [h.killed, hkilled, if_neg, List.append_nil]
    rintro ⟨rfl, -, hsetup⟩
    exact absurd ((hloaded rfl).symm.trans ((usable_run husable).2.mpr hsetup)) nofun

theorem Keeping.step_op (h : Keeping s) (x : SessionCalls)
    (hexit : s.harness.main.exitCode = none) {op : TesterOp}
    (hnext : nextOp s.harness.main = some op) :
    (∃ f, s.step x = .error (.main f)) ∨ ∃ t, s.step x = .ok t ∧
      (t.killed = s.killed ++ if RunsUnloaded s x op then [.testRun] else []) ∧ Keeping t := by
  obtain ⟨onFailure, todo, htodo⟩ : ∃ onFailure todo,
      s.harness.main.todo = .run op onFailure :: todo := by
    unfold nextOp at hnext
    split at hnext
    · obtain rfl := Option.some.inj hnext
      exact ⟨_, _, ‹_›⟩
    · cases hnext
  have hfits := h.goesOn hexit
  rw [htodo] at hfits
  obtain ⟨ok, t, hclass, hprepared⟩ := h.classOp (x := x) (fits_run hfits).1
  have hoperate : s.operate x = .ok (ok, t) := by
    rw [Session.operate, hnext]
    exact hclass
  rw [Session.step_eq hexit hoperate]
  let calls := { x.harness with calls := { x.harness.calls with ok } }
  cases hstep : s.harness.step calls with
  | error f => exact .inl ⟨f, rfl⟩
  | ok harness =>
    right
    obtain ⟨onFailure', todo', htodo', hmain, -⟩ := HarnessStep.op hstep hnext
    obtain ⟨hinstr, rfl⟩ := List.cons.inj (htodo.symm.trans htodo')
    obtain ⟨-, rfl⟩ := Instr.run.inj hinstr
    generalize hres : decide ((runOp calls s.harness.tester op).1 = SUCCESS) = res at hmain
    have hcleans := cleansUp_run_iff htodo res
    rw [← hmain] at hcleans
    simp only [Except.mapError, Except.bind]
    by_cases hfailed : res = false ∧ (onFailure = .cleanup ∨ onFailure = .cleanupExit)
    · rw [if_pos (hcleans.mpr hfailed)]
      rw [hfailed.1] at hmain
      obtain ⟨u, hunload, hkilled, hu⟩ := hprepared.of_failure hexit
        (h.killed_of_running hexit) hfits hfailed.2 hmain
      exact ⟨u, hunload, hkilled.trans hprepared.killed, hu⟩
    · rw [if_neg (mt hcleans.mp hfailed)]
      exact ⟨_, rfl, hprepared.killed, hprepared.of_goesOn hexit (h.killed_of_running hexit) hfits
        hfailed (fun hop => hres.symm.trans (runOp_ok calls _ hop)) hmain⟩

end Steps

section Runs

variable {s t : Session}

theorem Keeping.step (h : Keeping s) (x : SessionCalls) :
    (∃ f, s.step x = .error (.main f)) ∨ ∃ t, s.step x = .ok t ∧
      (t.killed ≠ s.killed ↔ nextOp s.harness.main = some .testRun ∧ x.forked = true ∧
        SetupFailed (operations s.harness.main)) ∧ Keeping t := by
  cases hexit : s.harness.main.exitCode with
  | some code => exact .inl ⟨.exited, by rw [Session.step, if_pos (by simp [hexit])]⟩
  | none =>
    cases hnext : nextOp s.harness.main with
    | none =>
      refine (h.step_other x hexit hnext).imp_right fun ⟨t, hstep, hkilled, ht⟩ =>
        ⟨t, hstep, ?_, ht⟩
      rw [hkilled]
      simp
    | some op =>
      refine (h.step_op x hexit hnext).imp_right fun ⟨t, hstep, hkilled, ht⟩ =>
        ⟨t, hstep, ?_, ht⟩
      rw [hkilled, Option.some.injEq, Ne, List.append_right_eq_self]
      by_cases hruns : RunsUnloaded s x op
      · rw [if_pos hruns]
        exact iff_of_true (List.cons_ne_nil _ _) hruns
      · rw [if_neg hruns]
        exact iff_of_false (fun hne => hne rfl) hruns

theorem keeping_of_run (o : Options) (testDev : String) {xs : List SessionCalls}
    (hrun : Transition.Run SessionStep (.start o testDev) xs t) : Keeping t := by
  refine hrun.invariant (C := fun _ => True) (fun s x u hs _ hstep => ?_) (fun _ _ => trivial)
    (keeping_start o testDev)
  rcases hs.step x with ⟨f, hfault⟩ | ⟨u', hstep', -, hu⟩
  · exact absurd (hstep.symm.trans hfault) nofun
  · obtain rfl := Except.ok.inj (hstep'.symm.trans hstep)
    exact hu

theorem sane_of_fits {todo : List Instr} {ops : List TesterOp} (h : fits todo ops = true) :
    sane ops = true := by
  cases todo with
  | nil =>
    simp only [fits, mayReturn, Bool.and_eq_true] at h
    exact h.1.1
  | cons instr todo => cases instr <;> simp_all [fits]

theorem Keeping.sane (h : Keeping s) : sane (operations s.harness.main) = true := by
  cases hexit : s.harness.main.exitCode with
  | none => exact sane_of_fits (h.goesOn hexit)
  | some code =>
    have hreturn := (h.returned code hexit).1
    rw [mayReturn, Bool.and_eq_true] at hreturn
    exact hreturn.1

theorem held_eq_empty_iff {loaded : LoadedClass → Bool} (h : ∀ c, (s.loader c).Is (loaded c)) :
    held s.loader = ∅ ↔ ∀ c, loaded c = false := by
  constructor
  · intro hempty c
    by_contra hloaded
    rw [Bool.not_eq_false] at hloaded
    obtain ⟨handle, factory, defactory, object, hl⟩ := hloaded ▸ h c
    have hmem : .library c handle ∈ held s.loader := by
      rw [mem_held, Resource.owner, hl]
      exact Finset.mem_insert_self _ _
    rw [hempty] at hmem
    exact Finset.notMem_empty _ hmem
  · intro hnone
    have hempty (c : LoadedClass) : s.loader c = {} := (hnone c ▸ h c : (s.loader c).Is false)
    rw [held, hempty, hempty]
    rfl

/-- In every run the objects of both classes have their libraries as long as they exist, and
main itself uses none that does not exist. The child process that runs the workload calls
through a null pointer exactly after a setup that has failed, and then main cleans up and
returns -1. After such a setup nothing is tested and main does not return 0; and main returns
with everything unloaded, unless it is for the want of a device to take the flags from. -/
theorem classes_of_run (o : Options) (testDev : String) {xs : List SessionCalls}
    (hrun : Transition.Run SessionStep (.start o testDev) xs t) :
    Ledger.Keeps Linked ∅ t.calls ∧
      (∀ x fault, t.step x = .error fault → ∃ f, fault = .main f) ∧
      (∀ x u, t.step x = .ok u → (u.killed ≠ t.killed ↔
        nextOp t.harness.main = some .testRun ∧ x.forked = true ∧
          SetupFailed (operations t.harness.main))) ∧
      (t.killed ≠ [] → t.killed = [.testRun] ∧ t.harness.main.exitCode = some (-1)) ∧
      (SetupFailed (operations t.harness.main) →
        .testCheckRandomPermutations ∉ operations t.harness.main ∧
          t.harness.main.exitCode ≠ some 0) ∧
      ∀ code, t.harness.main.exitCode = some code →
        (Ledger.after ∅ t.calls = some ∅ ↔ operations t.harness.main ≠ basics) := by
  have h := keeping_of_run o testDev hrun
  refine ⟨h.accounted.keeps, fun x fault hfault => ?_, fun x u hstep => ?_, fun hne => ?_,
    fun hfailed => ⟨?_, fun hexit => ?_⟩, fun code hexit => ?_⟩
  · rcases h.step x with ⟨f, hf⟩ | ⟨u, hu, -⟩
    · exact ⟨f, Except.error.inj (hfault.symm.trans hf)⟩
    · exact absurd (hfault.symm.trans hu) nofun
  · rcases h.step x with ⟨f, hf⟩ | ⟨u', hu', hkilled, -⟩
    · exact absurd (hstep.symm.trans hf) nofun
    · obtain rfl := Except.ok.inj (hu'.symm.trans hstep)
      exact hkilled
  · obtain ⟨hkilled, -, hexit⟩ := h.killed.resolve_left hne
    exact ⟨hkilled, hexit⟩
  · have hsane := h.sane
    simpa [sane, hfailed] using hsane
  · exact (h.returned 0 hexit).2 rfl hfailed
  · rw [h.accounted.after, Option.some.injEq, held_eq_empty_iff h.loaded]
    have hreturn := (h.returned code hexit).1
    simp only [mayReturn, Bool.and_eq_true, Bool.or_eq_true, beq_iff_eq, Bool.not_eq_true']
      at hreturn
    constructor
    · intro hnone hbasics
      have htest := hnone .test
      rw [hbasics] at htest
      cases htest
    · intro hne c
      have hnone := hreturn.2.resolve_left hne
      cases c
      · exact hnone.1
      · exact hnone.2

/-- The setup of the test fails, the cleanup cannot unmount the disk, and main goes on to the
run, whose child process has no test case. -/
theorem classes_of_run_setupFails : ∃ xs t,
    Transition.Run SessionStep (.start standalone COW_BRD_PATH) xs t ∧
      SetupFailed (operations t.harness.main) ∧ t.killed = [.testRun] ∧
      .testCheckRandomPermutations ∉ operations t.harness.main ∧
      t.harness.main.exitCode = some (-1) ∧ Ledger.after ∅ t.calls = some ∅ := by
  let found : LoadResults := ⟨some 5, some 6, some 7, 8⟩
  let succeed (fd : ℕ) : SessionCalls :=
    ⟨{ HarnessCalls.succeed with outcomes.opened := some fd }, found, true⟩
  let busy : HarnessCalls := { HarnessCalls.fail with cleanup := HarnessCalls.fail.outcomes }
  let xs := List.replicate 10 (succeed 3) ++ ⟨busy, found, true⟩ :: List.replicate 9 (succeed 4)
  have hfold : (xs.foldlM (fun (s : Session) x => s.step x)
      (Session.start standalone COW_BRD_PATH)).map (fun t => decide
        (SetupFailed (operations t.harness.main) ∧ t.killed ≠ [] ∧
          operations t.harness.main ≠ basics)) = .ok true := by
    decide +kernel
  obtain ⟨t, hrun, ht⟩ := Transition.exists_run_of_foldlM _ _ hfold
  obtain ⟨hfailed, hne, hbasics⟩ := of_decide_eq_true ht
  obtain ⟨-, -, -, hkilled, hafter, hend⟩ := classes_of_run standalone COW_BRD_PATH hrun
  obtain ⟨hchild, hexit⟩ := hkilled hne
  exact ⟨xs, t, hrun, hfailed, hchild, (hafter hfailed).1, hexit, (hend _ hexit).mpr hbasics⟩

end Runs

end CrashMonkey.Resources
