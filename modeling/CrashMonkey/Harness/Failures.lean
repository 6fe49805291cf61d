import CrashMonkey.Harness.Descriptors
import CrashMonkey.Harness.UserTools

namespace CrashMonkey.Resources

open Communication

/-- What the calls of a step return: those of main, the commands of its operation and the
rounds of testing, and the commands of the cleanup if there is one. -/
structure HarnessCalls where
  calls : CallResults
  outcomes : Outcomes
  rounds : List RoundCalls
  cleanup : Outcomes

/-- An operation of main on its tester. One that has to do with no module, mount or
descriptor of it just succeeds or fails. -/
def runOp (x : HarnessCalls) (s : Tester) : TesterOp → Int × Tester
  | .insertCowBrd => s.insertCowBrd x.outcomes
  | .mountDeviceRaw => s.mountDeviceRaw x.outcomes
  | .umountDevice => s.umountDevice x.outcomes
  | .insertWrapper => s.insertWrapper x.outcomes
  | .mountWrapperDevice => s.mountWrapperDevice x.outcomes
  | .getWrapperIoctl => s.getWrapperIoctl x.outcomes
  | .putWrapperIoctl => (SUCCESS, s.putWrapperIoctl)
  | .removeWrapper => s.removeWrapper x.outcomes
  | .testCheckRandomPermutations => (SUCCESS, x.rounds.foldl Tester.testRound s)
  | .removeCowBrd => s.removeCowBrd x.outcomes
  | .cleanupHarness => (SUCCESS, s.cleanupHarness x.outcomes)
  | _ => (if x.calls.ok then SUCCESS else -1, s)

def nextOp (s : MainState) : Option TesterOp :=
  match s.todo with
  | .run op _ :: _ => some op
  | _ => none

def operation : MainEvent → Option TesterOp
  | .ran op => some op
  | _ => none

def operations (s : MainState) : List TesterOp := s.events.filterMap operation

/-- A step that calls `cleanup_harness` because something has failed. -/
def CleansUp (s t : MainState) : Prop :=
  operations t = operations s ++ ((nextOp s).toList ++ [.cleanupHarness])

instance (s t : MainState) : Decidable (CleansUp s t) := inferInstanceAs (Decidable (_ = _))

structure Harness where
  main : MainState
  tester : Tester

namespace Harness

def start (o : Options) (testDev : String) : Harness := ⟨.start o, .new testDev⟩

def operate (x : HarnessCalls) (s : Harness) : Bool × Tester :=
  match nextOp s.main with
  | none => (x.calls.ok, s.tester)
  | some op => (decide ((runOp x s.tester op).1 = SUCCESS), (runOp x s.tester op).2)

def step (x : HarnessCalls) (s : Harness) : Except MainFault Harness := do
  let (ok, tester) := s.operate x
  let main ← s.main.step ⟨ok, x.calls.accepted⟩
  return ⟨main, if CleansUp s.main main then tester.cleanupHarness x.cleanup else tester⟩

end Harness

def HarnessStep (s : Harness) (x : HarnessCalls) (t : Harness) : Prop := s.step x = .ok t

/-- After a failure main is at its end with the cleanup, and a cleanup leaves nothing
behind if its commands succeed. -/
structure SoundStep (s : Harness) (x : HarnessCalls) (t : Harness) : Prop where
  stops : CleansUp s.main t.main → (∃ code, t.main.exitCode = some code ∧ code ≠ 0) ∧
    ∀ ys u, Transition.Run HarnessStep t ys u → u = t
  afterFailure : CleansUp s.main t.main → x.cleanup.Reliable → Clean t.tester
  atTheEnd : nextOp s.main = some .cleanupHarness → x.outcomes.Reliable → Clean t.tester

def turnError (c : CmCommand) (accepted : Option Client) (s : MainState) :
    Except MainFault SocketError := do
  let sock ← s.socket
  let (e, command, sock, connections) ←
    (sock.waitForMessage s.command accepted s.connections).mapError .socket
  if e ≠ .kNone ∨ command.type = c.code then return e
  else
    let (e, _) ← (sock.sendCommand .kInvalidCommand connections).mapError .socket
    return e

def socketError (x : CallResults) (s : MainState) : Except MainFault SocketError :=
  match s.todo with
  | .sendCommand c :: _ => (s.sendCommand c).map Prod.fst
  | .waitFor c :: _ => turnError c x.accepted s
  | _ => .ok .kNone

/-- Something fails that main cleans up after. -/
def Fails (s : Harness) (x : HarnessCalls) : Prop :=
  match s.main.todo with
  | .run op onFailure :: _ =>
    (onFailure = .cleanup ∨ onFailure = .cleanupExit) ∧ (runOp x s.tester op).1 ≠ SUCCESS
  | _ => ∃ e, socketError x.calls s.main = .ok e ∧ e ≠ .kNone

/-- The setup of the test succeeds, and while `ioctl_fd` is open nothing fails that main
cleans up after with commands that succeed. -/
structure Cautious (s : Harness) (x : HarnessCalls) : Prop where
  setup : nextOp s.main = some .testSetup → x.calls.ok = true
  ioctl : s.tester.ioctlFd.isSome → x.cleanup.Reliable → ¬ Fails s x

structure Careful (s : Harness) (x : HarnessCalls) : Prop extends Cautious s x where
  rounds : nextOp s.main = some .testCheckRandomPermutations →
    Transition.Always Tester.testRound CarefulRound s.tester x.rounds

section Main

variable {s t : MainState} {x : CallResults}

theorem operations_log (s : MainState) (es : List MainEvent) :
    operations (s.log es) = operations s ++ es.filterMap operation := List.filterMap_append

@[simp] theorem operations_cleanup (s : MainState) :
    operations s.cleanup = operations s ++ [.cleanupHarness] := operations_log s _

/-- The operations of an instruction that runs one. -/
theorem operations_run (op : TesterOp) (onFailure : OnFailure) (ok : Bool) (s : MainState) :
    operations (s.run op onFailure ok) = operations s ++ op ::
      if ok = false ∧ (onFailure = .cleanup ∨ onFailure = .cleanupExit) then [.cleanupHarness]
      else [] := by
  have hioctls : (op.ioctls ok s.ioctlFd).filterMap operation = [] := by
    fun_cases TesterOp.ioctls ok s.ioctlFd op <;> rfl
  let u := { s with ioctlFd := op.ioctlFd ok s.ioctlFd }.log (.ran op :: op.ioctls ok s.ioctlFd)
  have hu : operations u = operations s ++ [op] := by
    have hcons := List.filterMap_cons_some (l := op.ioctls ok s.ioctlFd)
      (show operation (.ran op) = some op from rfl)
    rw [operations_log, hcons, hioctls]
    rfl
  unfold MainState.run
  cases ok with
  | true => exact hu
  | false =>
    cases onFailure with
    | ignore => exact hu
    | exit => exact hu
    | cleanup => exact (operations_cleanup u).trans (by rw [hu]; simp)
    | cleanupExit => exact (operations_cleanup u).trans (by rw [hu]; simp)

theorem cleansUp_run_iff {op : TesterOp} {onFailure : OnFailure} {todo : List Instr}
    (htodo : s.todo = .run op onFailure :: todo) (ok : Bool) :
    CleansUp s ({ s with todo }.run op onFailure ok) ↔
      ok = false ∧ (onFailure = .cleanup ∨ onFailure = .cleanupExit) := by
  have hnext : nextOp s = some op := by rw [nextOp, htodo]
  rw [CleansUp, operations_run, hnext, show operations { s with todo } = operations s from rfl]
  split_ifs with hfailed <;> simp [hfailed]

def GoesOn (s t : MainState) : Prop :=
  operations t = operations s ∧ t.ioctlFd = s.ioctlFd ∧ (t.todo = s.todo ∨ t.todo = s.todo.tail)

def GivesUp (s t : MainState) : Prop :=
  operations t = operations s ++ [.cleanupHarness] ∧ t.ioctlFd = s.ioctlFd ∧ t.exitCode = some (-1)

theorem sendCommand_spec {c : CmCommand} {e : SocketError} (h : s.sendCommand c = .ok (e, t)) :
    operations t = operations s ∧ t.ioctlFd = s.ioctlFd ∧ t.todo = s.todo ∧
      ∃ sock connections, s.socket = .ok sock ∧
        (sock.sendCommand c s.connections).mapError MainFault.socket = .ok (e, connections) := by
  obtain ⟨sock, hsock, h⟩ := Transition.bind_eq_ok.mp h
  obtain ⟨⟨e', connections⟩, hsend, h⟩ := Transition.bind_eq_ok.mp h
  cases h
  refine ⟨?_, rfl, rfl, sock, connections, hsock, hsend⟩
  rw [operations_log]
  split_ifs
  · cases sock.clientSocket with
    | none => exact List.append_nil _
    | some k => exact List.append_nil _
  · exact List.append_nil _

theorem GivesUp.abort (hoperations : operations t = operations s) (hfd : t.ioctlFd = s.ioctlFd) :
    GivesUp s t.abort :=
  ⟨(operations_cleanup _).trans (congrArg (· ++ _) hoperations), hfd, rfl⟩

theorem refuse_cases (h : s.refuse = .ok t) : ∃ e sock connections, s.socket = .ok sock ∧
    (sock.sendCommand .kInvalidCommand s.connections).mapError MainFault.socket =
      .ok (e, connections) ∧
    ((operations t = operations s ∧ t.ioctlFd = s.ioctlFd ∧ t.todo = s.todo) ∧ e = .kNone ∨
      GivesUp s t ∧ e ≠ .kNone) := by
  obtain ⟨⟨e, u⟩, hsend, h⟩ := Transition.bind_eq_ok.mp h
  obtain ⟨hoperations, hfd, htodo, sock, connections, hsock, hsend⟩ := sendCommand_spec hsend
  refine ⟨e, sock, connections, hsock, hsend, ?_⟩
  dsimp only at h
  split_ifs at h with he
  · cases h
    exact .inr ⟨.abort hoperations hfd, he⟩
  · obtain ⟨sock, -, h⟩ := Transition.bind_eq_ok.mp h
    cases h
    exact .inl ⟨⟨hoperations, hfd, htodo⟩, not_not.mp he⟩

theorem waitLoop_cases {c : CmCommand} {todo : List Instr} {accepted : Option Client}
    (htodo : s.todo = .waitFor c :: todo) (h : s.waitLoop c todo accepted = .ok t) :
    ∃ e, turnError c accepted s = .ok e ∧
      (GoesOn s t ∧ e = .kNone ∨ GivesUp s t ∧ e ≠ .kNone) := by
  obtain ⟨sock, hsock, h⟩ := Transition.bind_eq_ok.mp h
  obtain ⟨⟨e, command, sock', connections⟩, hwait, h⟩ := Transition.bind_eq_ok.mp h
  let u := { s with backgroundCom := some sock', command, connections }.log [.waited e]
  have hu : operations u = operations s := (operations_log _ _).trans (List.append_nil _)
  have hturn (hlast : e ≠ .kNone ∨ command.type = c.code) : turnError c accepted s = .ok e :=
    Transition.bind_eq_ok.mpr ⟨_, hsock, Transition.bind_eq_ok.mpr ⟨_, hwait, if_pos hlast⟩⟩
  dsimp only at h
  split_ifs at h with he hcommand
  · cases h
    exact ⟨e, hturn (.inl he), .inr ⟨.abort (t := u) hu rfl, he⟩⟩
  · cases h
    refine ⟨e, hturn (.inr hcommand), .inl ⟨⟨?_, rfl, .inr (by rw [htodo]; rfl)⟩, not_not.mp he⟩⟩
    exact (operations_log _ _).trans ((List.append_nil _).trans hu)
  · obtain ⟨e', sock'', connections', hsock', hsend, hcases⟩ := refuse_cases h
    cases hsock'
    refine ⟨e', ?_, ?_⟩
    · refine Transition.bind_eq_ok.mpr ⟨_, hsock, Transition.bind_eq_ok.mpr ⟨_, hwait, ?_⟩⟩
      dsimp only
      rw [if_neg (not_or.mpr ⟨he, hcommand⟩)]
      exact Transition.bind_eq_ok.mpr ⟨_, hsend, rfl⟩
    · rcases hcases with ⟨⟨hoperations, hfd, htodo'⟩, he'⟩ | ⟨⟨hoperations, hfd, hexit⟩, he'⟩
      · exact .inl ⟨⟨hoperations.trans hu, hfd, .inl htodo'⟩, he'⟩
      · exact .inr ⟨⟨hoperations.trans (congrArg (· ++ _) hu), hfd, hexit⟩, he'⟩

/-- A step without an operation goes on, unless a call of the socket has failed. -/
theorem step_cases (hnext : nextOp s = none) (h : MainStep s x t) :
    ∃ e, socketError x s = .ok e ∧ (GoesOn s t ∧ e = .kNone ∨ GivesUp s t ∧ e ≠ .kNone) := by
  have hexit := h.exitCode_eq_none
  rw [MainStep, MainState.step, if_neg (by simp [hexit])] at h
  generalize htodo : s.todo = instrs at h
  rw [nextOp, htodo] at hnext
  rw [socketError, htodo]
  rw [GoesOn, htodo]
  cases instrs with
  | nil =>
    cases h
    exact ⟨_, rfl, .inl ⟨⟨rfl, rfl, .inl htodo⟩, rfl⟩⟩
  | cons instr todo =>
    cases instr with
    | check ok =>
      cases h
      cases ok with
      | true => exact ⟨_, rfl, .inl ⟨⟨rfl, rfl, .inr rfl⟩, rfl⟩⟩
      | false => exact ⟨_, rfl, .inl ⟨⟨rfl, rfl, .inl htodo⟩, rfl⟩⟩
    | run op onFailure => cases hnext
    | initSocket =>
      dsimp only at h
      split_ifs at h <;> cases h
      · exact ⟨_, rfl, .inl ⟨⟨rfl, rfl, .inl htodo⟩, rfl⟩⟩
      · exact ⟨_, rfl, .inl ⟨⟨rfl, rfl, .inr rfl⟩, rfl⟩⟩
    | waitFor c =>
      have hcases := waitLoop_cases htodo h
      rw [GoesOn, htodo] at hcases
      exact hcases
    | sendCommand c =>
      obtain ⟨⟨e, u⟩, hsend, h⟩ := Transition.bind_eq_ok.mp h
      obtain ⟨hoperations, hfd, -⟩ := sendCommand_spec hsend
      refine ⟨e, by simp [hsend, Except.map], ?_⟩
      cases h
      split_ifs with he
      · exact .inr ⟨.abort hoperations hfd, he⟩
      · exact .inl ⟨⟨hoperations, hfd, .inr rfl⟩, not_not.mp he⟩
    | closeClient =>
      obtain ⟨sock, -, h⟩ := Transition.bind_eq_ok.mp h
      cases h
      exact ⟨_, rfl, .inl ⟨⟨rfl, rfl, .inr rfl⟩, rfl⟩⟩
    | deleteSocket =>
      obtain ⟨sock, -, h⟩ := Transition.bind_eq_ok.mp h
      cases h
      exact ⟨_, rfl, .inl ⟨⟨rfl, rfl, .inr rfl⟩, rfl⟩⟩

end Main

def Holding.after (u : Holding) : TesterOp → Holding
  | .insertCowBrd => { u with cowBrd := true }
  | .mountDeviceRaw => { u with mounted := true }
  | .mountWrapperDevice => { u with mounted := true }
  | .umountDevice => { u with mounted := false }
  | .getWrapperIoctl => { u with ioctl := true }
  | .putWrapperIoctl => { u with ioctl := false }
  | .testCheckRandomPermutations => { u with mounted := true }
  | _ => u

/-- Main opens and mounts nothing twice, it does not clean up regularly while `ioctl_fd`
is open, and it goes on only after failures that change nothing. -/
def Holding.admits (u : Holding) (onFailure : OnFailure) : TesterOp → Bool
  | .insertCowBrd => !u.cowBrd && onFailure == .exit
  | .mountDeviceRaw => !u.mounted && onFailure == .cleanupExit
  | .mountWrapperDevice => !u.mounted && onFailure == .cleanupExit
  | .umountDevice => onFailure == .cleanupExit
  | .getWrapperIoctl => !u.ioctl && onFailure == .cleanupExit
  | .cleanupHarness => !u.ioctl && onFailure == .ignore
  | .testSetup => onFailure == .cleanup
  | _ => onFailure == .ignore || onFailure == .cleanupExit

def admissible (u : Holding) : List Instr → Bool
  | [] => true
  | .run op onFailure :: todo => u.admits onFailure op && admissible (u.after op) todo
  | _ :: todo => admissible u todo

theorem admissible_program (o : Options) : admissible ⟨false, false, false⟩ (program o) = true := by
  simp only [program, setUpBasics, createBaseImage, recordWorkload, runTests]
  -- the options decide which instructions there are
  cases o.background <;> cases o.dryRun <;> by_cases hload : o.logFileLoad = "" <;>
    by_cases hsave : o.logFileSave = "" <;> simp [hload, hsave] <;> rfl

theorem admissible_tail {u : Holding} {s : MainState} (hnext : nextOp s = none)
    (h : admissible u s.todo = true) : admissible u s.todo.tail = true := by
  rw [nextOp] at hnext
  generalize s.todo = todo at h hnext
  cases todo with
  | nil => rfl
  | cons instr todo =>
    cases instr with
    | run op onFailure => cases hnext
    | _ => exact h

section Operations

variable {u : Holding} {s : Tester} {x : HarnessCalls} {op : TesterOp} {onFailure : OnFailure}

theorem Tidy.leaves (h : Tidy u s) (res : Int) : Leaves u u (res, s) := ⟨fun _ => h, fun _ => h⟩

theorem Tidy.diskMounted_eq_false (h : Tidy u s) (hu : u.mounted = false) :
    s.diskMounted = false := by
  by_contra hmounted
  have hu' := h.mounted (Bool.not_eq_false _ ▸ hmounted)
  rw [hu] at hu'
  cases hu'

/-- An operation that main may run keeps the tester in order, and changes nothing of what
main holds if it fails; but main returns at once if cow_brd cannot be inserted. -/
theorem runOp_tidy (h : Tidy u s) (hadmits : u.admits onFailure op = true)
    (hrounds : op = .testCheckRandomPermutations →
      Transition.Always Tester.testRound CarefulRound s x.rounds) :
    ((runOp x s op).1 = SUCCESS → Tidy (u.after op) (runOp x s op).2) ∧
      ((runOp x s op).1 ≠ SUCCESS → onFailure ≠ .exit → Tidy u (runOp x s op).2) := by
  have hkeep : ∀ {u' : Holding} {r : Int × Tester}, Leaves u u' r →
      (r.1 = SUCCESS → Tidy u' r.2) ∧ (r.1 ≠ SUCCESS → onFailure ≠ .exit → Tidy u r.2) :=
    fun hleaves => ⟨hleaves.1, fun hres _ => hleaves.2 hres⟩
  cases op with
  | insertCowBrd =>
    simp only [Holding.admits, Bool.and_eq_true, Bool.not_eq_true', beq_iff_eq] at hadmits
    exact ⟨insertCowBrd_tidy h hadmits.1, fun _ hexit => absurd hadmits.2 hexit⟩
  | mountDeviceRaw =>
    simp only [Holding.admits, Bool.and_eq_true, Bool.not_eq_true'] at hadmits
    apply hkeep
    rw [runOp, Tester.mountDeviceRaw]
    split_ifs
    · exact Tidy.fail h (by decide)
    · exact mountDevice_leaves h (h.diskMounted_eq_false hadmits.1) _
  | mountWrapperDevice =>
    simp only [Holding.admits, Bool.and_eq_true, Bool.not_eq_true'] at hadmits
    exact hkeep (mountDevice_leaves h (h.diskMounted_eq_false hadmits.1) _)
  | umountDevice => exact hkeep (umountDevice_leaves h)
  | insertWrapper => exact hkeep (insertWrapper_leaves h)
  | removeWrapper => exact hkeep (removeWrapper_leaves h)
  | removeCowBrd => exact hkeep (removeCowBrd_leaves h)
  | getWrapperIoctl =>
    simp only [Holding.admits, Bool.and_eq_true, Bool.not_eq_true'] at hadmits
    exact hkeep (getWrapperIoctl_leaves h hadmits.1)
  | putWrapperIoctl => exact hkeep (Tidy.succeed u (putWrapperIoctl_tidy h))
  | testCheckRandomPermutations =>
    exact hkeep (Tidy.succeed u (testRounds_tidy (Tidy.to_mounted h) rfl (hrounds rfl)))
  | cleanupHarness => exact hkeep (Tidy.succeed u (cleanupHarness_tidy h))
  | _ => exact hkeep (h.leaves _)

theorem runOp_opened (h : Opened s) (op : TesterOp) : Opened (runOp x s op).2 := by
  cases op with
  | insertCowBrd => exact h.insertCowBrd
  | mountDeviceRaw =>
    rw [runOp, Tester.mountDeviceRaw]
    split_ifs
    · exact h
    · exact h.mountDevice _
  | umountDevice => exact h.umountDevice
  | insertWrapper => exact h.insertWrapper
  | mountWrapperDevice => exact h.mountDevice _
  | getWrapperIoctl => exact h.getWrapperIoctl
  | putWrapperIoctl => exact h.putWrapperIoctl
  | removeWrapper => exact h.removeWrapper
  | testCheckRandomPermutations => exact h.testRounds x.rounds
  | removeCowBrd => exact h.removeCowBrd
  | cleanupHarness => exact h.cleanupHarness
  | _ => exact h

/-- What main goes on after has changed nothing if it fails. -/
theorem after_of_ignored (hadmits : u.admits .ignore op = true)
    (hres : (runOp x s op).1 ≠ SUCCESS) : u.after op = u := by
  cases op with
  | putWrapperIoctl => exact absurd rfl hres
  | testCheckRandomPermutations => exact absurd rfl hres
  | _ => first | rfl | simp [Holding.admits] at hadmits

end Operations

section Runs

variable {s t : Harness} {x : HarnessCalls}

/-- Until main returns the tester is in order, and what main still has to do goes with what
it holds. -/
def Controlled (s : Harness) : Prop :=
  s.main.exitCode = none → ∃ u, Tidy u s.tester ∧ admissible u s.main.todo = true

theorem controlled_start (o : Options) (testDev : String) : Controlled (.start o testDev) :=
  fun _ => ⟨⟨false, false, false⟩, ⟨rfl, rfl, nofun, nofun, nofun, nofun, rfl⟩,
    admissible_program o⟩

theorem HarnessStep.spec (h : HarnessStep s x t) :
    MainStep s.main ⟨(s.operate x).1, x.calls.accepted⟩ t.main ∧
      t.tester = if CleansUp s.main t.main then (s.operate x).2.cleanupHarness x.cleanup
        else (s.operate x).2 := by
  obtain ⟨main, hmain, ht⟩ := Transition.bind_eq_ok.mp h
  cases ht
  exact ⟨hmain, rfl⟩

/-- A step without an operation. -/
theorem HarnessStep.other (h : HarnessStep s x t) (hnext : nextOp s.main = none) :
    MainStep s.main x.calls t.main ∧
      t.tester = if CleansUp s.main t.main then s.tester.cleanupHarness x.cleanup
        else s.tester := by
  have hoperate : s.operate x = (x.calls.ok, s.tester) := by rw [Harness.operate, hnext]
  obtain ⟨hmain, htester⟩ := h.spec
  rw [hoperate] at hmain htester
  exact ⟨hmain, htester⟩

/-- A step with an operation. -/
theorem HarnessStep.op (h : HarnessStep s x t) {op : TesterOp} (hnext : nextOp s.main = some op) :
    ∃ onFailure todo, s.main.todo = .run op onFailure :: todo ∧
      t.main = { s.main with todo }.run op onFailure
        (decide ((runOp x s.tester op).1 = SUCCESS)) ∧
      t.tester = if CleansUp s.main t.main then (runOp x s.tester op).2.cleanupHarness x.cleanup
        else (runOp x s.tester op).2 := by
  have hoperate : s.operate x =
      (decide ((runOp x s.tester op).1 = SUCCESS), (runOp x s.tester op).2) := by
    rw [Harness.operate, hnext]
  obtain ⟨hmain, htester⟩ := h.spec
  have hexit := hmain.exitCode_eq_none
  rw [hoperate] at hmain htester
  unfold nextOp at hnext
  split at hnext
  · rename_i onFailure todo htodo
    cases hnext
    refine ⟨onFailure, todo, htodo, ?_, htester⟩
    rw [MainStep, MainState.step, if_neg (by simp [hexit]), htodo] at hmain
    exact (Except.ok.inj hmain).symm
  · cases hnext

theorem HarnessStep.opened (h : HarnessStep s x t) (hs : Opened s.tester) : Opened t.tester := by
  have htester : Opened (s.operate x).2 := by
    unfold Harness.operate
    split
    · exact hs
    · exact runOp_opened hs _
  rw [h.spec.2]
  split_ifs
  · exact htester.cleanupHarness
  · exact htester

/-- Nothing is done after main has returned. -/
theorem eq_of_exited {code : Int} (hexit : t.main.exitCode = some code) {ys : List HarnessCalls}
    {v : Harness} (hrun : Transition.Run HarnessStep t ys v) : v = t := by
  cases hrun with
  | nil => rfl
  | cons hstep _ =>
    have hnone := hstep.spec.1.exitCode_eq_none
    rw [hexit] at hnone
    cases hnone

theorem Controlled.of_exited {code : Int} (hexit : t.main.exitCode = some code) : Controlled t := by
  intro hnone
  rw [hexit] at hnone
  cases hnone

theorem GoesOn.not_cleansUp {s t : MainState} (h : GoesOn s t) : ¬ CleansUp s t := by
  rw [CleansUp, h.1]
  simp

theorem GivesUp.cleansUp {s t : MainState} (hnext : nextOp s = none) (h : GivesUp s t) :
    CleansUp s t := by
  rw [CleansUp, h.1, hnext]
  rfl

/-- Main cleans up exactly if something fails. -/
theorem HarnessStep.cleansUp_iff (h : HarnessStep s x t) :
    CleansUp s.main t.main ↔ Fails s x := by
  cases hnext : nextOp s.main with
  | none =>
    obtain ⟨e, hsocket, hcases⟩ := step_cases hnext (h.other hnext).1
    have hfails : Fails s x ↔ e ≠ .kNone := by
      have hdef : Fails s x ↔ ∃ e, socketError x.calls s.main = .ok e ∧ e ≠ .kNone := by
        unfold Fails
        unfold nextOp at hnext
        split at hnext
        · cases hnext
        · rfl
      rw [hdef, hsocket]
      simp
    rw [hfails]
    rcases hcases with ⟨hgoes, he⟩ | ⟨hgives, he⟩
    · exact iff_of_false hgoes.not_cleansUp (not_not.mpr he)
    · exact iff_of_true (hgives.cleansUp hnext) he
  | some op =>
    obtain ⟨onFailure, todo, htodo, hmain, -⟩ := h.op hnext
    rw [hmain, cleansUp_run_iff htodo, Fails, htodo, decide_eq_false_iff_not]
    exact and_comm

/-- A step without a failure. -/
theorem SoundStep.of_not_cleanup (hcleanup : ¬ CleansUp s.main t.main)
    (hend : nextOp s.main = some .cleanupHarness → x.outcomes.Reliable → Clean t.tester) :
    SoundStep s x t :=
  ⟨fun h => absurd h hcleanup, fun h => absurd h hcleanup, hend⟩

/-- What a controlled step does that runs `op`. -/
theorem Controlled.op_spec (h : Controlled s) {op : TesterOp} (hnext : nextOp s.main = some op)
    (hstep : HarnessStep s x t) :
    ∃ u onFailure todo, Tidy u s.tester ∧ u.admits onFailure op = true ∧
      admissible (u.after op) todo = true ∧ s.main.todo = .run op onFailure :: todo ∧
      t.main = { s.main with todo }.run op onFailure
        (decide ((runOp x s.tester op).1 = SUCCESS)) ∧
      t.tester = (if CleansUp s.main t.main then (runOp x s.tester op).2.cleanupHarness x.cleanup
        else (runOp x s.tester op).2) := by
  obtain ⟨onFailure, todo, htodo, hrun, htester⟩ := hstep.op hnext
  obtain ⟨u, htidy, hadmissible⟩ := h hstep.spec.1.exitCode_eq_none
  rw [htodo, admissible, Bool.and_eq_true] at hadmissible
  exact ⟨u, onFailure, todo, htidy, hadmissible.1, hadmissible.2, htodo, hrun, htester⟩

/-- The cleanup after a failure starts with what main held, and main goes on only after that
of the setup. -/
theorem Controlled.cleanup_spec (h : Controlled s) (hopened : Opened s.tester)
    (hstep : HarnessStep s x t) (hcleanup : CleansUp s.main t.main) :
    ∃ u tester, Tidy u tester ∧ Opened tester ∧ u.ioctl = s.tester.ioctlFd.isSome ∧
      t.tester = tester.cleanupHarness x.cleanup ∧
      t.main.exitCode = if nextOp s.main = some .testSetup then none else some (-1) := by
  have hrunning := hstep.spec.1.exitCode_eq_none
  cases hnext : nextOp s.main with
  | none =>
    obtain ⟨hmain, htester⟩ := hstep.other hnext
    obtain ⟨u, htidy, -⟩ := h hrunning
    obtain ⟨e, -, ⟨hgoes, -⟩ | ⟨⟨-, -, hexit⟩, -⟩⟩ := step_cases hnext hmain
    · exact absurd hcleanup hgoes.not_cleansUp
    · rw [if_pos hcleanup] at htester
      exact ⟨u, s.tester, htidy, hopened, htidy.ioctl.symm, htester, hexit⟩
  | some op =>
    obtain ⟨u, onFailure, todo, htidy, hadmits, -, htodo, hrun, htester⟩ := h.op_spec hnext hstep
    rw [if_pos hcleanup] at htester
    rw [hrun, cleansUp_run_iff htodo, decide_eq_false_iff_not] at hcleanup
    obtain ⟨hres, hfailure⟩ := hcleanup
    have htidy' := (runOp_tidy (x := x) htidy hadmits fun hop => by
      subst hop
      exact absurd rfl hres).2 hres (by rcases hfailure with rfl | rfl <;> decide)
    refine ⟨u, _, htidy', runOp_opened hopened op, htidy.ioctl.symm, htester, ?_⟩
    rw [hrun, decide_eq_false hres]
    rcases hfailure with rfl | rfl
    · -- only the setup of the test goes on after a cleanup
      have hop : op = .testSetup := by
        cases op <;> first | rfl | simp [Holding.admits] at hadmits
      rw [if_pos (congrArg some hop)]
      exact hrunning
    · have hop : op ≠ .testSetup := by
        rintro rfl
        cases hadmits
      rw [if_neg (fun hsome => hop (Option.some.inj hsome))]
      rfl

/-- A step of main is sound exactly if it is cautious. -/
theorem Controlled.soundStep_iff (h : Controlled s) (hopened : Opened s.tester)
    (hstep : HarnessStep s x t) : SoundStep s x t ↔ Cautious s x := by
  constructor
  · intro hsound
    constructor
    · intro hnext
      by_contra hfailed
      have hcleanup : CleansUp s.main t.main := by
        obtain ⟨u, onFailure, todo, -, hadmits, -, htodo, -⟩ := h.op_spec hnext hstep
        have hfailure : onFailure = .cleanup := by simpa [Holding.admits] using hadmits
        rw [hstep.cleansUp_iff, Fails, htodo]
        exact ⟨.inl hfailure, by simp [runOp, hfailed, SUCCESS]⟩
      obtain ⟨-, -, -, -, -, -, hexit⟩ := h.cleanup_spec hopened hstep hcleanup
      obtain ⟨⟨code, hcode, -⟩, -⟩ := hsound.stops hcleanup
      rw [hexit, if_pos hnext] at hcode
      cases hcode
    · intro hopen hreliable hfails
      have hcleanup := hstep.cleansUp_iff.mpr hfails
      obtain ⟨u, tester, htidy, hopened', hioctl, htester, -⟩ :=
        h.cleanup_spec hopened hstep hcleanup
      have hclean := hsound.afterFailure hcleanup hreliable
      rw [← hioctl, ← htidy.ioctl] at hopen
      rw [htester, cleanupHarness_clean_iff htidy hreliable hopened'.ioctl] at hclean
      rw [hclean (hopened'.wrapper hopen)] at hopen
      cases hopen
  · intro hx
    by_cases hcleanup : CleansUp s.main t.main
    · obtain ⟨u, tester, htidy, -, hioctl, htester, hexit⟩ :=
        h.cleanup_spec hopened hstep hcleanup
      have hfails := hstep.cleansUp_iff.mp hcleanup
      have hsetup : nextOp s.main ≠ some .testSetup := by
        intro hnext
        obtain ⟨u', onFailure, todo, -, -, -, htodo, -⟩ := h.op_spec hnext hstep
        rw [Fails, htodo] at hfails
        exact hfails.2 (by simp [runOp, hx.setup hnext])
      have hend : nextOp s.main ≠ some .cleanupHarness := by
        intro hnext
        obtain ⟨u', onFailure, todo, -, -, -, htodo, -⟩ := h.op_spec hnext hstep
        rw [Fails, htodo] at hfails
        exact hfails.2 rfl
      rw [if_neg hsetup] at hexit
      refine ⟨fun _ => ⟨⟨-1, hexit, by decide⟩, fun _ _ hrun => eq_of_exited hexit hrun⟩,
        fun _ hreliable => ?_, fun hnext => absurd hnext hend⟩
      have hclosed : u.ioctl = false := by
        rw [hioctl]
        by_contra hopen
        exact hx.ioctl (Bool.not_eq_false _ ▸ hopen) hreliable hfails
      rw [htester]
      exact cleanupHarness_clean htidy hclosed hreliable
    · refine .of_not_cleanup hcleanup fun hnext hreliable => ?_
      obtain ⟨u, onFailure, todo, htidy, hadmits, -, -, -, htester⟩ := h.op_spec hnext hstep
      simp only [Holding.admits, Bool.and_eq_true, Bool.not_eq_true'] at hadmits
      rw [htester, if_neg hcleanup]
      exact cleanupHarness_clean htidy hadmits.1 hreliable

/-- A careful step keeps main controlled. -/
theorem Controlled.step (h : Controlled s) (hopened : Opened s.tester) (hx : Careful s x)
    (hstep : HarnessStep s x t) : Controlled t := by
  by_cases hcleanup : CleansUp s.main t.main
  · obtain ⟨⟨code, hexit, -⟩, -⟩ :=
      ((h.soundStep_iff hopened hstep).mpr hx.toCautious).stops hcleanup
    exact .of_exited hexit
  cases hnext : nextOp s.main with
  | none =>
    obtain ⟨hmain, htester⟩ := hstep.other hnext
    obtain ⟨u, htidy, hadmissible⟩ := h hmain.exitCode_eq_none
    obtain ⟨e, -, ⟨⟨-, -, htodo⟩, -⟩ | ⟨hgives, -⟩⟩ := step_cases hnext hmain
    · rw [if_neg hcleanup] at htester
      refine fun _ => ⟨u, htester ▸ htidy, ?_⟩
      rcases htodo with htodo | htodo <;> rw [htodo]
      · exact hadmissible
      · exact admissible_tail hnext hadmissible
    · exact absurd (hgives.cleansUp hnext) hcleanup
  | some op =>
    obtain ⟨u, onFailure, todo, htidy, hadmits, hadmissible, htodo, hrun, htester⟩ :=
      h.op_spec hnext hstep
    obtain ⟨hsuccess, hfailure⟩ :=
      runOp_tidy htidy hadmits fun hop => hx.rounds (hop ▸ hnext)
    rw [if_neg hcleanup] at htester
    rw [hrun, cleansUp_run_iff htodo, decide_eq_false_iff_not] at hcleanup
    by_cases hres : (runOp x s.tester op).1 = SUCCESS
    · refine fun _ => ⟨u.after op, htester ▸ hsuccess hres, ?_⟩
      rw [hrun, decide_eq_true hres]
      exact hadmissible
    · -- main goes on only if the operation has changed nothing
      rw [decide_eq_false hres] at hrun
      cases onFailure with
      | ignore =>
        refine fun _ => ⟨u, htester ▸ hfailure hres (by simp), ?_⟩
        rw [after_of_ignored hadmits hres] at hadmissible
        rw [hrun]
        exact hadmissible
      | exit =>
        have hexit : t.main.exitCode = some (-1) := by
          rw [hrun]
          rfl
        exact .of_exited hexit
      | cleanup => exact absurd ⟨hres, .inl rfl⟩ hcleanup
      | cleanupExit => exact absurd ⟨hres, .inr rfl⟩ hcleanup

theorem opened_start (testDev : String) : Opened (.new testDev) :=
  ⟨List.nodup_nil, nofun, nofun, nofun⟩

/-- In a run of careful steps every cleanup is in order, and after a failure it is the last
that main does. The next step is sound exactly if it is cautious. -/
theorem soundSteps_of_run (o : Options) (testDev : String) {xs : List HarnessCalls} {t : Harness}
    (hrun : Transition.Run (fun s x t => HarnessStep s x t ∧ Careful s x) (.start o testDev) xs t) :
    Transition.Run (fun s x t => HarnessStep s x t ∧ SoundStep s x t) (.start o testDev) xs t ∧
      ∀ x u, HarnessStep t x u → (SoundStep t x u ↔ Cautious t x) := by
  have hstart := controlled_start o testDev
  have hopened : Opened (Harness.start o testDev).tester := opened_start testDev
  generalize Harness.start o testDev = s at hrun hstart hopened
  induction hrun with
  | nil s => exact ⟨.nil s, fun x u hstep => hstart.soundStep_iff hopened hstep⟩
  | cons hstep _ ih =>
    obtain ⟨hrest, hnext⟩ := ih (hstart.step hopened hstep.2 hstep.1) (hstep.1.opened hopened)
    have hsound := (hstart.soundStep_iff hopened hstep.1).mpr hstep.2.toCautious
    exact ⟨.cons ⟨hstep.1, hsound⟩ hrest, hnext⟩

end Runs

def HarnessCalls.succeed : HarnessCalls :=
  let outcomes : Outcomes := ⟨true, fun _ => true, some 3, true, true⟩
  ⟨⟨true, none⟩, outcomes, [], outcomes⟩

def HarnessCalls.fail : HarnessCalls :=
  { HarnessCalls.succeed with
    calls := ⟨false, none⟩, outcomes := ⟨false, fun _ => false, none, false, false⟩ }

def standalone : Options := { hasTestCase := true }

def Undemanding (s : Harness) : Prop :=
  s.tester.ioctlFd = none ∧ nextOp s.main ≠ some .testSetup ∧
    nextOp s.main ≠ some .testCheckRandomPermutations

instance (s : Harness) : Decidable (Undemanding s) := inferInstanceAs (Decidable (_ ∧ _))

theorem Undemanding.careful {s : Harness} (h : Undemanding s) (x : HarnessCalls) :
    Careful s x where
  setup := fun hnext => absurd hnext h.2.1
  ioctl := by simp [h.1]
  rounds := fun hnext => absurd hnext h.2.2

/-- The test file system cannot be mounted. -/
theorem soundSteps_mountFails : ∃ t,
    Transition.Run (fun s x t => HarnessStep s x t ∧ SoundStep s x t)
      (.start standalone COW_BRD_PATH) (List.replicate 9 .succeed ++ [.fail]) t ∧
    t.main.exitCode = some (-1) := by
  have hfold : ((List.replicate 9 HarnessCalls.succeed ++ [HarnessCalls.fail]).foldlM
      (fun (s : Harness) x => if Undemanding s then s.step x else .error .exited)
      (Harness.start standalone COW_BRD_PATH)).map
        (fun t : Harness => decide (t.main.exitCode = some (-1))) = .ok true := by
    decide +kernel
  obtain ⟨t, hrun, hexit⟩ := Transition.exists_run_of_foldlM _ _ hfold
  refine ⟨t, (soundSteps_of_run standalone COW_BRD_PATH (hrun.mono fun s x t hstep => ?_)).1,
    of_decide_eq_true hexit⟩
  split_ifs at hstep with hs
  exact ⟨hstep, hs.careful x⟩

/-- The setup of the test fails, and main goes on after the cleanup. -/
theorem not_soundSteps_setupFails : ¬ ∀ o testDev xs t,
    Transition.Run HarnessStep (.start o testDev) xs t →
      Transition.Run (fun s x t => HarnessStep s x t ∧ SoundStep s x t) (.start o testDev) xs t := by
  intro h
  have hfold : ((List.replicate 10 HarnessCalls.succeed ++ [HarnessCalls.fail]).foldlM
      (fun (s : Harness) x => Harness.step x s) (Harness.start standalone COW_BRD_PATH)).map
        (fun t : Harness => decide (t.main.exitCode = none)) = .ok true := by
    decide +kernel
  have hsetup : ((List.replicate 10 HarnessCalls.succeed).foldlM
      (fun s x => Harness.step x s) (Harness.start standalone COW_BRD_PATH)).map
        (fun s : Harness => (s.step .fail).toOption.any fun t =>
          decide (CleansUp s.main t.main)) = .ok true := by
    decide +kernel
  obtain ⟨t, hrun, hexit⟩ := Transition.exists_run_of_foldlM _ _ hfold
  obtain ⟨u, hu, hlast⟩ := (h _ _ _ _ hrun).of_append
  have hfoldlM := (hu.mono fun _ _ _ hstep => hstep.1).foldlM
  cases hlast with
  | cons hstep hnil =>
    cases hnil
    obtain ⟨hstep, hsound⟩ := hstep
    have hcleanup : CleansUp u.main t.main := by
      rw [show (List.replicate 10 HarnessCalls.succeed).foldlM (fun s x => Harness.step x s)
        (Harness.start standalone COW_BRD_PATH) = .ok u from hfoldlM] at hsetup
      rw [HarnessStep] at hstep
      simpa [Except.map, hstep, Except.toOption] using hsetup
    obtain ⟨code, hcode, -⟩ := (hsound.stops hcleanup).1
    rw [of_decide_eq_true hexit] at hcode
    cases hcode

end CrashMonkey.Resources
