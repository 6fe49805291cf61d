import CrashMonkey.Harness.Failures
import CrashMonkey.Lib.Script

namespace CrashMonkey.Resources

open Communication

inductive Mark where
  | inserted
  | cleared
  | loggingOn
  | begun
  | ending
  | loggingOff
  | fetched
deriving DecidableEq, Repr

def profileScript : List Mark :=
  [.inserted, .cleared, .loggingOn, .begun, .ending, .loggingOff, .fetched]

def mark : MainEvent → Option Mark
  | .ran .insertWrapper => some .inserted
  | .ioctl .clrLog => some .cleared
  | .ioctl .logOn => some .loggingOn
  | .replied _ .kBeginLogDone => some .begun
  | .commanded .kEndLog => some .ending
  | .ioctl .logOff => some .loggingOff
  | .fetched => some .fetched
  | _ => none

def instrMark : Instr → Option Mark
  | .run .insertWrapper _ => some .inserted
  | .run .clearWrapperLog _ => some .cleared
  | .run .beginWrapperLogging _ => some .loggingOn
  | .sendCommand .kBeginLogDone => some .begun
  | .waitFor .kEndLog => some .ending
  | .run .endWrapperLogging _ => some .loggingOff
  | .run .getWrapperLog _ => some .fetched
  | _ => none

def marks (s : MainState) : List Mark := s.events.filterMap mark

def marksLeft (todo : List Instr) : List Mark := todo.filterMap instrMark

theorem marksLeft_program (o : Options) : (marksLeft (program o)).Sublist profileScript := by
  simp only [program, setUpBasics, createBaseImage, recordWorkload, runTests]
  -- the options decide which instructions there are
  cases o.background <;> cases o.dryRun <;> by_cases hload : o.logFileLoad = "" <;>
    by_cases hsave : o.logFileSave = "" <;> simp [hload, hsave] <;>
    exact List.isSublist_iff_sublist.mp rfl

def Aside (e : MainEvent) : Prop := (∀ cmd, e ≠ .ioctl cmd) ∧ e ≠ .fetched

theorem mark_op (op : TesterOp) (onFailure : OnFailure) (ok fd : Bool) :
    ((.ran op :: op.ioctls ok fd).filterMap mark).Sublist
      (instrMark (.run op onFailure)).toList := by
  cases op <;> cases ok <;> cases fd <;> exact List.isSublist_iff_sublist.mp rfl

/-- The events of an instruction that runs an operation. -/
theorem run_events (op : TesterOp) (onFailure : OnFailure) (ok : Bool) (s : MainState) :
    ∃ more, (∀ e ∈ more, Aside e ∧ mark e = none) ∧ (s.run op onFailure ok).todo = s.todo ∧
      (s.run op onFailure ok).events =
        s.events ++ (.ran op :: op.ioctls ok s.ioctlFd ++ more) := by
  have hnil : ∀ e ∈ ([] : List MainEvent), Aside e ∧ mark e = none := List.forall_mem_nil _
  have hcleanup : ∀ e ∈ [MainEvent.ran .cleanupHarness], Aside e ∧ mark e = none := by
    intro e he
    rw [List.mem_singleton.mp he]
    exact ⟨⟨fun _ h => (by cases h), fun h => (by cases h)⟩, rfl⟩
  have hnone : s.events ++ .ran op :: op.ioctls ok s.ioctlFd =
      s.events ++ (.ran op :: op.ioctls ok s.ioctlFd ++ []) := by rw [List.append_nil]
  unfold MainState.run
  cases ok with
  | true => exact ⟨[], hnil, rfl, hnone⟩
  | false =>
    cases onFailure with
    | ignore => exact ⟨[], hnil, rfl, hnone⟩
    | exit => exact ⟨[], hnil, rfl, hnone⟩
    | cleanup => exact ⟨_, hcleanup, rfl, List.append_assoc ..⟩
    | cleanupExit => exact ⟨_, hcleanup, rfl, List.append_assoc ..⟩

section Main

variable {s t : MainState} {x : CallResults}

theorem todo_of_nextOp {op : TesterOp} (h : nextOp s = some op) :
    ∃ onFailure todo, s.todo = .run op onFailure :: todo := by
  unfold nextOp at h
  split at h
  · rename_i onFailure todo htodo
    cases h
    exact ⟨onFailure, todo, htodo⟩
  · cases h

theorem aside_ran (op : TesterOp) : Aside (.ran op) :=
  ⟨fun _ h => (by cases h), fun h => (by cases h)⟩

theorem aside_waited (e : SocketError) : Aside (.waited e) :=
  ⟨fun _ h => (by cases h), fun h => (by cases h)⟩

theorem aside_commanded (c : CmCommand) : Aside (.commanded c) :=
  ⟨fun _ h => (by cases h), fun h => (by cases h)⟩

theorem aside_replied (k : ℕ) (c : CmCommand) : Aside (.replied k c) :=
  ⟨fun _ h => (by cases h), fun h => (by cases h)⟩

/-- The events of a step that does nothing to the wrapper, and what it leaves to do. -/
def Adds (s t : MainState) (left : List Mark) : Prop :=
  ∃ new, t.events = s.events ++ new ∧ (∀ e ∈ new, Aside e) ∧
    (new.filterMap mark ++ marksLeft t.todo).Sublist left

theorem Adds.none (hevents : t.events = s.events)
    (htodo : (marksLeft t.todo).Sublist (marksLeft s.todo)) : Adds s t (marksLeft s.todo) :=
  ⟨[], by rw [hevents, List.append_nil], List.forall_mem_nil _, htodo⟩

theorem Adds.abort {new : List MainEvent} {left : List Mark} (hevents : t.events = s.events ++ new)
    (haside : ∀ e ∈ new, Aside e)
    (hleft : (new.filterMap mark ++ marksLeft t.todo).Sublist left) : Adds s t.abort left := by
  refine ⟨new ++ [.ran .cleanupHarness], ?_, ?_, ?_⟩
  · rw [← List.append_assoc, ← hevents]
    rfl
  · exact List.forall_mem_append.mpr ⟨haside, List.forall_mem_singleton.mpr (aside_ran _)⟩
  · have hcleanup : [MainEvent.ran .cleanupHarness].filterMap mark = [] := rfl
    rw [List.filterMap_append, hcleanup, List.append_nil]
    exact hleft

theorem sendCommand_events {c : CmCommand} {e : SocketError} (h : s.sendCommand c = .ok (e, t)) :
    t.todo = s.todo ∧ ∃ new, t.events = s.events ++ new ∧ (∀ e ∈ new, Aside e) ∧
      (e ≠ .kNone → new = []) ∧
      (new.filterMap mark).Sublist (instrMark (.sendCommand c)).toList := by
  obtain ⟨sock, -, h⟩ := Transition.bind_eq_ok.mp h
  obtain ⟨⟨e', connections⟩, -, h⟩ := Transition.bind_eq_ok.mp h
  cases h
  refine ⟨rfl, _, rfl, ?_, fun he => if_neg he, ?_⟩
  · intro e he
    split_ifs at he
    · obtain ⟨k, -, rfl⟩ := List.mem_map.mp he
      exact aside_replied k c
    · cases he
  · split_ifs
    · cases sock.clientSocket with
      | none => exact List.nil_sublist _
      | some k => cases c <;> exact List.isSublist_iff_sublist.mp rfl
    · exact List.nil_sublist _

theorem refuse_events (h : s.refuse = .ok t) : Adds s t (marksLeft s.todo) := by
  obtain ⟨⟨e, u⟩, hsend, h⟩ := Transition.bind_eq_ok.mp h
  obtain ⟨htodo, new, hevents, haside, -, hmarks⟩ := sendCommand_events hsend
  have hnew : new.filterMap mark = [] := List.sublist_nil.mp hmarks
  have hleft : (new.filterMap mark ++ marksLeft u.todo).Sublist (marksLeft s.todo) := by
    rw [hnew, htodo]
    exact List.Sublist.refl _
  dsimp only at h
  split_ifs at h
  · cases h
    exact .abort hevents haside hleft
  · obtain ⟨sock, -, h⟩ := Transition.bind_eq_ok.mp h
    cases h
    exact ⟨new, hevents, haside, hleft⟩

theorem waitLoop_events {c : CmCommand} {todo : List Instr} {accepted : Option Client}
    (htodo : s.todo = .waitFor c :: todo) (h : s.waitLoop c todo accepted = .ok t) :
    Adds s t (marksLeft s.todo) := by
  obtain ⟨sock, -, h⟩ := Transition.bind_eq_ok.mp h
  obtain ⟨⟨e, command, sock', connections⟩, -, h⟩ := Transition.bind_eq_ok.mp h
  let u := { s with backgroundCom := some sock', command, connections }.log [.waited e]
  have hwaited : ∀ e' ∈ [MainEvent.waited e], Aside e' :=
    List.forall_mem_singleton.mpr (aside_waited e)
  dsimp only at h
  split_ifs at h
  · cases h
    exact .abort (t := u) rfl hwaited (List.Sublist.refl _)
  · cases h
    refine ⟨[.waited e, .commanded c], List.append_assoc .., ?_, ?_⟩
    · exact List.forall_mem_cons.mpr
        ⟨aside_waited e, List.forall_mem_singleton.mpr (aside_commanded c)⟩
    · rw [htodo]
      cases c <;> exact List.Sublist.refl _
  · obtain ⟨new, hevents, haside, hleft⟩ := refuse_events (s := u) h
    refine ⟨.waited e :: new, ?_, List.forall_mem_cons.mpr ⟨aside_waited e, haside⟩, hleft⟩
    rw [hevents]
    exact List.append_assoc s.events [.waited e] new

/-- A step without an operation does nothing to the wrapper. -/
theorem step_events (hnext : nextOp s = none) (h : MainStep s x t) :
    Adds s t (marksLeft s.todo) := by
  have hexit := h.exitCode_eq_none
  rw [MainStep, MainState.step, if_neg (by simp [hexit])] at h
  generalize htodo : s.todo = instrs at h
  rw [← htodo]
  rw [nextOp, htodo] at hnext
  have htail {u : MainState} {instr : Instr} {todo : List Instr} (hs : s.todo = instr :: todo)
      (hevents : u.events = s.events) (hu : u.todo = s.todo ∨ u.todo = todo) :
      Adds s u (marksLeft s.todo) := by
    apply Adds.none hevents
    rcases hu with hu | hu
    · rw [hu]
    · rw [hu, hs]
      exact (List.sublist_cons_self instr todo).filterMap _
  cases instrs with
  | nil =>
    cases h
    exact .none rfl (List.Sublist.refl _)
  | cons instr todo =>
    cases instr with
    | check ok =>
      cases h
      cases ok with
      | true => exact htail htodo rfl (.inr rfl)
      | false => exact htail htodo rfl (.inl rfl)
    | run op onFailure => cases hnext
    | initSocket =>
      dsimp only at h
      split_ifs at h <;> cases h
      · exact htail htodo rfl (.inl rfl)
      · exact htail htodo rfl (.inr rfl)
    | waitFor c => exact waitLoop_events htodo h
    | sendCommand c =>
      obtain ⟨⟨e, u⟩, hsend, h⟩ := Transition.bind_eq_ok.mp h
      obtain ⟨hu, new, hevents, haside, hfailed, hmarks⟩ := sendCommand_events hsend
      have hsplit : marksLeft s.todo = (instrMark (.sendCommand c)).toList ++ marksLeft todo := by
        rw [htodo]
        cases c <;> rfl
      cases h
      split_ifs with he
      · apply Adds.abort hevents haside
        rw [hfailed he, hu]
        exact List.Sublist.refl _
      · exact ⟨new, hevents, haside, hsplit ▸ hmarks.append (List.Sublist.refl _)⟩
    | closeClient =>
      obtain ⟨sock, -, h⟩ := Transition.bind_eq_ok.mp h
      cases h
      exact htail htodo rfl (.inr rfl)
    | deleteSocket =>
      obtain ⟨sock, -, h⟩ := Transition.bind_eq_ok.mp h
      cases h
      exact htail htodo rfl (.inr rfl)

end Main

section Operations

variable {s t : Harness} {x : HarnessCalls} {op : TesterOp}

theorem op_events (h : HarnessStep s x t) (hnext : nextOp s.main = some op) :
    ∃ onFailure more, s.main.todo = .run op onFailure :: t.main.todo ∧ (∀ e ∈ more, Aside e) ∧
      t.main.events = s.main.events ++ (.ran op ::
        op.ioctls (decide ((runOp x s.tester op).1 = SUCCESS)) s.main.ioctlFd ++ more) ∧
      ((.ran op :: op.ioctls (decide ((runOp x s.tester op).1 = SUCCESS)) s.main.ioctlFd ++
        more).filterMap mark ++ marksLeft t.main.todo).Sublist (marksLeft s.main.todo) := by
  obtain ⟨onFailure, todo, htodo, hmain, -⟩ := h.op hnext
  obtain ⟨more, hmore, hleft, hevents⟩ := run_events op onFailure
    (decide ((runOp x s.tester op).1 = SUCCESS)) { s.main with todo }
  rw [← hmain] at hleft hevents
  have hnone : more.filterMap mark = [] :=
    List.filterMap_eq_nil_iff.mpr fun e he => (hmore e he).2
  have hsplit : marksLeft s.main.todo =
      (instrMark (.run op onFailure)).toList ++ marksLeft todo := by
    rw [htodo]
    cases op <;> rfl
  refine ⟨onFailure, more, hleft ▸ htodo, fun e he => (hmore e he).1, hevents, ?_⟩
  rw [List.filterMap_append, hnone, List.append_nil, hsplit, hleft]
  exact (mark_op op onFailure _ _).append (List.Sublist.refl _)

theorem runOp_getWrapperLog (x : HarnessCalls) (tester : Tester) (ok : Bool) :
    decide ((runOp { x with calls := { x.calls with ok } } tester .getWrapperLog).1 = SUCCESS) =
      ok := by
  cases ok <;> rfl

/-- All but the fetch make one ioctl at most. -/
theorem ioctls_cases (hop : op ≠ .getWrapperLog) (ok fd : Bool) :
    op.ioctls ok fd = [] ∨ ∃ cmd, op.ioctls ok fd = [.ioctl cmd] ∧
      (cmd = .logOn ∨ cmd = .logOff ∨ cmd = .clrLog ∧ op = .clearWrapperLog) := by
  cases op with
  | clearWrapperLog =>
    cases hfd : fd && ok with
    | false => exact .inl (by simp [TesterOp.ioctls, hfd])
    | true => exact .inr ⟨.clrLog, by simp [TesterOp.ioctls, hfd], .inr (.inr ⟨rfl, rfl⟩)⟩
  | beginWrapperLogging =>
    cases hfd : fd && ok with
    | false => exact .inl (by simp [TesterOp.ioctls, hfd])
    | true => exact .inr ⟨.logOn, by simp [TesterOp.ioctls, hfd], .inl rfl⟩
  | endWrapperLogging =>
    cases hfd : fd && ok with
    | false => exact .inl (by simp [TesterOp.ioctls, hfd])
    | true => exact .inr ⟨.logOff, by simp [TesterOp.ioctls, hfd], .inr (.inl rfl)⟩
  | getWrapperLog => exact absurd rfl hop
  | _ => exact .inl rfl

end Operations

end CrashMonkey.Resources
