import CrashMonkey.Harness.Protocol

namespace CrashMonkey

open Communication

/-- Where main is with its socket: there is none, nobody is connected, or a client is and
waits for an answer or has it. -/
inductive Status where
  | absent
  | idle
  | owing (c : CmCommand)
  | replied

inductive Proceeds : Status → List Instr → Prop
  | nil : Proceeds .absent []
  | check {st ok todo} (hst : st = .absent ∨ st = .idle) : Proceeds st todo →
      Proceeds st (.check ok :: todo)
  | run {st op onFailure todo} : Proceeds st todo → Proceeds st (.run op onFailure :: todo)
  | initSocket {todo} : Proceeds .idle todo → Proceeds .absent (.initSocket :: todo)
  | waitFor {c todo} : Proceeds (.owing (doneOf c)) todo → Proceeds .idle (.waitFor c :: todo)
  | sendCommand {c todo} (hc : c ≠ .kCheckpoint) : Proceeds .replied todo →
      Proceeds (.owing c) (.sendCommand c :: todo)
  | closeClient {todo} : Proceeds .idle todo → Proceeds .replied (.closeClient :: todo)
  | deleteSocket {todo} : Proceeds .absent todo → Proceeds .replied (.deleteSocket :: todo)

def milestonesLeft : Bool → List Instr → List Milestone
  | _, [] => []
  | fd, .run op _ :: todo =>
    (MainEvent.ran op :: op.ioctls true fd).filterMap MainEvent.milestone ++
      milestonesLeft (op.ioctlFd true fd) todo
  | fd, .waitFor c :: todo => .commanded c :: milestonesLeft fd todo
  | fd, .sendCommand c :: todo =>
    (MainEvent.replied 0 c).milestone.toList ++ milestonesLeft fd todo
  | fd, _ :: todo => milestonesLeft fd todo

section Program

variable {o : Options}

theorem proceeds_program (o : Options) : Proceeds .absent (program o) := by
  simp only [program, setUpBasics, createBaseImage, recordWorkload, runTests]
  -- the options decide which instructions there are
  cases o.background <;> cases o.dryRun <;> by_cases hload : o.logFileLoad = "" <;>
    by_cases hsave : o.logFileSave = "" <;>
    simp only [hload, hsave, ne_eq, not_true_eq_false, not_false_eq_true, if_true, if_false,
      Bool.false_eq_true, List.flatten_cons, List.flatten_nil, List.cons_append, List.nil_append,
      List.append_nil]
  all_goals
    repeat first
      | exact Or.inl rfl
      | exact Or.inr rfl
      | exact CmCommand.noConfusion
      | constructor

theorem milestonesLeft_program (hbackground : o.background = true) (hload : o.logFileLoad = "") :
    milestonesLeft false (program o) = backgroundScript o.dryRun := by
  simp only [program, setUpBasics, createBaseImage, recordWorkload, runTests, hbackground, hload]
  cases o.dryRun <;> by_cases hsave : o.logFileSave = "" <;> simp [hsave] <;> rfl

theorem phase_start (hbackground : o.background = true) (hload : o.logFileLoad = "") :
    (MainState.start o).phase = harnessPhases := by
  simp only [MainState.phase, MainState.start, program, setUpBasics, createBaseImage,
    recordWorkload, runTests, hbackground, hload]
  cases o.dryRun <;> by_cases hsave : o.logFileSave = "" <;> simp [hsave] <;> rfl

end Program

def Status.Holds (s : MainState) : Status → Prop
  | absent => s.backgroundCom = none ∧ s.Served s.connections.length
  | idle => s.backgroundCom = some ⟨true, none⟩ ∧ s.Served s.connections.length
  | owing c => ∃ i, s.Owes i c
  | replied => (∃ i, s.backgroundCom = some ⟨true, some i⟩) ∧ s.Served s.connections.length

/-- What main has done and what it still has to do make up the script. -/
structure Serving (script : List Milestone) (s : MainState) : Prop where
  milestones : s.milestones ++ milestonesLeft s.ioctlFd s.todo = script
  phase : phaseScript s.phase = Script.after (phaseScript harnessPhases) s.requests
  status : ∃ st, Proceeds st s.todo ∧ st.Holds s
  completed : s.exitCode = some 0 → s.todo = []
  ended : s.exitCode.isSome → s.client = none

/-- A step takes on new clients only at the end of the list, and goes on to the next
instruction if a client stays connected. -/
structure Advances (s t : MainState) : Prop where
  connections : s.connections.length ≤ t.connections.length
  todo : ∀ i < s.connections.length, t.client = some i →
    s.client = some i ∧ t.todo.length + 1 = s.todo.length

variable {script : List Milestone} {s t : MainState} {x : CallResults}

theorem Status.Holds.of_quiet {st : Status} (h : st.Holds s) (es : List MainEvent)
    (hes : ∀ e ∈ es, e.Quiet) (hcom : t.backgroundCom = s.backgroundCom)
    (hconnections : t.connections = s.connections) (hevents : t.events = s.events ++ es) :
    st.Holds t := by
  have hserved : s.Served s.connections.length → t.Served t.connections.length := by
    intro hserved
    rw [hconnections]
    exact hserved.of_quiet es hes hconnections hevents
  cases st with
  | absent => exact ⟨hcom.trans h.1, hserved h.2⟩
  | idle => exact ⟨hcom.trans h.1, hserved h.2⟩
  | owing c =>
    obtain ⟨i, howes⟩ := h
    exact ⟨i, howes.of_quiet es hes hcom hconnections hevents⟩
  | replied => exact ⟨h.1.imp fun i hi => hcom.trans hi, hserved h.2⟩

theorem Status.Holds.client_eq_none {st : Status} (h : st.Holds s)
    (hst : st = .absent ∨ st = .idle) : s.client = none := by
  rcases hst with rfl | rfl <;> rw [MainState.client, h.1] <;> rfl

theorem Advances.of_client_eq_none (hconnections : t.connections = s.connections)
    (hclient : t.client = none) : Advances s t where
  connections := hconnections ▸ le_rfl
  todo := by
    intro i _ hi
    rw [hclient] at hi
    cases hi

/-- A step that adds some events of the script. -/
theorem Serving.goOn (h : Serving script s) (es : List MainEvent)
    (hconnections : t.connections = s.connections) (hevents : t.events = s.events ++ es)
    (hexit : t.exitCode = none)
    (hleft : es.filterMap MainEvent.milestone ++ milestonesLeft t.ioctlFd t.todo =
      milestonesLeft s.ioctlFd s.todo)
    (hphase : t.phase = s.phase) (hstatus : ∃ st, Proceeds st t.todo ∧ st.Holds t) :
    Serving script t where
  milestones := by
    rw [MainState.milestones, hevents, List.filterMap_append, List.append_assoc, hleft]
    exact h.milestones
  phase := by
    rw [hphase, MainState.requests, hconnections]
    exact h.phase
  status := hstatus
  completed := by simp [hexit]
  ended := by simp [hexit]

theorem Serving.exit (h : Serving script s) {code : Int} (hclient : s.client = none)
    (hcode : code = 0 → s.todo = []) : Serving script (s.exit code) where
  milestones := h.milestones
  phase := h.phase
  status := by
    obtain ⟨st, hproceeds, hholds⟩ := h.status
    exact ⟨st, hproceeds, hholds.of_quiet [] (by simp) rfl rfl (List.append_nil _).symm⟩
  completed := fun h => hcode (Option.some.inj h)
  ended := fun _ => hclient

/-- A step that only changes what main has of the socket. -/
theorem Serving.setSocket (h : Serving script s) (hexit : s.exitCode = none) {todo : List Instr}
    {com : Option ServerSocket} {st : Status}
    (hleft : milestonesLeft s.ioctlFd todo = milestonesLeft s.ioctlFd s.todo)
    (hphase : todo.filterMap Instr.phase = s.todo.filterMap Instr.phase)
    (hproceeds : Proceeds st todo) (hholds : st.Holds { s with todo, backgroundCom := com }) :
    Serving script { s with todo, backgroundCom := com } :=
  h.goOn [] rfl (List.append_nil _).symm hexit hleft hphase ⟨st, hproceeds, hholds⟩

/-- The script goes on with the command that main waits for. -/
theorem Serving.after_requests (h : Serving script s) {c : CmCommand} {todo : List Instr}
    (htodo : s.todo = .waitFor c :: todo) :
    Script.after (phaseScript harnessPhases) s.requests =
      (c.code, doneOf c) :: phaseScript (todo.filterMap Instr.phase) := by
  rw [← h.phase, MainState.phase, htodo]
  rfl

section Step

variable (h : Serving script s) (hexit : s.exitCode = none)
include h hexit

theorem Serving.step_nil (htodo : s.todo = []) (hholds : Status.absent.Holds s) :
    ∃ t, s.step x = .ok t ∧ Serving script t ∧ Advances s t := by
  have hclient := hholds.client_eq_none (.inl rfl)
  exact ⟨s.exit 0, by simp [MainState.step, hexit, htodo], h.exit hclient fun _ => htodo,
    .of_client_eq_none rfl hclient⟩

theorem Serving.step_check {st : Status} {ok : Bool} {todo : List Instr}
    (htodo : s.todo = .check ok :: todo) (hproceeds : Proceeds st todo)
    (hst : st = .absent ∨ st = .idle) (hholds : st.Holds s) :
    ∃ t, s.step x = .ok t ∧ Serving script t ∧ Advances s t := by
  have hclient := hholds.client_eq_none hst
  cases ok with
  | true =>
    have hholds' : st.Holds { s with todo } :=
      hholds.of_quiet [] (by simp) rfl rfl (List.append_nil _).symm
    exact ⟨{ s with todo }, by simp [MainState.step, hexit, htodo],
      h.setSocket hexit (by rw [htodo]; rfl) (by rw [htodo]; rfl) hproceeds hholds',
      .of_client_eq_none rfl hclient⟩
  | false =>
    exact ⟨s.exit (-1), by simp [MainState.step, hexit, htodo],
      h.exit hclient fun hcode => absurd hcode (by decide), .of_client_eq_none rfl hclient⟩

theorem Serving.step_run (hx : x.Succeed) {st : Status} {op : TesterOp} {onFailure : OnFailure}
    {todo : List Instr} (htodo : s.todo = .run op onFailure :: todo) (hproceeds : Proceeds st todo)
    (hholds : st.Holds s) : ∃ t, s.step x = .ok t ∧ Serving script t ∧ Advances s t := by
  let t := { s with todo }.run op onFailure true
  refine ⟨t, by simp [MainState.step, hexit, htodo, t, hx.1], ?_, le_rfl, ?_⟩
  · have hholds' : st.Holds t := hholds.of_quiet _ (op.quiet true s.ioctlFd) rfl rfl rfl
    apply h.goOn (t := t) (.ran op :: op.ioctls true s.ioctlFd) rfl rfl hexit ?_ ?_
      ⟨st, hproceeds, hholds'⟩
    · rw [htodo]
      rfl
    · rw [MainState.phase, MainState.phase, htodo]
      rfl
  · intro i _ hi
    refine ⟨hi, ?_⟩
    rw [htodo]
    rfl

theorem Serving.step_initSocket (hx : x.Succeed) {todo : List Instr}
    (htodo : s.todo = .initSocket :: todo) (hproceeds : Proceeds .idle todo)
    (hholds : Status.absent.Holds s) :
    ∃ t, s.step x = .ok t ∧ Serving script t ∧ Advances s t := by
  refine ⟨{ s with todo, backgroundCom := some ⟨true, none⟩ }, ?_, ?_, .of_client_eq_none rfl rfl⟩
  · simp [MainState.step, hexit, htodo, hx.1, ServerSocket.init, ServerSocket.new]
  · exact h.setSocket hexit (by rw [htodo]; rfl) (by rw [htodo]; rfl) hproceeds
      ⟨rfl, hholds.2.congr rfl rfl⟩

theorem Serving.step_closeClient {todo : List Instr} (htodo : s.todo = .closeClient :: todo)
    (hproceeds : Proceeds .idle todo) (hholds : Status.replied.Holds s) :
    ∃ t, s.step x = .ok t ∧ Serving script t ∧ Advances s t := by
  obtain ⟨⟨i, hcom⟩, hserved⟩ := hholds
  refine ⟨{ s with todo, backgroundCom := some ⟨true, none⟩ }, ?_, ?_, .of_client_eq_none rfl rfl⟩
  · simp only [MainState.step, hexit, htodo, MainState.closeClient, MainState.socket, hcom]
    rfl
  · exact h.setSocket hexit (by rw [htodo]; rfl) (by rw [htodo]; rfl) hproceeds
      ⟨rfl, hserved.congr rfl rfl⟩

theorem Serving.step_deleteSocket {todo : List Instr} (htodo : s.todo = .deleteSocket :: todo)
    (hproceeds : Proceeds .absent todo) (hholds : Status.replied.Holds s) :
    ∃ t, s.step x = .ok t ∧ Serving script t ∧ Advances s t := by
  obtain ⟨⟨i, hcom⟩, hserved⟩ := hholds
  refine ⟨{ s with todo, backgroundCom := none }, ?_, ?_, .of_client_eq_none rfl rfl⟩
  · simp only [MainState.step, hexit, htodo, MainState.socket, hcom]
    rfl
  · exact h.setSocket hexit (by rw [htodo]; rfl) (by rw [htodo]; rfl) hproceeds
      ⟨rfl, hserved.congr rfl rfl⟩

theorem Serving.step_sendCommand {c : CmCommand} {todo : List Instr}
    (htodo : s.todo = .sendCommand c :: todo) (hc : c ≠ .kCheckpoint)
    (hproceeds : Proceeds .replied todo) (hholds : (Status.owing c).Holds s) :
    ∃ t, s.step x = .ok t ∧ Serving script t ∧ Advances s t := by
  obtain ⟨i, howes⟩ := hholds
  obtain ⟨connections, hsend, hlast, hrequests, hserved⟩ := howes.sendCommand hc
  let t := { { s with connections }.log [.replied i c] with todo }
  refine ⟨t, ?_, ⟨?_, ?_, ⟨.replied, hproceeds, ⟨i, howes.com⟩, ?_⟩, ?_, ?_⟩, ?_, ?_⟩
  · rw [MainState.step, if_neg (by simp [hexit]), htodo]
    simp only [hsend]
    rfl
  · have hmilestones : t.milestones = s.milestones ++ (MainEvent.replied i c).milestone.toList := by
      cases hm : (MainEvent.replied i c).milestone <;>
        simp [MainState.milestones, t, MainState.log, hm]
    rw [hmilestones, ← h.milestones, htodo, List.append_assoc]
    -- the milestone is the same whoever gets the reply
    rfl
  · rw [show t.requests = s.requests from hrequests, ← h.phase, MainState.phase, MainState.phase,
      htodo]
    rfl
  · rw [show t.connections.length = i + 1 from hlast]
    exact hserved.congr rfl rfl
  · simp [t, MainState.log, hexit]
  · simp [t, MainState.log, hexit]
  · rw [show t.connections.length = i + 1 from hlast, howes.last]
  · intro j _ hj
    refine ⟨hj, ?_⟩
    rw [htodo]
    rfl

/-- The command that main is waiting for. -/
theorem Serving.accepted {u : MainState} {c : CmCommand} {todo : List Instr}
    (htodo : s.todo = .waitFor c :: todo) (hproceeds : Proceeds (.owing (doneOf c)) todo)
    (hrequests : u.requests = s.requests ++ [c.code])
    (howes : u.Owes s.connections.length (doneOf c)) (hmilestones : u.milestones = s.milestones)
    (hfd : u.ioctlFd = s.ioctlFd) (hcode : u.exitCode = s.exitCode) :
    Serving script ({ u with todo, command := SocketMessage.new }.log [.commanded c]) ∧
      Advances s ({ u with todo, command := SocketMessage.new }.log [.commanded c]) := by
  let t := { u with todo, command := SocketMessage.new }.log [.commanded c]
  have hphase := h.after_requests htodo
  have howes' : t.Owes s.connections.length (doneOf c) :=
    howes.of_quiet [.commanded c] (by simp [MainEvent.Quiet, MainEvent.replyTo]) rfl rfl rfl
  refine ⟨⟨?_, ?_, ⟨_, hproceeds, _, howes'⟩, ?_, ?_⟩, ?_, ?_⟩
  · have hmilestones' : t.milestones = u.milestones ++ [.commanded c] := List.filterMap_append ..
    rw [hmilestones', ← h.milestones, htodo, ← hmilestones, ← hfd, List.append_assoc]
    rfl
  · rw [show t.requests = s.requests ++ [c.code] from hrequests,
      Script.after_append_singleton, hphase, Script.advance_cons_self]
    rfl
  · simp [MainState.log, hcode, hexit]
  · simp [MainState.log, hcode, hexit]
  · rw [howes'.last]
    omega
  · intro i hi hclient
    rw [MainState.client, howes'.com] at hclient
    exact absurd (Option.some.inj hclient) hi.ne'

/-- Another command. -/
theorem Serving.refused {u : MainState} {c : CmCommand} {a : BitVec 32} {todo : List Instr}
    (htodo : s.todo = .waitFor c :: todo) (hproceeds : Proceeds (.owing (doneOf c)) todo)
    (ha : a ≠ c.code) (hrequests : u.requests = s.requests ++ [a])
    (howes : u.Owes s.connections.length .kInvalidCommand)
    (hmilestones : u.milestones = s.milestones) (hutodo : u.todo = s.todo)
    (hfd : u.ioctlFd = s.ioctlFd) (hcode : u.exitCode = s.exitCode) :
    ∃ t, u.refuse = .ok t ∧ Serving script t ∧ Advances s t := by
  have hphase := h.after_requests htodo
  obtain ⟨t, hrefuse, ht, hserved, hlast, hcom, hmilestones', htodo', hfd', hcode'⟩ :=
    howes.refuse_eq
  refine ⟨t, hrefuse, ⟨?_, ?_, ⟨.idle, ?_, hcom, hserved⟩, ?_, ?_⟩, ?_, ?_⟩
  · rw [hmilestones', hmilestones, hfd', hfd, htodo', hutodo]
    exact h.milestones
  · rw [ht, hrequests, Script.after_append_singleton, hphase, Script.advance_cons_of_ne ha,
      ← hphase, ← h.phase, MainState.phase, MainState.phase, htodo', hutodo]
  · rw [htodo', hutodo, htodo]
    exact .waitFor hproceeds
  · simp [hcode', hcode, hexit]
  · simp [hcode', hcode, hexit]
  · omega
  · intro i _ hclient
    rw [MainState.client, hcom] at hclient
    cases hclient

theorem Serving.step_waitFor (hx : x.Succeed) {c : CmCommand} {todo : List Instr}
    (htodo : s.todo = .waitFor c :: todo) (hproceeds : Proceeds (.owing (doneOf c)) todo)
    (hholds : Status.idle.Holds s) :
    ∃ t, s.step x = .ok t ∧ Serving script t ∧ Advances s t := by
  obtain ⟨p, haccepted, hp⟩ := hx.2
  obtain ⟨hcom, hserved⟩ := hholds
  obtain ⟨u, hrequests, howes, hevents, hutodo, hfd, hcode, hloop⟩ :=
    hserved.waitLoop_eq (c := c) hcom hp todo
  have hphase := h.after_requests htodo
  have hmilestones : u.milestones = s.milestones := by
    rw [MainState.milestones, hevents, List.filterMap_append, MainState.milestones]
    exact List.append_nil _
  have hstep : s.step x = s.waitLoop c todo (some p) := by
    simp [MainState.step, hexit, htodo, haccepted]
  rw [hphase] at howes
  rw [hstep, hloop]
  by_cases hcommand : p.command = c.code
  · rw [if_pos hcommand]
    rw [hcommand, Script.reply_cons_self] at howes
    rw [hcommand] at hrequests
    exact ⟨_, rfl, h.accepted hexit htodo hproceeds hrequests howes hmilestones hfd hcode⟩
  · rw [if_neg hcommand]
    rw [Script.reply_cons_of_ne hcommand] at howes
    exact h.refused hexit htodo hproceeds hcommand hrequests howes hmilestones hutodo hfd hcode

/-- While main has not returned, it comes a step further. -/
theorem Serving.step (hx : x.Succeed) :
    ∃ t, s.step x = .ok t ∧ Serving script t ∧ Advances s t := by
  obtain ⟨st, hproceeds, hholds⟩ := h.status
  generalize htodo : s.todo = todo at hproceeds
  cases hproceeds with
  | nil => exact h.step_nil hexit htodo hholds
  | check hst hproceeds => exact h.step_check hexit htodo hproceeds hst hholds
  | run hproceeds => exact h.step_run hexit hx htodo hproceeds hholds
  | initSocket hproceeds => exact h.step_initSocket hexit hx htodo hproceeds hholds
  | waitFor hproceeds => exact h.step_waitFor hexit hx htodo hproceeds hholds
  | sendCommand hc hproceeds => exact h.step_sendCommand hexit htodo hc hproceeds hholds
  | closeClient hproceeds => exact h.step_closeClient hexit htodo hproceeds hholds
  | deleteSocket hproceeds => exact h.step_deleteSocket hexit htodo hproceeds hholds

end Step

theorem serving_start {o : Options} (hbackground : o.background = true)
    (hload : o.logFileLoad = "") :
    Serving (backgroundScript o.dryRun) (MainState.start o) where
  milestones := milestonesLeft_program hbackground hload
  phase := by
    rw [phase_start hbackground hload]
    rfl
  status := by
    have hserved : (MainState.start o).Served 0 := ⟨fun _ => rfl, by simp [MainState.start], by
      simp [MainState.start]⟩
    exact ⟨.absent, proceeds_program o, rfl, hserved⟩
  completed := by simp [MainState.start]
  ended := by simp [MainState.start]

theorem MainStep.exitCode_eq_none (h : MainStep s x t) : s.exitCode = none := by
  by_contra hne
  rw [MainStep, MainState.step, if_pos (Option.isSome_iff_ne_none.mpr hne)] at h
  cases h

theorem Serving.next (h : Serving script s) (hx : x.Succeed) (hstep : MainStep s x t) :
    Serving script t ∧ Advances s t := by
  obtain ⟨t', hstep', ht⟩ := h.step hstep.exitCode_eq_none hx
  obtain rfl := Except.ok.inj (hstep'.symm.trans hstep)
  exact ht

theorem Serving.run (h : Serving script s) {xs : List CallResults} (hxs : ∀ x ∈ xs, x.Succeed)
    (hrun : Transition.Run MainStep s xs t) : Serving script t :=
  hrun.invariant (C := CallResults.Succeed) (fun _ _ _ hs hx hst => (hs.next hx hst).1) hxs h

theorem Serving.run_connections (h : Serving script s) {xs : List CallResults}
    (hxs : ∀ x ∈ xs, x.Succeed) (hrun : Transition.Run MainStep s xs t) :
    s.connections.length ≤ t.connections.length := by
  induction hrun with
  | nil s => exact le_rfl
  | cons hstep hrun ih =>
    obtain ⟨hx, hxs⟩ := List.forall_mem_cons.mp hxs
    obtain ⟨h', hadvances⟩ := h.next hx hstep
    exact hadvances.connections.trans (ih h' hxs)

/-- A client that stays connected was so all the time, and each step has brought main an
instruction further. -/
theorem Serving.run_client (h : Serving script s) {xs : List CallResults}
    (hxs : ∀ x ∈ xs, x.Succeed) (hrun : Transition.Run MainStep s xs t) {i : ℕ}
    (hi : i < s.connections.length) (hclient : t.client = some i) :
    s.client = some i ∧ xs.length + t.todo.length = s.todo.length := by
  induction hrun with
  | nil s => exact ⟨hclient, Nat.zero_add _⟩
  | cons hstep hrun ih =>
    obtain ⟨hx, hxs⟩ := List.forall_mem_cons.mp hxs
    obtain ⟨h', hadvances⟩ := h.next hx hstep
    obtain ⟨hclient', hlen⟩ := ih h' hxs (hi.trans_le hadvances.connections) hclient
    obtain ⟨hclient, htodo⟩ := hadvances.todo _ hi hclient'
    refine ⟨hclient, ?_⟩
    rw [List.length_cons]
    omega

/-- All clients have their answers, but for one that is connected. -/
theorem Serving.served (h : Serving script s) : ∃ k, s.Served k ∧
    (k = s.connections.length ∨ s.client = some k ∧ s.connections.length = k + 1) := by
  obtain ⟨st, -, hholds⟩ := h.status
  cases st with
  | owing c =>
    obtain ⟨i, howes⟩ := hholds
    refine ⟨i, howes.served, .inr ⟨?_, howes.last⟩⟩
    rw [MainState.client, howes.com]
    rfl
  | absent => exact ⟨_, hholds.2, .inl rfl⟩
  | idle => exact ⟨_, hholds.2, .inl rfl⟩
  | replied => exact ⟨_, hholds.2, .inl rfl⟩

theorem Serving.protocolSafe (h : Serving script s) : ProtocolSafe script s := by
  obtain ⟨k, hserved, hk⟩ := h.served
  refine ⟨?_, hserved.sent, h.phase, ?_, ⟨_, h.milestones⟩, ?_, hserved.waited, h.ended⟩
  · intro i c hc
    have hi : i < s.connections.length := by
      rw [← s.answers_length]
      exact (List.getElem?_eq_some_iff.mp hc).1
    rw [hserved.replies, List.getElem?_take]
    split_ifs with hlt
    · rw [hc]
      exact ⟨List.prefix_rfl, fun _ => rfl⟩
    · rcases hk with rfl | ⟨hclient, hlast⟩
      · exact absurd hi hlt
      · obtain rfl : i = k := by omega
        exact ⟨List.nil_prefix, fun hne => absurd hclient hne⟩
  · have hscript : ∀ p ∈ phaseScript harnessPhases, p.2 ≠ .kInvalidCommand := by decide
    have hfilter := Script.filter_replies hscript s.requests
    rw [← h.phase, phaseScript, List.map_map, phaseScript, List.map_map] at hfilter
    exact hfilter
  · intro hcode
    rw [← h.milestones, h.completed hcode]
    exact (List.append_nil _).symm

/-- Nobody is connected when there is nothing left to do. -/
theorem Serving.client_eq_none (h : Serving script s) (htodo : s.todo = []) : s.client = none := by
  obtain ⟨st, hproceeds, hholds⟩ := h.status
  rw [htodo] at hproceeds
  cases hproceeds
  exact hholds.client_eq_none (.inl rfl)

/-- In every run of the background mode the clients are answered as the protocol says,
main can go on until it returns, and it keeps no client waiting for longer than it has
instructions left. -/
theorem protocolSafe_run (o : Options) (hbackground : o.background = true)
    (hload : o.logFileLoad = "") {xs : List CallResults} (hxs : ∀ x ∈ xs, x.Succeed)
    {s : MainState} (hrun : Transition.Run MainStep (MainState.start o) xs s) :
    ProtocolSafe (backgroundScript o.dryRun) s ∧
      (s.exitCode = none → ∀ x : CallResults, x.Succeed → ∃ t, MainStep s x t) ∧
      ∀ (ys : List CallResults) (t : MainState), (∀ y ∈ ys, y.Succeed) →
        Transition.Run MainStep s ys t → s.todo.length ≤ ys.length →
        ∀ i < s.connections.length, ∃ c, t.answers[i]? = some c ∧ t.repliesTo i = [c] := by
  have h := (serving_start hbackground hload).run hxs hrun
  refine ⟨h.protocolSafe, ?_, ?_⟩
  · intro hexit x hx
    obtain ⟨t, hstep, -⟩ := h.step hexit hx
    exact ⟨t, hstep⟩
  · intro ys t hys hrun' hlen i hi
    have ht := h.run hys hrun'
    have hclient : t.client ≠ some i := by
      intro hclient
      obtain ⟨-, hlen'⟩ := h.run_client hys hrun' hi hclient
      have htodo : t.todo = [] := List.eq_nil_of_length_eq_zero (by omega)
      rw [ht.client_eq_none htodo] at hclient
      cases hclient
    have hi' : i < t.answers.length := by
      rw [t.answers_length]
      exact hi.trans_le (h.run_connections hys hrun')
    exact ⟨_, List.getElem?_eq_getElem hi', (ht.protocolSafe.answered i _
      (List.getElem?_eq_getElem hi')).2 hclient⟩

def Client.ofMessage (m : SocketMessage) : Client :=
  ⟨frame m, List.replicate (frame m).length (.moved 1), List.replicate 8 (.moved 1)⟩

theorem Client.wellFormed_ofMessage {m : SocketMessage} (hm : Valid m) (hfits : Fits m) :
    (Client.ofMessage m).WellFormed := by
  have hmoving : ∀ n, Transfer.Moving (List.replicate n (.moved 1)) := fun n call hcall =>
    ⟨0, List.eq_of_mem_replicate hcall⟩
  exact ⟨.inl ⟨m, hm, hfits, rfl⟩, ⟨hmoving _, by simp [ofMessage]⟩, hmoving 8, by simp [ofMessage]⟩

def CallResults.ofCommand (c : CmCommand) : CallResults :=
  ⟨true, some (Client.ofMessage ⟨c.code, 0, []⟩)⟩

theorem CallResults.succeed_ofCommand {c : CmCommand} (hc : c ≠ .kCheckpoint) :
    (CallResults.ofCommand c).Succeed := by
  have hnot : CmCommand.ofCode c.code ≠ some .kCheckpoint := by
    rw [CmCommand.ofCode_code]
    exact fun h => hc (Option.some.inj h)
  have hvalid : Valid ⟨c.code, 0, []⟩ := ⟨⟨c, CmCommand.ofCode_code c⟩, fun h => absurd h hnot⟩
  exact ⟨rfl, _, rfl, Client.wellFormed_ofMessage hvalid fun h => absurd h hnot⟩

/-- A run in which the first client comes with the last command. -/
def threePhases (dryRun : Bool) : List CallResults :=
  List.map CallResults.ofCommand <| List.flatten [
    List.replicate 12 .kRunTests, [.kBeginLog], List.replicate 11 .kEndLog,
    List.replicate (if dryRun then 12 else 14) .kRunTests]

theorem succeed_threePhases (dryRun : Bool) : ∀ x ∈ threePhases dryRun, x.Succeed := by
  intro x hx
  obtain ⟨c, hc, rfl⟩ := List.mem_map.mp hx
  apply CallResults.succeed_ofCommand
  cases dryRun <;> simp at hc <;> rcases hc with rfl | rfl | rfl | rfl <;> decide

def backgroundOptions (dryRun : Bool) : Options :=
  { hasTestCase := true, background := true, dryRun }

theorem exists_run_threePhases (dryRun : Bool) : ∃ s,
    Transition.Run MainStep (MainState.start (backgroundOptions dryRun)) (threePhases dryRun) s ∧
      s.milestones = backgroundScript dryRun := by
  have hrun : ((threePhases dryRun).foldlM (fun s x => MainState.step x s)
      (MainState.start (backgroundOptions dryRun))).map
        (fun s => decide (s.milestones = backgroundScript dryRun)) = .ok true := by
    cases dryRun <;> decide +kernel
  obtain ⟨s, hrun, hs⟩ := Transition.exists_run_of_foldlM _ _ hrun
  exact ⟨s, hrun, of_decide_eq_true hs⟩

theorem protocolSafe_threePhases : ∃ s,
    Transition.Run MainStep (MainState.start (backgroundOptions false)) (threePhases false) s ∧
      ProtocolSafe (backgroundScript false) s := by
  obtain ⟨s, hrun, -⟩ := exists_run_threePhases false
  exact ⟨s, hrun,
    (protocolSafe_run (backgroundOptions false) rfl rfl (succeed_threePhases false) hrun).1⟩

/-- A dry run answers the last command without testing. -/
theorem not_protocolSafe_dryRun : ∃ s, (∀ x ∈ threePhases true, x.Succeed) ∧
    Transition.Run MainStep (MainState.start (backgroundOptions true)) (threePhases true) s ∧
      ¬ ProtocolSafe (backgroundScript false) s := by
  obtain ⟨s, hrun, hs⟩ := exists_run_threePhases true
  refine ⟨s, succeed_threePhases true, hrun, fun h => ?_⟩
  have hprefix := h.milestones
  rw [hs] at hprefix
  exact absurd hprefix (by decide)

end CrashMonkey
