import CrashMonkey.Harness.Main
import CrashMonkey.Lib.Script

/-!
# The protocol of the background mode

Main waits for three commands, and each of them is answered when what it asks for is
done. Clients come in any order with any command; one that main is not waiting for is
refused at once.
-/

namespace CrashMonkey

open Communication

def doneOf : CmCommand → CmCommand
  | .kPrepare => .kPrepareDone
  | .kBeginLog => .kBeginLogDone
  | .kEndLog => .kEndLogDone
  | .kRunTests => .kRunTestsDone
  | .kCheckpoint => .kCheckpointDone
  | _ => .kInvalidCommand

/-- The commands that are waited for, with their answers. -/
def phaseScript (phases : List CmCommand) : List (BitVec 32 × CmCommand) :=
  phases.map fun c => (c.code, doneOf c)

def harnessPhases : List CmCommand := [.kBeginLog, .kEndLog, .kRunTests]

/-- What of the work on a command is seen from outside. -/
inductive Milestone where
  | commanded (c : CmCommand)
  | loggingOn
  | loggingOff
  | fetched
  | tested
  | done (c : CmCommand)
deriving DecidableEq, Repr

def backgroundScript (dryRun : Bool) : List Milestone :=
  List.flatten [
    [.commanded .kBeginLog, .loggingOn, .done .kBeginLogDone],
    [.commanded .kEndLog, .loggingOff, .fetched, .done .kEndLogDone],
    [.commanded .kRunTests], if dryRun then [] else [.tested], [.done .kRunTestsDone]]

namespace MainEvent

def milestone : MainEvent → Option Milestone
  | ran .testCheckRandomPermutations => some .tested
  | ioctl .logOn => some .loggingOn
  | ioctl .logOff => some .loggingOff
  | fetched => some .fetched
  | commanded c => some (.commanded c)
  | replied _ c => if c = .kInvalidCommand then none else some (.done c)
  | _ => none

def replyTo (client : ℕ) : MainEvent → Option CmCommand
  | replied i c => if i = client then some c else none
  | _ => none

end MainEvent

def Instr.phase : Instr → Option CmCommand
  | waitFor c => some c
  | _ => none

namespace MainState

/-- The commands of the clients, in the order in which they were accepted. -/
def requests (s : MainState) : List (BitVec 32) := s.connections.map fun x => x.client.command

def answers (s : MainState) : List CmCommand :=
  Script.replies .kInvalidCommand (phaseScript harnessPhases) s.requests

def repliesTo (client : ℕ) (s : MainState) : List CmCommand :=
  s.events.filterMap (MainEvent.replyTo client)

def milestones (s : MainState) : List Milestone := s.events.filterMap MainEvent.milestone

def phase (s : MainState) : List CmCommand := s.todo.filterMap Instr.phase

def client (s : MainState) : Option ℕ := s.backgroundCom.bind ServerSocket.clientSocket

end MainState

/-- Every client gets the answer of the phase in which it came, and gets it once; the
phases, the work and the answers follow the script. -/
structure ProtocolSafe (script : List Milestone) (s : MainState) : Prop where
  answered : ∀ i c, s.answers[i]? = some c →
    s.repliesTo i <+: [c] ∧ (s.client ≠ some i → s.repliesTo i = [c])
  sent : ∀ i x, s.connections[i]? = some x →
    x.outgoing.bytes = (s.repliesTo i).flatMap replyFrame
  phase : phaseScript s.phase = Script.after (phaseScript harnessPhases) s.requests
  accepted : s.answers.filter (· ≠ .kInvalidCommand) ++ s.phase.map doneOf =
    harnessPhases.map doneOf
  milestones : s.milestones <+: script
  completed : s.exitCode = some 0 → s.milestones = script
  waited : ∀ e, .waited e ∈ s.events → e = .kNone
  ended : s.exitCode.isSome → s.client = none

/-- No call fails, and each client sends a well-formed command. -/
def CallResults.Succeed (x : CallResults) : Prop :=
  x.ok = true ∧ ∃ p, x.accepted = some p ∧ p.WellFormed

def MainEvent.Quiet (e : MainEvent) : Prop :=
  (∀ i, e.replyTo i = none) ∧ ∀ err, e = .waited err → err = .kNone

theorem TesterOp.quiet (op : TesterOp) (ok fd : Bool) :
    ∀ e ∈ MainEvent.ran op :: op.ioctls ok fd, e.Quiet := by
  have hioctl : ∀ e ∈ op.ioctls ok fd, e.Quiet := by
    fun_cases ioctls ok fd op <;> simp [MainEvent.Quiet, MainEvent.replyTo]
  exact List.forall_mem_cons.mpr ⟨by simp [MainEvent.Quiet, MainEvent.replyTo], hioctl⟩

namespace MainState

structure Served (k : ℕ) (s : MainState) : Prop where
  replies : ∀ i, s.repliesTo i = (s.answers.take k)[i]?.toList
  sent : ∀ i x, s.connections[i]? = some x →
    x.outgoing.bytes = (s.repliesTo i).flatMap replyFrame
  waited : ∀ e, .waited e ∈ s.events → e = .kNone

structure Owes (i : ℕ) (c : CmCommand) (s : MainState) : Prop where
  com : s.backgroundCom = some ⟨true, some i⟩
  last : s.connections.length = i + 1
  served : s.Served i
  answer : s.answers[i]? = some c
  writable : ∀ x, s.connections[i]? = some x →
    Transfer.Moving x.outgoing.calls ∧ 8 ≤ x.outgoing.calls.length

variable {s t : MainState} {k i : ℕ} {c : CmCommand}

@[simp] theorem answers_length (s : MainState) : s.answers.length = s.connections.length := by
  rw [answers, Script.replies_length, requests, List.length_map]

/-- Events that are no replies to the client. -/
theorem repliesTo_of_silent {es : List MainEvent} (hes : ∀ e ∈ es, e.replyTo i = none)
    (hevents : t.events = s.events ++ es) : t.repliesTo i = s.repliesTo i := by
  rw [repliesTo, hevents, List.filterMap_append, List.filterMap_eq_nil_iff.mpr hes, List.append_nil,
    repliesTo]

theorem Served.of_quiet (h : s.Served k) (es : List MainEvent) (hes : ∀ e ∈ es, e.Quiet)
    (hconnections : t.connections = s.connections) (hevents : t.events = s.events ++ es) :
    t.Served k := by
  have hreplies : ∀ i, t.repliesTo i = s.repliesTo i := fun i =>
    repliesTo_of_silent (fun e he => (hes e he).1 i) hevents
  have hanswers : t.answers = s.answers := by
    rw [answers, requests, hconnections, answers, requests]
  constructor
  · intro i
    rw [hreplies, hanswers, h.replies]
  · intro i x hx
    rw [hreplies]
    exact h.sent i x (hconnections ▸ hx)
  · intro e he
    rw [hevents, List.mem_append] at he
    rcases he with he | he
    · exact h.waited e he
    · exact (hes _ he).2 e rfl

theorem Served.congr (h : s.Served k) (hconnections : t.connections = s.connections)
    (hevents : t.events = s.events) : t.Served k :=
  h.of_quiet [] (by simp) hconnections (hevents.trans (List.append_nil _).symm)

theorem map_set_eq {α β : Type} {f : α → β} {l : List α} {i : ℕ} {x y : α} (hx : l[i]? = some x)
    (hf : f y = f x) : (l.set i y).map f = l.map f := by
  apply List.ext_getElem?
  intro j
  rw [List.getElem?_map, List.getElem?_set, List.getElem?_map]
  split_ifs with hij hlt
  · rw [← hij, hx, Option.map_some, Option.map_some, hf]
  · rw [← hij, List.getElem?_eq_none (by omega)]
  · rfl

/-- A reply to the client that is owed it. -/
theorem Owes.sendCommand (h : s.Owes i c) (hc : c ≠ .kCheckpoint) :
    ∃ connections, s.sendCommand c =
        .ok (.kNone, { s with connections }.log [.replied i c]) ∧
      connections.length = i + 1 ∧
      connections.map (fun x => x.client.command) = s.requests ∧
      ({ s with connections }.log [.replied i c]).Served (i + 1) := by
  have hi : i < s.connections.length := h.last ▸ Nat.lt_succ_self i
  obtain ⟨x, hget⟩ : ∃ x, s.connections[i] = x := ⟨_, rfl⟩
  have hx : s.connections[i]? = some x := (List.getElem?_eq_getElem hi).trans (congrArg some hget)
  obtain ⟨hmoving, hlen⟩ := h.writable x hx
  obtain ⟨outgoing, hbytes, hsend⟩ := ServerSocket.sendCommand_eq hc hx hmoving hlen
  let t := { s with connections := s.connections.set i { x with outgoing } }.log [.replied i c]
  have hrequests : t.requests = s.requests := map_set_eq hx rfl
  have hanswers : t.answers = s.answers := by rw [answers, hrequests, answers]
  have hnone : s.repliesTo i = [] := by
    rw [h.served.replies, List.getElem?_eq_none (by simp)]
    rfl
  have hreplies : ∀ j, t.repliesTo j = if i = j then [c] else s.repliesTo j := by
    intro j
    simp only [t, repliesTo, log, List.filterMap_append]
    split_ifs with hij
    · have hi : s.events.filterMap (MainEvent.replyTo i) = [] := hnone
      simp [← hij, hi, MainEvent.replyTo]
    · simp [MainEvent.replyTo, hij]
  refine ⟨s.connections.set i { x with outgoing }, ?_, ?_, hrequests, ?_, ?_, ?_⟩
  · simp only [MainState.sendCommand, socket, h.com]
    exact Transition.bind_eq_ok.mpr ⟨_, rfl, Transition.bind_eq_ok.mpr
      ⟨_, congrArg (Except.mapError MainFault.socket) hsend, rfl⟩⟩
  · rw [List.length_set, h.last]
  · intro j
    change t.repliesTo j = (t.answers.take (i + 1))[j]?.toList
    rw [hreplies, hanswers, List.getElem?_take]
    split_ifs with hij hlt hlt
    · rw [← hij, h.answer]
      rfl
    · omega
    · rw [h.served.replies, List.getElem?_take_of_lt (by omega)]
    · rw [h.served.replies, List.getElem?_eq_none (by simp; omega)]
  · intro j y hy
    change y.outgoing.bytes = (t.repliesTo j).flatMap replyFrame
    rw [hreplies]
    have hy : (s.connections.set i { x with outgoing })[j]? = some y := hy
    rw [List.getElem?_set] at hy
    split_ifs at hy ⊢ with hij
    · obtain rfl := Option.some.inj hy
      have hempty : x.outgoing.bytes = [] := by rw [h.served.sent i x hx, hnone, List.flatMap_nil]
      rw [hbytes, hempty, List.flatMap_singleton]
      rfl
    · exact h.served.sent j y hy
  · intro e he
    rcases List.mem_append.mp he with he | he
    · exact h.served.waited e he
    · simp at he

theorem Owes.of_quiet (h : s.Owes i c) (es : List MainEvent) (hes : ∀ e ∈ es, e.Quiet)
    (hcom : t.backgroundCom = s.backgroundCom) (hconnections : t.connections = s.connections)
    (hevents : t.events = s.events ++ es) : t.Owes i c where
  com := hcom.trans h.com
  last := hconnections ▸ h.last
  served := h.served.of_quiet es hes hconnections hevents
  answer := by
    rw [answers, requests, hconnections]
    exact h.answer
  writable := hconnections ▸ h.writable

/-- The command that comes next is owed the answer that the script has for it. -/
theorem Served.accept (h : s.Served s.connections.length) {p : Client} (hp : p.WellFormed)
    (hconnections : ∃ incoming, t.connections = s.connections ++ [{ p.connect with incoming }])
    (hcom : t.backgroundCom = some ⟨true, some s.connections.length⟩)
    (hevents : t.events = s.events ++ [.waited .kNone]) :
    t.requests = s.requests ++ [p.command] ∧ t.Owes s.connections.length
      (Script.reply .kInvalidCommand (Script.after (phaseScript harnessPhases) s.requests)
        p.command) := by
  obtain ⟨incoming, hconnections⟩ := hconnections
  have hrequests : t.requests = s.requests ++ [p.command] := by
    rw [requests, hconnections, List.map_append, requests]
    rfl
  have hanswers : t.answers = s.answers ++ [Script.reply .kInvalidCommand
      (Script.after (phaseScript harnessPhases) s.requests) p.command] := by
    rw [answers, hrequests, Script.replies_append_singleton, answers]
  have hreplies : ∀ i, t.repliesTo i = s.repliesTo i := fun i =>
    repliesTo_of_silent (by simp [MainEvent.replyTo]) hevents
  have hlast : t.connections[s.connections.length]? = some { p.connect with incoming } := by
    rw [hconnections, List.getElem?_concat_length]
  refine ⟨hrequests, hcom, by simp [hconnections], ⟨?_, ?_, ?_⟩, ?_, ?_⟩
  · intro i
    rw [hreplies, h.replies, hanswers, ← answers_length, List.take_length, List.take_left]
  · intro i x hx
    rw [hreplies]
    rw [hconnections, List.getElem?_append] at hx
    split_ifs at hx with hlt
    · exact h.sent i x hx
    · have hi : i - s.connections.length = 0 := by
        by_contra hne
        rw [List.getElem?_eq_none (by simp; omega)] at hx
        cases hx
      rw [hi] at hx
      obtain rfl := Option.some.inj hx
      rw [h.replies, List.getElem?_eq_none (by simp; omega)]
      rfl
  · intro e he
    rw [hevents, List.mem_append] at he
    rcases he with he | he
    · exact h.waited e he
    · simpa using he
  · rw [hanswers, ← answers_length, List.getElem?_concat_length]
  · intro x hx
    rw [hlast] at hx
    obtain rfl := Option.some.inj hx
    exact hp.send

/-- One turn of a wait loop. -/
theorem Served.waitLoop_eq (h : s.Served s.connections.length)
    (hcom : s.backgroundCom = some ⟨true, none⟩) {p : Client} (hp : p.WellFormed)
    (todo : List Instr) :
    ∃ t : MainState, t.requests = s.requests ++ [p.command] ∧
      t.Owes s.connections.length (Script.reply .kInvalidCommand
        (Script.after (phaseScript harnessPhases) s.requests) p.command) ∧
      t.events = s.events ++ [.waited .kNone] ∧
      t.todo = s.todo ∧ t.ioctlFd = s.ioctlFd ∧ t.exitCode = s.exitCode ∧
      s.waitLoop c todo (some p) =
        if p.command = c.code then
          .ok ({ t with todo, command := SocketMessage.new }.log [.commanded c])
        else t.refuse := by
  obtain ⟨r, incoming, htype, hwait⟩ :=
    ServerSocket.waitForMessage_eq hp s.command s.connections
  let t := { s with
    backgroundCom := some ⟨true, some s.connections.length⟩
    command := r
    connections := s.connections ++ [{ p.connect with incoming }] }.log [.waited .kNone]
  obtain ⟨hrequests, howes⟩ := h.accept (t := t) hp ⟨incoming, rfl⟩ rfl rfl
  refine ⟨t, hrequests, howes, rfl, rfl, rfl, rfl, ?_⟩
  rw [waitLoop, ← htype]
  have hsocket : s.socket = .ok ⟨true, none⟩ := by rw [socket, hcom]
  rw [hsocket]
  simp only [bind, Except.bind, hwait, Except.mapError]
  rfl

/-- A refused client is answered, and nobody is connected. -/
theorem Owes.refuse_eq (h : s.Owes i .kInvalidCommand) :
    ∃ t, s.refuse = .ok t ∧ t.requests = s.requests ∧ t.Served t.connections.length ∧
      t.connections.length = i + 1 ∧ t.backgroundCom = some ⟨true, none⟩ ∧
      t.milestones = s.milestones ∧ t.todo = s.todo ∧ t.ioctlFd = s.ioctlFd ∧
      t.exitCode = s.exitCode := by
  obtain ⟨connections, hsend, hlast, hrequests, hserved⟩ := h.sendCommand (by decide)
  let t := { s with connections }.log [.replied i .kInvalidCommand]
  refine ⟨{ t with backgroundCom := some ⟨true, none⟩ }, ?_, hrequests, ?_, hlast, rfl, ?_, rfl,
    rfl, rfl⟩
  · rw [refuse, hsend]
    simp only [bind, Except.bind, closeClient, socket, log, h.com]
    rfl
  · have hserved := hserved.congr (t := { t with backgroundCom := some ⟨true, none⟩ }) rfl rfl
    rwa [← hlast] at hserved
  · simp [milestones, t, log, MainEvent.milestone]

end MainState

end CrashMonkey
