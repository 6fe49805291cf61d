import CrashMonkey.Communication.ClientSocket
import CrashMonkey.Harness.Background

/-!
# The harness and its user tools

Any number of `begin_log`, `end_log` and `begin_tests` run beside main, and they take their
steps in any order. The exit status of a tool is to say whether main has carried its
command out.
-/

namespace CrashMonkey

open Communication

inductive UserTool where
  | beginLog
  | endLog
  | beginTests
deriving DecidableEq, Repr

def UserTool.sender : UserTool → ClientCommandSender
  | beginLog => .new .kBeginLog .kBeginLogDone
  | endLog => .new .kEndLog .kEndLogDone
  | beginTests => .new .kRunTests .kRunTestsDone

structure System where
  main : MainState
  processes : List Process

/-- A process whose connection main is to accept, and how the bytes are to move there. -/
structure Accept where
  process : ℕ
  recvCalls : List Transfer.Call
  sendCalls : List Transfer.Call

inductive Turn where
  | process (i : ℕ) (x : StageCalls)
  | main (ok : Bool) (accept : Option Accept)

inductive SystemFault where
  | noProcess
  | notPending
  | process (fault : ProcessFault)
  | main (fault : MainFault)
deriving DecidableEq, Repr

def MainState.written (k : ℕ) (s : MainState) : List UInt8 :=
  ((s.connections[k]?).map fun x => x.outgoing.bytes).getD []

namespace System

def start (o : Options) (tools : List UserTool) : System :=
  ⟨.start o, tools.map fun tool => .new tool.sender⟩

def process (i : ℕ) (s : System) : Except SystemFault Process :=
  match s.processes[i]? with
  | none => .error .noProcess
  | some p => .ok p

def listening (s : System) : Bool := s.main.backgroundCom.any ServerSocket.serverSocket

def incoming (p : Process) (s : System) : List UInt8 :=
  match p.link with
  | .accepted k => s.main.written k
  | _ => []

def client (a : Accept) (p : Process) : Except SystemFault Client :=
  if p.link = .pending then .ok ⟨p.sent, a.recvCalls, a.sendCalls⟩ else .error .notPending

def step (s : System) : Turn → Except SystemFault System
  | .process i x => do
    let p ← s.process i
    let p ← (p.run x s.listening (s.incoming p)).mapError SystemFault.process
    return { s with processes := s.processes.set i p }
  | .main ok none => do
    let main ← (s.main.step ⟨ok, none⟩).mapError SystemFault.main
    return { s with main }
  | .main ok (some a) => do
    let p ← s.process a.process
    let accepted ← client a p
    let k := s.main.connections.length
    let main ← (s.main.step ⟨ok, some accepted⟩).mapError SystemFault.main
    -- `accept` is called only where main waits
    let link := if main.connections.length = k then p.link else .accepted k
    return ⟨main, s.processes.set a.process { p with link }⟩

def Step (s : System) (turn : Turn) (t : System) : Prop := s.step turn = .ok t

end System

/-- Main has accepted the command and answered that it is carried out, and the process has
got the answer. -/
structure Succeeded (main : MainState) (p : Process) : Prop where
  accepted : .commanded p.sender.sendCommand ∈ main.events
  answered : ∃ k, p.link = .accepted k ∧ .replied k p.sender.returnCommand ∈ main.events
  received : ∃ m, p.reply = some m ∧ m.type = p.sender.returnCommand.code

/-- The exit status is 0 for success, and for nothing else. -/
def Agrees (main : MainState) (p : Process) : Prop :=
  ∀ res, p.stage = .returned res → (exitStatus res = 0 ↔ Succeeded main p)

/-- If the process waits for its answer, a call fails. -/
def AnswerLost (s : System) : Turn → Prop
  | .process i x => ∀ p, s.processes[i]? = some p → p.stage = .wait → .failed ∈ x.calls
  | .main _ _ => True

namespace MainState

/-- The answer is a refusal, or one to a command that was accepted. -/
def Justified (c : CmCommand) (s : MainState) : Prop :=
  c = .kInvalidCommand ∨ ∃ command, doneOf command = c ∧ .commanded command ∈ s.events

/-- On each connection are the answers to it, which are justified, and maybe a part of one
more. -/
structure Answered (whole : Prop) (s : MainState) : Prop where
  written : ∀ k, ∃ part, s.written k = (s.repliesTo k).flatMap replyFrame ++ part ∧
    part.length < 8 ∧ (whole → part = [])
  justified : ∀ k c, .replied k c ∈ s.events → s.Justified c

variable {s t : MainState} {c : CmCommand} {k : ℕ}

theorem Justified.mono (h : s.Justified c) (hevents : s.events <+: t.events) : t.Justified c :=
  h.imp_right fun ⟨command, hdone, hmem⟩ => ⟨command, hdone, hevents.subset hmem⟩

theorem mem_repliesTo : c ∈ s.repliesTo k ↔ .replied k c ∈ s.events := by
  rw [repliesTo, List.mem_filterMap]
  constructor
  · rintro ⟨e, he, hreply⟩
    unfold MainEvent.replyTo at hreply
    split at hreply
    · split_ifs at hreply with hk
      rw [hk, Option.some.inj hreply] at he
      exact he
    · cases hreply
  · exact fun h => ⟨_, h, by simp [MainEvent.replyTo]⟩

theorem doneOf_ne_kCheckpoint (command : CmCommand) : doneOf command ≠ .kCheckpoint := by
  cases command <;> decide

theorem Answered.ne_kCheckpoint {whole : Prop} (h : s.Answered whole) :
    ∀ c ∈ s.repliesTo k, c ≠ .kCheckpoint := by
  intro c hc
  rcases h.justified k c (mem_repliesTo.mp hc) with rfl | ⟨command, rfl, -⟩
  · decide
  · exact doneOf_ne_kCheckpoint command

theorem Answered.mono {whole whole' : Prop} (h : s.Answered whole) (hwhole : whole' → whole) :
    s.Answered whole' := by
  refine ⟨fun k => ?_, h.justified⟩
  obtain ⟨part, hwritten, hpart, hnil⟩ := h.written k
  exact ⟨part, hwritten, hpart, fun hw => hnil (hwhole hw)⟩

/-- Events without a reply. -/
theorem Answered.of_silent {whole : Prop} (h : s.Answered whole) (es : List MainEvent)
    (hes : ∀ e ∈ es, ∀ k, e.replyTo k = none) (hwritten : ∀ k, t.written k = s.written k)
    (hevents : t.events = s.events ++ es) : t.Answered whole := by
  have hreplies : ∀ k, t.repliesTo k = s.repliesTo k := fun k =>
    repliesTo_of_silent (fun e he => hes e he k) hevents
  constructor
  · intro k
    rw [hwritten, hreplies]
    exact h.written k
  · intro k c hc
    rw [← mem_repliesTo, hreplies, mem_repliesTo] at hc
    exact (h.justified k c hc).mono (hevents ▸ List.prefix_append _ _)

/-- A new connection, to which nothing is written. -/
theorem written_append {connections : List Connection} {x : Connection}
    (hs : s.connections = connections ++ [x]) (ht : t.connections = connections)
    (hx : x.outgoing.bytes = []) (k : ℕ) : s.written k = t.written k := by
  rw [written, hs, written, ht, List.getElem?_append]
  split_ifs with hlt
  · rfl
  · rw [List.getElem?_eq_none (not_lt.mp hlt)]
    cases hk : [x][k - connections.length]? with
    | none => rfl
    | some y =>
      obtain rfl := List.mem_singleton.mp (List.mem_of_getElem? hk)
      exact hx

/-- More bytes on one connection. -/
theorem written_set {i : ℕ} {x y : Connection} {part : List UInt8}
    (hx : s.connections[i]? = some x) (ht : t.connections = s.connections.set i y)
    (hy : y.outgoing.bytes = x.outgoing.bytes ++ part) (k : ℕ) :
    t.written k = s.written k ++ if i = k then part else [] := by
  rw [written, ht, written, List.getElem?_set]
  split_ifs with hik hlt
  · rw [← hik, hx]
    exact hy
  · rw [List.getElem?_eq_none (not_lt.mp hlt)] at hx
    cases hx
  · exact (List.append_nil _).symm

/-- The whole answer goes out. -/
theorem Answered.replied {i : ℕ} (h : s.Answered True) (hc : s.Justified c)
    (hwritten : ∀ k, t.written k = s.written k ++ if i = k then replyFrame c else [])
    (hevents : t.events = s.events ++ [.replied i c]) : t.Answered True := by
  have hprefix : s.events <+: t.events := hevents ▸ List.prefix_append _ _
  refine ⟨fun k => ⟨[], ?_, by decide, fun _ => rfl⟩, fun k c' hc' => ?_⟩
  · obtain ⟨part, hk, -, hnil⟩ := h.written k
    rw [hwritten, hk, hnil trivial, List.append_nil, List.append_nil, repliesTo, repliesTo, hevents,
      List.filterMap_append, List.flatMap_append]
    split_ifs with hik
    · simp [MainEvent.replyTo, hik]
    · simp [MainEvent.replyTo, hik]
  · rw [hevents] at hc'
    rcases List.mem_append.mp hc' with hc' | hc'
    · exact (h.justified k c' hc').mono hprefix
    · obtain ⟨-, rfl⟩ := MainEvent.replied.inj (List.mem_singleton.mp hc')
      exact hc.mono hprefix

/-- A part of an answer goes out. -/
theorem Answered.cut {i : ℕ} {part : List UInt8} (h : s.Answered True) (hpart : part.length < 8)
    (hwritten : ∀ k, t.written k = s.written k ++ if i = k then part else [])
    (hevents : t.events = s.events) : t.Answered False := by
  refine ⟨fun k => ⟨if i = k then part else [], ?_, ?_, nofun⟩, fun k c' hc' => ?_⟩
  · obtain ⟨part', hk, -, hnil⟩ := h.written k
    rw [hwritten, hk, hnil trivial, List.append_nil, repliesTo, repliesTo, hevents]
  · split_ifs
    · exact hpart
    · decide
  · exact (h.justified k c' (hevents ▸ hc')).mono (hevents ▸ List.prefix_rfl)

/-- An answer goes out, or a part of it and main gets an error. -/
theorem Answered.sendCommand (h : s.Answered True) (hne : c ≠ .kCheckpoint) (hc : s.Justified c)
    {e : SocketError} (hsend : s.sendCommand c = .ok (e, t)) :
    t.Answered (e = .kNone) ∧ s.events <+: t.events ∧ t.todo = s.todo ∧
      t.backgroundCom = s.backgroundCom := by
  obtain ⟨sock, -, hsend⟩ := Transition.bind_eq_ok.mp hsend
  obtain ⟨⟨e', connections⟩, hsock, hsend⟩ := Transition.bind_eq_ok.mp hsend
  cases hsend
  refine ⟨?_, List.prefix_append _ _, rfl, rfl⟩
  rcases ServerSocket.sendCommand_made hne (Transition.mapError_eq_ok hsock) with
    ⟨rfl, he⟩ | ⟨i, x, outgoing, part, hi, hx, rfl, hbytes, hpart⟩
  · rw [if_neg he]
    exact (h.mono fun _ => trivial).of_silent [] (by simp) (fun _ => rfl) rfl
  · rcases hpart with ⟨rfl, rfl⟩ | ⟨he, hpart⟩
    · rw [if_pos rfl, hi]
      exact (h.replied hc (written_set hx rfl hbytes) rfl).mono fun _ => trivial
    · rw [if_neg he]
      exact (h.cut hpart (written_set hx rfl hbytes) (List.append_nil _)).mono he

/-- An operation of the tester adds no answers. -/
theorem run_silent (op : TesterOp) (onFailure : OnFailure) (ok : Bool) (s : MainState) :
    ∃ es, (∀ e ∈ es, ∀ k, e.replyTo k = none) ∧ (s.run op onFailure ok).events = s.events ++ es ∧
      (s.run op onFailure ok).connections = s.connections ∧
      (s.run op onFailure ok).backgroundCom = s.backgroundCom ∧
      (s.run op onFailure ok).todo = s.todo := by
  let es := .ran op :: op.ioctls ok s.ioctlFd
  have hes : ∀ e ∈ es, ∀ k, e.replyTo k = none := fun e he => (op.quiet ok s.ioctlFd e he).1
  have hcleanup : ∀ e ∈ es ++ [.ran .cleanupHarness], ∀ k, e.replyTo k = none := by
    intro e he k
    rcases List.mem_append.mp he with he | he
    · exact hes e he k
    · rw [List.mem_singleton.mp he]
      rfl
  unfold run
  cases ok with
  | true => exact ⟨es, hes, rfl, rfl, rfl, rfl⟩
  | false =>
    cases onFailure with
    | ignore => exact ⟨es, hes, rfl, rfl, rfl, rfl⟩
    | exit => exact ⟨es, hes, rfl, rfl, rfl, rfl⟩
    | cleanup => exact ⟨_, hcleanup, List.append_assoc .., rfl, rfl, rfl⟩
    | cleanupExit => exact ⟨_, hcleanup, List.append_assoc .., rfl, rfl, rfl⟩

end MainState

def Status.Fits (s : MainState) : Status → Prop
  | absent => s.backgroundCom = none
  | idle => s.backgroundCom = some ⟨true, none⟩
  | owing c => (∃ i, s.backgroundCom = some ⟨true, some i⟩) ∧ s.Justified c
  | replied => ∃ i, s.backgroundCom = some ⟨true, some i⟩

structure Answering (s : MainState) : Prop where
  status : s.exitCode = none → ∃ st, Proceeds st s.todo ∧ st.Fits s
  answered : s.Answered (s.exitCode = none)

variable {s t : MainState} {x : CallResults}

theorem Status.Fits.mono {st : Status} (h : st.Fits s) (hcom : t.backgroundCom = s.backgroundCom)
    (hevents : s.events <+: t.events) : st.Fits t := by
  cases st with
  | absent => exact hcom.trans h
  | idle => exact hcom.trans h
  | owing c =>
    obtain ⟨⟨i, hi⟩, hjustified⟩ := h
    exact ⟨⟨i, hcom.trans hi⟩, hjustified.mono hevents⟩
  | replied => exact h.imp fun i hi => hcom.trans hi

/-- A step that answers nobody. -/
theorem MainState.Answered.goOn (h : s.Answered True) (es : List MainEvent)
    (hes : ∀ e ∈ es, ∀ k, e.replyTo k = none) (hconnections : t.connections = s.connections)
    (hevents : t.events = s.events ++ es)
    (hstatus : t.exitCode = none → ∃ st, Proceeds st t.todo ∧ st.Fits t) :
    Answering t ∧ s.events <+: t.events := by
  have hwritten : ∀ k, t.written k = s.written k := fun k => by
    rw [MainState.written, hconnections, MainState.written]
  exact ⟨⟨hstatus, (h.of_silent es hes hwritten hevents).mono fun _ => trivial⟩,
    hevents ▸ List.prefix_append _ _⟩

/-- Main returns on an error of the socket. -/
theorem MainState.Answered.abort {whole : Prop} (h : s.Answered whole) :
    Answering s.abort ∧ s.events <+: s.abort.events := by
  have hfalse : s.Answered (s.abort.exitCode = none) := h.mono nofun
  refine ⟨⟨nofun, hfalse.of_silent [.ran .cleanupHarness] ?_ (fun _ => rfl) rfl⟩,
    List.prefix_append _ _⟩
  simp [MainEvent.replyTo]

section Step

variable (h : s.Answered True) {todo : List Instr}
include h

theorem MainState.Answered.sendCommand_step {c : CmCommand} (hfits : (Status.owing c).Fits s)
    (hne : c ≠ .kCheckpoint) (hproceeds : Proceeds .replied todo)
    (hstep : (do
      let (e, s) ← s.sendCommand c
      return if e ≠ .kNone then s.abort else { s with todo } : Except MainFault MainState) =
        .ok t) :
    Answering t ∧ s.events <+: t.events := by
  obtain ⟨⟨i, hcom⟩, hjustified⟩ := hfits
  obtain ⟨⟨e, u⟩, hsend, hstep⟩ := Transition.bind_eq_ok.mp hstep
  obtain ⟨hu, hprefix, -, hcom'⟩ := h.sendCommand hne hjustified hsend
  obtain rfl := Except.ok.inj hstep
  split_ifs with he
  · obtain ⟨habort, hprefix'⟩ := hu.abort
    exact ⟨habort, hprefix.trans hprefix'⟩
  · refine ⟨⟨fun _ => ⟨.replied, hproceeds, i, hcom'.trans hcom⟩, ?_⟩, hprefix⟩
    exact (hu.mono fun _ => not_not.mp he).of_silent [] (by simp) (fun _ => rfl)
      (List.append_nil _).symm

/-- A client is turned away. -/
theorem MainState.Answered.refuse {i : ℕ} (hcom : s.backgroundCom = some ⟨true, some i⟩)
    (hproceeds : Proceeds .idle s.todo) (hstep : s.refuse = .ok t) :
    Answering t ∧ s.events <+: t.events := by
  obtain ⟨⟨e, u⟩, hsend, hstep⟩ := Transition.bind_eq_ok.mp hstep
  obtain ⟨hu, hprefix, htodo, hcom'⟩ := h.sendCommand (by decide) (.inl rfl) hsend
  dsimp only at hstep
  split_ifs at hstep with he
  · obtain rfl := Except.ok.inj hstep
    obtain ⟨habort, hprefix'⟩ := hu.abort
    exact ⟨habort, hprefix.trans hprefix'⟩
  · obtain ⟨sock, hsock, hstep⟩ := Transition.bind_eq_ok.mp hstep
    rw [MainState.socket, hcom', hcom] at hsock
    obtain rfl := Except.ok.inj hsock
    obtain rfl := Except.ok.inj hstep
    refine ⟨⟨fun _ => ⟨.idle, htodo ▸ hproceeds, rfl⟩, ?_⟩, hprefix⟩
    exact (hu.mono fun _ => not_not.mp he).of_silent [] (by simp) (fun _ => rfl)
      (List.append_nil _).symm

theorem MainState.Answered.waitLoop {c : CmCommand} (hcom : s.backgroundCom = some ⟨true, none⟩)
    (hproceeds : Proceeds (.owing (doneOf c)) todo) (htodo : s.todo = .waitFor c :: todo)
    {accepted : Option Client} (hstep : s.waitLoop c todo accepted = .ok t) :
    Answering t ∧ s.events <+: t.events := by
  obtain ⟨sock, hsock, hstep⟩ := Transition.bind_eq_ok.mp hstep
  rw [MainState.socket, hcom] at hsock
  obtain rfl := Except.ok.inj hsock
  obtain ⟨⟨e, command, sock, connections⟩, hwait, hstep⟩ := Transition.bind_eq_ok.mp hstep
  have hmade := ServerSocket.waitForMessage_made (Transition.mapError_eq_ok hwait)
  let u := { s with backgroundCom := some sock, command, connections }.log [.waited e]
  have hprefix : s.events <+: u.events := List.prefix_append _ _
  have hwritten : ∀ k, u.written k = s.written k := by
    rcases hmade with ⟨rfl, -⟩ | ⟨-, x, hx, hconnections⟩
    · exact fun _ => rfl
    · exact MainState.written_append hconnections rfl hx
  have hu : u.Answered True :=
    h.of_silent [.waited e] (by simp [MainEvent.replyTo]) hwritten rfl
  dsimp only at hstep
  split_ifs at hstep with he hcommand
  · obtain rfl := Except.ok.inj hstep
    obtain ⟨habort, hprefix'⟩ := hu.abort
    exact ⟨habort, hprefix.trans hprefix'⟩
  · obtain rfl := Except.ok.inj hstep
    rcases hmade with ⟨-, hne⟩ | ⟨rfl, -⟩
    · exact absurd (not_not.mp he) hne
    · have hstatus : (Status.owing (doneOf c)).Fits
          ({ u with todo, command := SocketMessage.new }.log [.commanded c]) :=
        ⟨⟨_, rfl⟩, .inr ⟨c, rfl, List.mem_append_right _ (List.mem_singleton_self _)⟩⟩
      obtain ⟨hanswering, hprefix'⟩ := hu.goOn (t := { u with
        todo, command := SocketMessage.new }.log [.commanded c]) [.commanded c]
        (by simp [MainEvent.replyTo]) rfl rfl fun _ => ⟨_, hproceeds, hstatus⟩
      exact ⟨hanswering, hprefix.trans hprefix'⟩
  · rcases hmade with ⟨-, hne⟩ | ⟨rfl, -⟩
    · exact absurd (not_not.mp he) hne
    · obtain ⟨hanswering, hprefix'⟩ := hu.refuse (t := t) rfl
        (show Proceeds .idle s.todo from htodo ▸ .waitFor hproceeds) hstep
      exact ⟨hanswering, hprefix.trans hprefix'⟩

end Step

theorem Answering.step (h : Answering s) (hstep : MainStep s x t) :
    Answering t ∧ s.events <+: t.events := by
  have hexit := hstep.exitCode_eq_none
  have hs : s.Answered True := h.answered.mono fun _ => hexit
  obtain ⟨st, hproceeds, hfits⟩ := h.status hexit
  rw [MainStep, MainState.step, if_neg (by simp [hexit])] at hstep
  generalize htodo : s.todo = todo at hproceeds hstep
  cases hproceeds with
  | nil =>
    obtain rfl := Except.ok.inj hstep
    exact hs.goOn [] (by simp) rfl (List.append_nil _).symm (by rintro ⟨⟩)
  | @check _ ok todo hst hproceeds =>
    obtain rfl := Except.ok.inj hstep
    refine hs.goOn [] (by simp) ?_ ?_ ?_
    · split <;> rfl
    · split <;> exact (List.append_nil _).symm
    · split
      · exact fun _ => ⟨st, hproceeds, hfits.mono rfl List.prefix_rfl⟩
      · rintro ⟨⟩
  | @run _ op onFailure todo hproceeds =>
    obtain rfl := Except.ok.inj hstep
    obtain ⟨es, hes, hevents, hconnections, hcom, htodo'⟩ :=
      MainState.run_silent op onFailure x.ok { s with todo }
    refine hs.goOn es hes hconnections hevents fun _ => ⟨st, htodo' ▸ hproceeds, ?_⟩
    exact hfits.mono hcom (hevents ▸ List.prefix_append _ _)
  | @initSocket todo hproceeds =>
    cases hok : x.ok with
    | true =>
      simp only [hok] at hstep
      obtain rfl := Except.ok.inj hstep
      exact hs.goOn [] (by simp) rfl (List.append_nil _).symm fun _ => ⟨.idle, hproceeds, rfl⟩
    | false =>
      simp only [hok] at hstep
      obtain rfl := Except.ok.inj hstep
      exact hs.goOn [] (by simp) rfl (List.append_nil _).symm (by rintro ⟨⟩)
  | @waitFor c todo hproceeds => exact hs.waitLoop hfits hproceeds htodo hstep
  | @sendCommand c todo hc hproceeds =>
    exact hs.sendCommand_step hfits hc hproceeds hstep
  | @closeClient todo hproceeds =>
    obtain ⟨i, hcom⟩ := hfits
    obtain ⟨sock, hsock, hstep⟩ := Transition.bind_eq_ok.mp hstep
    rw [MainState.socket, hcom] at hsock
    obtain rfl := Except.ok.inj hsock
    obtain rfl := Except.ok.inj hstep
    exact hs.goOn [] (by simp) rfl (List.append_nil _).symm fun _ => ⟨.idle, hproceeds, rfl⟩
  | @deleteSocket todo hproceeds =>
    obtain ⟨sock, -, hstep⟩ := Transition.bind_eq_ok.mp hstep
    obtain rfl := Except.ok.inj hstep
    exact hs.goOn [] (by simp) rfl (List.append_nil _).symm fun _ => ⟨.absent, hproceeds, rfl⟩

/-- The reply of a process is an answer of main, and its result says which; without a
reply it does not say success. -/
structure Recorded (main : MainState) (p : Process) : Prop where
  tool : p.sender.sendCommand ∈ harnessPhases ∧
    p.sender.returnCommand = doneOf p.sender.sendCommand
  silent : p.reply = none → ∀ res, p.stage = .returned res → exitStatus res ≠ 0
  replied : ∀ m, p.reply = some m →
    p.stage = .returned (if m.type = p.sender.returnCommand.code then 1 else 0) ∧
      ∃ k c, p.link = .accepted k ∧ .replied k c ∈ main.events ∧ m.type = c.code

variable {main main' : MainState} {p q : Process}

theorem Recorded.mono (h : Recorded main p) (hevents : main.events <+: main'.events) :
    Recorded main' p := by
  refine ⟨h.tool, h.silent, fun m hm => ?_⟩
  obtain ⟨hstage, k, c, hlink, hreplied, htype⟩ := h.replied m hm
  exact ⟨hstage, k, c, hlink, hevents.subset hreplied, htype⟩

theorem doneOf_eq_doneOf {command command' : CmCommand} (h : command ∈ harnessPhases)
    (hdone : doneOf command' = doneOf command) : command' = command := by
  simp only [harnessPhases, List.mem_cons, List.not_mem_nil, or_false] at h
  rcases h with rfl | rfl | rfl <;> cases command' <;> first | rfl | cases hdone

theorem doneOf_ne_kInvalidCommand {command : CmCommand} (h : command ∈ harnessPhases) :
    doneOf command ≠ .kInvalidCommand := by
  simp only [harnessPhases, List.mem_cons, List.not_mem_nil, or_false] at h
  rcases h with rfl | rfl | rfl <;> decide

/-- A process that got its answer has succeeded. -/
theorem Recorded.succeeded (h : Recorded main p) {whole : Prop} (hmain : main.Answered whole)
    {m : SocketMessage} (hm : p.reply = some m) (htype : m.type = p.sender.returnCommand.code) :
    Succeeded main p := by
  obtain ⟨-, k, c, hlink, hreplied, hc⟩ := h.replied m hm
  have hcode : c = p.sender.returnCommand := by
    have hofCode := congrArg CmCommand.ofCode (hc.symm.trans htype)
    rw [CmCommand.ofCode_code, CmCommand.ofCode_code] at hofCode
    exact Option.some.inj hofCode
  rw [hcode] at hreplied
  refine ⟨?_, ⟨k, hlink, hreplied⟩, m, hm, htype⟩
  obtain ⟨hphase, hdone⟩ := h.tool
  rcases hmain.justified k _ hreplied with hinvalid | ⟨command, hcommand, haccepted⟩
  · exact absurd (hdone.symm.trans hinvalid) (doneOf_ne_kInvalidCommand hphase)
  · rwa [← doneOf_eq_doneOf hphase (hcommand.trans hdone)]

/-- The result of the comparison is not an exit status. -/
theorem Recorded.agrees_iff_silent (h : Recorded main p) {whole : Prop} (hmain : main.Answered whole) :
    Agrees main p ↔ p.reply = none := by
  constructor
  · intro hagrees
    cases hm : p.reply with
    | none => rfl
    | some m =>
      have hiff := hagrees _ (h.replied m hm).1
      split_ifs at hiff with htype
      · exact absurd (hiff.mpr (h.succeeded hmain hm htype)) (by decide)
      · obtain ⟨m', hm', htype'⟩ := (hiff.mp (by decide)).received
        rw [hm] at hm'
        rw [Option.some.inj hm'] at htype
        exact absurd htype' htype
  · intro hnone res hres
    refine iff_of_false (h.silent hnone res hres) fun hsucceeded => ?_
    obtain ⟨m, hm, -⟩ := hsucceeded.received
    rw [hnone] at hm
    cases hm

/-- What a process can read are answers of main to it, and a part of one. -/
theorem System.incoming_eq {s : System} {whole : Prop} (hmain : s.main.Answered whole)
    (p : Process) : ∃ (answers : List CmCommand) (part : List UInt8),
      s.incoming p = answers.flatMap replyFrame ++ part ∧ part.length < 8 ∧
      ∀ c ∈ answers, ∃ k, p.link = .accepted k ∧ .replied k c ∈ s.main.events := by
  cases hlink : p.link with
  | accepted k =>
    obtain ⟨part, hwritten, hpart, -⟩ := hmain.written k
    refine ⟨s.main.repliesTo k, part, ?_, hpart, fun c hc => ⟨k, rfl, ?_⟩⟩
    · rw [System.incoming, hlink]
      exact hwritten
    · exact MainState.mem_repliesTo.mp hc
  | unconnected => exact ⟨[], [], by rw [System.incoming, hlink]; rfl, by decide, nofun⟩
  | pending => exact ⟨[], [], by rw [System.incoming, hlink]; rfl, by decide, nofun⟩

/-- A process that takes a step has no reply, and gets one in the last stage unless a call
fails. -/
theorem Recorded.run {s : System} (h : Recorded s.main p) {whole : Prop}
    (hmain : s.main.Answered whole) {x : StageCalls}
    (hrun : p.run x s.listening (s.incoming p) = .ok q) :
    p.reply = none ∧ Recorded s.main q ∧
      (q.reply = none ↔ (p.stage = .wait → .failed ∈ x.calls)) := by
  by_cases hstage : p.stage = .wait
  · have hnone : p.reply = none := by
      cases hm : p.reply with
      | none => rfl
      | some m => cases hstage.symm.trans (h.replied m hm).1
    obtain ⟨answers, part, hincoming, hpart, hanswers⟩ := s.incoming_eq hmain p
    have hne : ∀ c ∈ answers, c ≠ .kCheckpoint := by
      intro c hc
      obtain ⟨k, -, hreplied⟩ := hanswers c hc
      exact hmain.ne_kCheckpoint c (MainState.mem_repliesTo.mpr hreplied)
    refine ⟨hnone, ?_⟩
    rcases Process.run_wait hstage hne hpart hincoming hrun with
      ⟨hfailed, rfl⟩ | ⟨hno, r, ⟨c, hc, htype⟩, rfl⟩
    · refine ⟨⟨h.tool, fun _ res hres => ?_, fun m hm => ?_⟩, iff_of_true hnone fun _ => hfailed⟩
      · rw [← Stage.returned.inj hres]
        decide
      · cases hnone.symm.trans hm
    · refine ⟨⟨h.tool, nofun, fun m hm => ?_⟩, iff_of_false nofun fun hlost => hno (hlost hstage)⟩
      obtain rfl := Option.some.inj hm
      obtain ⟨k, hlink, hreplied⟩ := hanswers c hc
      exact ⟨rfl, k, c, hlink, hreplied, htype⟩
  · obtain ⟨hnot, hreply, hsend, hreturn, hreturned⟩ := Process.run_before hstage hrun
    have hnone : p.reply = none := by
      cases hm : p.reply with
      | none => rfl
      | some m => exact absurd (h.replied m hm).1 (hnot _)
    refine ⟨hnone, ⟨?_, fun _ res hres => ?_, fun m hm => ?_⟩,
      iff_of_true (hreply.trans hnone) fun hwait => absurd hwait hstage⟩
    · rw [hsend, hreturn]
      exact h.tool
    · rcases hreturned res hres with rfl | rfl <;> decide
    · cases (hreply.trans hnone).symm.trans hm

/-- A process whose connection is accepted has no reply yet. -/
theorem Recorded.accept (h : Recorded main p) {a : Accept} {accepted : Client}
    (haccepted : System.client a p = .ok accepted) (link : Link) :
    p.reply = none ∧ Recorded main { p with link } := by
  have hnone : p.reply = none := by
    cases hm : p.reply with
    | none => rfl
    | some m =>
      obtain ⟨-, k, c, hlink, -⟩ := h.replied m hm
      rw [System.client, hlink, if_neg nofun] at haccepted
      cases haccepted
  refine ⟨hnone, h.tool, h.silent, fun m hm => ?_⟩
  cases hnone.symm.trans hm

structure Intact (s : System) : Prop where
  main : Answering s.main
  recorded : ∀ p ∈ s.processes, Recorded s.main p

theorem intact_start (o : Options) (tools : List UserTool) : Intact (System.start o tools) where
  main := by
    refine ⟨fun _ => ⟨.absent, proceeds_program o, rfl⟩, fun k => ⟨[], ?_, by decide, fun _ => rfl⟩,
      ?_⟩
    · rfl
    · intro k c hc
      cases hc
  recorded := by
    intro p hp
    obtain ⟨tool, -, rfl⟩ := List.mem_map.mp hp
    refine ⟨?_, nofun, nofun⟩
    cases tool <;> decide

theorem System.process_eq_ok {s : System} {i : ℕ} (h : s.process i = .ok p) :
    s.processes[i]? = some p := by
  unfold System.process at h
  split at h
  · cases h
  · rwa [← Except.ok.inj h]

theorem forall_mem_set {α : Type} {P : α → Prop} {l : List α} {i : ℕ} {a b : α}
    (ha : l[i]? = some a) (hP : P a) : (∀ y ∈ l.set i b, P y) ↔ (∀ y ∈ l, P y) ∧ P b := by
  constructor
  · refine fun h => ⟨fun y hy => ?_, h b ?_⟩
    · obtain ⟨j, hj⟩ := List.mem_iff_getElem?.mp hy
      obtain rfl | hne := eq_or_ne j i
      · rw [← Option.some.inj (ha.symm.trans hj)]
        exact hP
      · refine h y (List.mem_of_getElem? (i := j) ?_)
        rwa [List.getElem?_set_ne hne.symm]
    · exact List.mem_set (List.getElem?_eq_some_iff.mp ha).1 b
  · rintro ⟨h, hb⟩ y hy
    rcases List.mem_or_eq_of_mem_set hy with hy | rfl
    · exact h y hy
    · exact hb

/-- In a step of the system no process gets a reply exactly if the answer of the process
that waits for one is lost. -/
theorem Intact.step {s t : System} {turn : Turn} (h : Intact s) (hstep : s.Step turn t) :
    Intact t ∧ ((∀ p ∈ t.processes, p.reply = none) ↔
      (∀ p ∈ s.processes, p.reply = none) ∧ AnswerLost s turn) := by
  cases turn with
  | process i x =>
    obtain ⟨p, hp, hstep⟩ := Transition.bind_eq_ok.mp hstep
    obtain ⟨q, hq, hstep⟩ := Transition.bind_eq_ok.mp hstep
    obtain rfl := Except.ok.inj hstep
    have hi := System.process_eq_ok hp
    obtain ⟨hnone, hrecorded, hreply⟩ := (h.recorded p (List.mem_of_getElem? hi)).run
      h.main.answered (Transition.mapError_eq_ok hq)
    refine ⟨⟨h.main, fun p' hp' => ?_⟩, ?_⟩
    · rcases List.mem_or_eq_of_mem_set hp' with hp' | rfl
      · exact h.recorded p' hp'
      · exact hrecorded
    · rw [forall_mem_set hi hnone, hreply]
      refine and_congr_right fun _ => ⟨fun hlost p' hp' => ?_, fun hlost => hlost p hi⟩
      rwa [Option.some.inj (hp'.symm.trans hi)]
  | main ok accept =>
    cases accept with
    | none =>
      obtain ⟨main, hmain, hstep⟩ := Transition.bind_eq_ok.mp hstep
      obtain rfl := Except.ok.inj hstep
      obtain ⟨hanswering, hevents⟩ := h.main.step (Transition.mapError_eq_ok hmain)
      exact ⟨⟨hanswering, fun p hp => (h.recorded p hp).mono hevents⟩, (and_iff_left trivial).symm⟩
    | some a =>
      obtain ⟨p, hp, hstep⟩ := Transition.bind_eq_ok.mp hstep
      obtain ⟨accepted, haccepted, hstep⟩ := Transition.bind_eq_ok.mp hstep
      obtain ⟨main, hmain, hstep⟩ := Transition.bind_eq_ok.mp hstep
      obtain rfl := Except.ok.inj hstep
      obtain ⟨hanswering, hevents⟩ := h.main.step (Transition.mapError_eq_ok hmain)
      have hi := System.process_eq_ok hp
      obtain ⟨hnone, hrecorded⟩ := (h.recorded p (List.mem_of_getElem? hi)).accept haccepted
        (if main.connections.length = s.main.connections.length then p.link
          else .accepted s.main.connections.length)
      refine ⟨⟨hanswering, fun p' hp' => ?_⟩, ?_⟩
      · rcases List.mem_or_eq_of_mem_set hp' with hp' | rfl
        · exact (h.recorded p' hp').mono hevents
        · exact hrecorded.mono hevents
      · rw [forall_mem_set hi hnone]
        exact and_congr_right fun _ => iff_of_true hnone trivial

/-- In every run the tools agree with main exactly as long as none of them gets its
answer. -/
theorem agrees_iff {o : Options} {tools : List UserTool} {turns : List Turn} {s : System}
    (hrun : Transition.Run System.Step (System.start o tools) turns s) :
    (∀ p ∈ s.processes, Agrees s.main p) ↔
      Transition.Run (fun s turn t => System.Step s turn t ∧ AnswerLost s turn)
        (System.start o tools) turns s := by
  have hdet : ∀ s turn t u, System.Step s turn t → System.Step s turn u → t = u :=
    fun _ _ _ _ ht hu => Except.ok.inj (ht.symm.trans hu)
  obtain ⟨hintact, hiff⟩ := hrun.iff_guarded (P := fun s => ∀ p ∈ s.processes, p.reply = none)
    hdet (fun _ _ _ => Intact.step) (intact_start o tools)
  have hstart : ∀ p ∈ (System.start o tools).processes, p.reply = none := by
    intro p hp
    obtain ⟨tool, -, rfl⟩ := List.mem_map.mp hp
    rfl
  have hreply : (∀ p ∈ s.processes, Agrees s.main p) ↔ ∀ p ∈ s.processes, p.reply = none :=
    forall₂_congr fun p hp => (hintact.recorded p hp).agrees_iff_silent hintact.main.answered
  exact hreply.trans (hiff.trans (and_iff_right hstart))

def interrupted : List Turn :=
  [.main true none, .main true none, .main true none, .main true none, .process 0 ⟨true, []⟩,
    .process 0 ⟨true, [.moved 4, .moved 4]⟩, .process 0 ⟨true, [.failed]⟩]

theorem agrees_interrupted : ∃ s,
    Transition.Run System.Step (System.start (backgroundOptions true) [.beginLog]) interrupted s ∧
      ∀ p ∈ s.processes, Agrees s.main p := by
  have hguarded : ∃ s, Transition.Run (fun s turn t => System.Step s turn t ∧ AnswerLost s turn)
      (System.start (backgroundOptions true) [.beginLog]) interrupted s := by
    refine ⟨_, .cons ⟨rfl, trivial⟩ (.cons ⟨rfl, trivial⟩ (.cons ⟨rfl, trivial⟩ (.cons
      ⟨rfl, trivial⟩ (.cons ⟨rfl, ?_⟩ (.cons ⟨rfl, ?_⟩ (.cons ⟨rfl, ?_⟩ (.nil _)))))))⟩
    · exact fun p hp hwait => nomatch (Option.some.inj hp ▸ hwait)
    · exact fun p hp hwait => nomatch (Option.some.inj hp ▸ hwait)
    · exact fun p hp hwait => List.mem_singleton_self _
  obtain ⟨s, hguarded⟩ := hguarded
  have hrun := hguarded.mono fun _ _ _ h => h.1
  exact ⟨s, hrun, (agrees_iff hrun).mpr hguarded⟩

def refusedTool : List Turn :=
  List.replicate 11 (.main true none) ++ [.process 0 ⟨true, []⟩,
    .process 0 ⟨true, [.moved 4, .moved 4]⟩,
    .main true (some ⟨0, [.moved 4, .moved 4], [.moved 4, .moved 4]⟩),
    .process 0 ⟨true, [.moved 4, .moved 4]⟩]

/-- `end_log` is refused, and exits with status 0. -/
theorem not_agrees_refused : ¬ ∀ (o : Options) (tools : List UserTool) (turns : List Turn)
    (s : System), o.background = true →
      Transition.Run System.Step (System.start o tools) turns s →
      ∀ p ∈ s.processes, Agrees s.main p := by
  intro h
  have hrun : ((refusedTool.foldlM (fun s turn => System.step s turn)
      (System.start (backgroundOptions true) [.endLog])).map fun s => decide (s.processes.map
        (fun p => (p.stage, p.sender.returnCommand, p.reply.map SocketMessage.type)) =
          [(.returned 0, .kEndLogDone, some CmCommand.kInvalidCommand.code)])) = .ok true := by
    decide +kernel
  obtain ⟨s, hrun, hs⟩ := Transition.exists_run_of_foldlM _ _ hrun
  obtain ⟨p, hp, hend⟩ := List.map_eq_singleton_iff.mp (of_decide_eq_true hs)
  simp only [Prod.mk.injEq] at hend
  obtain ⟨hstage, hreturn, hreply⟩ := hend
  have hagrees := h _ _ _ s rfl hrun p (hp ▸ List.mem_singleton_self p) 0 hstage
  obtain ⟨m, hm, htype⟩ := (hagrees.mp (by decide)).received
  rw [hm, Option.map_some, htype, hreturn] at hreply
  exact absurd (Option.some.inj hreply) (by decide)

end CrashMonkey
