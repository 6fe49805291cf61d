import CrashMonkey.Communication.Answers

namespace CrashMonkey.Communication

open Transfer

structure ClientSocket where
  socketFd : Bool
deriving DecidableEq, Repr

namespace ClientSocket

/-- `ClientSocket::Init`: its result and the socket. A socket that cannot connect stays
open. -/
def init (socketOk connectOk : Bool) (s : ClientSocket) : Int × ClientSocket :=
  if !socketOk then (-1, { s with socketFd := false })
  else (if connectOk then 0 else -1, { s with socketFd := true })

def sendMessage (m : SocketMessage) (s : ClientSocket) (c : Conn) :
    Except Fault (SocketError × Conn) :=
  if !s.socketFd then return (.kNotConnected, c)
  else do
    let (res, c) ← writeMessageToSocket m c
    return (if res < 0 then .kSyscall else .kNone, c)

def sendCommand (command : CmCommand) (s : ClientSocket) (c : Conn) :
    Except Fault (SocketError × Conn) :=
  s.sendMessage ⟨command.code, 0, []⟩ c

def waitForMessage (m : SocketMessage) (_ : ClientSocket) (c : Conn) :
    Except Fault (SocketError × SocketMessage × Conn) := do
  let (res, m, c) ← readMessageFromSocket m c
  return (if res < 0 then .kSyscall else .kNone, m, c)

end ClientSocket

structure ClientCommandSender where
  sendCommand : CmCommand
  returnCommand : CmCommand
  conn : ClientSocket
deriving DecidableEq, Repr

def ClientCommandSender.new (send recv : CmCommand) : ClientCommandSender := ⟨send, recv, ⟨false⟩⟩

/-- The call on the socket that comes next in `Run`, or its result. -/
inductive Stage where
  | init
  | send
  | wait
  | returned (res : Int)
deriving DecidableEq, Repr

/-- What the server knows of a process: nothing, that it has connected, or the number of
the connection that it accepted. -/
inductive Link where
  | unconnected
  | pending
  | accepted (connection : ℕ)
deriving DecidableEq, Repr

structure Process where
  sender : ClientCommandSender
  stage : Stage
  link : Link
  sent : List UInt8
  reply : Option SocketMessage
deriving DecidableEq, Repr

/-- What the calls of a stage return: `socket` and `connect`, or the calls that move the
bytes of a message, all of which are made. -/
structure StageCalls where
  ok : Bool
  calls : List Call

inductive ProcessFault where
  | returned
  | notMade
  | socket (fault : Fault)
deriving DecidableEq, Repr

namespace Process

def new (sender : ClientCommandSender) : Process := ⟨sender, .init, .unconnected, [], none⟩

def allMade (c : Conn) : Except ProcessFault Unit :=
  if c.calls = [] then .ok () else .error .notMade

/-- `Run` goes on to its next stage. The server listens or does not, and has written
`incoming` on the connection. -/
def run (x : StageCalls) (listening : Bool) (incoming : List UInt8) (p : Process) :
    Except ProcessFault Process :=
  match p.stage with
  | .init =>
    let (res, conn) := p.sender.conn.init x.ok (x.ok && listening)
    let p := { p with sender := { p.sender with conn } }
    .ok (if res < 0 then { p with stage := .returned (-1) }
      else { p with stage := .send, link := .pending })
  | .send => do
    let (e, c) ←
      (p.sender.conn.sendCommand p.sender.sendCommand ⟨[], x.calls⟩).mapError ProcessFault.socket
    allMade c
    return { p with sent := c.bytes, stage := if e ≠ .kNone then .returned (-2) else .wait }
  | .wait => do
    let (e, ret, c) ← (p.sender.conn.waitForMessage SocketMessage.new ⟨incoming, x.calls⟩).mapError
      ProcessFault.socket
    allMade c
    return if e ≠ .kNone then { p with stage := .returned (-3) }
      else { p with
        reply := some ret
        stage := .returned (if ret.type = p.sender.returnCommand.code then 1 else 0) }
  | .returned _ => .error .returned

end Process

def exitStatus (res : Int) : ℕ := (res % 256).toNat

namespace Process

variable {x : StageCalls} {listening : Bool} {incoming : List UInt8} {p q : Process}

theorem calls_eq_nil {c : Conn} {u : Unit} (h : allMade c = .ok u) : c.calls = [] := by
  by_contra hne
  rw [allMade, if_neg hne] at h
  cases h

/-- Before the last stage there is no reply, and a process that returns has failed. -/
theorem run_before (hstage : p.stage ≠ .wait) (h : p.run x listening incoming = .ok q) :
    (∀ res, p.stage ≠ .returned res) ∧ q.reply = p.reply ∧
      q.sender.sendCommand = p.sender.sendCommand ∧
      q.sender.returnCommand = p.sender.returnCommand ∧
      ∀ res, q.stage = .returned res → res = -1 ∨ res = -2 := by
  cases hp : p.stage with
  | init =>
    obtain ⟨⟨res, conn⟩, hinit⟩ : ∃ r, p.sender.conn.init x.ok (x.ok && listening) = r := ⟨_, rfl⟩
    simp only [run, hp, hinit, Except.ok.injEq] at h
    split_ifs at h with hres
    · subst h
      exact ⟨nofun, rfl, rfl, rfl, fun _ hreturned => .inl (Stage.returned.inj hreturned).symm⟩
    · subst h
      exact ⟨nofun, rfl, rfl, rfl, nofun⟩
  | send =>
    rw [run, hp] at h
    obtain ⟨⟨e, c⟩, -, h⟩ := Transition.bind_eq_ok.mp h
    obtain ⟨u, -, h⟩ := Transition.bind_eq_ok.mp h
    obtain rfl := Except.ok.inj h
    refine ⟨nofun, rfl, rfl, rfl, fun res hreturned => ?_⟩
    dsimp only at hreturned
    split_ifs at hreturned
    exact .inr (Stage.returned.inj hreturned).symm
  | wait => exact absurd hp hstage
  | returned res =>
    rw [run, hp] at h
    cases h

/-- In the last stage a call fails, or the process gets the first answer there is. -/
theorem run_wait (hstage : p.stage = .wait) {answers : List CmCommand}
    (hanswers : ∀ command ∈ answers, command ≠ .kCheckpoint) {part : List UInt8}
    (hpart : part.length < 8) (hbytes : incoming = answers.flatMap replyFrame ++ part)
    (h : p.run x listening incoming = .ok q) :
    .failed ∈ x.calls ∧ q = { p with stage := .returned (-3) } ∨
      .failed ∉ x.calls ∧ ∃ r : SocketMessage, (∃ command ∈ answers, r.type = command.code) ∧
        q = { p with
          reply := some r
          stage := .returned (if r.type = p.sender.returnCommand.code then 1 else 0) } := by
  rw [run, hstage] at h
  obtain ⟨⟨e, r, c⟩, hwait, h⟩ := Transition.bind_eq_ok.mp h
  obtain ⟨u, hmade, h⟩ := Transition.bind_eq_ok.mp h
  obtain ⟨⟨res, r', c'⟩, hread, hwait⟩ := Transition.bind_eq_ok.mp (Transition.mapError_eq_ok hwait)
  cases hwait
  rcases readMessageFromSocket_reply hanswers hpart hbytes hread (calls_eq_nil hmade) with
    ⟨hfailed, hres⟩ | ⟨hno, rfl, hr⟩
  · rw [if_pos hres] at h
    exact .inl ⟨hfailed, (Except.ok.inj h).symm⟩
  · exact .inr ⟨hno, _, hr, (Except.ok.inj h).symm⟩

end Process

end CrashMonkey.Communication
