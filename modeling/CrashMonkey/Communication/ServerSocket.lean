import CrashMonkey.Communication.RoundTrip

namespace CrashMonkey.Communication

open Transfer

inductive SocketError where
  | kNone
  | kSyscall
  | kWrongType
  | kAlreadyConnected
  | kNotConnected
deriving DecidableEq, Repr

def SocketMessage.new : SocketMessage := ⟨0, 0, []⟩

/-- A client that connects: what it sends, and how that and the answers are to move. -/
structure Client where
  sends : List UInt8
  recvCalls : List Call
  sendCalls : List Call

/-- A connection that was accepted, with what is still to be read from it and what was
written to it. -/
structure Connection where
  client : Client
  incoming : Conn
  outgoing : Conn

def Client.connect (p : Client) : Connection := ⟨p, ⟨p.sends, p.recvCalls⟩, ⟨[], p.sendCalls⟩⟩

structure ServerSocket where
  serverSocket : Bool
  clientSocket : Option ℕ
deriving DecidableEq, Repr

def ServerSocket.new : ServerSocket := ⟨false, none⟩

namespace ServerSocket

/-- `ServerSocket::Init`: its result and the socket. A socket that cannot be bound stays
open. -/
def init (socketOk bindOk listenOk : Bool) (s : ServerSocket) : Int × ServerSocket :=
  if !socketOk then (-1, { s with serverSocket := false })
  else (if bindOk && listenOk then 0 else -1, { s with serverSocket := true })

def sendMessage (m : SocketMessage) (s : ServerSocket) (connections : List Connection) :
    Except Fault (SocketError × List Connection) :=
  if !s.serverSocket then return (.kNotConnected, connections)
  else
    match s.clientSocket with
    | none => return (.kSyscall, connections)
    | some i =>
      match connections[i]? with
      | none => return (.kSyscall, connections)
      | some x => do
        let (res, outgoing) ← writeMessageToSocket m x.outgoing
        return (if res < 0 then .kSyscall else .kNone, connections.set i { x with outgoing })

def sendCommand (c : CmCommand) (s : ServerSocket) (connections : List Connection) :
    Except Fault (SocketError × List Connection) :=
  s.sendMessage ⟨c.code, 0, []⟩ connections

/-- `ServerSocket::WaitForMessage`, where `accept` gives the client if it succeeds: its
result, the message, the socket and the connections. -/
def waitForMessage (m : SocketMessage) (accepted : Option Client) (s : ServerSocket)
    (connections : List Connection) :
    Except Fault (SocketError × SocketMessage × ServerSocket × List Connection) :=
  if s.clientSocket.isSome then return (.kAlreadyConnected, m, s, connections)
  else
    match if s.serverSocket then accepted else none with
    | none => return (.kSyscall, m, s, connections)
    | some p => do
      let s := { s with clientSocket := some connections.length }
      let (res, m, incoming) ← readMessageFromSocket m p.connect.incoming
      let connections := connections ++ [{ p.connect with incoming }]
      return (if res ≠ 0 then .kSyscall else .kNone, m, s, connections)

def closeClient (s : ServerSocket) : ServerSocket := { s with clientSocket := none }

end ServerSocket

/-- The bytes of a command: a message, or a control message with data that is not needed. -/
def IsCommand (bytes : List UInt8) : Prop :=
  (∃ m, Valid m ∧ Fits m ∧ bytes = frame m) ∨
    ∃ c data, c ≠ CmCommand.kCheckpoint ∧ data.length < intLimit ∧
      bytes = wireWord c.code ++ (wireWord (.ofNat 32 data.length) ++ data)

namespace Client

def command (p : Client) : BitVec 32 := ofLeBytes (swapWords (p.sends.take 4))

/-- The client sends one command, and no call on its connection fails. -/
structure WellFormed (p : Client) : Prop where
  sends : IsCommand p.sends
  recv : Moving p.recvCalls ∧ p.sends.length ≤ p.recvCalls.length
  send : Moving p.sendCalls ∧ 8 ≤ p.sendCalls.length

theorem command_eq {p : Client} {x : BitVec 32} {rest : List UInt8}
    (h : p.sends = wireWord x ++ rest) : p.command = x := by
  have htake : p.sends.take 4 = wireWord x := by rw [h, List.take_left' (wireWord_length x)]
  rw [command, htake, ofLeBytes_wireWord]

end Client

/-- Data that comes with a control message is read and dropped. -/
theorem readMessageFromSocket_control {command : CmCommand} (hne : command ≠ .kCheckpoint)
    {data : List UInt8} (hdata : data.length < intLimit) (old : SocketMessage) {c : Conn}
    (hbytes : c.bytes = wireWord command.code ++ (wireWord (.ofNat 32 data.length) ++ data))
    (hcalls : Moving c.calls) (hlen : 4 + (4 + data.length) ≤ c.calls.length) :
    ∃ r c', r.type = command.code ∧ readMessageFromSocket old c = .ok (0, r, c') := by
  have hnat : (BitVec.ofNat 32 data.length).toNat = data.length := by
    rw [BitVec.toNat_ofNat]
    exact Nat.mod_eq_of_lt (hdata.trans (by decide))
  obtain ⟨calls₁, hmoving₁, hmore₁, htype⟩ := readIntFromSocket_eq command.code hbytes hcalls hlen
  obtain ⟨calls₂, hmoving₂, hmore₂, hsize⟩ := readIntFromSocket_eq (.ofNat 32 data.length)
    (c := ⟨_, calls₁⟩) rfl hmoving₁ hmore₁
  by_cases hzero : data.length = 0
  · refine ⟨⟨command.code, .ofNat 32 data.length, old.stringValue⟩, ⟨data, calls₂⟩, rfl, ?_⟩
    refine Transition.bind_eq_ok.mpr ⟨_, htype, Transition.bind_eq_ok.mpr ⟨_, hsize, ?_⟩⟩
    simp only [CmCommand.ofCode_code, hzero]
    cases command <;> first | exact absurd rfl hne | rfl
  · have hsize' : (BitVec.ofNat 32 data.length) ≠ 0 := by
      intro h
      rw [h] at hnat
      exact hzero hnat.symm
    have hcount : callsFor data.length + 0 ≤ calls₂.length := by
      rw [callsFor]
      omega
    obtain ⟨calls₃, -, -, hrecv⟩ := recvBytes_eq hdata (c := ⟨data, calls₂⟩)
      (List.append_nil data).symm hmoving₂ hcount
    have hgobble : gobbleData (.ofNat 32 data.length) ⟨data, calls₂⟩ =
        .ok (true, ⟨[], calls₃⟩) := by
      rw [gobbleData, hnat, hrecv]
      rfl
    refine ⟨⟨command.code, .ofNat 32 data.length, old.stringValue⟩, ⟨[], calls₃⟩, rfl, ?_⟩
    refine Transition.bind_eq_ok.mpr ⟨_, htype, Transition.bind_eq_ok.mpr ⟨_, hsize, ?_⟩⟩
    simp only [CmCommand.ofCode_code, ne_eq, hsize', not_false_eq_true, if_true]
    have hdone : (gobbleData (.ofNat 32 data.length) ⟨data, calls₂⟩ >>= fun g =>
        Except.ok (if g.1 = true then (0 : Int) else -1,
          (⟨command.code, .ofNat 32 data.length, old.stringValue⟩ : SocketMessage), g.2)) =
        .ok (0, ⟨command.code, .ofNat 32 data.length, old.stringValue⟩, ⟨[], calls₃⟩) := by
      rw [hgobble]
      rfl
    cases command <;> first | exact absurd rfl hne | exact hdone

namespace Client

/-- The command is read, whatever was in the message before. -/
theorem WellFormed.read {p : Client} (h : p.WellFormed) (old : SocketMessage) :
    ∃ r incoming, r.type = p.command ∧
      readMessageFromSocket old p.connect.incoming = .ok (0, r, incoming) := by
  obtain ⟨hmoving, hlen⟩ := h.recv
  rcases h.sends with ⟨m, hm, hfits, hsends⟩ | ⟨c, data, hne, hdata, hsends⟩
  · have hbytes : p.connect.incoming.bytes = frame m ++ [] := by rw [List.append_nil, ← hsends]; rfl
    have hlen' : (frame m).length + 0 ≤ p.connect.incoming.calls.length := hsends ▸ hlen
    obtain ⟨r, calls, hagrees, -, -, hread⟩ :=
      readMessageFromSocket_eq hm hfits old hbytes hmoving hlen'
    exact ⟨r, _, hagrees.type.trans (command_eq hsends).symm, hread⟩
  · have hlen' : 4 + (4 + data.length) ≤ p.recvCalls.length := by
      simpa only [hsends, List.length_append, wireWord_length] using hlen
    obtain ⟨r, c', htype, hread⟩ := readMessageFromSocket_control hne hdata old
      (c := p.connect.incoming) hsends hmoving hlen'
    exact ⟨r, c', htype.trans (command_eq hsends).symm, hread⟩

end Client

def replyFrame (c : CmCommand) : List UInt8 := wireWord c.code ++ wireWord 0

/-- A server without a client takes the next one. -/
theorem ServerSocket.waitForMessage_eq {p : Client} (h : p.WellFormed) (m : SocketMessage)
    (connections : List Connection) :
    ∃ r incoming, r.type = p.command ∧
      waitForMessage m (some p) ⟨true, none⟩ connections =
        .ok (.kNone, r, ⟨true, some connections.length⟩,
          connections ++ [{ p.connect with incoming }]) := by
  obtain ⟨r, incoming, htype, hread⟩ := h.read m
  exact ⟨r, incoming, htype, Transition.bind_eq_ok.mpr ⟨_, hread, rfl⟩⟩

/-- A command other than a checkpoint goes out in its frame. -/
theorem ServerSocket.sendCommand_eq {c : CmCommand} (hc : c ≠ .kCheckpoint) {i : ℕ}
    {connections : List Connection} {x : Connection} (hx : connections[i]? = some x)
    (hmoving : Moving x.outgoing.calls) (hlen : 8 ≤ x.outgoing.calls.length) :
    ∃ outgoing, outgoing.bytes = x.outgoing.bytes ++ replyFrame c ∧
      sendCommand c ⟨true, some i⟩ connections =
        .ok (.kNone, connections.set i { x with outgoing }) := by
  have hcode := CmCommand.ofCode_code c
  have hnot : CmCommand.ofCode c.code ≠ some .kCheckpoint := by
    rw [hcode]
    exact fun h => hc (Option.some.inj h)
  have hframe : frame ⟨c.code, 0, []⟩ = replyFrame c := frame_control hnot
  have hlen' : (frame ⟨c.code, 0, []⟩).length + 0 ≤ x.outgoing.calls.length := hframe ▸ hlen
  obtain ⟨calls, -, -, hwrite⟩ := writeMessageToSocket_eq (m := ⟨c.code, 0, []⟩)
    ⟨⟨c, hcode⟩, fun h => absurd h hnot⟩ (fun h => absurd h hnot) hmoving hlen'
  rw [hframe] at hwrite
  refine ⟨⟨x.outgoing.bytes ++ replyFrame c, calls⟩, rfl, ?_⟩
  simp only [sendCommand, sendMessage, hx]
  exact Transition.bind_eq_ok.mpr ⟨_, hwrite, rfl⟩

end CrashMonkey.Communication
