import CrashMonkey.Lib.Transfer

/-!
# Messages on a socket

Every message has a type and a size, and a checkpoint message carries a string. All of it
goes over the socket in 32-bit words in network order.
-/

namespace CrashMonkey.Communication

open Transfer

inductive CmCommand where
  | kHarnessError
  | kInvalidCommand
  | kPrepare
  | kPrepareDone
  | kBeginLog
  | kBeginLogDone
  | kEndLog
  | kEndLogDone
  | kRunTests
  | kRunTestsDone
  | kCheckpoint
  | kCheckpointDone
deriving DecidableEq, Repr

def CmCommand.all : List CmCommand :=
  [.kHarnessError, .kInvalidCommand, .kPrepare, .kPrepareDone, .kBeginLog, .kBeginLogDone,
    .kEndLog, .kEndLogDone, .kRunTests, .kRunTestsDone, .kCheckpoint, .kCheckpointDone]

def CmCommand.code (c : CmCommand) : BitVec 32 := .ofNat 32 (CmCommand.all.idxOf c)

def CmCommand.ofCode (n : BitVec 32) : Option CmCommand := CmCommand.all.find? fun c => c.code = n

/-- `struct SocketMessage`; the type is a number that need not have a name. -/
structure SocketMessage where
  type : BitVec 32
  size : BitVec 32
  stringValue : List UInt8
deriving DecidableEq, Repr

/-- The bytes of a word in the memory of the host. -/
def leBytes (x : BitVec 32) : List UInt8 :=
  [.ofNat x.toNat, .ofNat (x.toNat / 256), .ofNat (x.toNat / 65536), .ofNat (x.toNat / 16777216)]

def ofLeBytes : List UInt8 → BitVec 32
  | [a, b, c, d] =>
    .ofNat 32 (a.toNat + 256 * b.toNat + 65536 * c.toNat + 16777216 * d.toNat)
  | _ => 0

/-- `htonl` and `ntohl` on each complete word of a buffer. -/
def swapWords : List UInt8 → List UInt8
  | a :: b :: c :: d :: rest => d :: c :: b :: a :: swapWords rest
  | rest => rest

/-- `strcpy` into a buffer, up to the terminator and with it. -/
def strcpy (buf s : List UInt8) : Except Fault (List UInt8) :=
  let src := s.takeWhile (· ≠ 0) ++ [0]
  if buf.length < src.length then .error .overrun else .ok (src ++ buf.drop src.length)

def cString (buf : List UInt8) : Except Fault (List UInt8) :=
  if 0 ∈ buf then .ok (buf.takeWhile (· ≠ 0)) else .error .overrun

/-- One end of a connection: the bytes still to be received, or those sent so far, and
the results of the calls to come. -/
structure Conn where
  bytes : List UInt8
  calls : List Call

def intLimit : ℕ := 2 ^ 31

def recvBytes (len : ℕ) (c : Conn) : Except Fault (Option (List UInt8) × Conn) := do
  let (ok, moved, rest, calls) ← Transfer.loop intLimit c.calls len 0 c.bytes
  return (if ok then some moved else none, ⟨rest, calls⟩)

def sendBytes (data : List UInt8) (c : Conn) : Except Fault (Bool × Conn) := do
  let (ok, moved, _, calls) ← Transfer.loop intLimit c.calls data.length 0 data
  return (ok, ⟨c.bytes ++ moved, calls⟩)

def gobbleData (len : BitVec 32) (c : Conn) : Except Fault (Bool × Conn) := do
  let (data, c) ← recvBytes len.toNat c
  return (data.isSome, c)

def readIntFromSocket (c : Conn) : Except Fault (Option (BitVec 32) × Conn) := do
  let (d, c) ← recvBytes 4 c
  return (d.map fun d => ofLeBytes (swapWords d), c)

def writeIntToSocket (data : BitVec 32) (c : Conn) : Except Fault (Bool × Conn) :=
  sendBytes (swapWords (leBytes data)) c

def readStringFromSocket (len : BitVec 32) (c : Conn) :
    Except Fault (Option (List UInt8) × Conn) := do
  if len &&& 3 ≠ 0 then return (none, c)
  let (readString, c) ← recvBytes len.toNat c
  match readString with
  | none => return (none, c)
  | some buf =>
    let s ← cString (swapWords buf)
    return (some s, c)

def roundUp (size : ℕ) : ℕ := (size + 3) / 4 * 4

def writeStringToSocket (data : List UInt8) (c : Conn) : Except Fault (Bool × Conn) := do
  let len : BitVec 32 := .ofNat 32 (roundUp data.length)
  -- an array of negative size
  if len.msb then throw .overrun
  let sendData ← strcpy (List.replicate len.toNat 0) data
  let (ok, c) ← writeIntToSocket len c
  if ok then sendBytes (swapWords sendData) c else return (false, c)

def readMessageFromSocket (m : SocketMessage) (c : Conn) :
    Except Fault (Int × SocketMessage × Conn) := do
  let (type, c) ← readIntFromSocket c
  match type with
  | none => return (-1, m, c)
  | some type =>
    let m := { m with type := type }
    let (size, c) ← readIntFromSocket c
    match size with
    | none => return (-1, m, c)
    | some size =>
      let m := { m with size := size }
      match CmCommand.ofCode m.type with
      | none => return (-1, m, c)
      | some .kCheckpoint =>
        let (s, c) ← readStringFromSocket m.size c
        match s with
        | none => return (-1, m, c)
        | some s => return (0, { m with stringValue := s }, c)
      | some _ =>
        if m.size ≠ 0 then
          let (ok, c) ← gobbleData m.size c
          return (if ok then 0 else -1, m, c)
        else return (0, m, c)

def writeMessageToSocket (m : SocketMessage) (c : Conn) : Except Fault (Int × Conn) := do
  let (ok, c) ← writeIntToSocket m.type c
  if !ok then return (-1, c)
  match CmCommand.ofCode m.type with
  | none => return (-1, c)
  | some .kCheckpoint =>
    let (ok, c) ← writeStringToSocket m.stringValue c
    return (if ok then 0 else -1, c)
  | some _ =>
    let (ok, c) ← writeIntToSocket 0 c
    return (if ok then 0 else -1, c)

end CrashMonkey.Communication
