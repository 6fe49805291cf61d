import CrashMonkey.Communication.ServerSocket
import CrashMonkey.Wrapper.Device

/-!
# The main program of the harness

`main` goes through its phases in a straight line: the operations of a `Tester`, and in
the background mode the three loops that wait for a command. Which calls succeed, and who
connects, is up to the system.
-/

namespace CrashMonkey

open Communication

/-- The operations of a `Tester` that main calls; `testSetup` and `testRun` are a child
process and the wait for it. -/
inductive TesterOp where
  | insertCowBrd
  | testLoadClass
  | permuterLoadClass
  | updateDirtyExpireTime
  | formatDrive
  | mountDeviceRaw
  | testSetup
  | umountDevice
  | cloneDevice
  | logSnapshotSave
  | logSnapshotLoad
  | clearCaches
  | insertWrapper
  | mountWrapperDevice
  | getWrapperIoctl
  | clearWrapperLog
  | beginWrapperLogging
  | testRun
  | endWrapperLogging
  | getWrapperLog
  | putWrapperIoctl
  | removeWrapper
  | logProfileSave
  | logProfileLoad
  | testCheckRandomPermutations
  | removeCowBrd
  | cleanupHarness
deriving DecidableEq, Repr

inductive OnFailure where
  | ignore
  | exit
  | cleanup
  | cleanupExit
deriving DecidableEq, Repr

inductive Instr where
  /-- Returns -1 unless the condition holds. -/
  | check (ok : Bool)
  | run (op : TesterOp) (onFailure : OnFailure)
  /-- `new ServerSocket` and `Init`. -/
  | initSocket
  /-- The loop around `WaitForMessage`. -/
  | waitFor (c : CmCommand)
  | sendCommand (c : CmCommand)
  | closeClient
  | deleteSocket
deriving DecidableEq, Repr

structure Options where
  hasTestCase : Bool
  background : Bool := false
  dryRun : Bool := false
  iterations : ℤ := 1000
  diskSize : ℤ := 10240
  flagsDev : String := "/dev/vda"
  logFileSave : String := ""
  logFileLoad : String := ""

/-- Phase 0. -/
def setUpBasics (o : Options) : List Instr :=
  List.flatten [
    [.check o.hasTestCase, .check (0 ≤ o.iterations), .check (0 < o.diskSize)],
    if o.background then [.initSocket] else [],
    [.run .insertCowBrd .exit, .run .testLoadClass .cleanupExit,
      .run .permuterLoadClass .cleanupExit, .run .updateDirtyExpireTime .cleanupExit]]

/-- Phase 1. -/
def createBaseImage (o : Options) : List Instr :=
  if o.logFileLoad ≠ "" then [.run .logSnapshotLoad .cleanupExit]
  else List.flatten [
    [.check (o.flagsDev ≠ ""), .run .formatDrive .cleanupExit, .run .mountDeviceRaw .cleanupExit],
    -- main goes on after a child that fails
    if o.background then [.waitFor .kBeginLog] else [.run .testSetup .cleanup],
    [.run .umountDevice .cleanupExit, .run .cloneDevice .cleanupExit],
    if o.logFileSave ≠ "" then [.run .logSnapshotSave .cleanupExit] else []]

/-- Phase 2. -/
def recordWorkload (o : Options) : List Instr :=
  .run .clearCaches .cleanupExit ::
  if o.logFileLoad ≠ "" then [.run .logProfileLoad .cleanupExit]
  else List.flatten [
    [.run .insertWrapper .cleanupExit, .run .mountWrapperDevice .cleanupExit,
      .run .getWrapperIoctl .cleanupExit, .run .clearWrapperLog .ignore,
      .run .beginWrapperLogging .ignore],
    if o.background then [.sendCommand .kBeginLogDone, .closeClient, .waitFor .kEndLog]
      else [.run .testRun .cleanupExit],
    [.run .endWrapperLogging .ignore, .run .getWrapperLog .cleanupExit,
      .run .umountDevice .cleanupExit, .run .putWrapperIoctl .ignore,
      .run .removeWrapper .cleanupExit],
    if o.logFileSave ≠ "" then [.run .logProfileSave .cleanupExit] else [],
    if o.background then [.sendCommand .kEndLogDone, .closeClient] else []]

/-- Phases 3 and 4. -/
def runTests (o : Options) : List Instr :=
  List.flatten [
    if o.background then [.waitFor .kRunTests] else [],
    if o.dryRun then []
      else [.run .testCheckRandomPermutations .ignore, .run .removeCowBrd .ignore],
    [.run .cleanupHarness .ignore],
    if o.background then [.sendCommand .kRunTestsDone, .deleteSocket] else []]

def program (o : Options) : List Instr :=
  setUpBasics o ++ createBaseImage o ++ recordWorkload o ++ runTests o

inductive MainEvent where
  | ran (op : TesterOp)
  /-- The wrapper has taken an ioctl. -/
  | ioctl (cmd : Wrapper.Cmd)
  /-- The log was fetched to the end. -/
  | fetched
  /-- `WaitForMessage` has returned. -/
  | waited (e : SocketError)
  /-- The command that main was waiting for has come. -/
  | commanded (c : CmCommand)
  | replied (client : ℕ) (c : CmCommand)
deriving DecidableEq, Repr

/-- `background_com`, the `command` of a loop, whether `ioctl_fd` is open, the
connections that were accepted, and what was done. -/
structure MainState where
  todo : List Instr
  backgroundCom : Option ServerSocket
  command : SocketMessage
  ioctlFd : Bool
  connections : List Connection
  events : List MainEvent
  exitCode : Option Int

structure CallResults where
  ok : Bool
  accepted : Option Client

inductive MainFault where
  | exited
  | noSocket
  | socket (fault : Transfer.Fault)
deriving DecidableEq, Repr

def MainState.start (o : Options) : MainState :=
  ⟨program o, none, SocketMessage.new, false, [], [], none⟩

namespace TesterOp

def ioctlFd (ok fd : Bool) : TesterOp → Bool
  | getWrapperIoctl => ok
  | putWrapperIoctl => false
  | _ => fd

/-- What the operation does to the wrapper, which it reaches through `ioctl_fd`. -/
def ioctls (ok fd : Bool) : TesterOp → List MainEvent
  | clearWrapperLog => if fd && ok then [.ioctl .clrLog] else []
  | beginWrapperLogging => if fd && ok then [.ioctl .logOn] else []
  | endWrapperLogging => if fd && ok then [.ioctl .logOff] else []
  | getWrapperLog => if fd && ok then [.fetched] else []
  | _ => []

end TesterOp

namespace MainState

def exit (code : Int) (s : MainState) : MainState := { s with exitCode := some code }

def log (es : List MainEvent) (s : MainState) : MainState := { s with events := s.events ++ es }

def cleanup (s : MainState) : MainState := s.log [.ran .cleanupHarness]

def run (op : TesterOp) (onFailure : OnFailure) (ok : Bool) (s : MainState) : MainState :=
  let s := { s with ioctlFd := op.ioctlFd ok s.ioctlFd }.log (.ran op :: op.ioctls ok s.ioctlFd)
  if ok then s
  else
    match onFailure with
    | .ignore => s
    | .exit => s.exit (-1)
    | .cleanup => s.cleanup
    | .cleanupExit => s.cleanup.exit (-1)

def socket (s : MainState) : Except MainFault ServerSocket :=
  match s.backgroundCom with
  | none => .error .noSocket
  | some sock => .ok sock

/-- `delete background_com`, which closes the connection, and what follows on an error. -/
def abort (s : MainState) : MainState := { s with backgroundCom := none }.cleanup.exit (-1)

def sendCommand (c : CmCommand) (s : MainState) : Except MainFault (SocketError × MainState) := do
  let sock ← s.socket
  let (e, connections) ← (sock.sendCommand c s.connections).mapError .socket
  let replies := if e = .kNone then sock.clientSocket.toList.map (.replied · c) else []
  return (e, { s with connections }.log replies)

def closeClient (s : MainState) : Except MainFault MainState := do
  let sock ← s.socket
  return { s with backgroundCom := some sock.closeClient }

def refuse (s : MainState) : Except MainFault MainState := do
  let (e, s) ← s.sendCommand .kInvalidCommand
  if e ≠ .kNone then return s.abort else s.closeClient

def waitLoop (c : CmCommand) (todo : List Instr) (accepted : Option Client) (s : MainState) :
    Except MainFault MainState := do
  let sock ← s.socket
  let (e, command, sock, connections) ←
    (sock.waitForMessage s.command accepted s.connections).mapError .socket
  let s := { s with backgroundCom := some sock, command, connections }.log [.waited e]
  if e ≠ .kNone then return s.abort
  else if command.type = c.code then
    -- the variable of the loop ends here
    return { s with todo, command := SocketMessage.new }.log [.commanded c]
  else s.refuse

def step (x : CallResults) (s : MainState) : Except MainFault MainState :=
  if s.exitCode.isSome then .error .exited
  else
    match s.todo with
    | [] => .ok (s.exit 0)
    | .check ok :: todo => .ok (if ok then { s with todo } else s.exit (-1))
    | .run op onFailure :: todo => .ok ({ s with todo }.run op onFailure x.ok)
    | .initSocket :: todo =>
      let (res, sock) := ServerSocket.new.init x.ok x.ok x.ok
      .ok (if res < 0 then s.exit (-1) else { s with todo, backgroundCom := some sock })
    | .waitFor c :: todo => s.waitLoop c todo x.accepted
    | .sendCommand c :: todo => do
      let (e, s) ← s.sendCommand c
      return if e ≠ .kNone then s.abort else { s with todo }
    | .closeClient :: todo => { s with todo }.closeClient
    | .deleteSocket :: todo => do
      let _ ← s.socket
      return { s with todo, backgroundCom := none }

end MainState

def MainStep (s : MainState) (x : CallResults) (t : MainState) : Prop := s.step x = .ok t

end CrashMonkey
