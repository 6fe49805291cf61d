import CrashMonkey.Bio
import CrashMonkey.Lib.Chain

namespace CrashMonkey.Wrapper

abbrev Addr := ℕ

structure DiskWriteOp where
  metadata : DiskWriteOpMeta
  data : Option Payload
  next : Option Addr

abbrev Heap := Finmap fun _ : Addr => DiskWriteOp

/-- `struct hwm_device`, with the memory in which its nodes are. -/
structure HwmDevice where
  logOn : Bool
  heap : Heap
  writes : Option Addr
  currentWrite : Option Addr
  currentLogWrite : Option Addr

inductive Fault where
  | useAfterFree
  | nullPointer
  | overrun
deriving DecidableEq, Repr

def freeNodes (heap : Heap) : Option Addr → Except Fault Heap
  | none => .ok heap
  | some w =>
    match _h : heap.lookup w with
    | none => .error .useAfterFree
    | some node => freeNodes (heap.erase w) node.next
termination_by heap.keys.card
decreasing_by
  have := Chain.card_erase_add_one _h
  omega

def freeLogs (dev : HwmDevice) : Except Fault HwmDevice := do
  let heap ← freeNodes dev.heap dev.writes
  return { dev with heap := heap, writes := none, currentWrite := none, currentLogWrite := none }

/-- What `kzalloc` and `kmalloc` return: the address of a node, and memory for its
data with whatever is in it. -/
structure Kmem where
  node : Option Addr
  data : Option Payload

def isLogged (bio : Bio) : Bool :=
  hasFlag bio.biRw reqFlush || hasFlag bio.biRw reqFua || hasFlag bio.biRw reqFlushSeq ||
    hasFlag bio.biRw reqWrite || hasFlag bio.biRw reqDiscard

def bioMeta (bio : Bio) : DiskWriteOpMeta :=
  ⟨bio.biFlags, bio.biRw, .ofNat 64 bio.biSector, .ofNat 32 bio.biSize⟩

/-- The loop over the segments: their bytes go to `data` one after the other, which
has room for `size`. -/
def copySegments (size : ℕ) : List Segment → ℕ → Payload → Except Fault Payload
  | [], _, data => .ok data
  | vec :: vecs, copied, data =>
    if size < copied + vec.bvLen then .error .overrun
    else copySegments size vecs (copied + vec.bvLen)
      (Image.overlay data copied vec.bvLen fun i => vec.bvPage (vec.bvOffset + i))

def linkWrite (dev : HwmDevice) (write : Addr) (node : DiskWriteOp) : Except Fault HwmDevice :=
  let heap := dev.heap.insert write node
  match dev.currentWrite with
  | none => .ok { dev with heap := heap, writes := some write, currentWrite := some write,
                           currentLogWrite := some write }
  | some last =>
    match heap.lookup last with
    | none => .error .useAfterFree
    | some prev => .ok { dev with heap := heap.insert last { prev with next := some write },
                                  currentWrite := some write }

/-- `disk_wrapper_bio`: the wrapper afterwards, and the bio it passes on. -/
def diskWrapperBio (mem : Kmem) (dev : HwmDevice) (bio : Bio) : Except Fault (HwmDevice × Bio) :=
  if dev.logOn && isLogged bio then
    match mem.node with
    | none => return (dev, bio)
    | some write => do
      let node := ⟨bioMeta bio, none, none⟩
      let dev ← linkWrite dev write node
      match mem.data with
      | none => return ({ dev with heap := dev.heap.erase write }, bio)
      | some data =>
        let data ← copySegments (bioMeta bio).size.toNat bio.segments 0 data
        return ({ dev with heap := dev.heap.insert write { node with data := some data } }, bio)
  else return (dev, bio)

inductive LogError where
  | enodata
  | efault
deriving DecidableEq, Repr

def currentNode (dev : HwmDevice) : Except Fault (Option DiskWriteOp) :=
  match dev.currentLogWrite with
  | none => .ok none
  | some cursor =>
    match dev.heap.lookup cursor with
    | none => .error .useAfterFree
    | some node => .ok (some node)

/-- `HWM_GET_LOG_META`; `accessOk` is the answer of `access_ok`. -/
def getLogMeta (accessOk : Bool) (dev : HwmDevice) :
    Except Fault (Except LogError DiskWriteOpMeta) := do
  match ← currentNode dev with
  | none => return .error .enodata
  | some node => if accessOk then return .ok node.metadata else return .error .efault

def getLogData (accessOk : Bool) (dev : HwmDevice) : Except Fault (Except LogError Payload) := do
  match ← currentNode dev with
  | none => return .error .enodata
  | some node =>
    if !accessOk then return .error .efault
    if node.metadata.size = 0 then return .ok (memdup (fun _ => 0) 0)
    match node.data with
    | none => throw .nullPointer
    | some data => return .ok (memdup data node.metadata.size.toNat)

def nextEnt (dev : HwmDevice) : Except Fault (Except LogError HwmDevice) := do
  match ← currentNode dev with
  | none => return .error .enodata
  | some node => return .ok { dev with currentLogWrite := node.next }

inductive Cmd where
  | logOff
  | logOn
  | getLogMeta (accessOk : Bool)
  | getLogData (accessOk : Bool)
  | nextEnt
  | clrLog
  | other
deriving DecidableEq, Repr

def diskWrapperIoctl (dev : HwmDevice) : Cmd → Except Fault HwmDevice
  | .logOff => return { dev with logOn := false }
  | .logOn => return { dev with logOn := true }
  | .getLogMeta accessOk => do
    let _ ← getLogMeta accessOk dev
    return dev
  | .getLogData accessOk => do
    let _ ← getLogData accessOk dev
    return dev
  | .nextEnt => do
    match ← nextEnt dev with
    | .error _ => return dev
    | .ok dev => return dev
  | .clrLog => freeLogs dev
  | .other => return dev

def HwmDevice.init : HwmDevice := ⟨false, ∅, none, none, none⟩

end CrashMonkey.Wrapper
