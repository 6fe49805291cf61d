import CrashMonkey.CowBrd.Isolation
import CrashMonkey.Harness.Profile
import CrashMonkey.Lib.Transfer

/-!
# The snapshot file

`log_snapshot_save` writes the base disk to a file, and `log_snapshot_load` puts it on
the disk of another run. The harness counts the size of the disk in bytes, and the module
in blocks of 1024 bytes.
-/

namespace CrashMonkey

open Transfer

def WRAPPER_INSERT_ERR : Int := -16
def WRAPPER_REMOVE_ERR : Int := -17

structure Disk where
  bytes : ℕ
  content : ℕ → UInt8
  isWritable : Bool

namespace Disk

def absent : Disk := ⟨0, fun _ => 0, true⟩

/-- The bytes of a disk of `disk_size * 2` sectors. The product is an `int`, and from a
disk with a negative number of sectors nothing can be read. -/
def sizeOf (diskSize : BitVec 32) : ℕ := ((diskSize * 2).toInt * 512).toNat

/-- What `insmod` with `num_disks=1 num_snapshots=1 disk_size=…` makes. -/
def insmod (diskSize : ℕ) : Disk :=
  ⟨sizeOf (.ofNat 32 diskSize), (CowBrd.brdInit 1 1 diskSize).content 0, true⟩

def wipe (disk : Disk) : Disk := { disk with content := fun _ => 0 }

def freeze (disk : Disk) : Disk := { disk with isWritable := false }

def write (img : ℕ → UInt8) (disk : Disk) : Disk :=
  if disk.isWritable then { disk with content := img } else disk

def bytesFrom (disk : Disk) (offset : ℕ) : List UInt8 :=
  (List.range (disk.bytes - offset)).map fun i => disk.content (offset + i)

end Disk

/-- What of a `Tester` concerns the disk; `cow_brd_fd` is the offset of an open
descriptor. -/
structure Tester where
  deviceSize : ℕ
  cowBrdFd : Option ℕ
  cowBrdInserted : Bool
  disk : Disk

def Tester.new (devSize : ℕ) : Tester := ⟨devSize, none, false, .absent⟩

def insertCowBrd (insmodOk openOk rmmodOk : Bool) (t : Tester) : Int × Tester :=
  if t.cowBrdFd = none ∧ insmodOk = false then (WRAPPER_INSERT_ERR, t)
  else
    let disk := if t.cowBrdFd = none then .insmod t.deviceSize else t.disk
    if openOk then (SUCCESS, { t with cowBrdFd := some 0, cowBrdInserted := true, disk := disk })
    else if rmmodOk then
      (SUCCESS, { t with cowBrdFd := none, cowBrdInserted := true, disk := .absent })
    else
      (WRAPPER_REMOVE_ERR, { t with cowBrdFd := none, cowBrdInserted := false, disk := disk })

/-- An ioctl on `cow_brd_fd`, which leaves the disk alone if it fails. -/
def Tester.ioctl (ok : Bool) (f : Disk → Disk) (t : Tester) : Tester :=
  if ok && t.cowBrdFd.isSome then { t with disk := f t.disk } else t

def unsignedLimit : ℕ := 2 ^ 32

/-- The bytes that the loop around `read` stores; without a descriptor the first call
fails. -/
def readClone (reads : List Call) (t : Tester) : Except Fault (List UInt8) :=
  match t.cowBrdFd with
  | none => .ok []
  | some offset =>
    (Transfer.loop unsignedLimit reads t.deviceSize 0 (t.disk.bytesFrom offset)).map (·.2.1)

/-- `Tester::log_snapshot_save`: its result, the file if it can be written, and the
tester. `stack` is what `device_clone` holds before it is read. -/
def logSnapshotSave (stack : ℕ → UInt8) (reads : List Call) (logOk : Bool) (t : Tester) :
    Except Fault (Int × Option (List UInt8) × Tester) := do
  let bytesRead ← readClone reads t
  let deviceClone := bytesRead ++
    (List.range (t.deviceSize - bytesRead.length)).map fun i => stack (bytesRead.length + i)
  let t := { t with cowBrdFd := t.cowBrdFd.map (· + bytesRead.length) }
  return if logOk then (SUCCESS, some deviceClone, t) else (LOG_CLONE_ERR, none, t)

structure LoadCalls where
  wipeOk : Bool
  logFile : Option (List UInt8)
  openOk : Bool
  writes : List Call
  snapshotOk : Bool

/-- The loop around `write`, at file position `pos` of a disk of `bytes` bytes. An error,
also at the end of the disk, is added to `bytes_written` like a number of bytes. -/
def writeBack (bytes deviceSize : ℕ) (deviceClone : List UInt8) :
    List Call → ℕ → BitVec 32 → (ℕ → UInt8) → Except Fault (ℕ → UInt8)
  | [], _, _, _ => .error .waiting
  | call :: calls, pos, bytesWritten, img =>
    let left := deviceSize - bytesWritten.toNat
    let res := match call with
      | .failed => none
      | .moved n => if bytes ≤ pos ∧ 0 < left then none else some (min n (min left (bytes - pos)))
    let img := Image.overlay img pos (res.getD 0) fun i =>
      deviceClone.getD (bytesWritten.toNat + i) 0
    let bytesWritten := match res with
      | none => bytesWritten - 1
      | some n => bytesWritten + .ofNat 32 n
    if bytesWritten.toNat < deviceSize then
      writeBack bytes deviceSize deviceClone calls (pos + res.getD 0) bytesWritten img
    else .ok img

/-- `Tester::log_snapshot_load`: its result and the tester, or `none` if the assertion
fails. -/
def logSnapshotLoad (x : LoadCalls) (t : Tester) : Except Fault (Option (Int × Tester)) := do
  let t := t.ioctl x.wipeOk Disk.wipe
  let (deviceClone, log) := (IStream.ofFile x.logFile).read t.deviceSize
  let err := log.failbit
  if log.peek.1 ≠ none then return none
  if err then return some (LOG_CLONE_ERR, t)
  -- without a descriptor every call fails
  let writes := if x.openOk then x.writes else x.writes.map fun _ => .failed
  let img ← writeBack t.disk.bytes t.deviceSize deviceClone writes 0 0 t.disk.content
  let t := { t with disk := t.disk.write img }
  return some (SUCCESS, t.ioctl x.snapshotOk Disk.freeze)

/-- Saves one after the other, each with what is on the stack and the results of `read`;
for each one the result and the file. -/
def logSnapshotSaves : List ((ℕ → UInt8) × List Call) → Tester →
    Except Fault (List (Int × Option (List UInt8)) × Tester)
  | [], t => .ok ([], t)
  | (stack, reads) :: saves, t => do
    let (res, file, t) ← logSnapshotSave stack reads true t
    let (outs, t) ← logSnapshotSaves saves t
    return ((res, file) :: outs, t)

end CrashMonkey
