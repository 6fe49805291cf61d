import CrashMonkey.Harness.WrapperLog

/-!
# Rounds of testing

A round writes one crash state to the snapshot, repairs it with fsck, mounts it and has
the test case look at it. Every call can fail, and a round is given what the calls of it
return.
-/

namespace CrashMonkey

def DRIVE_CLONE_RESTORE_ERR : Int := -2
def MNT_MNT_ERR : Int := -13
def MNT_UMNT_ERR : Int := -14

inductive FileSystemError where
  | kClean
  | kUnmountable
  | kFixed
  | kCheck
  | kSnapshotRestore
  | kBioWrite
  | kOther
deriving DecidableEq, Repr

/-- `FileSystemTestResult`; `fs_check_return` is not set at first. -/
structure FileSystemTestResult where
  errorSummary : FileSystemError := .kClean
  fsCheckReturn : Option (BitVec 32) := none
deriving DecidableEq, Repr

def FileSystemTestResult.setError (r : FileSystemTestResult) (err : FileSystemError) :
    FileSystemTestResult := { r with errorSummary := err }

/-- `SingleTestInfo`. `DataTestResult::ErrorType` is a set of bits, and empty if the data
are clean. -/
structure SingleTestInfo where
  dataTest : BitVec 32 := 0
  fsTest : FileSystemTestResult := {}
deriving DecidableEq, Repr

def SingleTestInfo.setFsError (info : SingleTestInfo) (err : FileSystemError) : SingleTestInfo :=
  { info with fsTest := info.fsTest.setError err }

abbrev Content := ℕ → UInt8

/-- What the calls of a round return, and what they and a mounted file system write. -/
structure Round where
  newState : Bool
  permutes : List (DiskWrite Payload)
  openOk : Bool
  restoreOk : Bool
  writes : List WriteResult
  fsckReturn : BitVec 32
  fsckWrites : Content → Content
  mountOk : Bool
  checkReturn : Int
  checkError : BitVec 32
  checkWrites : Content → Content
  umountOk : Bool
  /-- What a mounted file system writes of its own accord, from one call to the next. -/
  mountedWrites : ℕ → Content → Content

inductive Access where
  | restore
  | write
  | fsck
deriving DecidableEq, Repr

/-- An access of the harness to the snapshot, with what it meets there: the rounds whose
file systems are mounted, and the content. -/
structure Event where
  round : ℕ
  access : Access
  mounts : List ℕ
  content : Content

/-- The state of the tests; `mounts` are the file systems that are mounted on the
snapshot, the last one first, each under the number of its round. -/
structure TestState where
  content : Content
  mounts : List ℕ
  diskMounted : Bool
  testSuite : List SingleTestInfo
  events : List Event

namespace TestState

def mountedWrite (f : Content → Content) (s : TestState) : TestState :=
  if s.mounts = [] then s else { s with content := f s.content }

def access (round : ℕ) (a : Access) (s : TestState) : TestState :=
  { s with events := s.events ++ [⟨round, a, s.mounts, s.content⟩] }

def setContent (img : Content) (s : TestState) : TestState := { s with content := img }

def addCompletedTest (done : SingleTestInfo) (s : TestState) : TestState :=
  { s with testSuite := s.testSuite ++ [done] }

def mountDevice (round : ℕ) (ok : Bool) (s : TestState) : Int × TestState :=
  if !ok then (MNT_MNT_ERR, { s with diskMounted := false })
  else (SUCCESS, { s with mounts := round :: s.mounts, diskMounted := true })

def umountDevice (ok : Bool) (s : TestState) : Int × TestState :=
  if s.diskMounted && !ok then (MNT_UMNT_ERR, { s with diskMounted := true })
  else (SUCCESS, { s with
    mounts := if s.diskMounted then s.mounts.tail else s.mounts, diskMounted := false })

end TestState

def wexitstatus (status : BitVec 32) : BitVec 32 := (status &&& 0xff00) >>> 8

def fsckPassed (status : BitVec 32) : Bool := status == 0 || wexitstatus status == 1

/-- `Tester::clone_device_restore` without `reread`; the ioctl leaves the content of the
frozen disk. -/
def cloneDeviceRestore (base : Content) (round : ℕ) (ok : Bool) (s : TestState) :
    Int × TestState :=
  if !ok then (DRIVE_CLONE_RESTORE_ERR, s)
  else (SUCCESS, (s.access round .restore).setContent base)

def testCrashState (round : ℕ) (x : Round) (s : TestState) : TestState :=
  let s := (s.mountedWrite (x.mountedWrites 2)).access round .fsck
  let s := s.setContent (x.fsckWrites s.content)
  let testInfo : SingleTestInfo := { fsTest := { fsCheckReturn := some x.fsckReturn } }
  if !fsckPassed x.fsckReturn then s.addCompletedTest (testInfo.setFsError .kCheck)
  else
    let (res, s) := (s.mountedWrite (x.mountedWrites 3)).mountDevice round x.mountOk
    if res ≠ SUCCESS then s.addCompletedTest (testInfo.setFsError .kUnmountable)
    else
      let s := s.setContent (x.checkWrites s.content)
      let testInfo := { testInfo with dataTest := x.checkError }
      let testInfo := if x.checkReturn = 0 ∧ x.fsckReturn ≠ 0 then testInfo.setFsError .kFixed
        else testInfo
      let s := s.addCompletedTest testInfo
      -- what `umount_device` returns is ignored
      ((s.mountedWrite (x.mountedWrites 4)).umountDevice x.umountOk).2

/-- The body of the loop of `test_check_random_permutations` after `GenerateCrashState`,
for a snapshot of `capacity` bytes of the disk `base`. An error is a run that is still
waiting for a call of `write`. -/
def testRound (base : Content) (capacity round : ℕ) (x : Round) (s : TestState) :
    Except TestState TestState :=
  let testInfo : SingleTestInfo := {}
  let s := s.mountedWrite (x.mountedWrites 0)
  -- the error is set but the test is not added
  if !x.openOk then .ok s
  else
    let (res, s) := cloneDeviceRestore base round x.restoreOk s
    if res ≠ SUCCESS then .ok (s.addCompletedTest (testInfo.setFsError .kSnapshotRestore))
    else
      let s := (s.mountedWrite (x.mountedWrites 1)).access round .write
      match testWriteData capacity x.permutes x.writes s.content with
      | none => .error s
      | some (writeDataRes, img, _) =>
        let s := s.setContent img
        if !writeDataRes then .ok (s.addCompletedTest (testInfo.setFsError .kBioWrite))
        else .ok (testCrashState round x s)

def testRounds (base : Content) (capacity : ℕ) (x : ℕ → Round) :
    ℕ → ℕ → TestState → Except TestState TestState
  | 0, _, s => .ok s
  | left + 1, rounds, s =>
    if !(x rounds).newState then .ok s
    else do
      let s ← testRound base capacity rounds (x rounds) s
      testRounds base capacity x left (rounds + 1) s

/-- `Tester::test_check_random_permutations`, when nothing is mounted on the snapshot:
its result, and the results of the tests in the last state. -/
def testCheckRandomPermutations (base : Content) (capacity numRounds : ℕ) (x : ℕ → Round)
    (content : Content) (diskMounted : Bool) : Except TestState (Int × TestState) := do
  let s ← testRounds base capacity x numRounds 0 ⟨content, [], diskMounted, [], []⟩
  return (SUCCESS, s)

end CrashMonkey
