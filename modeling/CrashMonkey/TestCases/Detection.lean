import CrashMonkey.Harness.EveryCrash
import CrashMonkey.TestCases.CheckTest

namespace CrashMonkey

open WriteCache

/-- What fsck makes of a disk, whether the disk can be mounted, and the files on it. -/
structure FileSystem where
  fsckReturn : Content → BitVec 32
  fsckWrites : Content → Content
  mountOk : Content → Bool
  view : Content → View

namespace FileSystem

variable (fs : FileSystem) (tc : TestCase) (text : List UInt8) (beyond : UInt8) (img : Content)

end FileSystem

section Rounds

variable {fs : FileSystem} {tc : TestCase} {text : List UInt8} {beyond : UInt8} {img : Content}
  {capacity : ℕ}

theorem Round.Smooth.replayed {x : Round} (h : x.Smooth)
    (hpermutes : ∀ w ∈ x.permutes, Replayable capacity w) : x.replayed capacity = true := by
  obtain ⟨img, calls, hwritten⟩ := h.written hpermutes fun _ => 0
  rw [Round.replayed, hwritten]
  rfl

theorem Round.Smooth.completedTest {x : Round} (h : x.Smooth)
    (hpermutes : ∀ w ∈ x.permutes, Replayable capacity w) :
    x.completedTest capacity = some x.checkedInfo := by
  simp [Round.completedTest, h.restores.1, h.restores.2, h.replayed hpermutes]

end Rounds

section Runs

variable {capacity : ℕ} {x : ℕ → Round}

end Runs

def FileSystem.round (fs : FileSystem) (tc : TestCase) (text : List UInt8) (beyond : UInt8)
    (base : Content) (y : Bool × List (DiskWrite Payload)) : Round :=
  let img := y.2.foldl replayOp base
  let check := (tc.checkTest text beyond (fs.view (fs.fsckWrites img))).getD
    (0, DataTestResult.kOther)
  { quietRound y with
    writes := List.replicate (callsNeeded y.2) (.accepted 1)
    fsckReturn := fs.fsckReturn img
    fsckWrites := fs.fsckWrites
    mountOk := fs.mountOk (fs.fsckWrites img)
    checkReturn := check.1
    checkError := check.2 }

end CrashMonkey
