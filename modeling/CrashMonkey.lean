import CrashMonkey.Communication.Closed
import CrashMonkey.Communication.Sequences
import CrashMonkey.CowBrd.Discard
import CrashMonkey.CowBrd.Isolation
import CrashMonkey.Harness.Background
import CrashMonkey.Harness.Contamination
import CrashMonkey.Harness.KernelLog
import CrashMonkey.Harness.Profile
import CrashMonkey.Harness.RecordReplay
import CrashMonkey.Harness.SnapshotErrors
import CrashMonkey.Harness.SnapshotRoundTrip
import CrashMonkey.Harness.UserTools
import CrashMonkey.Harness.Verdicts
import CrashMonkey.Permuter.Barriers
import CrashMonkey.Permuter.Bookkeeping
import CrashMonkey.Permuter.Distinct
import CrashMonkey.Permuter.Overlaps
import CrashMonkey.Permuter.Pieces
import CrashMonkey.Permuter.Reinit
import CrashMonkey.Permuter.Retries
import CrashMonkey.Wrapper.Allocation
import CrashMonkey.Wrapper.CopyOut
import CrashMonkey.CowBrd.NoMemory
import CrashMonkey.CowBrd.ModuleLoad
import CrashMonkey.Communication.Frames
import CrashMonkey.Harness.ReplayErrors
import CrashMonkey.Harness.ProfileErrors
import CrashMonkey.Harness.Failures
import CrashMonkey.Permuter.WriteGroups
import CrashMonkey.Permuter.CrashImages
import CrashMonkey.Lib.Arrangements
import CrashMonkey.Permuter.Counting
import CrashMonkey.Harness.FetchErrors
import CrashMonkey.Harness.FsckContent
import CrashMonkey.CowBrd.PlainDisks
import CrashMonkey.CowBrd.ModuleExit
import CrashMonkey.Wrapper.Unload
import CrashMonkey.Harness.Reload
import CrashMonkey.Harness.EveryCrash
import CrashMonkey.TestCases.CheckTest
import CrashMonkey.TestCases.RunTest
import CrashMonkey.Harness.ClassLoader
import CrashMonkey.Harness.ClassUse
import CrashMonkey.TestCases.Detection
import CrashMonkey.Harness.Profiling
