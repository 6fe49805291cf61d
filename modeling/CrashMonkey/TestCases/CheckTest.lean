import CrashMonkey.Harness.Verdicts
import CrashMonkey.Lib.Transfer

/-!
# What a test case checks

A test case writes a file before the crash and looks for it afterwards. Its check sees what
`stat`, `open` and `read` return on a path, and sets the error it finds.
-/

namespace CrashMonkey
open Transfer

inductive StatError where
  | enoent
  | other
deriving DecidableEq, Repr

/-- What the calls on a path return. `read` takes its bytes from `content`. -/
structure TestFile where
  stat : Except StatError (BitVec 32)
  openOk : Bool
  callocOk : Bool
  reads : List Call
  content : List UInt8

abbrev View := String → TestFile

def sIsreg (mode : BitVec 32) : Bool := mode &&& 0xf000 == 0x8000

def TEST_FILE_PERMS : BitVec 32 := 0o777

/-- The loop around `read` with `left` bytes to go: whether no call failed, and what is in the
buffer. The loop is left at the end of the file. -/
def readFile : List Call → ℕ → List UInt8 → Option (Bool × List UInt8)
  | [], _, _ => none
  | .failed :: _, _, _ => some (false, [])
  | .moved n :: calls, left, src =>
    let res := min n (min left src.length)
    if res = 0 then some (true, [])
    else if left ≤ res then some (true, src.take res)
    else (readFile calls (left - res) (src.drop res)).map fun x => (x.1, src.take res ++ x.2)

/-- No call fails before `left` bytes are read, and none returns 0. -/
def Delivered : List Call → ℕ → Prop
  | [], _ => False
  | .failed :: _, _ => False
  | .moved n :: calls, left => left = 0 ∨ 0 < n ∧ (left ≤ n ∨ Delivered calls (left - n))

theorem delivered_moved {calls : List Call} {n left : ℕ} (hleft : left ≠ 0) :
    Delivered (.moved n :: calls) left ↔ 0 < n ∧ (left ≤ n ∨ Delivered calls (left - n)) := by
  rw [Delivered, or_iff_right hleft]

theorem delivered_append {calls : List Call} {left : ℕ} (h : Delivered calls left)
    (calls' : List Call) : Delivered (calls ++ calls') left := by
  induction calls generalizing left with
  | nil => exact h.elim
  | cons call calls ih =>
    cases call with
    | failed => exact h.elim
    | moved n => exact h.imp_right fun ⟨hpos, hrest⟩ => ⟨hpos, hrest.imp_right ih⟩

/-- One call more than those that deliver is enough: it finds the end of a short file. -/
theorem exists_readFile {calls : List Call} {left : ℕ} (h : Delivered calls left) (call : Call)
    (src : List UInt8) : ∃ x, readFile (calls ++ [call]) left src = some x := by
  have hend {calls : List Call} (hne : calls ≠ []) (left : ℕ) :
      ∃ x, readFile calls left [] = some x := by
    obtain ⟨call, calls, rfl⟩ := List.exists_cons_of_ne_nil hne
    cases call <;> simp [readFile]
  induction calls generalizing left src with
  | nil => exact h.elim
  | cons c calls ih =>
    cases c with
    | failed => exact h.elim
    | moved n =>
      rw [List.cons_append, readFile]
      obtain ⟨res, hres⟩ : ∃ res, min n (min left src.length) = res := ⟨_, rfl⟩
      simp only [hres]
      split_ifs with hzero hdone
      · exact ⟨_, rfl⟩
      · exact ⟨_, rfl⟩
      · obtain ⟨-, hrest⟩ := h.resolve_left (by omega)
        suffices hsome : ∃ x, readFile (calls ++ [call]) (left - res) (src.drop res) = some x by
          obtain ⟨x, hx⟩ := hsome
          exact ⟨_, by rw [hx, Option.map_some]⟩
        rcases eq_or_ne res n with rfl | hne
        · exact ih (hrest.resolve_left hdone) _
        · -- the file is shorter than what the call could have read
          rw [List.drop_eq_nil_of_le (by omega)]
          exact hend (by simp) _

/-- The buffer holds a first part of the file. It is full if there is enough in the file and
the calls deliver it. -/
theorem readFile_spec {calls : List Call} {left : ℕ} {src buf : List UInt8} {ok : Bool}
    (h : readFile calls left src = some (ok, buf)) : buf = src.take buf.length ∧
      (ok = true ∧ buf.length = left ↔ left ≤ src.length ∧ Delivered calls left) := by
  induction calls generalizing left src buf with
  | nil => cases h
  | cons call calls ih =>
    cases call with
    | failed =>
      cases h
      simp [Delivered]
    | moved n =>
      simp only [readFile] at h
      obtain ⟨res, hres⟩ : ∃ res, min n (min left src.length) = res := ⟨_, rfl⟩
      rw [hres] at h
      have hlen : (src.take res).length = res := by
        rw [List.length_take]
        omega
      split_ifs at h with hzero hdone
      · -- the end of the file, unless there was nothing to read
        cases h
        refine ⟨rfl, ?_⟩
        obtain rfl | hleft := eq_or_ne left 0
        · simp [Delivered]
        · rw [delivered_moved hleft]
          simp only [List.length_nil, true_and]
          omega
      · cases h
        have hleft : left ≠ 0 := by omega
        refine ⟨by rw [hlen], ?_⟩
        rw [delivered_moved hleft, hlen]
        simp only [true_and]
        exact ⟨fun _ => ⟨by omega, by omega, .inl (by omega)⟩, fun _ => by omega⟩
      · obtain ⟨⟨ok', buf'⟩, hrest, heq⟩ := Option.map_eq_some_iff.mp h
        simp only [Prod.mk.injEq] at heq
        obtain ⟨rfl, rfl⟩ := heq
        obtain ⟨htake, hiff⟩ := ih hrest
        have hleft : left ≠ 0 := by omega
        rw [List.length_append, hlen]
        constructor
        · rw [List.take_add, ← htake]
        · rw [delivered_moved hleft]
          rw [List.length_drop] at hiff
          constructor
          · rintro ⟨hok, hfull⟩
            obtain ⟨hle, hdelivered⟩ := hiff.mp ⟨hok, by omega⟩
            have hn : res = n := by omega
            exact ⟨by omega, by omega, .inr (hn ▸ hdelivered)⟩
          · rintro ⟨hle, hpos, hdelivered⟩
            have hn : res = n := by omega
            have hrest := hdelivered.resolve_left (by omega)
            obtain ⟨hok, hfull⟩ := hiff.mpr ⟨by omega, hn ▸ hrest⟩
            exact ⟨hok, by omega⟩

def judgeData (size : ℕ) (same : List UInt8 → Bool) (err : Option (BitVec 32))
    (x : Bool × List UInt8) : Bool × Option (BitVec 32) :=
  if !x.1 then (true, some DataTestResult.kOther)
  else if x.2.length ≠ size then (false, some DataTestResult.kFileDataCorrupted)
  else if !same x.2 then (false, some DataTestResult.kFileDataCorrupted)
  else (false, err)

/-- The check of the data. With `returns` it ends if there is no memory for them; otherwise
there is none that `read` could write to, and it only finds the end of the file. -/
def checkData (returns : Bool) (size : ℕ) (same : List UInt8 → Bool) (f : TestFile) :
    Option (Bool × Option (BitVec 32)) :=
  if !f.openOk then some (true, some DataTestResult.kOther)
  else if f.callocOk then (readFile f.reads size f.content).map (judgeData size same none)
  else if returns then some (true, some DataTestResult.kOther)
  else
    let reads := if f.content.isEmpty then f.reads else f.reads.map fun _ => .failed
    (readFile reads size f.content).map (judgeData size same (some DataTestResult.kOther))

def checkFile (returns : Bool) (size : ℕ) (same : List UInt8 → Bool) (f : TestFile) :
    Option (Bool × Option (BitVec 32)) :=
  match f.stat with
  | .error _ => some (true, some DataTestResult.kFileMissing)
  | .ok mode =>
    if !sIsreg mode then some (true, some DataTestResult.kFileMetadataCorrupted)
    else if 0o777 &&& mode ≠ TEST_FILE_PERMS then
      some (true, some DataTestResult.kFileMetadataCorrupted)
    else checkData returns size same f

/-- A regular file for everyone, with the text at its start. -/
structure TestFile.Holds (text : List UInt8) (f : TestFile) : Prop where
  regular : ∃ mode, f.stat = .ok mode ∧ sIsreg mode = true ∧ 0o777 &&& mode = TEST_FILE_PERMS
  data : text <+: f.content

structure TestFile.Readable (size : ℕ) (f : TestFile) : Prop where
  openOk : f.openOk = true
  callocOk : f.callocOk = true
  delivered : Delivered f.reads size

/-- `memcmp` finds no difference to the text, for which something else may be needed. -/
def Compares (text : List UInt8) (P : Prop) (same : List UInt8 → Bool) : Prop :=
  ∀ buf, buf.length = text.length → (same buf = true ↔ buf = text ∧ P)

section Check

variable {returns last : Bool} {text : List UInt8} {same : List UInt8 → Bool} {P : Prop}
  {f : TestFile} {err : Option (BitVec 32)}

theorem judgeData_eq_none_iff {size : ℕ} {x : Bool × List UInt8} :
    (judgeData size same err x).2 = none ↔
      (x.1 = true ∧ x.2.length = size) ∧ same x.2 = true ∧ err = none := by
  unfold judgeData
  split_ifs with hok hlen hcmp
  · simp_all
  · simp_all
  · simp_all
  · simp_all

/-- No error is set exactly if the file can be read and begins with the text. -/
theorem checkData_eq_none_iff (hsame : Compares text P same)
    (h : checkData returns text.length same f = some (last, err)) :
    err = none ↔ text <+: f.content ∧ f.Readable text.length ∧ P := by
  have hfail (hread : ¬ f.Readable text.length) (herr : err ≠ none) :
      err = none ↔ text <+: f.content ∧ f.Readable text.length ∧ P :=
    iff_of_false herr fun hclean => hread hclean.2.1
  unfold checkData at h
  split_ifs at h with hopen hcalloc hreturns hempty
  · apply hfail (fun hread => by simp [hread.openOk] at hopen)
    obtain ⟨-, rfl⟩ := Prod.mk.inj (Option.some.inj h)
    exact Option.some_ne_none _
  · obtain ⟨⟨ok, buf⟩, hread, hjudge⟩ := Option.map_eq_some_iff.mp h
    obtain ⟨htake, hiff⟩ := readFile_spec hread
    have herr : (judgeData text.length same none (ok, buf)).2 = err := congrArg Prod.snd hjudge
    rw [← herr, judgeData_eq_none_iff]
    dsimp only
    constructor
    · rintro ⟨hfull, hcmp, -⟩
      obtain ⟨rfl, hP⟩ := (hsame buf hfull.2).mp hcmp
      obtain ⟨-, hdelivered⟩ := hiff.mp hfull
      exact ⟨List.prefix_iff_eq_take.mpr htake, ⟨by simpa using hopen, hcalloc, hdelivered⟩, hP⟩
    · rintro ⟨hdata, hreadable, hP⟩
      have hfull := hiff.mpr ⟨hdata.length_le, hreadable.delivered⟩
      rw [hfull.2] at htake
      have hbuf := htake.trans (List.prefix_iff_eq_take.mp hdata).symm
      exact ⟨hfull, (hsame buf hfull.2).mpr ⟨hbuf, hP⟩, rfl⟩
  · apply hfail fun hread => hcalloc hread.callocOk
    obtain ⟨-, rfl⟩ := Prod.mk.inj (Option.some.inj h)
    exact Option.some_ne_none _
  all_goals
    apply hfail fun hread => hcalloc hread.callocOk
    obtain ⟨x, -, hjudge⟩ := Option.map_eq_some_iff.mp h
    have herr : (judgeData text.length same (some DataTestResult.kOther) x).2 = err :=
      congrArg Prod.snd hjudge
    rw [← herr, Ne, judgeData_eq_none_iff]
    simp

/-- No error is set exactly if the file holds the text and can be read. -/
theorem checkFile_eq_none_iff (hsame : Compares text P same)
    (h : checkFile returns text.length same f = some (last, err)) :
    err = none ↔ f.Holds text ∧ f.Readable text.length ∧ P := by
  unfold checkFile at h
  cases hstat : f.stat with
  | error e =>
    rw [hstat] at h
    obtain ⟨-, rfl⟩ := Prod.mk.inj (Option.some.inj h)
    apply iff_of_false (Option.some_ne_none _)
    rintro ⟨⟨⟨mode, hmode, -⟩, -⟩, -⟩
    cases hstat.symm.trans hmode
  | ok mode =>
    rw [hstat] at h
    have hholds : f.Holds text ↔ (sIsreg mode = true ∧ 0o777 &&& mode = TEST_FILE_PERMS) ∧
        text <+: f.content := by
      constructor
      · rintro ⟨⟨mode', hmode, hmodes⟩, hdata⟩
        obtain rfl : mode = mode' := Except.ok.inj (hstat.symm.trans hmode)
        exact ⟨hmodes, hdata⟩
      · exact fun ⟨hmodes, hdata⟩ => ⟨⟨mode, hstat, hmodes⟩, hdata⟩
    rw [hholds]
    dsimp only at h
    split_ifs at h with hreg hperms
    · obtain ⟨-, rfl⟩ := Prod.mk.inj (Option.some.inj h)
      apply iff_of_false (Option.some_ne_none _)
      rintro ⟨⟨⟨hmode, -⟩, -⟩, -⟩
      simp [hmode] at hreg
    · obtain ⟨-, rfl⟩ := Prod.mk.inj (Option.some.inj h)
      apply iff_of_false (Option.some_ne_none _)
      rintro ⟨⟨⟨-, hmode⟩, -⟩, -⟩
      exact hperms hmode
    · rw [checkData_eq_none_iff hsame h]
      simp only [Bool.not_eq_true, Bool.not_eq_false', not_not] at hreg hperms
      rw [and_iff_right (And.intro (by simpa using hreg) hperms)]

end Check

/-- The loop over the test files, with the error that is set; `check_test` returns 0. -/
def checkFiles (check : TestFile → Option (Bool × Option (BitVec 32))) :
    List TestFile → BitVec 32 → Option (Int × BitVec 32)
  | [], err => some (0, err)
  | f :: fs, err => do
    let (last, new) ← check f
    if last then return (0, new.getD err) else checkFiles check fs (new.getD err)

def TEST_MNT : String := "/mnt/snapshot"
def TEST_DIR : String := "test_dir"
def TEST_FILE : String := "test_file"
def NUM_TEST_FILES : ℕ := 1

/-- `check_test` of `echo_sub_dir`. `TEST_TEXT_SIZE` counts the terminator of the text, and the
buffer does not: `memcmp` goes on to the byte behind it. -/
def checkEchoSubDir (text : List UInt8) (beyond : UInt8) (view : View) :
    Option (Int × BitVec 32) :=
  checkFiles (checkFile true text.length fun buf => buf ++ [beyond] == text ++ [0])
    [view (TEST_MNT ++ "/" ++ TEST_DIR ++ "/" ++ TEST_FILE)] DataTestResult.kClean

def numberedFiles (view : View) : List TestFile :=
  (List.range NUM_TEST_FILES).map fun i =>
    view (TEST_MNT ++ "/" ++ TEST_DIR ++ "/" ++ TEST_FILE ++ toString i)

/-- `check_test` of `echo_sub_dir_big`, `sub_dir_mmap` and `sub_dir_odirect`. -/
def checkEchoSubDirBig (text : List UInt8) (view : View) : Option (Int × BitVec 32) :=
  checkFiles (checkFile true text.length fun buf => buf == text) (numberedFiles view)
    DataTestResult.kClean

/-- In `echo_sub_dir_huge` the check goes on without memory. -/
def checkEchoSubDirHuge (text : List UInt8) (view : View) : Option (Int × BitVec 32) :=
  checkFiles (checkFile false text.length fun buf => buf == text) (numberedFiles view)
    DataTestResult.kClean

def checkRenameRootToSub (text : List UInt8) (view : View) : Option (Int × BitVec 32) :=
  let old := view (TEST_MNT ++ "/" ++ TEST_FILE)
  let new := view (TEST_MNT ++ "/" ++ TEST_DIR ++ "/" ++ TEST_FILE)
  match old.stat, new.stat with
  | .error .enoent, .error .enoent => some (0, DataTestResult.kFileMissing)
  | .ok _, .ok _ => some (-1, DataTestResult.kOldFilePersisted)
  | .ok _, .error _ =>
    checkFiles (checkFile true text.length fun buf => buf == text) [old] DataTestResult.kClean
  | .error _, .ok _ =>
    checkFiles (checkFile true text.length fun buf => buf == text) [new] DataTestResult.kClean
  | .error _, .error _ => some (0, DataTestResult.kOther)

inductive TestCase where
  | echoSubDir
  | echoSubDirNoSync
  | echoSubDirBig
  | echoSubDirHuge
  | subDirMmap
  | subDirOdirect
  | renameRootToSub
deriving DecidableEq, Repr

def TestCase.checkTest (text : List UInt8) (beyond : UInt8) (view : View) :
    TestCase → Option (Int × BitVec 32)
  | echoSubDir => checkEchoSubDir text beyond view
  | echoSubDirNoSync => checkEchoSubDir text beyond view
  | echoSubDirBig => checkEchoSubDirBig text view
  | echoSubDirHuge => checkEchoSubDirHuge text view
  | subDirMmap => checkEchoSubDirBig text view
  | subDirOdirect => checkEchoSubDirBig text view
  | renameRootToSub => checkRenameRootToSub text view

def TestFile.Intact (text : List UInt8) (f : TestFile) : Prop :=
  f.Holds text ∧ f.Readable text.length

def TestCase.Intact (text : List UInt8) (beyond : UInt8) (view : View) : TestCase → Prop
  | echoSubDir | echoSubDirNoSync =>
    (view (TEST_MNT ++ "/" ++ TEST_DIR ++ "/" ++ TEST_FILE)).Intact text ∧ beyond = 0
  | echoSubDirBig | echoSubDirHuge | subDirMmap | subDirOdirect =>
    (view (TEST_MNT ++ "/" ++ TEST_DIR ++ "/" ++ TEST_FILE ++ toString 0)).Intact text
  | renameRootToSub =>
    let old := view (TEST_MNT ++ "/" ++ TEST_FILE)
    let new := view (TEST_MNT ++ "/" ++ TEST_DIR ++ "/" ++ TEST_FILE)
    (old.Intact text ∧ ∃ e, new.stat = .error e) ∨ (new.Intact text ∧ ∃ e, old.stat = .error e)

theorem compares_text (text : List UInt8) : Compares text True fun buf => buf == text := by
  intro buf _
  simp

theorem compares_terminated (text : List UInt8) (beyond : UInt8) :
    Compares text (beyond = 0) fun buf => buf ++ [beyond] == text ++ [0] := by
  intro buf hlen
  rw [beq_iff_eq]
  constructor
  · intro h
    obtain ⟨hbuf, hbyte⟩ := List.append_inj h hlen
    exact ⟨hbuf, by simpa using hbyte⟩
  · rintro ⟨rfl, rfl⟩
    rfl

theorem judgeData_ne_clean (size : ℕ) (same : List UInt8 → Bool) {err : Option (BitVec 32)}
    (herr : err ≠ some DataTestResult.kClean) (x : Bool × List UInt8) :
    (judgeData size same err x).2 ≠ some DataTestResult.kClean := by
  unfold judgeData
  split_ifs
  · decide
  · decide
  · decide
  · exact herr

theorem checkData_ne_clean {returns last : Bool} {size : ℕ} {same : List UInt8 → Bool}
    {f : TestFile} {err : Option (BitVec 32)}
    (h : checkData returns size same f = some (last, err)) : err ≠ some DataTestResult.kClean := by
  have hjudged {err₀ : Option (BitVec 32)} {reads : Option (Bool × List UInt8)}
      (herr : err₀ ≠ some DataTestResult.kClean)
      (hjudge : reads.map (judgeData size same err₀) = some (last, err)) :
      err ≠ some DataTestResult.kClean := by
    obtain ⟨x, -, heq⟩ := Option.map_eq_some_iff.mp hjudge
    have hne := judgeData_ne_clean size same herr x
    rwa [heq] at hne
  unfold checkData at h
  split_ifs at h
  · obtain ⟨-, rfl⟩ := Prod.mk.inj (Option.some.inj h)
    decide
  · exact hjudged (by decide) h
  · obtain ⟨-, rfl⟩ := Prod.mk.inj (Option.some.inj h)
    decide
  · exact hjudged (by decide) h
  · exact hjudged (by decide) h

/-- Whatever a check sets is an error. -/
theorem checkFile_ne_clean {returns last : Bool} {size : ℕ} {same : List UInt8 → Bool}
    {f : TestFile} {err : Option (BitVec 32)}
    (h : checkFile returns size same f = some (last, err)) : err ≠ some DataTestResult.kClean := by
  unfold checkFile at h
  cases hstat : f.stat with
  | error e =>
    rw [hstat] at h
    obtain ⟨-, rfl⟩ := Prod.mk.inj (Option.some.inj h)
    decide
  | ok mode =>
    rw [hstat] at h
    dsimp only at h
    split_ifs at h
    · obtain ⟨-, rfl⟩ := Prod.mk.inj (Option.some.inj h)
      decide
    · obtain ⟨-, rfl⟩ := Prod.mk.inj (Option.some.inj h)
      decide
    · exact checkData_ne_clean h

theorem checkFiles_one {returns : Bool} {text : List UInt8} {same : List UInt8 → Bool} {P : Prop}
    (hsame : Compares text P same) {f : TestFile} {ret : Int} {err : BitVec 32}
    (h : checkFiles (checkFile returns text.length same) [f] DataTestResult.kClean =
      some (ret, err)) :
    ret = 0 ∧ (err = DataTestResult.kClean ↔ f.Intact text ∧ P) := by
  obtain ⟨⟨last, new⟩, hcheck, h⟩ := Option.bind_eq_some_iff.mp h
  have hnone := checkFile_eq_none_iff hsame hcheck
  have hres : ret = 0 ∧ err = new.getD DataTestResult.kClean := by
    dsimp only at h
    split_ifs at h
    · obtain ⟨rfl, rfl⟩ := Prod.mk.inj (Option.some.inj h)
      exact ⟨rfl, rfl⟩
    · obtain ⟨rfl, rfl⟩ := Prod.mk.inj (Option.some.inj h)
      exact ⟨rfl, rfl⟩
  refine ⟨hres.1, ?_⟩
  rw [TestFile.Intact, and_assoc, ← hnone, hres.2]
  cases new with
  | none => simp
  | some e => simpa using checkFile_ne_clean hcheck

theorem checkRenameRootToSub_clean_iff {text : List UInt8} {view : View} {ret : Int}
    {err : BitVec 32} (h : checkRenameRootToSub text view = some (ret, err)) :
    (err = DataTestResult.kClean ↔ TestCase.renameRootToSub.Intact text 0 view) ∧
      (ret = 0 ∨ err ≠ DataTestResult.kClean) := by
  have hmissing {f : TestFile} {e : StatError} (hstat : f.stat = .error e) : ¬ f.Intact text := by
    rintro ⟨⟨⟨mode, hmode, -⟩, -⟩, -⟩
    cases hstat.symm.trans hmode
  unfold checkRenameRootToSub at h
  unfold TestCase.Intact
  dsimp only at h ⊢
  split at h
  · rename_i hold hnew
    obtain ⟨rfl, rfl⟩ := Prod.mk.inj (Option.some.inj h)
    exact ⟨iff_of_false (by decide) (by simp [hmissing hold, hmissing hnew]), .inl rfl⟩
  · rename_i hold hnew
    obtain ⟨rfl, rfl⟩ := Prod.mk.inj (Option.some.inj h)
    exact ⟨iff_of_false (by decide) (by simp [hold, hnew]), .inr (by decide)⟩
  · rename_i hold hnew
    obtain ⟨hret, hiff⟩ := checkFiles_one (compares_text text) h
    refine ⟨?_, .inl hret⟩
    rw [hiff]
    simp [hold, hnew]
  · rename_i hold hnew
    obtain ⟨hret, hiff⟩ := checkFiles_one (compares_text text) h
    refine ⟨?_, .inl hret⟩
    rw [hiff]
    simp [hold, hnew]
  · rename_i hold hnew
    obtain ⟨rfl, rfl⟩ := Prod.mk.inj (Option.some.inj h)
    exact ⟨iff_of_false (by decide) (by simp [hmissing hold, hmissing hnew]), .inl rfl⟩

/-- A test case that fails sets an error, and it sets none exactly if its file is intact. -/
theorem TestCase.checkTest_clean_iff {tc : TestCase} {text : List UInt8} {beyond : UInt8}
    {view : View} {ret : Int} {err : BitVec 32}
    (h : tc.checkTest text beyond view = some (ret, err)) :
    (err = DataTestResult.kClean ↔ tc.Intact text beyond view) ∧
      (ret = 0 ∨ err ≠ DataTestResult.kClean) := by
  have hone {returns : Bool} {same : List UInt8 → Bool} {P : Prop} {f : TestFile}
      (hsame : Compares text P same)
      (h : checkFiles (checkFile returns text.length same) [f] DataTestResult.kClean =
        some (ret, err)) :
      (err = DataTestResult.kClean ↔ f.Intact text ∧ P) ∧
        (ret = 0 ∨ err ≠ DataTestResult.kClean) :=
    ⟨(checkFiles_one hsame h).2, .inl (checkFiles_one hsame h).1⟩
  have htext {returns : Bool} {f : TestFile}
      (h : checkFiles (checkFile returns text.length fun buf => buf == text) [f]
        DataTestResult.kClean = some (ret, err)) :
      (err = DataTestResult.kClean ↔ f.Intact text) ∧ (ret = 0 ∨ err ≠ DataTestResult.kClean) := by
    have htrue := hone (compares_text text) h
    rwa [and_true] at htrue
  cases tc with
  | echoSubDir => exact hone (compares_terminated text beyond) h
  | echoSubDirNoSync => exact hone (compares_terminated text beyond) h
  | echoSubDirBig => exact htext h
  | echoSubDirHuge => exact htext h
  | subDirMmap => exact htext h
  | subDirOdirect => exact htext h
  | renameRootToSub => exact checkRenameRootToSub_clean_iff h

theorem Round.survives_iff {capacity : ℕ} {x : Round} :
    x.Survives capacity ∧ fsckPassed x.fsckReturn = true ↔ x.openOk = true ∧ x.Checked capacity ∧
      x.checkReturn = 0 ∧ x.checkError = DataTestResult.kClean := by
  constructor
  · rintro ⟨⟨hopen, hrestore, hreplay, hmount, hret, herr⟩, hfsck⟩
    exact ⟨hopen, ⟨hrestore, hreplay, hfsck, hmount⟩, hret, herr⟩
  · rintro ⟨hopen, ⟨hrestore, hreplay, hfsck, hmount⟩, hret, herr⟩
    exact ⟨⟨hopen, hrestore, hreplay, hmount, hret, herr⟩, hfsck⟩

theorem Round.verdict_eq_passed_iff {capacity : ℕ} {x : Round} :
    x.verdict capacity = .passed ↔
      (x.Survives capacity ∧ fsckPassed x.fsckReturn = true) ∧ x.fsckReturn = 0 := by
  unfold Round.verdict fsckPassed
  split_ifs with hpassed hfixed
  · simp [hpassed.1, hpassed.2]
  · simp_all
  · simp_all

theorem Round.verdict_eq_passedFixed_iff {capacity : ℕ} {x : Round} :
    x.verdict capacity = .passedFixed ↔
      (x.Survives capacity ∧ fsckPassed x.fsckReturn = true) ∧ x.fsckReturn ≠ 0 := by
  unfold Round.verdict fsckPassed
  split_ifs with hpassed hfixed
  · simp [hpassed.2]
  · simp_all
  · simp_all

/-- How a completed test of the round is counted, if `intact` says what the check finds. -/
structure CountedBy (capacity : ℕ) (x : Round) (intact : Prop) (done : SingleTestInfo) : Prop where
  passed : done.verdict = .passed ↔ x.Checked capacity ∧ intact ∧ x.fsckReturn = 0
  passedFixed : done.verdict = .passedFixed ↔ x.Checked capacity ∧ intact ∧ x.fsckReturn ≠ 0

theorem countedBy_completedTest {capacity : ℕ} {x : Round} {intact : Prop}
    (hcheck : x.Checked capacity → (x.checkError = DataTestResult.kClean ↔ intact) ∧
      (x.checkReturn = 0 ∨ x.checkError ≠ DataTestResult.kClean))
    (hopen : x.openOk = true) {done : SingleTestInfo} (h : x.completedTest capacity = some done) :
    CountedBy capacity x intact done := by
  have hverdict := (Round.verdict_completedTest hopen h).mpr fun hchecked => (hcheck hchecked).2
  have hsurvives : x.Survives capacity ∧ fsckPassed x.fsckReturn = true ↔
      x.Checked capacity ∧ intact := by
    rw [Round.survives_iff, and_iff_right hopen]
    apply and_congr_right
    intro hchecked
    obtain ⟨hclean, hret⟩ := hcheck hchecked
    rw [← hclean]
    exact ⟨And.right, fun herr => ⟨hret.resolve_right (not_not.mpr herr), herr⟩⟩
  constructor
  · rw [hverdict, Round.verdict_eq_passed_iff, hsurvives, and_assoc]
  · rw [hverdict, Round.verdict_eq_passedFixed_iff, hsurvives, and_assoc]

/-- With the test cases of the repository, the tests that are printed as passed are those of
the crash states that can be restored, repaired and mounted and whose file is intact. -/
theorem counted_by_testCase {tc : TestCase} {text : List UInt8} {base : Content}
    {capacity numRounds : ℕ} {x : ℕ → Round} {content : Content} {diskMounted : Bool} {res : Int}
    {s : TestState} {views : ℕ → View} {beyond : ℕ → UInt8}
    (hcheck : ∀ r ∈ generatedRounds x numRounds 0, (x r).Checked capacity →
      tc.checkTest text (beyond r) (views r) = some ((x r).checkReturn, (x r).checkError))
    (h : testCheckRandomPermutations base capacity numRounds x content diskMounted =
      .ok (res, s)) :
    List.Forall₂ (fun r done => CountedBy capacity (x r) (tc.Intact text (beyond r) (views r)) done)
        ((generatedRounds x numRounds 0).filter fun r => (x r).openOk) s.testSuite ∧
      ∀ v, (printResults s.testSuite).verdicts v =
        (s.testSuite.map SingleTestInfo.verdict).count v := by
  refine ⟨?_, printResults_verdicts s.testSuite⟩
  rw [testCheckRandomPermutations_testSuite h]
  generalize generatedRounds x numRounds 0 = rounds at hcheck ⊢
  induction rounds with
  | nil => exact .nil
  | cons r rounds ih =>
    obtain ⟨hcheck, hrest⟩ := List.forall_mem_cons.mp hcheck
    have ih := ih hrest
    rw [List.filter_cons, List.filterMap_cons]
    cases hopen : (x r).openOk with
    | false =>
      have hnone : (x r).completedTest capacity = none := by simp [Round.completedTest, hopen]
      rw [hnone, if_neg Bool.false_ne_true]
      exact ih
    | true =>
      obtain ⟨done, hdone⟩ : ∃ done, (x r).completedTest capacity = some done := by
        unfold Round.completedTest
        rw [hopen, Bool.not_true, if_neg Bool.false_ne_true]
        split_ifs
        all_goals exact ⟨_, rfl⟩
      rw [hdone, if_pos rfl]
      apply List.Forall₂.cons _ ih
      exact countedBy_completedTest
        (fun hchecked => TestCase.checkTest_clean_iff (hcheck hchecked)) hopen hdone

def oneByteFile : TestFile := ⟨.ok 0o100777, true, true, [.moved 1], [7]⟩

theorem counted_by_testCase_oneByte : ∃ res s,
    testCheckRandomPermutations (fun _ => 0) 4096 2 (fun _ => soundRound) (fun _ => 0) false =
      .ok (res, s) ∧
    List.Forall₂ (fun _ done => CountedBy 4096 soundRound
        (TestCase.echoSubDirBig.Intact [7] 0 fun _ => oneByteFile) done)
      ((generatedRounds (fun _ => soundRound) 2 0).filter fun _ => soundRound.openOk) s.testSuite ∧
    ∀ v, (printResults s.testSuite).verdicts v =
      (s.testSuite.map SingleTestInfo.verdict).count v := by
  have hcheck : TestCase.echoSubDirBig.checkTest [7] 0 (fun _ => oneByteFile) =
      some (soundRound.checkReturn, soundRound.checkError) := rfl
  exact ⟨_, _, rfl, counted_by_testCase (fun _ _ _ => hcheck) rfl⟩

end CrashMonkey
