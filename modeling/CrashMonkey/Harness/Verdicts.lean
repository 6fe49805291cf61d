import CrashMonkey.Harness.Contamination

namespace CrashMonkey

namespace DataTestResult

def kClean : BitVec 32 := 0
def kOldFilePersisted : BitVec 32 := .twoPow 32 0
def kFileMissing : BitVec 32 := .twoPow 32 1
def kFileDataCorrupted : BitVec 32 := .twoPow 32 2
def kFileMetadataCorrupted : BitVec 32 := .twoPow 32 3
def kOther : BitVec 32 := .twoPow 32 4

end DataTestResult

inductive Verdict where
  | passed
  | passedFixed
  | failed
deriving DecidableEq, Repr

def SingleTestInfo.verdict (result : SingleTestInfo) : Verdict :=
  if result.fsTest.errorSummary = .kClean ∧ result.dataTest = DataTestResult.kClean then .passed
  else if result.fsTest.errorSummary = .kFixed ∧ result.dataTest = DataTestResult.kClean then
    .passedFixed
  else .failed

structure Results where
  numFailed : ℕ := 0
  numPassedFixed : ℕ := 0
  numPassed : ℕ := 0
  oldFilePersisted : ℕ := 0
  fileMissing : ℕ := 0
  fileDataCorrupted : ℕ := 0
  fileMetadataCorrupted : ℕ := 0
  other : ℕ := 0
deriving DecidableEq, Repr

namespace Results

def total (r : Results) : ℕ := r.numFailed + r.numPassedFixed + r.numPassed

def addDataError (err : BitVec 32) (r : Results) : Results :=
  if err = DataTestResult.kOldFilePersisted then
    { r with oldFilePersisted := r.oldFilePersisted + 1 }
  else if err = DataTestResult.kFileMissing then { r with fileMissing := r.fileMissing + 1 }
  else if err = DataTestResult.kFileDataCorrupted then
    { r with fileDataCorrupted := r.fileDataCorrupted + 1 }
  else if err = DataTestResult.kFileMetadataCorrupted then
    { r with fileMetadataCorrupted := r.fileMetadataCorrupted + 1 }
  else if err = DataTestResult.kOther then { r with other := r.other + 1 }
  else r

def add (r : Results) (result : SingleTestInfo) : Results :=
  match result.verdict with
  | .passed => { r with numPassed := r.numPassed + 1 }
  | .passedFixed => { r with numPassedFixed := r.numPassedFixed + 1 }
  | .failed => { r with numFailed := r.numFailed + 1 }.addDataError result.dataTest

end Results

def printResults (completed : List SingleTestInfo) : Results := completed.foldl Results.add {}

def Results.verdicts (r : Results) : Verdict → ℕ
  | .passed => r.numPassed
  | .passedFixed => r.numPassedFixed
  | .failed => r.numFailed

@[simp] theorem Results.verdicts_addDataError (r : Results) (err : BitVec 32) :
    (r.addDataError err).verdicts = r.verdicts := by
  ext v
  unfold addDataError
  split_ifs <;> cases v <;> rfl

theorem Results.verdicts_add (r : Results) (result : SingleTestInfo) (v : Verdict) :
    (r.add result).verdicts v = r.verdicts v + if result.verdict = v then 1 else 0 := by
  unfold add
  cases result.verdict <;> simp only [verdicts_addDataError] <;> cases v <;> rfl

/-- Every completed test is counted under its verdict. -/
theorem printResults_verdicts (completed : List SingleTestInfo) (v : Verdict) :
    (printResults completed).verdicts v = (completed.map SingleTestInfo.verdict).count v := by
  have hfold (r : Results) : (completed.foldl Results.add r).verdicts v =
      r.verdicts v + (completed.map SingleTestInfo.verdict).count v := by
    induction completed generalizing r with
    | nil => rfl
    | cons result completed ih =>
      rw [List.foldl_cons, ih, Results.verdicts_add, List.map_cons, List.count_cons]
      simp only [beq_iff_eq]
      omega
  rw [printResults, hfold]
  cases v <;> exact Nat.zero_add _

theorem printResults_total (completed : List SingleTestInfo) :
    (printResults completed).total = completed.length := by
  have hfold (r : Results) :
      (completed.foldl Results.add r).total = r.total + completed.length := by
    induction completed generalizing r with
    | nil => rfl
    | cons result completed ih =>
      have hadd : (r.add result).total = r.total + 1 := by
        have hsum (r : Results) : r.total =
            r.verdicts .failed + r.verdicts .passedFixed + r.verdicts .passed := rfl
        rw [hsum, hsum, Results.verdicts_add, Results.verdicts_add, Results.verdicts_add]
        cases result.verdict <;> simp <;> omega
      rw [List.foldl_cons, ih, hadd, List.length_cons]
      omega
  rw [printResults, hfold]
  exact Nat.zero_add _

/-- The rounds that the loop comes to, with `left` to go from number `rounds` on, and in
which `GenerateCrashState` returns `true`. -/
def generatedRounds (x : ℕ → Round) : ℕ → ℕ → List ℕ
  | 0, _ => []
  | left + 1, rounds =>
    if (x rounds).newState then rounds :: generatedRounds x left (rounds + 1) else []

namespace Round

variable (capacity : ℕ) (x : Round)

def replayed : Bool := (testWriteData capacity x.permutes x.writes fun _ => 0).any (·.1)

def checkedInfo : SingleTestInfo :=
  let testInfo : SingleTestInfo := { fsTest := { fsCheckReturn := some x.fsckReturn } }
  if !fsckPassed x.fsckReturn then testInfo.setFsError .kCheck
  else if !x.mountOk then testInfo.setFsError .kUnmountable
  else
    let testInfo := { testInfo with dataTest := x.checkError }
    if x.checkReturn = 0 ∧ x.fsckReturn ≠ 0 then testInfo.setFsError .kFixed else testInfo

def completedTest : Option SingleTestInfo :=
  if !x.openOk then none
  else if !x.restoreOk then some (SingleTestInfo.setFsError {} .kSnapshotRestore)
  else if !x.replayed capacity then some (SingleTestInfo.setFsError {} .kBioWrite)
  else some x.checkedInfo

end Round

namespace TestState

variable (s : TestState)

@[simp] theorem mountedWrite_testSuite (f : Content → Content) :
    (s.mountedWrite f).testSuite = s.testSuite := by
  unfold mountedWrite
  split_ifs <;> rfl

@[simp] theorem access_testSuite (r : ℕ) (a : Access) :
    (s.access r a).testSuite = s.testSuite := rfl

@[simp] theorem setContent_testSuite (img : Content) :
    (s.setContent img).testSuite = s.testSuite := rfl

@[simp] theorem addCompletedTest_testSuite (done : SingleTestInfo) :
    (s.addCompletedTest done).testSuite = s.testSuite ++ [done] := rfl

@[simp] theorem mountDevice_testSuite (r : ℕ) (ok : Bool) :
    (s.mountDevice r ok).2.testSuite = s.testSuite := by
  unfold mountDevice
  split_ifs <;> rfl

@[simp] theorem umountDevice_testSuite (ok : Bool) :
    (s.umountDevice ok).2.testSuite = s.testSuite := by
  unfold umountDevice
  split_ifs <;> rfl

@[simp] theorem restored_testSuite (base : Content) (r : ℕ) (x : Round) :
    (s.restored base r x).testSuite = s.testSuite := by
  simp [restored]

end TestState

theorem testCrashState_testSuite (r : ℕ) (x : Round) (s : TestState) :
    (testCrashState r x s).testSuite = s.testSuite ++ [x.checkedInfo] := by
  unfold testCrashState Round.checkedInfo
  cases hfsck : fsckPassed x.fsckReturn with
  | false => simp
  | true => cases hmount : x.mountOk <;> simp [TestState.mountDevice, MNT_MNT_ERR, SUCCESS]

/-- A round that comes to an end adds its test. -/
theorem testRound_testSuite {base : Content} {capacity r : ℕ} {x : Round} {s s' : TestState}
    (h : testRound base capacity r x s = .ok s') :
    s'.testSuite = s.testSuite ++ (x.completedTest capacity).toList := by
  unfold Round.completedTest
  by_cases hx : x.Restores
  · simp only [hx.1, hx.2, Bool.not_true, Bool.false_eq_true, if_false]
    rw [testRound_of_restores hx] at h
    have hreplayed := testWriteData_congr capacity x.permutes x.writes (fun _ => 0)
      (s.restored base r x).content
    unfold Round.replayed
    cases hwrite : testWriteData capacity x.permutes x.writes (s.restored base r x).content with
    | none => simp [hwrite] at h
    | some res =>
      obtain ⟨writeDataRes, img, calls⟩ := res
      rw [hwrite, Option.map_some] at hreplayed
      obtain ⟨⟨res, img', calls'⟩, hzero, heq⟩ := Option.map_eq_some_iff.mp hreplayed
      obtain ⟨rfl, rfl⟩ := Prod.mk.inj heq
      rw [hwrite] at h
      rw [hzero]
      cases res with
      | false =>
        simp only [Bool.not_false, if_true, Except.ok.injEq] at h
        simp [← h]
      | true =>
        simp only [Bool.not_true, Bool.false_eq_true, if_false, Except.ok.injEq] at h
        simp [← h, testCrashState_testSuite]
  · unfold testRound cloneDeviceRestore at h
    cases hopen : x.openOk with
    | false =>
      simp only [hopen, Bool.not_false, if_true, Except.ok.injEq] at h
      simp [← h]
    | true =>
      cases hrestore : x.restoreOk with
      | false =>
        simp only [hopen, hrestore, Bool.not_true, Bool.not_false, Bool.false_eq_true, if_false,
          if_true] at h
        rw [if_pos (by decide), Except.ok.injEq] at h
        simp [← h]
      | true => exact absurd ⟨hopen, hrestore⟩ hx

/-- Only a round that waits for `write` does not come to an end. -/
theorem testRound_ok_iff {base : Content} {capacity r : ℕ} {x : Round} {s : TestState} :
    (∃ s', testRound base capacity r x s = .ok s') ↔ ¬ x.Waits base capacity := by
  by_cases hx : x.Restores
  · have hcongr := testWriteData_congr capacity x.permutes x.writes (s.restored base r x).content
      base
    rw [testRound_of_restores hx, Round.Waits, and_iff_right hx]
    cases hwrite : testWriteData capacity x.permutes x.writes (s.restored base r x).content with
    | none =>
      rw [hwrite, Option.map_none, eq_comm, Option.map_eq_none_iff] at hcongr
      simp [hcongr]
    | some res =>
      rw [hwrite, Option.map_some, eq_comm] at hcongr
      obtain ⟨res', hbase, -⟩ := Option.map_eq_some_iff.mp hcongr
      obtain ⟨writeDataRes, img, calls⟩ := res
      rw [hbase]
      cases writeDataRes <;> simp
  · obtain ⟨s', hround, -⟩ := testRound_of_not_restores base capacity hx r s
    exact iff_of_true ⟨s', hround⟩ fun hwaits => hx hwaits.1

theorem testRounds_ok_iff {base : Content} {capacity : ℕ} {x : ℕ → Round} (left k : ℕ)
    (s : TestState) : (∃ s', testRounds base capacity x left k s = .ok s') ↔
      ∀ r ∈ generatedRounds x left k, ¬ (x r).Waits base capacity := by
  induction left generalizing k s with
  | zero => simp [generatedRounds, testRounds]
  | succ left ih =>
    rw [generatedRounds, testRounds]
    cases hnew : (x k).newState with
    | false => simp
    | true =>
      simp only [Bool.not_true, Bool.false_eq_true, if_false, if_true, List.forall_mem_cons]
      constructor
      · rintro ⟨s', hrun⟩
        obtain ⟨s₁, hround, hrest⟩ := Transition.bind_eq_ok.mp hrun
        exact ⟨testRound_ok_iff.mp ⟨s₁, hround⟩, (ih (k + 1) s₁).mp ⟨s', hrest⟩⟩
      · rintro ⟨hround, hrest⟩
        obtain ⟨s₁, hround⟩ := testRound_ok_iff.mpr hround
        obtain ⟨s', hrest⟩ := (ih (k + 1) s₁).mpr hrest
        exact ⟨s', Transition.bind_eq_ok.mpr ⟨s₁, hround, hrest⟩⟩

/-- A run comes to its end exactly if no round waits. -/
theorem testCheckRandomPermutations_ok_iff {base : Content} {capacity numRounds : ℕ}
    {x : ℕ → Round} {content : Content} {diskMounted : Bool} :
    (∃ s, testCheckRandomPermutations base capacity numRounds x content diskMounted =
        .ok (SUCCESS, s)) ↔
      ∀ r ∈ generatedRounds x numRounds 0, ¬ (x r).Waits base capacity := by
  rw [← testRounds_ok_iff numRounds 0 ⟨content, [], diskMounted, [], []⟩]
  constructor
  · rintro ⟨s, hrun⟩
    obtain ⟨s₁, hrounds, -⟩ := Transition.bind_eq_ok.mp hrun
    exact ⟨s₁, hrounds⟩
  · rintro ⟨s, hrounds⟩
    exact ⟨s, Transition.bind_eq_ok.mpr ⟨s, hrounds, rfl⟩⟩

/-- A run adds the tests of its rounds, in order. -/
theorem testRounds_testSuite {base : Content} {capacity : ℕ} {x : ℕ → Round} (left k : ℕ)
    {s s' : TestState} (h : testRounds base capacity x left k s = .ok s') :
    s'.testSuite = s.testSuite ++
      (generatedRounds x left k).filterMap fun r => (x r).completedTest capacity := by
  induction left generalizing k s with
  | zero =>
    obtain rfl := Except.ok.inj h
    simp [generatedRounds]
  | succ left ih =>
    rw [testRounds] at h
    rw [generatedRounds]
    cases hnew : (x k).newState with
    | false =>
      simp only [hnew, Bool.not_false, if_true, Except.ok.injEq] at h
      simp [h]
    | true =>
      simp only [hnew, Bool.not_true, Bool.false_eq_true, if_false] at h
      obtain ⟨s₁, hround, hrest⟩ := Transition.bind_eq_ok.mp h
      rw [ih (k + 1) hrest, testRound_testSuite hround, if_pos rfl, List.filterMap_cons,
        List.append_assoc]
      cases (x k).completedTest capacity <;> rfl

theorem testCheckRandomPermutations_testSuite {base : Content} {capacity numRounds : ℕ}
    {x : ℕ → Round} {content : Content} {diskMounted : Bool} {res : Int} {s : TestState}
    (h : testCheckRandomPermutations base capacity numRounds x content diskMounted =
      .ok (res, s)) :
    s.testSuite =
      (generatedRounds x numRounds 0).filterMap fun r => (x r).completedTest capacity := by
  obtain ⟨s₁, hrounds, h⟩ := Transition.bind_eq_ok.mp h
  obtain ⟨-, rfl⟩ := Prod.mk.inj (Except.ok.inj h)
  exact testRounds_testSuite numRounds 0 hrounds

/-- The error of the stage that fails, if one of them does. -/
def Round.failedStage (capacity : ℕ) (x : Round) : Option FileSystemError :=
  if !x.openOk || !x.restoreOk then some .kSnapshotRestore
  else if !x.replayed capacity then some .kBioWrite
  else if !fsckPassed x.fsckReturn then some .kCheck
  else if !x.mountOk then some .kUnmountable
  else none

/-- There is one completed test for each crash state, with the error of the stage that
failed, and as many are printed. -/
def CountedOnce (capacity : ℕ) (x : ℕ → Round) (numRounds : ℕ)
    (completed : List SingleTestInfo) : Prop :=
  List.Forall₂ (fun r (done : SingleTestInfo) =>
      ∀ err ∈ (x r).failedStage capacity, done.fsTest.errorSummary = err)
    (generatedRounds x numRounds 0) completed ∧
  (printResults completed).total = (generatedRounds x numRounds 0).length

theorem Round.completedTest_eq_none_iff {capacity : ℕ} {x : Round} :
    x.completedTest capacity = none ↔ x.openOk = false := by
  unfold completedTest
  cases x.openOk with
  | false => simp
  | true =>
    simp only [Bool.not_true, Bool.false_eq_true, if_false]
    split_ifs <;> simp

theorem Round.errorSummary_completedTest {capacity : ℕ} {x : Round} {done : SingleTestInfo}
    (h : x.completedTest capacity = some done) :
    ∀ err ∈ x.failedStage capacity, done.fsTest.errorSummary = err := by
  intro err herr
  have hopen : x.openOk = true := by
    by_contra hopen
    rw [completedTest_eq_none_iff.mpr (Bool.eq_false_iff.mpr hopen)] at h
    cases h
  unfold completedTest at h
  unfold failedStage at herr
  simp only [hopen, Bool.not_true, Bool.false_eq_true, if_false, Bool.false_or] at h herr
  split_ifs at h herr with hrestore hreplayed hfsck hmount
  · obtain rfl := Option.some.inj h
    exact Option.some.inj herr
  · obtain rfl := Option.some.inj h
    exact Option.some.inj herr
  · obtain rfl := Option.some.inj h
    rw [checkedInfo, if_pos hfsck]
    exact Option.some.inj herr
  · obtain rfl := Option.some.inj h
    rw [checkedInfo, if_neg hfsck, if_pos hmount]
    exact Option.some.inj herr
  · cases herr

/-- What of a list is mapped is all of it only if nothing of it is left out. -/
theorem filterMap_length_eq_iff {α β : Type} {f : α → Option β} {l : List α} :
    (l.filterMap f).length = l.length ↔ ∀ a ∈ l, f a ≠ none := by
  rw [List.length_filterMap_eq_countP, List.countP_eq_length]
  simp [Option.isSome_iff_ne_none]

theorem forall₂_filterMap {α β : Type} {R : α → β → Prop} {f : α → Option β} {l : List α}
    (h : ∀ a ∈ l, ∃ b, f a = some b ∧ R a b) : List.Forall₂ R l (l.filterMap f) := by
  induction l with
  | nil => exact .nil
  | cons a l ih =>
    obtain ⟨⟨b, hb, hab⟩, hl⟩ := List.forall_mem_cons.mp h
    rw [List.filterMap_cons, hb]
    exact .cons hab (ih hl)

theorem map_filterMap_eq_iff {α β γ : Type} {f : α → Option β} {g : β → γ} {k : α → γ}
    {l : List α} (hf : ∀ a ∈ l, ∃ b, f a = some b) :
    (l.filterMap f).map g = l.map k ↔ ∀ a ∈ l, ∀ b, f a = some b → g b = k a := by
  induction l with
  | nil => simp
  | cons a l ih =>
    obtain ⟨⟨b, hb⟩, hl⟩ := List.forall_mem_cons.mp hf
    rw [List.filterMap_cons, hb, List.map_cons, List.map_cons, List.cons.injEq, ih hl,
      List.forall_mem_cons, hb]
    simp

section Runs

variable {base : Content} {capacity numRounds : ℕ} {x : ℕ → Round} {content : Content}
  {diskMounted : Bool} {res : Int} {s : TestState}

/-- With as many tests as crash states, the snapshot was opened in each round. -/
theorem opened_of_length
    (h : testCheckRandomPermutations base capacity numRounds x content diskMounted = .ok (res, s))
    (hlen : s.testSuite.length = (generatedRounds x numRounds 0).length) :
    ∀ r ∈ generatedRounds x numRounds 0, (x r).openOk = true := by
  intro r hr
  rw [testCheckRandomPermutations_testSuite h] at hlen
  have hadded := filterMap_length_eq_iff.mp hlen r hr
  rwa [ne_eq, Round.completedTest_eq_none_iff, Bool.not_eq_false] at hadded

theorem exists_completedTest (hopen : ∀ r ∈ generatedRounds x numRounds 0, (x r).openOk = true) :
    ∀ r ∈ generatedRounds x numRounds 0, ∃ done, (x r).completedTest capacity = some done := by
  intro r hr
  rw [← Option.ne_none_iff_exists', ne_eq, Round.completedTest_eq_none_iff, hopen r hr]
  decide

/-- The crash states are counted unless the snapshot cannot be opened. -/
theorem countedOnce_iff
    (h : testCheckRandomPermutations base capacity numRounds x content diskMounted = .ok (res, s)) :
    CountedOnce capacity x numRounds s.testSuite ↔
      ∀ r ∈ generatedRounds x numRounds 0, (x r).openOk = true := by
  constructor
  · exact fun hcounted => opened_of_length h hcounted.1.length_eq.symm
  · intro hopen
    have hforall : List.Forall₂ (fun r (done : SingleTestInfo) =>
        ∀ err ∈ (x r).failedStage capacity, done.fsTest.errorSummary = err)
        (generatedRounds x numRounds 0) s.testSuite := by
      rw [testCheckRandomPermutations_testSuite h]
      apply forall₂_filterMap
      intro r hr
      obtain ⟨done, hdone⟩ : ∃ done, (x r).completedTest capacity = some done :=
        exists_completedTest hopen r hr
      exact ⟨done, hdone, Round.errorSummary_completedTest hdone⟩
    exact ⟨hforall, (printResults_total _).trans hforall.length_eq.symm⟩

end Runs

def soundRound : Round where
  newState := true
  permutes := []
  openOk := true
  restoreOk := true
  writes := []
  fsckReturn := 0
  fsckWrites := id
  mountOk := true
  checkReturn := 0
  checkError := 0
  checkWrites := id
  umountOk := true
  mountedWrites := fun _ => id

/-- A write of two bytes takes two calls. -/
def writingRound : Round := { soundRound with
  permutes := [⟨⟨0, reqWrite, 1, 2⟩, some fun _ => 7⟩]
  writes := [.accepted 1, .accepted 1] }

theorem not_waits_writingRound : ¬ writingRound.Waits (fun _ => 0) 4096 := by
  rintro ⟨-, hnone⟩
  have hsome : (testWriteData 4096 writingRound.permutes writingRound.writes
      fun _ => 0).isSome = true := by decide
  rw [hnone] at hsome
  cases hsome

theorem countedOnce_sound : ∃ s,
    testCheckRandomPermutations (fun _ => 0) 4096 2 (fun _ => writingRound) (fun _ => 0) false =
      .ok (SUCCESS, s) ∧
    CountedOnce 4096 (fun _ => writingRound) 2 s.testSuite := by
  obtain ⟨s, hrun⟩ := testCheckRandomPermutations_ok_iff.mpr fun _ _ => not_waits_writingRound
  exact ⟨s, hrun, (countedOnce_iff hrun).mpr fun _ _ => rfl⟩

/-- The snapshot cannot be opened in the only round. -/
theorem not_countedOnce_unopened : ∃ res s,
    testCheckRandomPermutations (fun _ => 0) 4096 1 (fun _ => { soundRound with openOk := false })
      (fun _ => 0) false = .ok (res, s) ∧
    ¬ CountedOnce 4096 (fun _ => { soundRound with openOk := false }) 1 s.testSuite :=
  ⟨_, _, rfl, fun hcounted => nomatch hcounted.1⟩

namespace Round

variable (capacity : ℕ) (x : Round)

/-- The file system survives the crash, as far as the mount and the check can tell. -/
structure Survives : Prop where
  opened : x.openOk = true
  restored : x.restoreOk = true
  replayed : x.replayed capacity = true
  mounted : x.mountOk = true
  checked : x.checkReturn = 0
  dataClean : x.checkError = DataTestResult.kClean

instance : Decidable (x.Survives capacity) :=
  decidable_of_iff (x.openOk = true ∧ x.restoreOk = true ∧ x.replayed capacity = true ∧
      x.mountOk = true ∧ x.checkReturn = 0 ∧ x.checkError = DataTestResult.kClean)
    ⟨fun ⟨h₁, h₂, h₃, h₄, h₅, h₆⟩ => ⟨h₁, h₂, h₃, h₄, h₅, h₆⟩,
      fun ⟨h₁, h₂, h₃, h₄, h₅, h₆⟩ => ⟨h₁, h₂, h₃, h₄, h₅, h₆⟩⟩

/-- What the crash state deserves: fsck has found nothing to repair, or it has repaired
the file system, or else something has failed. -/
def verdict : Verdict :=
  if x.Survives capacity ∧ x.fsckReturn = 0 then .passed
  else if x.Survives capacity ∧ wexitstatus x.fsckReturn = 1 then .passedFixed
  else .failed

structure Checked : Prop where
  restored : x.restoreOk = true
  replayed : x.replayed capacity = true
  fsck : fsckPassed x.fsckReturn = true
  mounted : x.mountOk = true

end Round

/-- Each crash state has the verdict it deserves, and the numbers printed are those of
the verdicts. -/
structure VerdictsSound (capacity : ℕ) (x : ℕ → Round) (numRounds : ℕ)
    (completed : List SingleTestInfo) : Prop where
  each : completed.map SingleTestInfo.verdict =
    (generatedRounds x numRounds 0).map fun r => (x r).verdict capacity
  printed : ∀ v, (printResults completed).verdicts v =
    ((generatedRounds x numRounds 0).map fun r => (x r).verdict capacity).count v

theorem SingleTestInfo.verdict_failed {done : SingleTestInfo}
    (hclean : done.fsTest.errorSummary ≠ .kClean) (hfixed : done.fsTest.errorSummary ≠ .kFixed) :
    done.verdict = .failed := by
  rw [verdict, if_neg fun h => hclean h.1, if_neg fun h => hfixed h.1]

namespace Round

variable {capacity : ℕ} {x : Round}

theorem verdict_failed (h : ¬ (x.Survives capacity ∧ fsckPassed x.fsckReturn = true)) :
    x.verdict capacity = .failed := by
  have hzero : fsckPassed 0 = true := rfl
  rw [verdict, if_neg, if_neg]
  · rintro ⟨hsurvives, hfsck⟩
    exact h ⟨hsurvives, by simp [fsckPassed, hfsck]⟩
  · rintro ⟨hsurvives, hfsck⟩
    exact h ⟨hsurvives, hfsck ▸ hzero⟩

/-- When the test case gets to look at the state, only an error it does not report as one
of the data is missed. -/
theorem verdict_checkedInfo (hopen : x.openOk = true) (h : x.Checked capacity) :
    x.checkedInfo.verdict = x.verdict capacity ↔
      x.checkReturn = 0 ∨ x.checkError ≠ DataTestResult.kClean := by
  have hsurvives : x.Survives capacity ↔
      x.checkReturn = 0 ∧ x.checkError = DataTestResult.kClean :=
    ⟨fun h => ⟨h.checked, h.dataClean⟩,
      fun ⟨hcheck, hdata⟩ => ⟨hopen, h.restored, h.replayed, h.mounted, hcheck, hdata⟩⟩
  have hinfo : x.checkedInfo.dataTest = x.checkError ∧ x.checkedInfo.fsTest.errorSummary =
      if x.checkReturn = 0 ∧ x.fsckReturn ≠ 0 then .kFixed else .kClean := by
    unfold checkedInfo
    simp only [h.fsck, h.mounted, Bool.not_true, Bool.false_eq_true, if_false]
    split_ifs <;> exact ⟨rfl, rfl⟩
  have hexit : x.fsckReturn ≠ 0 → wexitstatus x.fsckReturn = 1 := by
    intro hne
    have hfsck := h.fsck
    simp only [fsckPassed, Bool.or_eq_true, beq_iff_eq] at hfsck
    exact hfsck.resolve_left hne
  unfold SingleTestInfo.verdict verdict
  simp only [hinfo.1, hinfo.2, hsurvives]
  by_cases hdata : x.checkError = DataTestResult.kClean
  · by_cases hcheck : x.checkReturn = 0
    · by_cases hfsck : x.fsckReturn = 0#32
      · simp [hdata, hcheck, hfsck]
      · simp [hdata, hcheck, hfsck, hexit hfsck]
    · simp [hdata, hcheck]
  · simp [hdata]

theorem verdict_completedTest {done : SingleTestInfo} (hopen : x.openOk = true)
    (h : x.completedTest capacity = some done) :
    done.verdict = x.verdict capacity ↔
      (x.Checked capacity → x.checkReturn = 0 ∨ x.checkError ≠ DataTestResult.kClean) := by
  by_cases hchecked : x.Checked capacity
  · have hdone : x.checkedInfo = done := by
      simpa [completedTest, hopen, hchecked.restored, hchecked.replayed] using h
    rw [← hdone, verdict_checkedInfo hopen hchecked]
    exact ⟨fun h _ => h, fun h => h hchecked⟩
  · -- an earlier stage fails, and its error is set
    obtain ⟨err, herr, hclean, hfixed⟩ : ∃ err ∈ x.failedStage capacity,
        err ≠ .kClean ∧ err ≠ .kFixed := by
      unfold failedStage
      split_ifs with hrestore hreplayed hfsck hmount
      · exact ⟨_, rfl, by decide, by decide⟩
      · exact ⟨_, rfl, by decide, by decide⟩
      · exact ⟨_, rfl, by decide, by decide⟩
      · exact ⟨_, rfl, by decide, by decide⟩
      · exact absurd ⟨by simpa [hopen] using hrestore, by simpa using hreplayed,
          by simpa using hfsck, by simpa using hmount⟩ hchecked
    have hsummary := errorSummary_completedTest h err herr
    have hnot : ¬ (x.Survives capacity ∧ fsckPassed x.fsckReturn = true) := fun ⟨hs, hfsck⟩ =>
      hchecked ⟨hs.restored, hs.replayed, hfsck, hs.mounted⟩
    rw [SingleTestInfo.verdict_failed (hsummary ▸ hclean) (hsummary ▸ hfixed), verdict_failed hnot]
    exact ⟨fun _ h => absurd h hchecked, fun _ => rfl⟩

end Round

section Runs

variable {base : Content} {capacity numRounds : ℕ} {x : ℕ → Round} {content : Content}
  {diskMounted : Bool} {res : Int} {s : TestState}

/-- The verdicts are sound unless the snapshot cannot be opened, or a test case that fails
sets no error of the data. -/
theorem verdictsSound_iff
    (h : testCheckRandomPermutations base capacity numRounds x content diskMounted = .ok (res, s)) :
    VerdictsSound capacity x numRounds s.testSuite ↔
      ∀ r ∈ generatedRounds x numRounds 0, (x r).openOk = true ∧ ((x r).Checked capacity →
        (x r).checkReturn = 0 ∨ (x r).checkError ≠ DataTestResult.kClean) := by
  have hsuite := testCheckRandomPermutations_testSuite h
  -- once all tests are there, the verdicts are compared round by round
  have heach (hopen : ∀ r ∈ generatedRounds x numRounds 0, (x r).openOk = true) :
      s.testSuite.map SingleTestInfo.verdict =
          (generatedRounds x numRounds 0).map (fun r => (x r).verdict capacity) ↔
        ∀ r ∈ generatedRounds x numRounds 0, (x r).Checked capacity →
          (x r).checkReturn = 0 ∨ (x r).checkError ≠ DataTestResult.kClean := by
    rw [hsuite, map_filterMap_eq_iff (exists_completedTest hopen)]
    constructor
    · intro hall r hr
      obtain ⟨done, hdone⟩ := exists_completedTest hopen r hr
      exact (Round.verdict_completedTest (hopen r hr) hdone).mp (hall r hr done hdone)
    · exact fun hall r hr done hdone =>
        (Round.verdict_completedTest (hopen r hr) hdone).mpr (hall r hr)
  constructor
  · intro hsound
    have hlen := congrArg List.length hsound.each
    rw [List.length_map, List.length_map] at hlen
    have hopen := opened_of_length h hlen
    exact fun r hr => ⟨hopen r hr, (heach hopen).mp hsound.each r hr⟩
  · intro hrounds
    have hverdicts := (heach fun r hr => (hrounds r hr).1).mpr fun r hr => (hrounds r hr).2
    exact ⟨hverdicts, fun v => by rw [printResults_verdicts, hverdicts]⟩

end Runs

theorem verdictsSound_sound : ∃ s,
    testCheckRandomPermutations (fun _ => 0) 4096 2 (fun _ => writingRound) (fun _ => 0) false =
      .ok (SUCCESS, s) ∧
    VerdictsSound 4096 (fun _ => writingRound) 2 s.testSuite := by
  obtain ⟨s, hrun⟩ := testCheckRandomPermutations_ok_iff.mpr fun _ _ => not_waits_writingRound
  exact ⟨s, hrun, (verdictsSound_iff hrun).mpr fun _ _ => ⟨rfl, fun _ => .inl rfl⟩⟩

def silentRound : Round := { soundRound with fsckReturn := 0x100, checkReturn := -1 }

theorem not_verdictsSound_silent : ∃ res s,
    testCheckRandomPermutations (fun _ => 0) 4096 1 (fun _ => silentRound) (fun _ => 0) false =
      .ok (res, s) ∧
    ¬ VerdictsSound 4096 (fun _ => silentRound) 1 s.testSuite :=
  ⟨_, _, rfl, fun hsound => absurd (hsound.printed .passed) (by decide)⟩

end CrashMonkey
