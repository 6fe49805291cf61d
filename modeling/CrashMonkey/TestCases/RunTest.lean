import CrashMonkey.TestCases.CheckTest

namespace CrashMonkey
open Transfer

/-- The loop in `run`, with `written` bytes of `size` in the file. Each call is asked for `ask`
bytes from there on in memory. Returns what `run` does, and the file. -/
def runLoop (ask : BitVec 32 → ℕ) (size : ℕ) (mem : ℕ → UInt8) :
    List Call → BitVec 32 → List UInt8 → Option (Int × List UInt8)
  | [], _, _ => none
  | .failed :: _, _, file => some (-1, file)
  | .moved n :: calls, written, file =>
    let res := min n (ask written)
    let file := file ++ (List.range res).map fun i => mem (written.toNat + i)
    let written := written + .ofNat 32 res
    if written = .ofNat 32 size then some (0, file) else runLoop ask size mem calls written file

/-- In `echo_sub_dir_big` and `echo_sub_dir_huge`, and in the setup of `rename_root_to_sub`,
what is left is asked for. -/
def askRest (size : ℕ) (written : BitVec 32) : ℕ := (BitVec.ofNat 32 size - written).toNat

def BLOCK_SIZE : ℕ := 512

/-- In `sub_dir_odirect` it is a block. -/
def askBlock (_ : BitVec 32) : ℕ := BLOCK_SIZE

def memory (mem : ℕ → UInt8) (n : ℕ) : List UInt8 := (List.range n).map mem

theorem memory_add (mem : ℕ → UInt8) (m n : ℕ) :
    memory mem (m + n) = memory mem m ++ (List.range n).map fun i => mem (m + i) := by
  rw [memory, List.range_add, List.map_append, List.map_map]
  rfl

theorem memory_length (mem : ℕ → UInt8) (n : ℕ) : (memory mem n).length = n := by
  rw [memory, List.length_map, List.length_range]

theorem memory_mono (mem : ℕ → UInt8) {m n : ℕ} (h : m ≤ n) : memory mem m <+: memory mem n := by
  obtain ⟨k, rfl⟩ := Nat.exists_eq_add_of_le h
  rw [memory_add]
  exact List.prefix_append _ _

/-- Asked for the rest, `write` leaves the text, or a part of it if a call fails. -/
theorem runLoop_askRest {size : ℕ} (hsize : size < 2 ^ 32) {mem : ℕ → UInt8} {calls : List Call}
    {written : BitVec 32} (hlt : written.toNat < size) {ret : Int} {file : List UInt8}
    (h : runLoop (askRest size) size mem calls written (memory mem written.toNat) =
      some (ret, file)) :
    ret = 0 ∧ file = memory mem size ∨
      ret = -1 ∧ .failed ∈ calls ∧ ∃ n < size, file = memory mem n := by
  induction calls generalizing written with
  | nil => cases h
  | cons call calls ih =>
    cases call with
    | failed =>
      cases h
      exact .inr ⟨rfl, List.mem_cons_self, written.toNat, hlt, rfl⟩
    | moved n =>
      have hask : askRest size written = size - written.toNat := by
        unfold askRest
        rw [BitVec.toNat_sub_of_le, BitVec.toNat_ofNat, Nat.mod_eq_of_lt hsize]
        rw [BitVec.le_def, BitVec.toNat_ofNat, Nat.mod_eq_of_lt hsize]
        exact hlt.le
      simp only [runLoop, hask] at h
      obtain ⟨res, hres⟩ : ∃ res, min n (size - written.toNat) = res := ⟨_, rfl⟩
      rw [hres, ← memory_add] at h
      have hsum : (written + BitVec.ofNat 32 res).toNat = written.toNat + res := by
        rw [BitVec.toNat_add, BitVec.toNat_ofNat, Nat.mod_eq_of_lt (show res < 2 ^ 32 by omega)]
        exact Nat.mod_eq_of_lt (by omega)
      rw [← hsum] at h
      split_ifs at h with hdone
      · cases h
        rw [hdone, BitVec.toNat_ofNat, Nat.mod_eq_of_lt hsize]
        exact .inl ⟨rfl, rfl⟩
      · have hne : (written + BitVec.ofNat 32 res).toNat ≠ size := by
          intro heq
          apply hdone
          rw [← heq, BitVec.ofNat_toNat, BitVec.setWidth_eq]
        rcases ih (by omega) h with hall | ⟨hret, hfailed, hpart⟩
        · exact .inl hall
        · exact .inr ⟨hret, List.mem_cons_of_mem _ hfailed, hpart⟩

/-- However much is asked for, when the count is right the file begins with the text. -/
theorem runLoop_begins {ask : BitVec 32 → ℕ} {size : ℕ} (hsize : size < 2 ^ 32)
    {mem : ℕ → UInt8} {calls : List Call} {written : BitVec 32} {start file : List UInt8}
    (hstart : start = memory mem written.toNat ∨ memory mem size <+: start)
    (h : runLoop ask size mem calls written start = some (0, file)) : memory mem size <+: file := by
  induction calls generalizing written start with
  | nil => cases h
  | cons call calls ih =>
    cases call with
    | failed => cases h
    | moved n =>
      simp only [runLoop] at h
      obtain ⟨res, hres⟩ : ∃ res, min n (ask written) = res := ⟨_, rfl⟩
      rw [hres] at h
      have hnext : start ++ (List.range res).map (fun i => mem (written.toNat + i)) =
            memory mem (written + BitVec.ofNat 32 res).toNat ∨
          memory mem size <+: start ++ (List.range res).map fun i => mem (written.toNat + i) := by
        rcases hstart with rfl | hbegins
        · rw [← memory_add]
          by_cases hle : size ≤ written.toNat + res
          · exact .inr (memory_mono mem hle)
          · left
            rw [BitVec.toNat_add, BitVec.toNat_ofNat, Nat.mod_eq_of_lt (show res < 2 ^ 32 by omega),
              Nat.mod_eq_of_lt (by omega)]
        · exact .inr (hbegins.trans (List.prefix_append _ _))
      split_ifs at h with hdone
      · cases h
        rcases hnext with heq | hbegins
        · rw [heq, hdone, BitVec.toNat_ofNat, Nat.mod_eq_of_lt hsize]
        · exact hbegins
      · exact ih hnext h

/-- The loop in `run` of `echo_sub_dir`, on the text. `written` is unsigned, so what a failed
call returns is a number of bytes as well, from which the text is left behind. -/
def echoLoop (text : List UInt8) :
    List Call → BitVec 32 → List UInt8 → Except Fault (Int × List UInt8)
  | [], written, file =>
    if written = .ofNat 32 text.length then .ok (0, file)
    else if text.length < written.toNat then .error .overrun
    else .error .waiting
  | call :: calls, written, file =>
    if written = .ofNat 32 text.length then .ok (0, file)
    else if text.length < written.toNat then .error .overrun
    else match call with
      | .failed => echoLoop text calls (-1) file
      | .moved n =>
        let res := min n (text.length - written.toNat)
        echoLoop text calls (.ofNat 32 res) (file ++ (text.drop written.toNat).take res)

section Echo

variable {text : List UInt8}

/-- After a call that fails the next one reads outside of the text. -/
theorem echoLoop_failed (htext : text.length < 2 ^ 32 - 1) (calls : List Call)
    (file : List UInt8) : echoLoop text calls (-1) file = .error .overrun := by
  have hlen : (BitVec.ofNat 32 text.length).toNat = text.length := by
    rw [BitVec.toNat_ofNat, Nat.mod_eq_of_lt (by omega)]
  have hone : (-1 : BitVec 32).toNat = 2 ^ 32 - 1 := by decide
  have hne : (-1 : BitVec 32) ≠ .ofNat 32 text.length := by
    intro heq
    rw [heq, hlen] at hone
    omega
  have hlt : text.length < (-1 : BitVec 32).toNat := by rwa [hone]
  cases calls with
  | nil => exact (if_neg hne).trans (if_pos hlt)
  | cons call calls => exact (if_neg hne).trans (if_pos hlt)

/-- What the calls write with `written` set before: each starts in the text where the number
points that the one before it has returned. -/
def echoed (text : List UInt8) : List Call → ℕ → List UInt8
  | [], _ => []
  | .failed :: _, _ => []
  | .moved n :: calls, written =>
    let res := min n (text.length - written)
    (text.drop written).take res ++ echoed text calls res

theorem echoed_eq_nil_iff {made : List Call} {written : ℕ} (hlt : written < text.length)
    (hfailed : .failed ∉ made) : echoed text made written = [] ↔ ∀ c ∈ made, c = .moved 0 := by
  induction made generalizing written with
  | nil => simp [echoed]
  | cons call made ih =>
    obtain ⟨hcall, hmade⟩ := not_or.mp (mt List.mem_cons.mpr hfailed)
    cases call with
    | failed => exact absurd rfl hcall
    | moved n =>
      rw [echoed, List.append_eq_nil_iff, List.forall_mem_cons, Call.moved.injEq,
        ← List.length_eq_zero_iff, List.length_take, List.length_drop]
      rcases Nat.eq_zero_or_pos n with rfl | hpos
      · rw [Nat.zero_min, ih (Nat.zero_lt_of_lt hlt) hmade]
        simp
      · exact iff_of_false (fun h => by omega) fun h => by omega

/-- The loop is left with 0 and only after a call that writes the whole text, and what was
written before that is still in front of it. -/
theorem echoLoop_ok (htext : text.length < 2 ^ 32 - 1) {calls : List Call} {written : BitVec 32}
    {start file : List UInt8} {ret : Int}
    (h : echoLoop text calls written start = .ok (ret, file)) :
    ret = 0 ∧ (written = .ofNat 32 text.length ∧ file = start ∨
      ∃ made n rest, calls = made ++ .moved n :: rest ∧ .failed ∉ made ∧
        file = start ++ (echoed text made written.toNat ++ text)) := by
  have hlen : (BitVec.ofNat 32 text.length).toNat = text.length := by
    rw [BitVec.toNat_ofNat, Nat.mod_eq_of_lt (by omega)]
  induction calls generalizing written start with
  | nil =>
    unfold echoLoop at h
    split_ifs at h with hdone
    cases h
    exact ⟨rfl, .inl ⟨hdone, rfl⟩⟩
  | cons call calls ih =>
    unfold echoLoop at h
    split_ifs at h with hdone hoverrun
    · cases h
      exact ⟨rfl, .inl ⟨hdone, rfl⟩⟩
    · have hlt : written.toNat < text.length := by
        have hne : written.toNat ≠ text.length := by
          intro heq
          apply hdone
          rw [← heq, BitVec.ofNat_toNat, BitVec.setWidth_eq]
        omega
      cases call with
      | failed =>
        rw [echoLoop_failed htext] at h
        cases h
      | moved n =>
        dsimp only at h
        obtain ⟨res, hres⟩ : ∃ res, min n (text.length - written.toNat) = res := ⟨_, rfl⟩
        rw [hres] at h
        have hres' : (BitVec.ofNat 32 res).toNat = res := by
          rw [BitVec.toNat_ofNat, Nat.mod_eq_of_lt (by omega)]
        obtain ⟨hret, ⟨hfull, rfl⟩ | ⟨made, m, rest, rfl, hfailed, rfl⟩⟩ := ih h
        · -- the call has written the whole text
          have hall : res = text.length := by
            rw [← hres', hfull, hlen]
          have hzero : written.toNat = 0 := by omega
          refine ⟨hret, .inr ⟨[], n, calls, rfl, by simp, ?_⟩⟩
          rw [hzero, List.drop_zero, hall, List.take_length, echoed, List.nil_append]
        · refine ⟨hret, .inr ⟨.moved n :: made, m, rest, rfl, by simpa using hfailed, ?_⟩⟩
          rw [echoed, hres, hres', List.append_assoc, List.append_assoc]

end Echo

/-- `run` of `echo_sub_dir_big` and `echo_sub_dir_huge`, when the file is created. -/
def runEchoSubDirBig (text : List UInt8) (mem : ℕ → UInt8) (calls : List Call) :
    Option (Int × List UInt8) :=
  runLoop (askRest text.length) text.length mem calls 0 []

def runSubDirOdirect (text : List UInt8) (mem : ℕ → UInt8) (calls : List Call) :
    Option (Int × List UInt8) :=
  runLoop askBlock text.length mem calls 0 []

def runEchoSubDir (text : List UInt8) (calls : List Call) : Except Fault (Int × List UInt8) :=
  echoLoop text calls 0 []

/-- Without a crash the file that `run` has written is there, and the check can read it: the
calls of `read` move what they should, and one more is answered if the file is too short. -/
structure TestFile.Left (file : List UInt8) (size : ℕ) (f : TestFile) : Prop where
  content : f.content = file
  regular : ∃ mode, f.stat = .ok mode ∧ sIsreg mode = true ∧ 0o777 &&& mode = TEST_FILE_PERMS
  openOk : f.openOk = true
  callocOk : f.callocOk = true
  delivered : ∃ reads call, f.reads = reads ++ [call] ∧ Delivered reads size

theorem TestFile.Left.readable {file : List UInt8} {size : ℕ} {f : TestFile}
    (h : f.Left file size) : f.Readable size := by
  obtain ⟨reads, call, hreads, hdelivered⟩ := h.delivered
  exact ⟨h.openOk, h.callocOk, hreads ▸ delivered_append hdelivered [call]⟩

theorem TestFile.Left.intact_iff {file text : List UInt8} {f : TestFile}
    (h : f.Left file text.length) : f.Intact text ↔ text <+: file := by
  constructor
  · rintro ⟨⟨-, hdata⟩, -⟩
    rwa [h.content] at hdata
  · intro hdata
    exact ⟨⟨h.regular, h.content ▸ hdata⟩, h.readable⟩

/-- The check comes to an end. -/
theorem TestFile.Left.exists_checkFiles {file : List UInt8} {size : ℕ} {f : TestFile}
    (h : f.Left file size) (returns : Bool) (same : List UInt8 → Bool) :
    ∃ err, checkFiles (checkFile returns size same) [f] DataTestResult.kClean = some (0, err) := by
  obtain ⟨mode, hstat, hreg, hperms⟩ := h.regular
  obtain ⟨reads, call, hreads, hdelivered⟩ := h.delivered
  obtain ⟨x, hx⟩ := exists_readFile hdelivered call f.content
  have hcheck : checkFile returns size same f = some (judgeData size same none x) := by
    rw [checkFile, hstat]
    dsimp only
    rw [hreg, Bool.not_true, if_neg Bool.false_ne_true, if_neg (not_not.mpr hperms), checkData,
      h.openOk, Bool.not_true, if_neg Bool.false_ne_true, h.callocOk, if_pos rfl, hreads, hx,
      Option.map_some]
  rw [checkFiles, hcheck]
  generalize judgeData size same none x = judged
  obtain ⟨last, new⟩ := judged
  cases last
  · exact ⟨_, rfl⟩
  · exact ⟨_, rfl⟩

section Checks

variable {text : List UInt8} {calls : List Call} {file : List UInt8} {view : View}
  {beyond : UInt8}

/-- After calls of one byte each. -/
theorem runLoop_ones {size : ℕ} {mem : ℕ → UInt8} (n : ℕ) (calls : List Call) {written : BitVec 32}
    (hlt : written.toNat + n < size) (hsize : size < 2 ^ 32) :
    runLoop askBlock size mem (List.replicate n (.moved 1) ++ calls) written
        (memory mem written.toNat) =
      runLoop askBlock size mem calls (written + .ofNat 32 n) (memory mem (written.toNat + n)) := by
  induction n generalizing written with
  | zero => simp
  | succ n ih =>
    have hone : min 1 (askBlock written) = 1 := rfl
    have hsum : (written + BitVec.ofNat 32 1).toNat = written.toNat + 1 := by
      rw [BitVec.toNat_add, BitVec.toNat_ofNat]
      omega
    have hne : written + BitVec.ofNat 32 1 ≠ .ofNat 32 size := by
      intro heq
      have hnat := congrArg BitVec.toNat heq
      rw [hsum, BitVec.toNat_ofNat, Nat.mod_eq_of_lt hsize] at hnat
      omega
    rw [List.replicate_succ, List.cons_append]
    simp only [runLoop, hone]
    rw [if_neg hne, ← memory_add, ← hsum, ih (by omega), hsum, BitVec.add_assoc,
      ← BitVec.ofNat_add, Nat.add_comm 1 n, Nat.add_right_comm, Nat.add_assoc]

/-- For every text there are calls with which `sub_dir_odirect` fails behind it: its blocks do
not end with the text, and the file begins with it. -/
theorem subDirOdirect_fails_behind (htext : text.length < 2 ^ 32) (hne : text ≠ [])
    {mem : ℕ → UInt8} (hmem : memory mem text.length = text) :
    ∃ calls file, runSubDirOdirect text mem calls = some (-1, file) ∧ text <+: file := by
  obtain ⟨n, hn⟩ : ∃ n, text.length = n + 1 :=
    Nat.exists_eq_add_one_of_ne_zero (mt List.length_eq_zero_iff.mp hne)
  rw [hn] at hmem htext
  refine ⟨List.replicate n (.moved 1) ++ [.moved 2, .failed], memory mem (n + 2), ?_, ?_⟩
  · have htwo : min 2 (askBlock (BitVec.ofNat 32 n)) = 2 := rfl
    have hnat : (BitVec.ofNat 32 n).toNat = n := by
      rw [BitVec.toNat_ofNat, Nat.mod_eq_of_lt (by omega)]
    -- the last byte of the text is written together with the one behind it
    have hbehind : BitVec.ofNat 32 n + BitVec.ofNat 32 2 ≠ .ofNat 32 (n + 1) := by
      intro heq
      have heq := congrArg BitVec.toNat heq
      rw [← BitVec.ofNat_add, BitVec.toNat_ofNat, BitVec.toNat_ofNat] at heq
      omega
    have hzero : (0 : BitVec 32).toNat + n = n := Nat.zero_add n
    have hones : runLoop askBlock (n + 1) mem _ 0 (memory mem (0 : BitVec 32).toNat) = _ :=
      runLoop_ones n [.moved 2, .failed] (by omega) (by omega)
    rw [show (0 : BitVec 32) + .ofNat 32 n = .ofNat 32 n from BitVec.zero_add _, hzero] at hones
    rw [runSubDirOdirect, hn]
    refine hones.trans ?_
    simp only [runLoop, htwo, hnat]
    rw [if_neg hbehind, ← memory_add]
  · rw [← hmem]
    exact memory_mono mem (Nat.le_succ _)

/-- What a loop that counts returns tells what the check finds in the file that it leaves; but
a loop that asks for blocks can also fail behind the text. -/
theorem clean_after_run (htext : text.length < 2 ^ 32) (hne : text ≠ []) {mem : ℕ → UInt8}
    (hmem : memory mem text.length = text) {tc : TestCase} {res : Int}
    (hrun : (tc = .echoSubDirBig ∨ tc = .echoSubDirHuge) ∧
        runEchoSubDirBig text mem calls = some (res, file) ∨
      tc = .subDirOdirect ∧ runSubDirOdirect text mem calls = some (res, file))
    (hleft : (view (TEST_MNT ++ "/" ++ TEST_DIR ++ "/" ++ TEST_FILE ++ toString 0)).Left file
      text.length) :
    ∃ err, tc.checkTest text beyond view = some (0, err) ∧
      (res = 0 → err = DataTestResult.kClean) ∧
      (tc ≠ .subDirOdirect → err = DataTestResult.kClean → res = 0) ∧
      ∃ calls file, runSubDirOdirect text mem calls = some (-1, file) ∧ text <+: file := by
  obtain ⟨err, hcheck⟩ : ∃ err, tc.checkTest text beyond view = some (0, err) := by
    rcases hrun with ⟨rfl | rfl, -⟩ | ⟨rfl, -⟩
    · exact hleft.exists_checkFiles _ _
    · exact hleft.exists_checkFiles _ _
    · exact hleft.exists_checkFiles _ _
  have hclean : err = DataTestResult.kClean ↔ text <+: file := by
    rw [(TestCase.checkTest_clean_iff hcheck).1, ← hleft.intact_iff]
    rcases hrun with ⟨rfl | rfl, -⟩ | ⟨rfl, -⟩
    · exact Iff.rfl
    · exact Iff.rfl
    · exact Iff.rfl
  refine ⟨err, hcheck, ?_, ?_, subDirOdirect_fails_behind htext hne hmem⟩
  all_goals rw [hclean]
  · rintro rfl
    have hstart : ([] : List UInt8) = memory mem (0 : BitVec 32).toNat ∨
        memory mem text.length <+: [] := .inl rfl
    rw [← hmem]
    rcases hrun with ⟨-, hrun⟩ | ⟨-, hrun⟩
    · exact runLoop_begins htext hstart hrun
    · exact runLoop_begins htext hstart hrun
  · intro hblock hbegins
    rcases hrun with ⟨-, hrun⟩ | ⟨htc, -⟩
    · have hpos : (0 : BitVec 32).toNat < text.length := List.length_pos_iff.mpr hne
      rcases runLoop_askRest htext hpos hrun with ⟨hres, -⟩ |
        ⟨-, -, n, hlt, rfl⟩
      · exact hres
      · -- only a part of the text was written
        have hlen := hbegins.length_le
        rw [memory_length] at hlen
        omega
    · exact absurd htc hblock

/-- `run` of `echo_sub_dir` never reports a call that fails. When it ends the text is in the
file, and in front of it what the calls before the last one have written: the check is clean
if the file still begins with the text, and the byte behind the buffer is zero. -/
theorem echo_after_run (htext : text.length < 2 ^ 32 - 1) (hne : text ≠ []) {res : Int}
    (hrun : runEchoSubDir text calls = .ok (res, file))
    (hleft : (view (TEST_MNT ++ "/" ++ TEST_DIR ++ "/" ++ TEST_FILE)).Left file text.length) :
    res = 0 ∧ ∃ made n rest, calls = made ++ .moved n :: rest ∧ .failed ∉ made ∧
      file = echoed text made 0 ++ text ∧
      (echoed text made 0 = [] ↔ ∀ c ∈ made, c = .moved 0) ∧
      ∃ err, TestCase.echoSubDir.checkTest text beyond view = some (0, err) ∧
        (err = DataTestResult.kClean ↔ text <+: echoed text made 0 ++ text ∧ beyond = 0) := by
  obtain ⟨hres, ⟨hempty, -⟩ | ⟨made, n, rest, hcalls, hfailed, hfile⟩⟩ := echoLoop_ok htext hrun
  · have hlen := congrArg BitVec.toNat hempty
    rw [BitVec.toNat_ofNat, Nat.mod_eq_of_lt (by omega)] at hlen
    exact absurd (List.length_eq_zero_iff.mp hlen.symm) hne
  · have hfile : file = echoed text made 0 ++ text := hfile
    obtain ⟨err, hcheck⟩ : ∃ err,
        TestCase.echoSubDir.checkTest text beyond view = some (0, err) :=
      hleft.exists_checkFiles _ _
    refine ⟨hres, made, n, rest, hcalls, hfailed, hfile,
      echoed_eq_nil_iff (List.length_pos_iff.mpr hne) hfailed, err, hcheck, ?_⟩
    rw [(TestCase.checkTest_clean_iff hcheck).1, ← hfile]
    exact and_congr_left fun _ => hleft.intact_iff

end Checks

def writtenFile (file : List UInt8) : TestFile :=
  ⟨.ok 0o100777, true, true, [.moved 3, .moved 3], file⟩

theorem writtenFile_left (file : List UInt8) : (writtenFile file).Left file 3 where
  content := rfl
  regular := ⟨_, rfl, by decide, by decide⟩
  openOk := rfl
  callocOk := rfl
  delivered := ⟨[.moved 3], _, rfl, .inr ⟨by decide, .inl (by decide)⟩⟩

theorem clean_after_run_twoCalls : ∃ res file,
    runEchoSubDirBig [1, 2, 3] (fun i => .ofNat (i + 1)) [.moved 2, .moved 1] = some (res, file) ∧
    ∃ err, TestCase.echoSubDirBig.checkTest [1, 2, 3] 0 (fun _ => writtenFile file) =
        some (0, err) ∧
      (res = 0 → err = DataTestResult.kClean) ∧
      (TestCase.echoSubDirBig ≠ .subDirOdirect → err = DataTestResult.kClean → res = 0) ∧
      ∃ calls file, runSubDirOdirect [1, 2, 3] (fun i => .ofNat (i + 1)) calls = some (-1, file) ∧
        [1, 2, 3] <+: file := by
  have hrun : runEchoSubDirBig [1, 2, 3] (fun i => .ofNat (i + 1)) [.moved 2, .moved 1] =
      some (0, [1, 2, 3]) := by decide
  exact ⟨_, _, hrun, clean_after_run (by decide) (by decide) (by decide) (.inl ⟨.inl rfl, hrun⟩)
    (writtenFile_left _)⟩

/-- The first call takes one byte, so the text is written twice. -/
theorem echo_after_run_twice : ∃ res file,
    runEchoSubDir [1, 2, 3] [.moved 1, .moved 0, .moved 3] = .ok (res, file) ∧
    res = 0 ∧ ∃ made n rest, [.moved 1, .moved 0, .moved 3] = made ++ Call.moved n :: rest ∧
      .failed ∉ made ∧ file = echoed [1, 2, 3] made 0 ++ [1, 2, 3] ∧
      (echoed [1, 2, 3] made 0 = [] ↔ ∀ c ∈ made, c = .moved 0) ∧
      ∃ err, TestCase.echoSubDir.checkTest [1, 2, 3] 0 (fun _ => writtenFile file) = some (0, err) ∧
        (err = DataTestResult.kClean ↔
          [1, 2, 3] <+: echoed [1, 2, 3] made 0 ++ [1, 2, 3] ∧ (0 : UInt8) = 0) := by
  have hrun : runEchoSubDir [1, 2, 3] [.moved 1, .moved 0, .moved 3] = .ok (0, [1, 1, 2, 3]) := rfl
  exact ⟨_, _, hrun, echo_after_run (by decide) (by decide) hrun (writtenFile_left _)⟩

end CrashMonkey
