import CrashMonkey.Harness.SnapshotRoundTrip
import CrashMonkey.Permuter.Overlaps
import CrashMonkey.Permuter.Slots
import CrashMonkey.Permuter.Storage

namespace CrashMonkey
open Transfer

/-- The loop around `write` looks at the bytes that are left, and at no others. -/
theorem writeLoop_data_congr (capacity : ℕ) (calls : List WriteResult) (pos left : ℕ)
    {data data' : Option Payload} (img : ℕ → UInt8)
    (hdata : left ≠ 0 → (data = none ↔ data' = none))
    (hbytes : ∀ src src', data = some src → data' = some src' → ∀ i < left, src i = src' i) :
    writeLoop capacity calls pos left data img = writeLoop capacity calls pos left data' img := by
  induction calls generalizing pos left data data' img with
  | nil => rfl
  | cons call calls ih =>
    cases call with
    | failed => rfl
    | accepted n =>
      obtain rfl | hleft := eq_or_ne left 0
      · rfl
      · have hnone := hdata hleft
        cases data with
        | none => rw [hnone.mp rfl]
        | some src =>
          obtain ⟨src', rfl⟩ := Option.ne_none_iff_exists'.mp (mt hnone.mpr (by simp))
          have hsame := hbytes src src' rfl rfl
          simp only [writeLoop, if_neg hleft]
          rw [Image.overlay_inj.mpr fun i hi => hsame i (by omega)]
          split_ifs with hend hdone
          · rfl
          · rfl
          · apply ih
            · exact fun _ => by simp
            · intro s s' hs hs' i hi
              rw [← Option.some.inj hs, ← Option.some.inj hs']
              exact hsame _ (by omega)

theorem writeLoop_copied (capacity : ℕ) (calls : List WriteResult) (pos : ℕ)
    (w : DiskWrite Payload) (img : ℕ → UInt8) :
    writeLoop capacity calls pos w.metadata.size.toNat w.copied.data img =
      writeLoop capacity calls pos w.metadata.size.toNat w.data img := by
  unfold DiskWrite.copied diskWrite
  dsimp only
  apply writeLoop_data_congr
  · intro hleft
    rw [if_neg (mt (size_eq_zero_iff w.metadata).mp hleft), Option.map_eq_none_iff]
  · intro src src' hsrc hsrc' i hi
    rw [if_neg (mt (size_eq_zero_iff w.metadata).mp (by omega)), hsrc', Option.map_some,
      Option.some.injEq] at hsrc
    rw [← hsrc, memdup_apply src' hi]

/-- Copied operations are written like the ones they are copied from. -/
theorem testWriteData_copied (capacity : ℕ) (ws : List (DiskWrite Payload))
    (calls : List WriteResult) (img : ℕ → UInt8) :
    testWriteData capacity (ws.map DiskWrite.copied) calls img =
      testWriteData capacity ws calls img := by
  induction ws generalizing calls img with
  | nil => rfl
  | cons w ws ih =>
    have hloop := writeLoop_copied capacity calls w.byteAddr w img
    have hflag : w.copied.hasWriteFlag = w.hasWriteFlag := rfl
    have haddr : w.copied.byteAddr = w.byteAddr := rfl
    have hsize : w.copied.metadata = w.metadata := rfl
    rw [List.map_cons, testWriteData, testWriteData, hflag, haddr, hsize, hloop]
    split_ifs
    · exact ih calls img
    · rfl
    · cases writeLoop capacity calls w.byteAddr w.metadata.size.toNat w.data img with
      | none => rfl
      | some r =>
        obtain ⟨res, img', calls'⟩ := r
        cases res <;> simp only [ih]

def label (w : DiskWrite Payload) : DiskWrite (DiskWrite Payload) := ⟨w.metadata, some w⟩

/-- A label is only on operations of the size of its own. -/
def FitsLabel (o : DiskWrite (DiskWrite Payload)) : Prop :=
  ∀ w, o.data = some w → o.metadata.size = w.metadata.size

theorem fitsLabel_label (w : DiskWrite Payload) : FitsLabel (label w) := by
  intro v hv
  rw [Option.some.inj hv.symm]
  rfl

/-- Divided or not, an operation keeps its size in the epochs. -/
theorem fitsLabel_initDataVector (u : Uninit) (log : List (DiskWrite Payload)) :
    ∀ ep ∈ initDataVector u (log.map label), ∀ o ∈ ep.ops, FitsLabel o.op := by
  apply initDataVector_forall
  · intro o ho
    obtain ⟨w, -, rfl⟩ := List.mem_map.mp ho
    exact fitsLabel_label w
  · intro o _ h w hw
    rw [dataHalf_data] at hw
    rw [(dataHalf_range o).2, h w hw]
  · intro b o _ _ w hw
    rw [flagHalf_data] at hw
    cases hw

def original (label : Option (DiskWrite Payload)) : Option Payload := label.bind DiskWrite.data

def reloaded (label : Option (DiskWrite Payload)) : Option Payload :=
  label.bind fun w => w.copied.data

theorem map_label_original (log : List (DiskWrite Payload)) :
    (log.map label).map (DiskWrite.mapData original) = log := by
  rw [List.map_map]
  exact (List.map_congr_left fun w _ => rfl).trans (List.map_id log)

theorem map_label_reloaded (log : List (DiskWrite Payload)) :
    (log.map label).map (DiskWrite.mapData reloaded) = log.map DiskWrite.copied := by
  rw [List.map_map]
  exact List.map_congr_left fun w _ => rfl

theorem FitsLabel.mapData_reloaded {o : DiskWrite (DiskWrite Payload)} (h : FitsLabel o) :
    o.mapData reloaded = (o.mapData original).copied := by
  unfold DiskWrite.mapData DiskWrite.copied diskWrite reloaded original
  cases hdata : o.data with
  | none => simp
  | some w =>
    rw [Option.bind_some, Option.bind_some, h w hdata]
    rfl

/-- A permuter with the copied log draws the copies of the crash states. -/
theorem generateCrashState_copied (u : Uninit) {log : List (DiskWrite Payload)} (hlog : log ≠ [])
    (completed : Finset (List ℕ)) (r : Stream' ℕ) :
    generateCrashState (genOneState (initDataVector u (log.map DiskWrite.copied))) completed r =
      (generateCrashState (genOneState (initDataVector u log)) completed r).map fun x =>
        ((x.1.1, x.1.2.1.map DiskWrite.copied, x.1.2.2), x.2) := by
  have hne := initDataVector_ops_ne_nil u (log.map label)
  have hnil : initDataVector u (log.map label) ≠ [] := by
    rw [Ne, initDataVector_eq_nil_iff, List.map_eq_nil_iff]
    exact hlog
  have horiginal := initDataVector_mapData original rfl u (log.map label)
  have hreloaded := initDataVector_mapData reloaded rfl u (log.map label)
  rw [map_label_original] at horiginal
  rw [map_label_reloaded] at hreloaded
  rw [horiginal, hreloaded, generateCrashState_mapData original hne hnil,
    generateCrashState_mapData reloaded hne hnil, Option.map_map]
  apply Option.map_congr
  intro x hx
  obtain ⟨⟨ret, R, done⟩, r'⟩ := x
  obtain ⟨res, hform, rfl, -⟩ := generateCrashState_cases hne hnil hx
  simp only [Function.comp_apply, List.map_map, Prod.mk.injEq, and_true, true_and]
  apply List.map_congr_left
  intro o ho
  obtain ⟨ep, hep, ho⟩ := hform.mem ho
  exact (fitsLabel_initDataVector u log ep hep o ho).mapData_reloaded

theorem crashStates_copied (u : Uninit) {log : List (DiskWrite Payload)} (hlog : log ≠ [])
    (n : ℕ) (completed : Finset (List ℕ)) (r : Stream' ℕ) :
    Permuter.crashStates genOneState n
        ⟨initDataVector u (log.map DiskWrite.copied), completed⟩ r =
      (Permuter.crashStates genOneState n ⟨initDataVector u log, completed⟩ r).map fun x =>
        ((x.1.1.map fun y => (y.1, y.2.map DiskWrite.copied),
          ⟨initDataVector u (log.map DiskWrite.copied), x.1.2.completed⟩), x.2) := by
  induction n generalizing completed r with
  | zero => rfl
  | succ n ih =>
    rw [Permuter.crashStates_succ, Permuter.crashStates_succ, generateCrashState_copied u hlog]
    cases generateCrashState (genOneState (initDataVector u log)) completed r with
    | none => rfl
    | some x =>
      rw [Option.map_some, Option.bind_some, Option.bind_some, ih, Option.map_map, Option.map_map]
      rfl

def Written (ws : List (DiskWrite Payload)) (a : ℕ) : Prop :=
  ∃ w ∈ ws, w.hasWriteFlag = true ∧ w.byteAddr ≤ a ∧ a < w.byteAddr + w.metadata.size.toNat

theorem replayOp_apply (w : DiskWrite Payload) (img img' : ℕ → UInt8) (a : ℕ) :
    replayOp img w a = replayOp img' w a ↔ Written [w] a ∨ img a = img' a := by
  have hone : Written [w] a ↔ w.hasWriteFlag = true ∧ w.byteAddr ≤ a ∧
      a < w.byteAddr + w.metadata.size.toNat := by simp [Written]
  rw [hone]
  unfold replayOp
  split_ifs with hw
  · by_cases ha : w.byteAddr ≤ a ∧ a < w.byteAddr + w.metadata.size.toNat
    · simp [Image.overlay_of_mem ha, hw, ha]
    · simp [Image.overlay_of_not_mem ha, ha]
  · simp [hw]

/-- After a replay two disks agree where they did, and where something is written. -/
theorem foldl_replayOp_apply (ws : List (DiskWrite Payload)) (img img' : ℕ → UInt8) (a : ℕ) :
    ws.foldl replayOp img a = ws.foldl replayOp img' a ↔ Written ws a ∨ img a = img' a := by
  induction ws generalizing img img' with
  | nil => simp [Written]
  | cons w ws ih =>
    have hcons : Written (w :: ws) a ↔ Written ws a ∨ Written [w] a := by
      simp [Written, or_comm]
    rw [List.foldl_cons, List.foldl_cons, ih, replayOp_apply, hcons, or_assoc]

/-- A crash state of the run that saved, and the one that the other run tests instead. On
the disks of the two runs the writes have the same results, and what differs in the end
are the bytes that were not zero, not saved and are not written. -/
structure TestedAlike (diskSize : ℕ) (content content' : ℕ → UInt8)
    (x y : Bool × List (DiskWrite Payload)) : Prop where
  ret : y.1 = x.1
  results : ∀ capacity calls,
    (testWriteData capacity y.2 calls content').map (fun r => (r.1, r.2.2)) =
      (testWriteData capacity x.2 calls content).map fun r => (r.1, r.2.2)
  bytes : ∀ capacity calls calls' img img' rest rest',
    testWriteData capacity x.2 calls content = some (true, img, rest) →
    testWriteData capacity y.2 calls' content' = some (true, img', rest') →
    ∀ a, img' a = img a ↔ a < diskSize ∨ content a = 0 ∨ Written x.2 a

/-- An operation that writes nothing is as good as another one. -/
theorem testWriteData_sameWrite (capacity : ℕ) {ws ws' : List (DiskWrite Payload)}
    (h : List.Forall₂ SameWrite ws ws') (calls : List WriteResult) (img : ℕ → UInt8) :
    testWriteData capacity ws calls img = testWriteData capacity ws' calls img := by
  induction h generalizing calls img with
  | nil => rfl
  | cons hw _ ih =>
    rcases hw with rfl | ⟨hnot, hnot'⟩
    · simp only [testWriteData, ih]
    · simp only [testWriteData, hnot, hnot', if_true, ih]

theorem testedAlike_copied {diskSize : ℕ} {content content' : ℕ → UInt8}
    (hcontent : ∀ a, content' a = if a < diskSize then content a else 0)
    {x y : Bool × List (DiskWrite Payload)} (hret : y.1 = x.1)
    (hops : List.Forall₂ SameWrite (x.2.map DiskWrite.copied) y.2) :
    TestedAlike diskSize content content' x y where
  ret := hret
  results capacity calls := by
    rw [← testWriteData_sameWrite capacity hops, testWriteData_copied]
    exact testWriteData_congr capacity x.2 calls content' content
  bytes capacity calls calls' img img' rest rest' h h' a := by
    rw [← testWriteData_sameWrite capacity hops, testWriteData_copied] at h'
    obtain ⟨rfl, -⟩ := testWriteData_true h
    obtain ⟨rfl, -⟩ := testWriteData_true h'
    rw [foldl_replayOp_apply, hcontent]
    split_ifs with ha
    · simp [ha]
    · simp [ha, eq_comm, or_comm]

theorem QuietStorage.copied {u : Uninit} {log : List (DiskWrite Payload)}
    (h : QuietStorage u log) : QuietStorage u (log.map DiskWrite.copied) := by
  intro b w hw hs
  rw [List.getElem?_map] at hw
  obtain ⟨v, hv, rfl⟩ := Option.map_eq_some_iff.mp hw
  exact h b v hv hs

theorem bytes_ne_none_of_save {log : List (DiskWrite Payload)} {profile fs : List UInt8}
    (h : log.foldlM serialize fs = some profile) : ∀ dw ∈ log, dw.bytes ≠ none := by
  induction log generalizing fs with
  | nil => simp
  | cons dw log ih =>
    obtain ⟨fs', hfirst, hrest⟩ := Option.bind_eq_some_iff.mp h
    apply List.forall_mem_cons.mpr ⟨?_, ih hrest⟩
    obtain ⟨data, hdata, -⟩ := Option.bind_eq_some_iff.mp hfirst
    rw [hdata]
    simp

/-- The run that loads the files of another one draws its crash states and gets its results
from them, with a disk that is different behind the first `device_size` bytes. The permuters
of the two have storage of their own, where no write was left. -/
theorem testedAlike_of_reload {diskSize : ℕ} (hsize : 0 < diskSize ∧ diskSize < 2 ^ 31)
    {content : ℕ → UInt8} {log : List (DiskWrite Payload)} (hlog : log ≠ [])
    {stack : ℕ → UInt8} {reads : List Call} (hreads : Moving reads)
    {profile snapshot : List UInt8} {t : Tester}
    (hprofile : logProfileSave log = some (SUCCESS, profile))
    (hsnapshot : logSnapshotSave stack reads true (recorded diskSize content) =
      .ok (SUCCESS, some snapshot, t))
    {x : LoadCalls} (hfile : x.logFile = some snapshot) (hopen : x.openOk = true)
    (hwrites : Moving x.writes) (hlen : diskSize ≤ x.writes.length)
    (locals : ℕ → DeserializeLocals) :
    ∃ log' t', logProfileLoad locals (some profile) [] = some (SUCCESS, log') ∧
      logSnapshotLoad x (fresh diskSize) = .ok (some (SUCCESS, t')) ∧
      ∀ u u', QuietStorage u log → QuietStorage u' log' → ∀ n r, ∃ xs xs' p p' r',
        ((Permuter.new Payload).initDataVector u log).crashStates genOneState n r =
          some ((xs, p), r') ∧
        ((Permuter.new Payload).initDataVector u' log').crashStates genOneState n r =
          some ((xs', p'), r') ∧
        List.Forall₂ (TestedAlike diskSize content t'.disk.content) xs xs' := by
  obtain ⟨file, hsave, -⟩ := Option.bind_eq_some_iff.mp hprofile
  have hbytes := bytes_ne_none_of_save hsave
  rw [logProfileSave_eq hbytes, Option.some.injEq, Prod.mk.injEq] at hprofile
  rw [recorded_eq] at hsnapshot
  obtain ⟨hle, heq⟩ := logSnapshotSave_ok hreads rfl hsize.1 hsnapshot
  rw [Prod.mk.injEq, Prod.mk.injEq, Option.some.injEq] at heq
  obtain ⟨t', hload, hcontent⟩ := exists_load hsize (by simpa using hle) content hopen hwrites hlen
  have hsame : { x with logFile := some (slice content 0 diskSize) } = x := by
    cases x
    simp only at hfile
    rw [hfile, heq.2.1]
  rw [hsame] at hload
  refine ⟨log.map DiskWrite.copied, t', ?_, hload, fun u u' hquiet hquiet' n r => ?_⟩
  · rw [← hprofile.2]
    exact logProfileLoad_records hbytes locals
  · have hne := initDataVector_ops_ne_nil u log
    have hnil := mt (initDataVector_eq_nil_iff u log).mp hlog
    obtain ⟨⟨⟨xs, p⟩, r'⟩, hrun⟩ := exists_crashStates hne hnil n ∅ r
    have hcopied := crashStates_copied u hlog n ∅ r
    rw [hrun, Option.map_some] at hcopied
    obtain ⟨xs', p', hrun', hxs'⟩ :=
      crashStates_storage (mt List.map_eq_nil_iff.mp hlog) hquiet.copied hquiet' hcopied
    refine ⟨xs, xs', p, p', r', hrun, hrun', ?_⟩
    rw [List.forall₂_map_left_iff] at hxs'
    exact hxs'.imp fun x y hy => testedAlike_copied hcontent hy.1.symm hy.2

def flushThenWrite : List (DiskWrite Payload) :=
  [⟨⟨0, reqWrite ||| reqFlush, 0, 2⟩, some fun _ => 7⟩, ⟨⟨0, reqWrite, 0, 2⟩, some fun _ => 8⟩]

def staleStorage : Uninit := { (default : Uninit) with flagHalf := fun _ => ⟨3, reqFua, 9, 512⟩ }

/-- A disk of ones, and storage that has changed between the two runs. -/
theorem testedAlike_of_reload_ones : ∃ profile snapshot t log' t',
    logProfileSave flushThenWrite = some (SUCCESS, profile) ∧
    logSnapshotSave (fun _ => 0) (List.replicate 5 (.moved 1)) true (recorded 4 fun _ => 1) =
      .ok (SUCCESS, some snapshot, t) ∧
    logProfileLoad (fun _ => ⟨default, 0⟩) (some profile) [] = some (SUCCESS, log') ∧
    logSnapshotLoad ⟨true, some snapshot, true, List.replicate 4 (.moved 1), true⟩ (fresh 4) =
      .ok (some (SUCCESS, t')) ∧
    ∀ n r, ∃ xs xs' p p' r',
      ((Permuter.new Payload).initDataVector default flushThenWrite).crashStates genOneState n r =
        some ((xs, p), r') ∧
      ((Permuter.new Payload).initDataVector staleStorage log').crashStates genOneState n r =
        some ((xs', p'), r') ∧
      List.Forall₂ (TestedAlike 4 (fun _ => 1) t'.disk.content) xs xs' := by
  have hmoving (n : ℕ) : Moving (List.replicate n (.moved 1)) := fun call hcall =>
    ⟨0, List.eq_of_mem_replicate hcall⟩
  have hbytes : ∀ dw ∈ flushThenWrite, dw.bytes ≠ none := by
    simp [flushThenWrite, DiskWrite.bytes]
  obtain ⟨bytesRead, hread⟩ := exists_readClone (hmoving 5) (t := recorded 4 fun _ => 1)
    (by rw [recorded_eq]) (by rw [recorded_eq]; decide)
    (by rw [recorded_eq, Disk.sizeOf_eq (by decide)]; decide) (by rw [recorded_eq]; decide)
  obtain ⟨-, rfl⟩ := readClone_ok (hmoving 5) (by rw [recorded_eq]) (by rw [recorded_eq]; decide)
    hread
  have hsave := logSnapshotSave_eq (fun _ => 0) hread
  obtain ⟨log', t', hlog', hload, htested⟩ := testedAlike_of_reload (by decide)
    (List.cons_ne_nil _ _) (hmoving 5) (logProfileSave_eq hbytes) hsave
    (x := ⟨true, some _, true, List.replicate 4 (.moved 1), true⟩) rfl rfl (hmoving 4)
    (by decide) fun _ => ⟨default, 0⟩
  have hquiet : QuietStorage default flushThenWrite := fun _ _ _ _ =>
    (by decide : hasFlag (default : DiskWriteOpMeta).biRw reqWrite = false)
  have hstale : QuietStorage staleStorage log' := fun _ _ _ _ =>
    (by decide : hasFlag reqFua reqWrite = false)
  exact ⟨_, _, _, log', t', logProfileSave_eq hbytes, hsave, hlog', hload,
    htested default staleStorage hquiet hstale⟩

end CrashMonkey
