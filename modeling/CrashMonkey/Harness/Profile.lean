import CrashMonkey.Harness.WrapperLog
import CrashMonkey.Lib.Numeral
import CrashMonkey.Lib.Transition

namespace CrashMonkey

def LOG_CLONE_ERR : Int := -5

/-- The bytes of an operation; none if they should be there and are not. -/
def DiskWrite.bytes (dw : DiskWrite Payload) : Option (List UInt8) :=
  if dw.metadata.size = 0 then some []
  else dw.data.map fun src => (List.range dw.metadata.size.toNat).map src

def headerText (m : DiskWriteOpMeta) : List UInt8 :=
  IStream.hexText m.biFlags.toNat ++ 32 :: (IStream.hexText m.biRw.toNat ++
    32 :: (IStream.hexText m.writeSector.toNat ++ 32 :: (IStream.hexText m.size.toNat ++ [32])))

/-- `disk_write::serialize` on a file that holds `fs`; `none` reads from a null pointer. -/
def serialize (fs : List UInt8) (dw : DiskWrite Payload) : Option (List UInt8) := do
  let data ← dw.bytes
  return fs ++ (headerText dw.metadata ++ data ++ [10])

def logProfileSave (logData : List (DiskWrite Payload)) : Option (Int × List UInt8) := do
  let log ← logData.foldlM serialize []
  return (SUCCESS, log)

/-- What the locals of `deserialize` hold before they are assigned. -/
structure DeserializeLocals where
  metadata : DiskWriteOpMeta
  nl : UInt8

def readMeta (m : DiskWriteOpMeta) (is : IStream) : DiskWriteOpMeta × IStream :=
  let (biFlags, is) := is.extractHex m.biFlags
  let (biRw, is) := is.extractHex m.biRw
  let (writeSector, is) := is.extractHex m.writeSector
  let (size, is) := is.extractHex m.size
  (⟨biFlags, biRw, writeSector, size⟩, is)

/-- `disk_write::deserialize`; `none` is a failed assertion. -/
def deserialize (u : DeserializeLocals) (is : IStream) : Option (DiskWrite Payload × IStream) := do
  let (m, is) := readMeta u.metadata is
  let (nl, is) := is.get u.nl
  guard (nl = 32)
  let (data, is) := is.read m.size.toNat
  let (nl, is) := is.get nl
  guard (nl = 10)
  return (diskWrite m (some fun i => data.getD i 0), is)

theorem rest_readMeta_le (m : DiskWriteOpMeta) (is : IStream) :
    (readMeta m is).2.rest.length ≤ is.rest.length := by
  unfold readMeta
  refine le_trans (IStream.rest_extractHex_le _ _) ?_
  refine le_trans (IStream.rest_extractHex_le _ _) ?_
  refine le_trans (IStream.rest_extractHex_le _ _) ?_
  exact IStream.rest_extractHex_le _ _

/-- What holds when both assertions do. -/
theorem deserialize_eq_some_iff {u : DeserializeLocals} {is : IStream}
    {x : DiskWrite Payload × IStream} :
    deserialize u is = some x ↔
      let meta₁ := readMeta u.metadata is
      let nl₁ := meta₁.2.get u.nl
      let data := nl₁.2.read meta₁.1.size.toNat
      let nl₂ := data.2.get nl₁.1
      nl₁.1 = 32 ∧ nl₂.1 = 10 ∧
        x = (diskWrite meta₁.1 (some fun i => data.1.getD i 0), nl₂.2) := by
  unfold deserialize
  by_cases hspace : ((readMeta u.metadata is).2.get u.nl).1 = 32
  · simp only [hspace, guard_true]
    by_cases hnl : ((((readMeta u.metadata is).2.get u.nl).2.read
        (readMeta u.metadata is).1.size.toNat).2.get 32).1 = 10
    · simp [hnl, guard, eq_comm]
    · simp [hnl, guard]
  · simp [hspace, guard]

/-- An operation takes at least the line end from the file. -/
theorem deserialize_shorter {u : DeserializeLocals} {is is' : IStream} {dw : DiskWrite Payload}
    (h : deserialize u is = some (dw, is')) : is'.rest.length < is.rest.length := by
  obtain ⟨hspace, hnl, hx⟩ := deserialize_eq_some_iff.mp h
  obtain ⟨-, rfl⟩ := Prod.mk.injEq _ _ _ _ ▸ hx
  have hstored := IStream.rest_get_lt (hnl.trans_ne (by rw [hspace]; decide))
  calc
    _ < _ := hstored
    _ ≤ _ := IStream.rest_read_le _ _
    _ ≤ _ := IStream.rest_get_le _ _
    _ ≤ is.rest.length := rest_readMeta_le _ _

/-- The loop of `log_profile_load`; `locals` is what each call of `deserialize` finds on
the stack. -/
def loadLoop (locals : ℕ → DeserializeLocals) (log : IStream) (logData : List (DiskWrite Payload)) :
    Option (List (DiskWrite Payload) × IStream) :=
  match _hpeek : log.peek with
  | (none, log) => some (logData, log)
  | (some _, log') =>
    match _hdw : deserialize (locals logData.length) log' with
    | none => none
    | some (dw, log'') => loadLoop locals log'' (logData ++ [dw])
termination_by log.rest.length
decreasing_by
  have hpeek := log.peek_rest
  rw [_hpeek] at hpeek
  rw [← hpeek]
  exact deserialize_shorter _hdw

def logProfileLoad (locals : ℕ → DeserializeLocals) (logFile : Option (List UInt8))
    (logData : List (DiskWrite Payload)) : Option (Int × List (DiskWrite Payload)) := do
  let (logData, log) ← loadLoop locals (IStream.ofFile logFile) logData
  return (if log.failbit then LOG_CLONE_ERR else SUCCESS, logData)

theorem readMeta_headerText (m old : DiskWriteOpMeta) (tail : List UInt8) :
    readMeta old ⟨headerText m ++ tail, false, false⟩ = (m, ⟨32 :: tail, false, false⟩) := by
  have hspaces : ∀ b ∈ [(32 : UInt8)], IStream.isSpace b = true := by simp [IStream.isSpace]
  have hfirst := IStream.extractHex_hexText old.biFlags m.biFlags [] (by simp)
  unfold readMeta headerText
  simp only [List.append_assoc, List.cons_append, List.nil_append] at hfirst ⊢
  rw [hfirst]
  -- the other fields begin with the space behind the one before
  have hnext {w : ℕ} (v x : BitVec w) (rest : List UInt8) :
      IStream.extractHex v ⟨32 :: (IStream.hexText x.toNat ++ 32 :: rest), false, false⟩ =
        (x, ⟨32 :: rest, false, false⟩) := by
    simpa using IStream.extractHex_hexText v x [32] hspaces rest
  simp only [hnext]

theorem deserialize_record (u : DeserializeLocals) (m : DiskWriteOpMeta) {data : List UInt8}
    (hdata : data.length = m.size.toNat) (rest : List UInt8) :
    deserialize u ⟨headerText m ++ data ++ 10 :: rest, false, false⟩ =
      some (diskWrite m (some fun i => data.getD i 0), ⟨rest, false, false⟩) := by
  rw [deserialize_eq_some_iff, List.append_assoc, readMeta_headerText]
  have hread : IStream.read m.size.toNat ⟨data ++ 10 :: rest, false, false⟩ =
      (data, ⟨10 :: rest, false, false⟩) := by
    unfold IStream.read
    rw [if_neg (by simp [IStream.good]), if_neg (by simp [hdata]), ← hdata, List.take_left,
      List.drop_left]
  simp [IStream.get, IStream.good, hread]

def DiskWrite.copied (dw : DiskWrite Payload) : DiskWrite Payload := diskWrite dw.metadata dw.data

theorem DiskWrite.bytes_length {dw : DiskWrite Payload} {data : List UInt8}
    (h : dw.bytes = some data) : data.length = dw.metadata.size.toNat := by
  unfold DiskWrite.bytes at h
  split_ifs at h with hsize
  · rw [← Option.some.inj h, hsize]
    rfl
  · obtain ⟨src, -, rfl⟩ := Option.map_eq_some_iff.mp h
    rw [List.length_map, List.length_range]

/-- The bytes of an operation make a copy of it. -/
theorem diskWrite_bytes {dw : DiskWrite Payload} {data : List UInt8} (h : dw.bytes = some data) :
    diskWrite dw.metadata (some fun i => data.getD i 0) = dw.copied := by
  unfold DiskWrite.copied diskWrite
  unfold DiskWrite.bytes at h
  split_ifs at h ⊢ with hsize
  · rfl
  · obtain ⟨src, hsrc, rfl⟩ := Option.map_eq_some_iff.mp h
    rw [hsrc, Option.map_some, Option.map_some]
    congr 2
    apply Image.overlay_inj.mpr
    intro i hi
    simp [hi]

theorem DiskWrite.bytes_copied (dw : DiskWrite Payload) : dw.copied.bytes = dw.bytes := by
  unfold DiskWrite.bytes DiskWrite.copied diskWrite
  dsimp only
  split_ifs with hsize
  · rfl
  · rw [Option.map_map]
    congr 1
    funext src
    apply List.map_congr_left
    intro i hi
    exact memdup_apply src (List.mem_range.mp hi)

def record (dw : DiskWrite Payload) : List UInt8 :=
  headerText dw.metadata ++ dw.bytes.getD [] ++ [10]

theorem foldlM_serialize {log : List (DiskWrite Payload)} (hlog : ∀ dw ∈ log, dw.bytes ≠ none)
    (fs : List UInt8) : log.foldlM serialize fs = some (fs ++ (log.map record).flatten) := by
  induction log generalizing fs with
  | nil => simp
  | cons dw log ih =>
    obtain ⟨hdw, hlog⟩ := List.forall_mem_cons.mp hlog
    obtain ⟨data, hdata⟩ := Option.ne_none_iff_exists'.mp hdw
    have hfirst : serialize fs dw = some (fs ++ record dw) := by
      rw [serialize, record, hdata]
      rfl
    rw [List.foldlM_cons, hfirst, Option.bind_eq_bind, Option.bind_some, ih hlog, List.map_cons,
      List.flatten_cons, List.append_assoc]

theorem record_ne_nil (dw : DiskWrite Payload) : record dw ≠ [] := by
  unfold record
  simp

theorem deserialize_append {dw : DiskWrite Payload} (hdw : dw.bytes ≠ none) (u : DeserializeLocals)
    (rest : List UInt8) :
    deserialize u ⟨record dw ++ rest, false, false⟩ =
      some (dw.copied, ⟨rest, false, false⟩) := by
  obtain ⟨data, hdata⟩ := Option.ne_none_iff_exists'.mp hdw
  have hrecord : record dw ++ rest = headerText dw.metadata ++ data ++ 10 :: rest := by
    rw [record, hdata, Option.getD_some, List.append_assoc _ [10], List.singleton_append]
  rw [hrecord, deserialize_record u _ (DiskWrite.bytes_length hdata), diskWrite_bytes hdata]

/-- At the end of the file the loop is left, and the stream has not failed. -/
theorem loadLoop_nil (locals : ℕ → DeserializeLocals) (logData : List (DiskWrite Payload)) :
    loadLoop locals ⟨[], false, false⟩ logData = some (logData, ⟨[], true, false⟩) := by
  have hpeek : IStream.peek ⟨[], false, false⟩ = (none, ⟨[], true, false⟩) := rfl
  rw [loadLoop]
  split
  · rename_i h
    rw [hpeek] at h
    cases h
    rfl
  · rename_i h
    rw [hpeek] at h
    cases h

/-- One turn of the loop on a file that goes on. -/
theorem loadLoop_turn {bytes : List UInt8} (hne : bytes ≠ []) (locals : ℕ → DeserializeLocals)
    (logData : List (DiskWrite Payload)) :
    loadLoop locals ⟨bytes, false, false⟩ logData =
      match deserialize (locals logData.length) ⟨bytes, false, false⟩ with
      | none => none
      | some (dw, log) => loadLoop locals log (logData ++ [dw]) := by
  obtain ⟨b, rest, rfl⟩ := List.exists_cons_of_ne_nil hne
  have hpeek : IStream.peek ⟨b :: rest, false, false⟩ = (some b, ⟨b :: rest, false, false⟩) := rfl
  rw [loadLoop]
  split
  · rename_i h
    rw [hpeek] at h
    cases h
  · rename_i h
    rw [hpeek] at h
    cases h
    cases deserialize (locals logData.length) ⟨b :: rest, false, false⟩ <;> rfl

theorem loadLoop_cons {dw : DiskWrite Payload} (hdw : dw.bytes ≠ none)
    (locals : ℕ → DeserializeLocals) (rest : List UInt8) (logData : List (DiskWrite Payload)) :
    loadLoop locals ⟨record dw ++ rest, false, false⟩ logData =
      loadLoop locals ⟨rest, false, false⟩ (logData ++ [dw.copied]) := by
  rw [loadLoop_turn (List.append_ne_nil_of_left_ne_nil (record_ne_nil dw) rest),
    deserialize_append hdw]

theorem loadLoop_records {log : List (DiskWrite Payload)} (hlog : ∀ dw ∈ log, dw.bytes ≠ none)
    (locals : ℕ → DeserializeLocals) (logData : List (DiskWrite Payload)) :
    loadLoop locals ⟨(log.map record).flatten, false, false⟩ logData =
      some (logData ++ log.map DiskWrite.copied, ⟨[], true, false⟩) := by
  induction log generalizing logData with
  | nil => rw [List.map_nil, List.flatten_nil, loadLoop_nil, List.map_nil, List.append_nil]
  | cons dw log ih =>
    obtain ⟨hdw, hlog⟩ := List.forall_mem_cons.mp hlog
    rw [List.map_cons, List.flatten_cons, loadLoop_cons hdw, ih hlog, List.map_cons,
      List.append_assoc, List.singleton_append]

def SameOp (dw dw' : DiskWrite Payload) : Prop :=
  dw'.metadata = dw.metadata ∧ dw'.bytes = dw.bytes

theorem sameOp_copied (log : List (DiskWrite Payload)) :
    List.Forall₂ SameOp log (log.map DiskWrite.copied) := by
  apply List.forall₂_map_right_iff.mpr
  apply List.forall₂_same.mpr
  exact fun dw _ => ⟨rfl, dw.bytes_copied⟩

theorem DiskWrite.bytes_ne_none {dw : DiskWrite Payload}
    (h : dw.metadata.size ≠ 0 → dw.data ≠ none) : dw.bytes ≠ none := by
  unfold DiskWrite.bytes
  split_ifs with hsize
  · exact Option.some_ne_none _
  · simpa using h hsize

theorem logProfileSave_eq {log : List (DiskWrite Payload)} (hlog : ∀ dw ∈ log, dw.bytes ≠ none) :
    logProfileSave log = some (SUCCESS, (log.map record).flatten) := by
  rw [logProfileSave, foldlM_serialize hlog]
  rfl

theorem logProfileLoad_records {log : List (DiskWrite Payload)}
    (hlog : ∀ dw ∈ log, dw.bytes ≠ none) (locals : ℕ → DeserializeLocals) :
    logProfileLoad locals (some (log.map record).flatten) [] =
      some (SUCCESS, log.map DiskWrite.copied) := by
  rw [logProfileLoad, IStream.ofFile, loadLoop_records hlog]
  rfl

/-- A file that cannot be opened. -/
theorem logProfileLoad_none (logData : List (DiskWrite Payload)) (locals : ℕ → DeserializeLocals) :
    logProfileLoad locals none logData = some (LOG_CLONE_ERR, logData) := by
  have hpeek : IStream.peek ⟨[], false, true⟩ = (none, ⟨[], false, true⟩) := rfl
  rw [logProfileLoad, IStream.ofFile, loadLoop]
  split
  · rename_i h
    rw [hpeek] at h
    cases h
    rfl
  · rename_i h
    rw [hpeek] at h
    cases h

theorem logProfile_roundTrip (locals : ℕ → DeserializeLocals) {log : List (DiskWrite Payload)}
    (hlog : ∀ dw ∈ log, dw.metadata.size ≠ 0 → dw.data ≠ none) :
    ∃ file loaded, logProfileSave log = some (SUCCESS, file) ∧
      logProfileLoad locals (some file) [] = some (SUCCESS, loaded) ∧
      List.Forall₂ SameOp log loaded := by
  have hbytes (dw : DiskWrite Payload) (hdw : dw ∈ log) : dw.bytes ≠ none :=
    DiskWrite.bytes_ne_none (hlog dw hdw)
  exact ⟨_, _, logProfileSave_eq hbytes, logProfileLoad_records hbytes locals, sameOp_copied log⟩

def trickyLog : List (DiskWrite Payload) :=
  [⟨⟨0, 1, 0xffffffffffffffff, 10⟩, some fun i => [48, 32, 48, 32, 48, 32, 48, 32, 10, 0].getD i 0⟩,
    ⟨⟨0, reqFlush, 0, 0⟩, none⟩, ⟨⟨1, 1, 8, 3⟩, some fun _ => 10⟩]

theorem logProfile_roundTrip_tricky :
    (∀ dw ∈ trickyLog, dw.metadata.size ≠ 0 → dw.data ≠ none) ∧
    ∃ file loaded, logProfileSave trickyLog = some (SUCCESS, file) ∧
      logProfileLoad (fun _ => ⟨default, 0⟩) (some file) [] = some (SUCCESS, loaded) ∧
      List.Forall₂ SameOp trickyLog loaded := by
  have h : ∀ dw ∈ trickyLog, dw.metadata.size ≠ 0 → dw.data ≠ none := by
    simp [trickyLog]
  exact ⟨h, logProfile_roundTrip _ h⟩

end CrashMonkey
