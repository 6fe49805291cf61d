import CrashMonkey.Harness.Profile

namespace CrashMonkey

open IStream (Numeral)

/-- The text of a record: four numbers, a space, as many bytes as the last number says
and a line end. -/
structure RecordText where
  biFlags : Numeral 64
  biRw : Numeral 64
  writeSector : Numeral 64
  size : Numeral 32
  data : List UInt8
  biRw_apart : biRw.Apart
  writeSector_apart : writeSector.Apart
  size_apart : size.Apart
  data_length : data.length = size.value.toNat

namespace RecordText

def text (r : RecordText) : List UInt8 :=
  r.biFlags.text ++ (r.biRw.text ++ (r.writeSector.text ++ (r.size.text ++
    32 :: (r.data ++ [10]))))

def metadata (r : RecordText) : DiskWriteOpMeta :=
  ⟨r.biFlags.value, r.biRw.value, r.writeSector.value, r.size.value⟩

def op (r : RecordText) : DiskWrite Payload :=
  diskWrite r.metadata (some fun i => r.data.getD i 0)

theorem text_ne_nil (r : RecordText) : r.text ≠ [] := by simp [text]

end RecordText

theorem readMeta_text (r : RecordText) (m : DiskWriteOpMeta) (rest : List UInt8) :
    readMeta m ⟨r.text ++ rest, false, false⟩ =
      (r.metadata, ⟨32 :: (r.data ++ 10 :: rest), false, false⟩) := by
  unfold readMeta RecordText.text
  simp only [List.append_assoc, List.cons_append, List.nil_append,
    IStream.extractHex_apart _ _ r.biRw_apart, IStream.extractHex_apart _ _ r.writeSector_apart,
    IStream.extractHex_apart _ _ r.size_apart,
    IStream.extractHex_numeral r.size _ IStream.ends_space]
  rfl

theorem deserialize_text (r : RecordText) (u : DeserializeLocals) (rest : List UInt8) :
    deserialize u ⟨r.text ++ rest, false, false⟩ = some (r.op, ⟨rest, false, false⟩) := by
  have hread : IStream.read r.metadata.size.toNat ⟨r.data ++ 10 :: rest, false, false⟩ =
      (r.data, ⟨10 :: rest, false, false⟩) := by
    have hlen : r.metadata.size.toNat = r.data.length := r.data_length.symm
    unfold IStream.read
    rw [if_neg (by simp [IStream.good]), if_neg (by simp [hlen]), hlen, List.take_left,
      List.drop_left]
  rw [deserialize_eq_some_iff, readMeta_text]
  simp [IStream.get, IStream.good, hread, RecordText.op]

/-- Numbers after which the stream is good. -/
theorem readMeta_good {m m' : DiskWriteOpMeta} {is is' : IStream}
    (h : readMeta m is = (m', is')) (hgood : is'.good = true) :
    ∃ (biFlags biRw writeSector : Numeral 64) (size : Numeral 32) (rest : List UInt8),
      biRw.Apart ∧ writeSector.Apart ∧ size.Apart ∧
      m' = ⟨biFlags.value, biRw.value, writeSector.value, size.value⟩ ∧
      is = ⟨biFlags.text ++ (biRw.text ++ (writeSector.text ++ (size.text ++ rest))),
        false, false⟩ ∧ is' = ⟨rest, false, false⟩ := by
  unfold readMeta at h
  cases h₁ : is.extractHex m.biFlags with
  | mk v₁ is₁ =>
  cases h₂ : is₁.extractHex m.biRw with
  | mk v₂ is₂ =>
  cases h₃ : is₂.extractHex m.writeSector with
  | mk v₃ is₃ =>
  cases h₄ : is₃.extractHex m.size with
  | mk v₄ is₄ =>
  simp only [h₁, h₂, h₃, h₄, Prod.mk.injEq] at h
  obtain ⟨rfl, rfl⟩ := h
  -- a function that fails makes all those behind it fail
  obtain ⟨size, b₄, rest₄, -, rfl, rfl, rfl⟩ := IStream.extractHex_good h₄ hgood
  obtain ⟨writeSector, b₃, rest₃, hb₃, rfl, rfl, hrest₃⟩ := IStream.extractHex_good h₃ rfl
  obtain ⟨biRw, b₂, rest₂, hb₂, rfl, rfl, hrest₂⟩ := IStream.extractHex_good h₂ rfl
  obtain ⟨biFlags, b₁, rest₁, hb₁, rfl, rfl, hrest₁⟩ := IStream.extractHex_good h₁ rfl
  simp only [IStream.mk.injEq, and_true] at hrest₁ hrest₂ hrest₃
  refine ⟨biFlags, biRw, writeSector, size, b₄ :: rest₄, IStream.Numeral.apart_of_text hrest₁ hb₁,
    IStream.Numeral.apart_of_text hrest₂ hb₂, IStream.Numeral.apart_of_text hrest₃ hb₃, rfl, ?_,
    rfl⟩
  rw [← hrest₁, ← hrest₂, ← hrest₃]

/-- What is accepted is the text of a record. -/
theorem deserialize_ok {u : DeserializeLocals} {is is' : IStream} {dw : DiskWrite Payload}
    (h : deserialize u is = some (dw, is')) :
    ∃ (r : RecordText) (rest : List UInt8), dw = r.op ∧
      is = ⟨r.text ++ rest, false, false⟩ ∧ is' = ⟨rest, false, false⟩ := by
  obtain ⟨hspace, hnl, hx⟩ := deserialize_eq_some_iff.mp h
  cases hmeta : readMeta u.metadata is with
  | mk m is₁ =>
  cases hget₁ : is₁.get u.nl with
  | mk nl₁ is₂ =>
  cases hread : is₂.read m.size.toNat with
  | mk data is₃ =>
  cases hget₂ : is₃.get nl₁ with
  | mk nl₂ is₄ =>
  simp only [hmeta, hget₁, hread, hget₂, Prod.mk.injEq] at hspace hnl hx
  obtain ⟨rfl, rfl⟩ := hx
  subst hspace hnl
  -- the line end was stored, so no function before it has failed
  obtain ⟨rest, rfl, rfl⟩ := IStream.get_ok hget₂ (IStream.good_of_get_ne hget₂ (by decide))
  obtain ⟨hlen, rest₂, rfl, hrest₂⟩ := IStream.read_ok hread rfl
  obtain ⟨rest₁, rfl, hrest₁⟩ := IStream.get_ok hget₁ rfl
  obtain ⟨biFlags, biRw, writeSector, size, rest₀, hbiRw, hsector, hsize, rfl, rfl, hrest₀⟩ :=
    readMeta_good hmeta rfl
  simp only [IStream.mk.injEq, and_true] at hrest₀ hrest₁ hrest₂
  refine ⟨⟨biFlags, biRw, writeSector, size, data, hbiRw, hsector, hsize, hlen⟩, rest, rfl, ?_, rfl⟩
  simp [RecordText.text, ← hrest₀, ← hrest₁, ← hrest₂]

theorem loadLoop_texts (locals : ℕ → DeserializeLocals) (rs : List RecordText)
    (logData : List (DiskWrite Payload)) :
    loadLoop locals ⟨(rs.map RecordText.text).flatten, false, false⟩ logData =
      some (logData ++ rs.map RecordText.op, ⟨[], true, false⟩) := by
  induction rs generalizing logData with
  | nil => rw [List.map_nil, List.flatten_nil, loadLoop_nil, List.map_nil, List.append_nil]
  | cons r rs ih =>
    rw [List.map_cons, List.flatten_cons, loadLoop_turn (List.append_ne_nil_of_left_ne_nil
      r.text_ne_nil _), deserialize_text]
    dsimp only
    rw [ih, List.map_cons, List.append_assoc, List.singleton_append]

/-- A loop that ends has read texts of records only. -/
theorem loadLoop_ok {locals : ℕ → DeserializeLocals} {bytes : List UInt8}
    {logData loaded : List (DiskWrite Payload)} {log : IStream}
    (h : loadLoop locals ⟨bytes, false, false⟩ logData = some (loaded, log)) :
    ∃ rs : List RecordText, bytes = (rs.map RecordText.text).flatten := by
  induction hlen : bytes.length using Nat.strong_induction_on generalizing bytes logData with
  | _ len ih =>
    obtain rfl | hne := eq_or_ne bytes []
    · exact ⟨[], rfl⟩
    · rw [loadLoop_turn hne] at h
      cases hdw : deserialize (locals logData.length) ⟨bytes, false, false⟩ with
      | none => simp [hdw] at h
      | some x =>
        obtain ⟨dw, log'⟩ := x
        obtain ⟨r, rest, -, hbytes, rfl⟩ := deserialize_ok hdw
        simp only [IStream.mk.injEq, and_true] at hbytes
        subst hbytes
        rw [hdw] at h
        have hshorter := List.length_pos_iff.mpr r.text_ne_nil
        rw [List.length_append] at hlen
        obtain ⟨rs, rfl⟩ := ih rest.length (by omega) h rfl
        exact ⟨r :: rs, rfl⟩

/-- Texts of records that begin a saved file are its first records. -/
theorem texts_of_prefix {rs : List RecordText} {log : List (DiskWrite Payload)}
    (hlog : ∀ dw ∈ log, dw.bytes ≠ none)
    (h : (rs.map RecordText.text).flatten <+: (log.map record).flatten) :
    ∃ k, (rs.map RecordText.text).flatten = ((log.take k).map record).flatten := by
  induction rs generalizing log with
  | nil => exact ⟨0, rfl⟩
  | cons r rs ih =>
    obtain ⟨tail, htail⟩ := h
    rw [List.map_cons, List.flatten_cons, List.append_assoc] at htail
    cases log with
    | nil =>
      have hne := List.append_ne_nil_of_left_ne_nil r.text_ne_nil
        ((rs.map RecordText.text).flatten ++ tail)
      exact absurd htail hne
    | cons dw log =>
      obtain ⟨hdw, hrest⟩ := List.forall_mem_cons.mp hlog
      rw [List.map_cons, List.flatten_cons] at htail
      -- both texts are read from the file, so they end at the same byte
      have htext := deserialize_text r ⟨default, 0⟩ ((rs.map RecordText.text).flatten ++ tail)
      rw [htail, deserialize_append hdw, Option.some.injEq, Prod.mk.injEq, IStream.mk.injEq]
        at htext
      obtain ⟨-, hsame, -⟩ := htext
      rw [hsame] at htail
      obtain ⟨k, hk⟩ := ih hrest ⟨tail, hsame.symm⟩
      refine ⟨k + 1, ?_⟩
      rw [List.map_cons, List.flatten_cons, List.take_succ_cons, List.map_cons, List.flatten_cons,
        hk, List.append_cancel_right htail]

/-- Of a saved file the first records are loaded where it ends behind them. A file that
ends anywhere else is not loaded. -/
theorem logProfileLoad_prefix (locals : ℕ → DeserializeLocals) {log : List (DiskWrite Payload)}
    (hlog : ∀ dw ∈ log, dw.metadata.size ≠ 0 → dw.data ≠ none) {file cut : List UInt8}
    (hsave : logProfileSave log = some (SUCCESS, file)) (hcut : cut <+: file) :
    (∀ k, logProfileSave (log.take k) = some (SUCCESS, cut) →
      ∃ loaded, logProfileLoad locals (some cut) [] = some (SUCCESS, loaded) ∧
        List.Forall₂ SameOp (log.take k) loaded) ∧
    ((∀ k, logProfileSave (log.take k) ≠ some (SUCCESS, cut)) →
      ∀ loaded, logProfileLoad locals (some cut) [] ≠ some (SUCCESS, loaded)) := by
  have hbytes (dw : DiskWrite Payload) (hdw : dw ∈ log) : dw.bytes ≠ none :=
    DiskWrite.bytes_ne_none (hlog dw hdw)
  have htake (k : ℕ) (dw : DiskWrite Payload) (hdw : dw ∈ log.take k) : dw.bytes ≠ none :=
    hbytes dw (List.mem_of_mem_take hdw)
  rw [logProfileSave_eq hbytes, Option.some.injEq, Prod.mk.injEq] at hsave
  obtain ⟨-, rfl⟩ := hsave
  constructor
  · intro k hk
    rw [logProfileSave_eq (htake k), Option.some.injEq, Prod.mk.injEq] at hk
    obtain ⟨-, rfl⟩ := hk
    exact ⟨_, logProfileLoad_records (htake k) locals, sameOp_copied _⟩
  · intro hk loaded hload
    obtain ⟨⟨logData, is⟩, hloop, -⟩ := Option.bind_eq_some_iff.mp hload
    obtain ⟨rs, rfl⟩ := loadLoop_ok hloop
    obtain ⟨k, htexts⟩ := texts_of_prefix hbytes hcut
    exact hk k (htexts ▸ logProfileSave_eq (htake k))

/-- The first five bytes of a saved file; the local that `get` does not set holds a space. -/
theorem logProfileLoad_prefix_tricky : ∃ file, logProfileSave trickyLog = some (SUCCESS, file) ∧
    (∀ k, logProfileSave (trickyLog.take k) = some (SUCCESS, file.take 5) →
      ∃ loaded, logProfileLoad (fun _ => ⟨default, 32⟩) (some (file.take 5)) [] =
          some (SUCCESS, loaded) ∧ List.Forall₂ SameOp (trickyLog.take k) loaded) ∧
    ((∀ k, logProfileSave (trickyLog.take k) ≠ some (SUCCESS, file.take 5)) →
      ∀ loaded, logProfileLoad (fun _ => ⟨default, 32⟩) (some (file.take 5)) [] ≠
        some (SUCCESS, loaded)) := by
  have h : ∀ dw ∈ trickyLog, dw.metadata.size ≠ 0 → dw.data ≠ none := by
    simp [trickyLog]
  have hsave := logProfileSave_eq fun dw hdw => DiskWrite.bytes_ne_none (h dw hdw)
  exact ⟨_, hsave, logProfileLoad_prefix _ h hsave (List.take_prefix 5 _)⟩

def ProfileText (bytes : List UInt8) : Prop :=
  ∃ rs : List RecordText, bytes = (rs.map RecordText.text).flatten

/-- Loading the file returns, with a result that does not depend on what the locals hold,
and after an error `log_data` is as before. -/
def ErrorReturn (logFile : Option (List UInt8)) (logData : List (DiskWrite Payload)) : Prop :=
  ∃ res loaded, (∀ locals, logProfileLoad locals logFile logData = some (res, loaded)) ∧
    (res = SUCCESS ∨ res = LOG_CLONE_ERR) ∧ (res = LOG_CLONE_ERR → loaded = logData)

theorem errorReturn_iff (logFile : Option (List UInt8)) (logData : List (DiskWrite Payload)) :
    ErrorReturn logFile logData ↔ ∀ bytes, logFile = some bytes → ProfileText bytes := by
  constructor
  · rintro ⟨res, loaded, hload, -, -⟩ bytes rfl
    obtain ⟨⟨logData', is⟩, hloop, -⟩ := Option.bind_eq_some_iff.mp (hload fun _ => ⟨default, 0⟩)
    exact loadLoop_ok hloop
  · intro h
    cases logFile with
    | none => exact ⟨LOG_CLONE_ERR, logData, logProfileLoad_none logData, .inr rfl, fun _ => rfl⟩
    | some bytes =>
      obtain ⟨rs, rfl⟩ := h bytes rfl
      refine ⟨SUCCESS, logData ++ rs.map RecordText.op, fun locals => ?_, .inl rfl, fun herr => ?_⟩
      · rw [logProfileLoad, IStream.ofFile, loadLoop_texts]
        rfl
      · exact absurd herr (by decide)

/-- A file of one letter. -/
theorem not_errorReturn_letter : ¬ ∀ logFile logData, ErrorReturn logFile logData := by
  intro h
  obtain ⟨res, loaded, hload, -⟩ := h (some [120]) []
  have hnone : deserialize ⟨default, 0⟩ ⟨[120], false, false⟩ = none := by rfl
  have hx := hload fun _ => ⟨default, 0⟩
  rw [logProfileLoad, IStream.ofFile, loadLoop_turn (List.cons_ne_nil _ _), hnone] at hx
  cases hx

end CrashMonkey
