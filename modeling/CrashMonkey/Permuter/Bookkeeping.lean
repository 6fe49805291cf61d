import CrashMonkey.Harness.Replay
import CrashMonkey.Permuter.Shape
import CrashMonkey.Permuter.Slots

namespace CrashMonkey

variable {δ : Type}

def metaCount (ep : Epoch δ) : ℕ := ep.ops.countP fun o => o.op.isMeta

/-- `num_meta` is the count on top of the stale value `b`. -/
def CountsFrom (b : BitVec 32) (ep : Epoch δ) : Prop :=
  ep.numMeta = b + .ofNat 32 (metaCount ep)

theorem countsFrom_newEpoch (u : Uninit) (i : ℕ) :
    CountsFrom (u.numMeta i) (newEpoch u i : Epoch δ) := (BitVec.add_zero _).symm

theorem CountsFrom.push {b : BitVec 32} {ep : Epoch δ} (h : CountsFrom b ep) (i : ℕ)
    (w : DiskWrite δ) :
    CountsFrom b (ep.push i w) := by
  have hcount : metaCount (ep.push i w) = metaCount ep + w.isMeta.toNat := by
    cases hw : w.isMeta <;> simp [metaCount, hw]
  have hmeta : (ep.push i w).numMeta = ep.numMeta + .ofNat 32 w.isMeta.toNat := rfl
  rw [CountsFrom] at h ⊢
  rw [hmeta, hcount, h, BitVec.ofNat_add, BitVec.add_assoc]

theorem CountsFrom.collectOp {b : BitVec 32} {ep : Epoch δ} (h : CountsFrom b ep) (w : DiskWrite δ)
    (l : Locals δ) : CountsFrom b (collectOp w l ep).2 := by
  -- the scan only touches `overlaps`
  have hset {e : Epoch δ} (he : CountsFrom b e) (o : Bool) :
      CountsFrom b { e with overlaps := o } := he
  unfold CrashMonkey.collectOp emitDataHalf
  split_ifs
  · apply CountsFrom.push
    exact hset (h.push _ _) _
  · apply CountsFrom.push
    exact hset h _

theorem CountsFrom.closeEpoch {b : BitVec 32} {ep : Epoch δ} (h : CountsFrom b ep) (u : Uninit)
    (w : DiskWrite δ) (l : Locals δ) : CountsFrom b (closeEpoch u w l ep).2 := by
  unfold CrashMonkey.closeEpoch
  split_ifs
  · exact h.push _ _
  · exact h.push l.index w

def Starts (log : List (DiskWrite δ)) (i : ℕ) : Prop :=
  i = 0 ∨ ∃ w, log[i - 1]? = some w ∧ w.isBarrierWrite = true

theorem epochsFrom_countsFrom (u : Uninit) (log : List (DiskWrite δ)) (cur : Option (Epoch δ))
    (n : ℕ) (h : ∃ i, Starts log i ∧ (n < log.length ∨ cur.isSome = true → i < log.length) ∧
      epochOf log i = epochOf log n ∧ CountsFrom (u.numMeta i) (cur.getD (newEpoch u n)))
    (hn : n ≤ log.length) (k : ℕ) {ep : Epoch δ} (hep : (epochsFrom u log cur n)[k]? = some ep) :
    ∃ i, Starts log i ∧ i < log.length ∧ epochOf log i = epochOf log n + k ∧
      CountsFrom (u.numMeta i) ep := by
  induction cur, n using epochsFrom_induction u log generalizing k with
  | stop cur n hlen =>
    obtain ⟨i, hi, hlt, hk, hcount⟩ := h
    rw [epochsFrom_end u cur hlen] at hep
    cases cur with
    | none => simp at hep
    | some e =>
      cases k with
      | zero =>
        obtain rfl : e = ep := by simpa using hep
        exact ⟨i, hi, hlt (.inr rfl), hk, hcount⟩
      | succ k => simp at hep
  | barrier cur n w hw hb ih =>
    obtain ⟨i, hi, hlt, hk, hcount⟩ := h
    have hlen := (List.getElem?_eq_some_iff.mp hw).1
    rw [epochsFrom_barrier u cur hw hb, localsAt_index u hn] at hep
    cases k with
    | zero =>
      obtain rfl : _ = ep := by simpa using hep
      exact ⟨i, hi, hlt (.inl hlen), hk, hcount.closeEpoch u w _⟩
    | succ k =>
      -- the next epoch begins after the barrier
      obtain ⟨j, hj, hjlt, hjk, hjcount⟩ := ih
        ⟨n + 1, .inr ⟨w, by simpa using hw, hb⟩, fun h => by simpa using h, rfl,
          countsFrom_newEpoch u _⟩ hlen k (by simpa using hep)
      rw [epochOf_succ hw, hb, Bool.toNat_true] at hjk
      exact ⟨j, hj, hjlt, by omega, hjcount⟩
  | plain cur n w hw hb ih =>
    obtain ⟨i, hi, hlt, hk, hcount⟩ := h
    have hlen := (List.getElem?_eq_some_iff.mp hw).1
    have hnext : epochOf log (n + 1) = epochOf log n := by rw [epochOf_succ hw, hb]; rfl
    rw [epochsFrom_plain u cur hw hb] at hep
    rw [localsAt_index u hn] at hep ih
    rw [← hnext] at hk ⊢
    exact ih ⟨i, hi, fun _ => hlt (.inl hlen), hk, hcount.collectOp w _⟩ hlen k hep

/-- Each epoch counts from the stale value at the index where it begins. -/
theorem initDataVector_countsFrom (u : Uninit) {log : List (DiskWrite δ)} {k : ℕ}
    {ep : Epoch δ} (hep : (initDataVector u log)[k]? = some ep) :
    ∃ i, Starts log i ∧ i < log.length ∧ epochOf log i = k ∧ CountsFrom (u.numMeta i) ep := by
  rw [initDataVector_eq_epochsFrom] at hep
  obtain ⟨i, hi, hlt, hk, hcount⟩ := epochsFrom_countsFrom u log none 0
    ⟨0, .inl rfl, fun h => by simpa using h, rfl, countsFrom_newEpoch u 0⟩ (Nat.zero_le _) k hep
  rw [show epochOf log 0 = 0 from rfl, Nat.zero_add] at hk
  exact ⟨i, hi, hlt, hk, hcount⟩

theorem Starts.unique {log : List (DiskWrite δ)} {i j : ℕ} (hi : Starts log i)
    (hj : Starts log j) (h : epochOf log i = epochOf log j) : i = j := by
  have aux {i j : ℕ} (hj : Starts log j) (h : epochOf log i = epochOf log j) : j ≤ i := by
    by_contra hlt
    rcases hj with rfl | ⟨w, hw, hb⟩
    · omega
    · have hle := epochOf_mono log (show i ≤ j - 1 by omega)
      have := epochOf_lt hw hb (show j - 1 < j by omega)
      omega
  exact le_antisymm (aux hi h.symm) (aux hj h)

def DiskWrite.flushBits (w : DiskWrite δ) : BitVec 64 :=
  w.metadata.biRw &&& (reqFlush ||| reqFlushSeq)

/-- A flush half of `w` has the flush bits and nothing else, and is not replayed. -/
structure FlushHalfExact (w half : DiskWrite Payload) : Prop where
  biRw : half.metadata.biRw = w.flushBits
  biFlags : half.metadata.biFlags = 0
  sector : half.metadata.writeSector = 0
  size : half.metadata.size = 0
  data : half.data = none
  skipped : ∀ capacity ws calls img,
    testWriteData capacity (half :: ws) calls img = testWriteData capacity ws calls img

/-- The stale contents are zero but for flush bits that the operation has too. -/
structure Harmless (w : DiskWrite δ) (stale : DiskWriteOpMeta) : Prop where
  biRw : stale.biRw &&& ~~~w.flushBits = 0
  biFlags : stale.biFlags = 0
  sector : stale.writeSector = 0
  size : stale.size = 0

theorem hasFlag_eq_getLsbD (rw : BitVec 64) {i : ℕ} (hi : i < 64) :
    (if hasFlag rw (.twoPow 64 i) then .twoPow 64 i else 0#64) = rw &&& .twoPow 64 i := by
  rw [hasFlag_twoPow rw hi, BitVec.and_twoPow]

theorem flushBits_eq (w : DiskWrite δ) :
    w.flushBits = (if w.hasFlushFlag then reqFlush else 0) |||
      (if w.hasFlushSeqFlag then reqFlushSeq else 0) := by
  have h₁ := hasFlag_eq_getLsbD w.metadata.biRw (i := 12) (by decide)
  have h₂ := hasFlag_eq_getLsbD w.metadata.biRw (i := 27) (by decide)
  unfold DiskWrite.flushBits DiskWrite.hasFlushFlag DiskWrite.hasFlushSeqFlag
    DiskWriteOpMeta.cHasFlushFlag DiskWriteOpMeta.cHasFlushSeqFlag reqFlush reqFlushSeq
  rw [BitVec.and_or_distrib_left, ← h₁, ← h₂]
  rfl

/-- What default initialisation leaves shows through. -/
theorem flagHalf_metadata (stale : DiskWriteOpMeta) (w : DiskWrite δ) :
    (w.flagHalf stale).metadata = { stale with biRw := stale.biRw ||| w.flushBits } := by
  rw [flushBits_eq]
  unfold DiskWrite.flagHalf DiskWrite.setFlushFlag DiskWrite.setFlushSeqFlag
    DiskWriteOpMeta.cSetFlushFlag DiskWriteOpMeta.cSetFlushSeqFlag
  split_ifs <;> simp [BitVec.or_assoc]

theorem or_eq_right_iff (x m : BitVec 64) : x ||| m = m ↔ x &&& ~~~m = 0 := by
  simp only [BitVec.eq_of_getLsbD_eq_iff, BitVec.getLsbD_or, BitVec.getLsbD_and,
    BitVec.getLsbD_not]
  apply forall₂_congr
  intro i hi
  cases x.getLsbD i <;> cases m.getLsbD i <;> simp [hi]

theorem flushBits_not_write (w : DiskWrite δ) : hasFlag w.flushBits reqWrite = false := by
  have h := hasFlag_twoPow w.flushBits (i := 0) (by decide)
  rw [reqWrite, h, DiskWrite.flushBits, BitVec.getLsbD_and]
  have hmask : (reqFlush ||| reqFlushSeq).getLsbD 0 = false := by decide
  rw [hmask, Bool.and_false]

theorem flagHalf_exact_iff (stale : DiskWriteOpMeta) (w : DiskWrite Payload) :
    FlushHalfExact w (w.flagHalf stale) ↔ Harmless w stale := by
  have hmeta := flagHalf_metadata stale w
  constructor
  · rintro ⟨hrw, hflags, hsector, hsize, -, -⟩
    rw [hmeta] at hrw hflags hsector hsize
    exact ⟨(or_eq_right_iff _ _).mp hrw, hflags, hsector, hsize⟩
  · rintro ⟨hrw, hflags, hsector, hsize⟩
    have hbits : (w.flagHalf stale).metadata.biRw = w.flushBits := by
      rw [hmeta]
      exact (or_eq_right_iff _ _).mpr hrw
    have hwrite : (w.flagHalf stale).hasWriteFlag = false := by
      unfold DiskWrite.hasWriteFlag DiskWriteOpMeta.cHasWriteFlag
      rw [hbits, flushBits_not_write]
    refine ⟨hbits, by rw [hmeta, hflags], by rw [hmeta, hsector], by rw [hmeta, hsize],
      flagHalf_data stale w, fun capacity ws calls img => ?_⟩
    rw [testWriteData, if_pos hwrite]

/-- `num_meta` and the flush halves depend on the log alone. In a log that an
`unsigned int` can index the counter does not wrap around. -/
structure BookkeepingExact (log : List (DiskWrite Payload)) (epochs : List (Epoch Payload)) :
    Prop where
  numMeta : ∀ ep ∈ epochs, ep.numMeta = .ofNat 32 (metaCount ep)
  count : log.length < 2 ^ 32 → ∀ ep ∈ epochs, ep.numMeta.toNat = metaCount ep
  flushHalf : ∀ b w, log[b]? = some w → w.splitsFlush = true →
    ∃ ep half, epochs[epochOf log b]? = some ep ∧ ep.ops.getLast? = some ⟨b, half⟩ ∧
      FlushHalfExact w half

structure CleanStorage (u : Uninit) (log : List (DiskWrite δ)) : Prop where
  numMeta : ∀ i, i < log.length → Starts log i → u.numMeta i = 0
  flagHalf : ∀ b w, log[b]? = some w → w.splitsFlush = true → Harmless w (u.flagHalf b)

/-- An epoch has at most one operation for each index of the log. -/
theorem metaCount_le (u : Uninit) {log : List (DiskWrite δ)} {ep : Epoch δ}
    (hep : ep ∈ initDataVector u log) : metaCount ep ≤ log.length := by
  obtain ⟨k, hk⟩ := List.getElem?_of_mem hep
  have hnodup : (ep.ops.map EpochOp.absIndex).Nodup := (absIndex_sorted u hk).imp Nat.ne_of_lt
  have hsub : ep.ops.map EpochOp.absIndex ⊆ List.range log.length := by
    intro a ha
    rw [initDataVector_ops u hk, List.map_flatMap] at ha
    obtain ⟨n, hn, ha⟩ := List.mem_flatMap.mp ha
    have hlt := (mem_turnsOf.mp hn).2.1
    rw [List.mem_range]
    obtain h | ⟨-, h⟩ := opsOn_absIndex u hlt
    · rw [h, List.mem_singleton] at ha
      omega
    · rw [h, List.mem_pair] at ha
      omega
  calc metaCount ep ≤ ep.ops.length := List.countP_le_length
    _ = (ep.ops.map EpochOp.absIndex).length := by rw [List.length_map]
    _ ≤ (List.range log.length).length := (List.subperm_of_subset hnodup hsub).length_le
    _ = log.length := List.length_range

/-- The code relies on clean storage, and on nothing more. -/
theorem bookkeepingExact_iff (u : Uninit) (log : List (DiskWrite Payload)) :
    BookkeepingExact log (initDataVector u log) ↔ CleanStorage u log := by
  have hlast {b : ℕ} {w : DiskWrite Payload} (hw : log[b]? = some w)
      (hs : w.splitsFlush = true) : ∃ ep, (initDataVector u log)[epochOf log b]? = some ep ∧
        ep.ops.getLast? = some ⟨b, w.flagHalf (u.flagHalf b)⟩ := by
    obtain ⟨ep, hep⟩ := exists_epoch u log (List.getElem?_eq_some_iff.mp hw).1
    refine ⟨ep, hep, ?_⟩
    rw [ops_of_closes u hep ⟨hw, DiskWrite.isBarrierWrite_of_splitsFlush hs, rfl⟩,
      List.getLast?_concat, if_pos hs]
  constructor
  · intro h
    constructor
    · intro i hlt hi
      obtain ⟨ep, hep⟩ := exists_epoch u log hlt
      obtain ⟨j, hj, -, hk, hcount⟩ := initDataVector_countsFrom u hep
      obtain rfl := hj.unique hi hk
      have hmeta := h.numMeta ep (List.mem_of_getElem? hep)
      rw [CountsFrom, hmeta] at hcount
      exact BitVec.self_eq_add_left.mp hcount
    · intro b w hw hs
      obtain ⟨ep, half, hep, hhalf, hexact⟩ := h.flushHalf b w hw hs
      obtain ⟨ep', hep', hops⟩ := hlast hw hs
      obtain rfl : ep = ep' := by simpa [hep] using hep'
      obtain rfl : half = _ := by simpa [hhalf] using hops
      exact (flagHalf_exact_iff _ w).mp hexact
  · intro h
    have hnumMeta : ∀ ep ∈ initDataVector u log, ep.numMeta = .ofNat 32 (metaCount ep) := by
      intro ep hmem
      obtain ⟨k, hep⟩ := List.getElem?_of_mem hmem
      obtain ⟨i, hi, hlt, -, hcount⟩ := initDataVector_countsFrom u hep
      rw [hcount, h.numMeta i hlt hi]
      exact BitVec.zero_add _
    refine ⟨hnumMeta, fun hlen ep hmem => ?_, ?_⟩
    · have hle := metaCount_le u hmem
      rw [hnumMeta ep hmem, BitVec.toNat_ofNat, Nat.mod_eq_of_lt (by omega)]
    · intro b w hw hs
      obtain ⟨ep, hep, hops⟩ := hlast hw hs
      exact ⟨ep, _, hep, hops, (flagHalf_exact_iff _ w).mpr (h.flagHalf b w hw hs)⟩

def plainWriteLog : List (DiskWrite Payload) := [⟨⟨0, reqWrite, 0, 512⟩, some fun _ => 0⟩]

def dirtyStorage : Uninit := ⟨fun _ => 5, fun _ => ⟨0, reqWrite, 7, 512⟩, ⟨0, 0, 0, 0⟩⟩

theorem not_bookkeepingExact_plainWriteLog :
    ¬ BookkeepingExact plainWriteLog (initDataVector dirtyStorage plainWriteLog) := by
  intro h
  have hep : initDataVector dirtyStorage plainWriteLog =
      [⟨5, false, false, [⟨0, ⟨⟨0, reqWrite, 0, 512⟩, some fun _ => 0⟩⟩]⟩] := by
    rw [initDataVector_eq_splitFrom]
    rfl
  have hmeta := h.numMeta _ (by rw [hep]; exact List.mem_cons_self)
  exact absurd hmeta (by decide)

end CrashMonkey
