import CrashMonkey.Permuter.Split

namespace CrashMonkey

variable {δ : Type}

/-- A log operation, or one of the two halves of a divided flush, with the log
index it comes from. -/
inductive Piece (δ : Type) where
  | whole (i : ℕ) (w : DiskWrite δ)
  | flushHalf (i : ℕ) (w : DiskWrite δ)
  | dataHalf (i : ℕ) (w : DiskWrite δ)

def Piece.Matches : Piece δ → EpochOp δ → Prop
  | .whole i w, o => o = ⟨i, w⟩
  | .flushHalf i w, o => o.absIndex = i ∧ o.op.data = none ∧
      (w.hasFlushFlag = true → o.op.hasFlushFlag = true) ∧
      (w.hasFlushSeqFlag = true → o.op.hasFlushSeqFlag = true)
  | .dataHalf i w, o => o.absIndex = i ∧ o.op.data = w.data ∧
      o.op.metadata.writeSector = w.metadata.writeSector ∧
      o.op.metadata.size = w.metadata.size ∧
      o.op.hasFlushFlag = false ∧ o.op.hasFlushSeqFlag = false

def piecesAt (w : DiskWrite δ) (i : ℕ) : List (Piece δ) :=
  if w.splitsFlush then [.flushHalf i w, .dataHalf i w] else [.whole i w]

def piecesFrom : ℕ → List (DiskWrite δ) → List (Piece δ)
  | _, [] => []
  | i, w :: ws => piecesAt w i ++ piecesFrom (i + 1) ws

/-- Nothing is lost, duplicated or relocated: the stored operations are the pieces
of the log, one for one and in log order, and both halves of a divided flush
stand next to the boundary between its epoch and the following one. -/
structure SplitsExactly (log : List (DiskWrite δ)) (epochs : List (Epoch δ)) : Prop where
  ops_pieces : List.Forall₂ Piece.Matches (piecesFrom 0 log) (epochs.flatMap Epoch.ops)
  halves : ∀ i w, log[i]? = some w → w.splitsFlush = true →
    ∃ e ep ep' h d, epochs[e]? = some ep ∧ epochs[e + 1]? = some ep' ∧
      ep.ops.getLast? = some h ∧ (Piece.flushHalf i w).Matches h ∧
      ep'.ops.head? = some d ∧ (Piece.dataHalf i w).Matches d

/-- Every divided flush is directly followed by an operation that is no barrier. -/
def FlushesFollowed (log : List (DiskWrite δ)) : Prop :=
  ∀ i w, log[i]? = some w → w.splitsFlush = true →
    ∃ w', log[i + 1]? = some w' ∧ w'.isBarrierWrite = false

theorem flushesFollowed_cons (w : DiskWrite δ) (ws : List (DiskWrite δ)) :
    FlushesFollowed (w :: ws) ↔
      (w.splitsFlush = true → ∃ w', ws.head? = some w' ∧ w'.isBarrierWrite = false) ∧
      FlushesFollowed ws := by
  constructor
  · intro h
    refine ⟨fun hs => ?_, fun i v hv hs => h (i + 1) v hv hs⟩
    obtain ⟨w', hw', hb⟩ := h 0 w rfl hs
    exact ⟨w', by simpa [List.head?_eq_getElem?] using hw', hb⟩
  · rintro ⟨h0, h⟩ i v hv hs
    cases i with
    | zero =>
      obtain rfl : w = v := by simpa using hv
      obtain ⟨w', hw', hb⟩ := h0 hs
      exact ⟨w', by simpa [List.head?_eq_getElem?] using hw', hb⟩
    | succ i => exact h i v hv hs

theorem flagHalf_matches (stale : DiskWriteOpMeta) (i : ℕ) (w : DiskWrite δ) :
    (Piece.flushHalf i w).Matches ⟨i, w.flagHalf stale⟩ := by
  refine ⟨rfl, ?_, fun h => ?_, fun h => ?_⟩
  · unfold DiskWrite.flagHalf
    split_ifs <;> rfl
  · unfold DiskWrite.flagHalf
    split_ifs
    · simp [DiskWrite.hasFlushFlag, DiskWriteOpMeta.cHasFlushFlag, DiskWrite.setFlushFlag,
        DiskWrite.setFlushSeqFlag, DiskWriteOpMeta.cSetFlushFlag,
        DiskWriteOpMeta.cSetFlushSeqFlag, reqFlush, reqFlushSeq, hasFlag_set]
    · simp [DiskWrite.hasFlushFlag, DiskWriteOpMeta.cHasFlushFlag, DiskWrite.setFlushFlag,
        DiskWriteOpMeta.cSetFlushFlag, reqFlush, hasFlag_set]
  · unfold DiskWrite.flagHalf
    rw [if_pos h]
    simp [DiskWrite.hasFlushSeqFlag, DiskWriteOpMeta.cHasFlushSeqFlag,
      DiskWrite.setFlushSeqFlag, DiskWriteOpMeta.cSetFlushSeqFlag, reqFlushSeq, hasFlag_set]

theorem dataHalf_matches (i : ℕ) (w : DiskWrite δ) :
    (Piece.dataHalf i w).Matches ⟨i, w.dataHalf⟩ := by
  unfold Piece.Matches DiskWrite.dataHalf
  cases h₁ : w.hasFlushFlag <;> cases h₂ : w.hasFlushSeqFlag <;>
    simp_all [DiskWrite.hasFlushFlag, DiskWrite.hasFlushSeqFlag, DiskWriteOpMeta.cHasFlushFlag,
      DiskWriteOpMeta.cHasFlushSeqFlag, DiskWrite.clearFlushFlag, DiskWrite.clearFlushSeqFlag,
      DiskWriteOpMeta.cClearFlushFlag, DiskWriteOpMeta.cClearFlushSeqFlag, reqFlush,
      reqFlushSeq, hasFlag_clear]

def pendingPiece (l : Locals δ) (w : DiskWrite δ) : List (Piece δ) :=
  if l.prevEpochFlushOp then [.dataHalf (l.index - 1) w] else []

/-- The pieces from `l` on match what the code pushes, if and only if a pending
data half finds an operation that is no barrier, and so do all later ones. -/
theorem emitted_matches_iff (u : Uninit) (l : Locals δ) (p : DiskWrite δ)
    (ws : List (DiskWrite δ)) (hi : l.prevEpochFlushOp = true → 0 < l.index)
    (hp : l.prevEpochFlushOp = true → l.dataHalf = p.dataHalf) :
    List.Forall₂ Piece.Matches (pendingPiece l p ++ piecesFrom l.index ws) (emitted u l ws) ↔
      (l.prevEpochFlushOp = true → ∃ w', ws.head? = some w' ∧ w'.isBarrierWrite = false) ∧
      FlushesFollowed ws := by
  induction ws generalizing l p with
  | nil =>
    unfold pendingPiece
    cases l.prevEpochFlushOp <;> simp [piecesFrom, emitted, FlushesFollowed]
  | cons w ws ih =>
    have hnext := ih (nextLocals u w l) w (by simp)
    rw [flushesFollowed_cons]
    cases hpend : l.prevEpochFlushOp with
    | true =>
      cases hw : w.isBarrierWrite with
      | true =>
        -- the barrier is pushed where the data half has to stand
        have hpos := hi hpend
        have hne : l.index ≠ l.index - 1 := by omega
        simp [pendingPiece, hpend, emitted, turnOps, Piece.Matches, hne, hw]
      | false =>
        have hs : w.splitsFlush = false := by
          cases hs : w.splitsFlush with
          | false => rfl
          | true => simp [DiskWrite.isBarrierWrite_of_splitsFlush hs] at hw
        have hd : (Piece.dataHalf (l.index - 1) p).Matches ⟨l.index - 1, l.dataHalf⟩ := by
          rw [hp hpend]
          exact dataHalf_matches _ _
        have hrest : List.Forall₂ Piece.Matches (piecesFrom (l.index + 1) ws)
            (emitted u (nextLocals u w l) ws) ↔ FlushesFollowed ws := by
          simpa [pendingPiece, nextLocals_prevEpochFlushOp, hw] using hnext
        have hwhole : (Piece.whole l.index w).Matches ⟨l.index, w⟩ := rfl
        simp [pendingPiece, hpend, piecesFrom, piecesAt, emitted, turnOps, hs, hw, hd, hwhole,
          hrest]
    | false =>
      cases hs : w.splitsFlush with
      | true =>
        have hw := DiskWrite.isBarrierWrite_of_splitsFlush hs
        have hrest : List.Forall₂ Piece.Matches
            (.dataHalf l.index w :: piecesFrom (l.index + 1) ws)
            (emitted u (nextLocals u w l) ws) ↔
            (∃ w', ws.head? = some w' ∧ w'.isBarrierWrite = false) ∧ FlushesFollowed ws := by
          simpa [pendingPiece, nextLocals_prevEpochFlushOp, nextLocals_dataHalf, hw, hs]
            using hnext
        simp [pendingPiece, hpend, piecesFrom, piecesAt, emitted, turnOps, hs, hw,
          flagHalf_matches, hrest]
      | false =>
        have hrest : List.Forall₂ Piece.Matches (piecesFrom (l.index + 1) ws)
            (emitted u (nextLocals u w l) ws) ↔ FlushesFollowed ws := by
          simpa [pendingPiece, nextLocals_prevEpochFlushOp, hpend, hs] using hnext
        simp [pendingPiece, hpend, piecesFrom, piecesAt, emitted, turnOps, hs, Piece.Matches,
          hrest]

/-- The first epoch after a pending data half starts with it. -/
theorem splitFrom_pending (u : Uninit) (l : Locals δ) (w : DiskWrite δ) (ws : List (DiskWrite δ))
    (hl : l.prevEpochFlushOp = true) (hw : w.isBarrierWrite = false) :
    ∃ e rest, splitFrom u none l (w :: ws) = e :: rest ∧
      e.ops.head? = some ⟨l.index - 1, l.dataHalf⟩ := by
  obtain ⟨e, rest, he, t, ht⟩ :=
    splitFrom_some u (collectOp w l (newEpoch u l.index)).2 (nextLocals u w l) ws
  refine ⟨e, rest, (splitFrom_plain _ _ _ _ hw).trans he, ?_⟩
  rw [← ht, collectOp_ops u hw]
  simp [turnOps, hl, hw, newEpoch]

/-- Both halves of a divided flush that is followed by no barrier stand at the
boundary between two epochs. -/
theorem splitFrom_halves (u : Uninit) (cur : Option (Epoch δ)) (l : Locals δ)
    (ws : List (DiskWrite δ)) (hf : FlushesFollowed ws) (i : ℕ) (w : DiskWrite δ)
    (hw : ws[i]? = some w) (hs : w.splitsFlush = true) :
    ∃ e ep ep' h d, (splitFrom u cur l ws)[e]? = some ep ∧
      (splitFrom u cur l ws)[e + 1]? = some ep' ∧
      ep.ops.getLast? = some h ∧ (Piece.flushHalf (l.index + i) w).Matches h ∧
      ep'.ops.head? = some d ∧ (Piece.dataHalf (l.index + i) w).Matches d := by
  induction ws generalizing cur l i with
  | nil => simp at hw
  | cons v ws ih =>
    obtain ⟨hv, hws⟩ := (flushesFollowed_cons v ws).mp hf
    cases i with
    | zero =>
      obtain rfl : v = w := by simpa using hw
      obtain ⟨w', hw', hb'⟩ := hv hs
      obtain ⟨v', ws', rfl⟩ : ∃ v' ws', ws = v' :: ws' := by
        cases ws with
        | nil => simp at hw'
        | cons v' ws' => exact ⟨v', ws', rfl⟩
      obtain rfl : v' = w' := by simpa using hw'
      have hb := DiskWrite.isBarrierWrite_of_splitsFlush hs
      obtain ⟨ep', rest, he', hd⟩ := splitFrom_pending u (nextLocals u v l) v' ws'
        (by simp [nextLocals_prevEpochFlushOp, hb, hs]) hb'
      refine ⟨0, (closeEpoch u v l (cur.getD (newEpoch u l.index))).2, ep', _, _, ?_, ?_, ?_,
        flagHalf_matches (u.flagHalf l.index) l.index v, hd, ?_⟩
      · simp [splitFrom_barrier _ _ _ _ hb]
      · simp [splitFrom_barrier _ _ _ _ hb, he']
      · simp [closeEpoch_ops u hb, turnOps, hb, hs]
      · simpa [nextLocals_dataHalf, hs] using dataHalf_matches l.index v
    | succ i =>
      have hidx : l.index + (i + 1) = (nextLocals u v l).index + i := by
        rw [nextLocals_index]
        omega
      rw [hidx]
      cases hb : v.isBarrierWrite with
      | true =>
        obtain ⟨e, ep, ep', h, d, he, he', hrest⟩ := ih none (nextLocals u v l) hws i hw
        refine ⟨e + 1, ep, ep', h, d, ?_, ?_, hrest⟩
        · simpa [splitFrom_barrier _ _ _ _ hb] using he
        · simpa [splitFrom_barrier _ _ _ _ hb] using he'
      | false =>
        rw [splitFrom_plain _ _ _ _ hb]
        exact ih _ (nextLocals u v l) hws i hw

/-- `InitDataVector` divides a log exactly as it should if and only if every
data-carrying flush without FUA is directly followed by an operation that is no
barrier. Otherwise its data half comes too late, with a wrong index, or never. -/
theorem splitsExactly_initDataVector_iff (u : Uninit) (log : List (DiskWrite δ)) :
    SplitsExactly log (initDataVector u log) ↔ FlushesFollowed log := by
  have hops := splitFrom_flatMap_ops u none (initLocals δ u) log
  have hiff := emitted_matches_iff u (initLocals δ u) (initLocals δ u).dataHalf log
    (by simp [initLocals]) (by simp [initLocals])
  simp only [initLocals, pendingPiece] at hiff
  rw [initDataVector_eq_splitFrom]
  constructor
  · intro h
    have hm := h.ops_pieces
    rw [hops] at hm
    exact (hiff.mp hm).2
  · intro hf
    refine ⟨?_, fun i w hw hs => ?_⟩
    · rw [hops]
      exact hiff.mpr ⟨by simp, hf⟩
    · simpa [initLocals] using splitFrom_halves u none (initLocals δ u) log hf i w hw hs

/-- The data half of a flush at the end of the log is pushed nowhere. -/
theorem not_splitsExactly_trailingFlush :
    ¬ SplitsExactly [(⟨⟨0, reqWrite ||| reqFlush, 0, 512⟩, some 0⟩ : DiskWrite ℕ)]
      (initDataVector default [⟨⟨0, reqWrite ||| reqFlush, 0, 512⟩, some 0⟩]) := by
  intro h
  have hlen := h.ops_pieces.length_eq
  rw [initDataVector_eq_splitFrom] at hlen
  revert hlen
  decide

end CrashMonkey
