import CrashMonkey.Permuter.Epochs

/-!
# The split of a log into epochs

The two nested loops of `InitDataVector` are one pass over the log (`splitFrom`).
What the pass pushes at each log index is compared with the pieces a log should
be divided into: every operation whole, but a data-carrying flush as a flush half
that ends an epoch and a data half that starts the next one.
-/

namespace CrashMonkey

variable {δ : Type}

def nextLocals (u : Uninit) (w : DiskWrite δ) (l : Locals δ) : Locals δ :=
  if w.isBarrierWrite then (closeEpoch u w l (newEpoch u l.index)).1
  else (collectOp w l (newEpoch u l.index)).1

def turnOps (u : Uninit) (w : DiskWrite δ) (l : Locals δ) : List (EpochOp δ) :=
  if w.isBarrierWrite then
    [⟨l.index, if w.splitsFlush then w.flagHalf (u.flagHalf l.index) else w⟩]
  else (if l.prevEpochFlushOp then [⟨l.index - 1, l.dataHalf⟩] else []) ++ [⟨l.index, w⟩]

/-- Both loops of `InitDataVector` as one recursion on the rest of the log; `cur`
is the epoch under construction, if there is one. -/
def splitFrom (u : Uninit) : Option (Epoch δ) → Locals δ → List (DiskWrite δ) → List (Epoch δ)
  | cur, _, [] => cur.toList
  | cur, l, w :: ws =>
    let e := cur.getD (newEpoch u l.index)
    if w.isBarrierWrite then (closeEpoch u w l e).2 :: splitFrom u none (nextLocals u w l) ws
    else splitFrom u (some (collectOp w l e).2) (nextLocals u w l) ws

theorem splitFrom_barrier (u : Uninit) (cur : Option (Epoch δ)) (l : Locals δ)
    (ws : List (DiskWrite δ)) {w : DiskWrite δ} (hw : w.isBarrierWrite = true) :
    splitFrom u cur l (w :: ws) = (closeEpoch u w l (cur.getD (newEpoch u l.index))).2 ::
      splitFrom u none (nextLocals u w l) ws := by
  simp [splitFrom, hw]

theorem splitFrom_plain (u : Uninit) (cur : Option (Epoch δ)) (l : Locals δ)
    (ws : List (DiskWrite δ)) {w : DiskWrite δ} (hw : w.isBarrierWrite = false) :
    splitFrom u cur l (w :: ws) =
      splitFrom u (some (collectOp w l (cur.getD (newEpoch u l.index))).2)
        (nextLocals u w l) ws := by
  simp [splitFrom, hw]

theorem collectOp_locals (w : DiskWrite δ) (l : Locals δ) (e e' : Epoch δ) :
    (collectOp w l e).1 = (collectOp w l e').1 := by
  simp only [collectOp, emitDataHalf]
  split_ifs <;> rfl

theorem closeEpoch_locals (u : Uninit) (w : DiskWrite δ) (l : Locals δ) (e e' : Epoch δ) :
    (closeEpoch u w l e).1 = (closeEpoch u w l e').1 := by
  simp only [closeEpoch]
  split_ifs <;> rfl

theorem splitFrom_collectOps (u : Uninit) (ws : List (DiskWrite δ)) (l : Locals δ) (e : Epoch δ) :
    splitFrom u (some e) l ws = match collectOps ws l e with
      | ([], _, e') => [e']
      | (b :: rest, l', e') =>
        (closeEpoch u b l' e').2 :: splitFrom u none (closeEpoch u b l' e').1 rest := by
  induction ws generalizing l e with
  | nil => rfl
  | cons w ws ih =>
    by_cases hw : w.isBarrierWrite = true
    · simp only [splitFrom, collectOps, nextLocals, hw, if_true, Option.getD_some]
      rw [closeEpoch_locals u w l _ e]
    · simp only [splitFrom, collectOps, nextLocals, hw, Option.getD_some]
      rw [collectOp_locals w l _ e]
      exact ih _ _

theorem initLoop_eq_splitFrom (u : Uninit) (ws : List (DiskWrite δ)) (l : Locals δ) :
    initLoop u ws l = splitFrom u none l ws := by
  induction ws, l using initLoop.induct u with
  | case1 l => simp [initLoop, splitFrom]
  | case2 w ws l l' e h =>
    have hs : splitFrom u none l (w :: ws) =
        splitFrom u (some (newEpoch u l.index)) l (w :: ws) := rfl
    rw [hs, splitFrom_collectOps, initLoop, h]
  | case3 w ws l b rest l' e h ih =>
    have hs : splitFrom u none l (w :: ws) =
        splitFrom u (some (newEpoch u l.index)) l (w :: ws) := rfl
    rw [hs, splitFrom_collectOps, initLoop, h]
    simp only [ih]

def initLocals (δ : Type) (u : Uninit) : Locals δ := ⟨0, false, ⟨u.dataHalf, none⟩, []⟩

theorem initDataVector_eq_splitFrom (u : Uninit) (log : List (DiskWrite δ)) :
    initDataVector u log = splitFrom u none (initLocals δ u) log :=
  initLoop_eq_splitFrom u log _

theorem DiskWrite.isBarrierWrite_of_splitsFlush {w : DiskWrite δ} (h : w.splitsFlush = true) :
    w.isBarrierWrite = true := by
  simp only [DiskWrite.splitsFlush, DiskWrite.isBarrierWrite, DiskWriteOpMeta.cIsBarrierWrite,
    DiskWrite.hasFlushFlag, DiskWrite.hasFlushSeqFlag, DiskWrite.hasWriteFlag,
    DiskWriteOpMeta.cHasFlushFlag, DiskWriteOpMeta.cHasFlushSeqFlag,
    DiskWriteOpMeta.cHasWriteFlag, Bool.and_eq_true, Bool.or_eq_true] at h ⊢
  tauto

theorem DiskWrite.hasWriteFlag_of_isBarrierWrite {w : DiskWrite δ}
    (h : w.isBarrierWrite = true) : w.hasWriteFlag = true := by
  simp only [DiskWrite.isBarrierWrite, DiskWriteOpMeta.cIsBarrierWrite, Bool.and_eq_true] at h
  exact h.2

@[simp] theorem nextLocals_index (u : Uninit) (w : DiskWrite δ) (l : Locals δ) :
    (nextLocals u w l).index = l.index + 1 := by
  unfold nextLocals closeEpoch collectOp
  split_ifs <;> rfl

theorem nextLocals_prevEpochFlushOp (u : Uninit) (w : DiskWrite δ) (l : Locals δ) :
    (nextLocals u w l).prevEpochFlushOp =
      (w.isBarrierWrite && (w.splitsFlush || l.prevEpochFlushOp)) := by
  unfold nextLocals closeEpoch collectOp emitDataHalf
  split_ifs <;> simp_all

theorem nextLocals_dataHalf (u : Uninit) (w : DiskWrite δ) (l : Locals δ) :
    (nextLocals u w l).dataHalf = if w.splitsFlush then w.dataHalf else l.dataHalf := by
  by_cases hb : w.isBarrierWrite = true
  · unfold nextLocals closeEpoch
    split_ifs <;> rfl
  · have hs : ¬ w.splitsFlush = true := fun h => hb (DiskWrite.isBarrierWrite_of_splitsFlush h)
    unfold nextLocals collectOp emitDataHalf
    split_ifs <;> rfl

theorem flagHalf_data (stale : DiskWriteOpMeta) (w : DiskWrite δ) :
    (w.flagHalf stale).data = none := by
  unfold DiskWrite.flagHalf
  split_ifs <;> rfl

theorem dataHalf_data (w : DiskWrite δ) : w.dataHalf.data = w.data := by
  unfold DiskWrite.dataHalf
  split_ifs <;> rfl

theorem collectOp_ops (u : Uninit) {w : DiskWrite δ} (hw : w.isBarrierWrite = false)
    (l : Locals δ) (e : Epoch δ) : (collectOp w l e).2.ops = e.ops ++ turnOps u w l := by
  unfold collectOp emitDataHalf turnOps
  cases l.prevEpochFlushOp <;> simp [hw]

theorem closeEpoch_ops (u : Uninit) {w : DiskWrite δ} (hw : w.isBarrierWrite = true)
    (l : Locals δ) (e : Epoch δ) : (closeEpoch u w l e).2.ops = e.ops ++ turnOps u w l := by
  unfold closeEpoch turnOps
  cases w.splitsFlush <;> simp [hw]

/-- The epoch under construction is the first one that is pushed, and grows. -/
theorem splitFrom_some (u : Uninit) (e : Epoch δ) (l : Locals δ) (ws : List (DiskWrite δ)) :
    ∃ e' rest, splitFrom u (some e) l ws = e' :: rest ∧ e.ops <+: e'.ops := by
  induction ws generalizing e l with
  | nil => exact ⟨e, [], rfl, List.prefix_refl _⟩
  | cons w ws ih =>
    cases hw : w.isBarrierWrite with
    | true =>
      refine ⟨(closeEpoch u w l e).2, splitFrom u none (nextLocals u w l) ws,
        splitFrom_barrier _ _ _ _ hw, ?_⟩
      rw [closeEpoch_ops u hw]
      exact List.prefix_append _ _
    | false =>
      obtain ⟨e', rest, he, hpre⟩ := ih (collectOp w l e).2 (nextLocals u w l)
      refine ⟨e', rest, (splitFrom_plain _ _ _ _ hw).trans he, ?_⟩
      rw [collectOp_ops u hw] at hpre
      exact (List.prefix_append _ _).trans hpre

def emitted (u : Uninit) : Locals δ → List (DiskWrite δ) → List (EpochOp δ)
  | _, [] => []
  | l, w :: ws => turnOps u w l ++ emitted u (nextLocals u w l) ws

theorem splitFrom_flatMap_ops (u : Uninit) (cur : Option (Epoch δ)) (l : Locals δ)
    (ws : List (DiskWrite δ)) :
    (splitFrom u cur l ws).flatMap Epoch.ops = cur.elim [] Epoch.ops ++ emitted u l ws := by
  have hcur (i : ℕ) : (cur.getD (newEpoch u i)).ops = cur.elim [] Epoch.ops := by
    cases cur <;> rfl
  induction ws generalizing cur l with
  | nil => cases cur <;> simp [splitFrom, emitted]
  | cons w ws ih =>
    cases hw : w.isBarrierWrite with
    | true =>
      simp only [splitFrom_barrier _ _ _ _ hw, List.flatMap_cons, closeEpoch_ops u hw, emitted,
        hcur]
      rw [ih none _ (fun _ => rfl)]
      simp
    | false =>
      rw [splitFrom_plain _ _ _ _ hw, ih _ _ (fun _ => rfl)]
      simp [collectOp_ops u hw, emitted, hcur]

end CrashMonkey
