import CrashMonkey.Permuter.Permuter

/-!
# Where a payload comes from

The permuter copies payload pointers and never looks through them. So it can be
run on the log whose payloads are labelled with their log index: the labels of a
crash state then say which log writes it contains, and without the labels it is
the crash state of the log itself.
-/

namespace CrashMonkey
open Draw

variable {δ δ' : Type}

def DiskWrite.mapData (f : Option δ → Option δ') (w : DiskWrite δ) : DiskWrite δ' :=
  ⟨w.metadata, f w.data⟩

def EpochOp.mapData (f : Option δ → Option δ') (o : EpochOp δ) : EpochOp δ' :=
  ⟨o.absIndex, o.op.mapData f⟩

def Epoch.mapData (f : Option δ → Option δ') (e : Epoch δ) : Epoch δ' :=
  ⟨e.numMeta, e.hasBarrier, e.overlaps, e.ops.map (EpochOp.mapData f)⟩

def Locals.mapData (f : Option δ → Option δ') (l : Locals δ) : Locals δ' :=
  ⟨l.index, l.prevEpochFlushOp, l.dataHalf.mapData f, l.overlaps⟩

section Map

variable (f : Option δ → Option δ')

@[simp] theorem mapData_isBarrierWrite (w : DiskWrite δ) :
    (w.mapData f).isBarrierWrite = w.isBarrierWrite := rfl

@[simp] theorem mapData_splitsFlush (w : DiskWrite δ) :
    (w.mapData f).splitsFlush = w.splitsFlush := rfl

theorem push_mapData (e : Epoch δ) (i : ℕ) (w : DiskWrite δ) :
    (e.push i w).mapData f = (e.mapData f).push i (w.mapData f) := by
  simp [Epoch.push, Epoch.mapData, EpochOp.mapData]
  rfl

theorem flagHalf_mapData (hf : f none = none) (stale : DiskWriteOpMeta) (w : DiskWrite δ) :
    (w.flagHalf stale).mapData f = (w.mapData f).flagHalf stale := by
  have h₁ : (w.mapData f).hasFlushFlag = w.hasFlushFlag := rfl
  have h₂ : (w.mapData f).hasFlushSeqFlag = w.hasFlushSeqFlag := rfl
  unfold DiskWrite.flagHalf
  rw [h₁, h₂]
  split_ifs <;>
    simp [DiskWrite.mapData, DiskWrite.setFlushFlag, DiskWrite.setFlushSeqFlag, hf]

theorem dataHalf_mapData (w : DiskWrite δ) :
    w.dataHalf.mapData f = (w.mapData f).dataHalf := by
  have h₁ : (w.mapData f).hasFlushFlag = w.hasFlushFlag := rfl
  have h₂ : (w.mapData f).hasFlushSeqFlag = w.hasFlushSeqFlag := rfl
  unfold DiskWrite.dataHalf
  rw [h₁, h₂]
  split_ifs <;> rfl

theorem emitDataHalf_mapData (l : Locals δ) (e : Epoch δ) :
    emitDataHalf (l.mapData f) (e.mapData f) =
      ((emitDataHalf l e).1.mapData f, (emitDataHalf l e).2.mapData f) := by
  have h : (l.mapData f).prevEpochFlushOp = l.prevEpochFlushOp := rfl
  simp only [emitDataHalf, h]
  split_ifs
  · rw [push_mapData]
    rfl
  · rfl

theorem collectOp_mapData (w : DiskWrite δ) (l : Locals δ) (e : Epoch δ) :
    collectOp (w.mapData f) (l.mapData f) (e.mapData f) =
      ((collectOp w l e).1.mapData f, (collectOp w l e).2.mapData f) := by
  simp only [collectOp, emitDataHalf_mapData, push_mapData]
  rfl

theorem closeEpoch_mapData (hf : f none = none) (u : Uninit) (w : DiskWrite δ) (l : Locals δ)
    (e : Epoch δ) :
    closeEpoch u (w.mapData f) (l.mapData f) (e.mapData f) =
      ((closeEpoch u w l e).1.mapData f, (closeEpoch u w l e).2.mapData f) := by
  have hi : (l.mapData f).index = l.index := rfl
  simp only [closeEpoch, mapData_splitsFlush, hi, ← flagHalf_mapData f hf, ← dataHalf_mapData,
    ← push_mapData]
  split_ifs <;> rfl

theorem nextLocals_mapData (hf : f none = none) (u : Uninit) (w : DiskWrite δ) (l : Locals δ) :
    nextLocals u (w.mapData f) (l.mapData f) = (nextLocals u w l).mapData f := by
  have hnew (i : ℕ) : newEpoch u i = (newEpoch u i : Epoch δ).mapData f := rfl
  unfold nextLocals
  rw [mapData_isBarrierWrite, hnew, closeEpoch_mapData f hf, collectOp_mapData]
  split_ifs <;> rfl

theorem splitFrom_mapData (hf : f none = none) (u : Uninit) (cur : Option (Epoch δ))
    (l : Locals δ) (ws : List (DiskWrite δ)) :
    splitFrom u (cur.map (Epoch.mapData f)) (l.mapData f) (ws.map (DiskWrite.mapData f)) =
      (splitFrom u cur l ws).map (Epoch.mapData f) := by
  have hcur (cur : Option (Epoch δ)) (i : ℕ) : (cur.map (Epoch.mapData f)).getD (newEpoch u i) =
      (cur.getD (newEpoch u i)).mapData f := by
    cases cur <;> rfl
  induction ws generalizing cur l with
  | nil => cases cur <;> rfl
  | cons w ws ih =>
    have hi : (l.mapData f).index = l.index := rfl
    cases hw : w.isBarrierWrite with
    | true =>
      rw [List.map_cons, splitFrom_barrier _ _ _ _ hw, splitFrom_barrier _ _ _ _ (by exact hw), hi,
        hcur, closeEpoch_mapData f hf, nextLocals_mapData f hf, List.map_cons]
      exact congrArg _ (ih none _)
    | false =>
      rw [List.map_cons, splitFrom_plain _ _ _ _ hw, splitFrom_plain _ _ _ _ (by exact hw), hi,
        hcur, collectOp_mapData, nextLocals_mapData f hf]
      exact ih (some _) _

theorem initDataVector_mapData (hf : f none = none) (u : Uninit) (log : List (DiskWrite δ)) :
    initDataVector u (log.map (DiskWrite.mapData f)) =
      (initDataVector u log).map (Epoch.mapData f) := by
  have hinit : initLocals δ' u = (initLocals δ u).mapData f := by
    simp [initLocals, Locals.mapData, DiskWrite.mapData, hf]
  rw [initDataVector_eq_splitFrom, initDataVector_eq_splitFrom, hinit]
  exact splitFrom_mapData f hf u none _ log

end Map

def EpochOp.Alike (S : DiskWrite δ → DiskWrite δ' → Prop) (o : EpochOp δ) (o' : EpochOp δ') :
    Prop := o.absIndex = o'.absIndex ∧ S o.op o'.op

/-- Epochs that a random permuter takes the same draws from. -/
structure Epoch.Alike (S : DiskWrite δ → DiskWrite δ' → Prop) (e : Epoch δ) (e' : Epoch δ') :
    Prop where
  hasBarrier : e.hasBarrier = e'.hasBarrier
  overlaps : e.overlaps = e'.overlaps
  ops : List.Forall₂ (EpochOp.Alike S) e.ops e'.ops

section Alike

variable {S : DiskWrite δ → DiskWrite δ' → Prop} {e : Epoch δ} {e' : Epoch δ'}
  {epochs : List (Epoch δ)} {epochs' : List (Epoch δ')}

theorem Epoch.Alike.positions (h : e.Alike S e') (n : ℕ) (r : Stream' ℕ) :
    positions e n r = positions e' n r := by
  have hslots : slotCount e = slotCount e' := by
    rw [slotCount, slotCount, h.hasBarrier, h.ops.length_eq]
  simp only [CrashMonkey.positions, hslots, h.ops.length_eq]

theorem rel_getElem? {α β : Type*} {R : α → β → Prop} {xs : List α} {ys : List β}
    (h : List.Forall₂ R xs ys) (i : ℕ) : Option.Rel R xs[i]? ys[i]? := by
  induction h generalizing i with
  | nil => exact .none
  | cons hxy _ ih =>
    cases i with
    | zero => exact .some hxy
    | succ i => exact ih i

theorem Epoch.Alike.opsAt (h : e.Alike S e') (ps : List ℕ) :
    List.Forall₂ (EpochOp.Alike S) (opsAt e ps) (opsAt e' ps) := by
  refine List.rel_filterMap (R := Eq) ?_ (List.forall₂_same.mpr fun _ _ => rfl)
  rintro p _ rfl
  exact rel_getElem? h.ops p

theorem Epoch.Alike.fullBlock (h : e.Alike S e') (r : Stream' ℕ) :
    List.Forall₂ (EpochOp.Alike S) (fullBlock e r).1 (fullBlock e' r).1 ∧
      (fullBlock e r).2 = (fullBlock e' r).2 := by
  unfold CrashMonkey.fullBlock
  rw [h.overlaps, h.positions, h.ops.length_eq]
  split_ifs
  · exact ⟨h.opsAt _, rfl⟩
  · exact ⟨h.ops, rfl⟩

theorem fullBlocks_alike (h : List.Forall₂ (Epoch.Alike S) epochs epochs') (r : Stream' ℕ) :
    List.Forall₂ (List.Forall₂ (EpochOp.Alike S)) (fullBlocks epochs r).1
        (fullBlocks epochs' r).1 ∧
      (fullBlocks epochs r).2 = (fullBlocks epochs' r).2 := by
  induction h generalizing r with
  | nil => exact ⟨.nil, rfl⟩
  | cons he _ ih =>
    obtain ⟨hblock, hr⟩ := he.fullBlock r
    obtain ⟨hblocks, hrest⟩ := ih (fullBlock _ r).2
    simp only [fullBlocks, ← hr]
    exact ⟨.cons hblock hblocks, hrest⟩

theorem drawnState_alike (h : List.Forall₂ (Epoch.Alike S) epochs epochs') (r : Stream' ℕ) :
    List.Forall₂ (EpochOp.Alike S) (drawnState epochs r).1 (drawnState epochs' r).1 ∧
      (drawnState epochs r).2 = (drawnState epochs' r).2 := by
  have hlast := rel_getElem? h (r.head % epochs.length)
  obtain ⟨hblocks, hr⟩ :=
    fullBlocks_alike (List.forall₂_take (r.head % epochs.length) h) r.tail.tail
  simp only [drawnState, ← h.length_eq]
  generalize epochs[r.head % epochs.length]? = last at hlast
  generalize epochs'[r.head % epochs.length]? = last' at hlast
  cases hlast with
  | none => exact ⟨.nil, rfl⟩
  | some hlast =>
    dsimp only
    rw [← hr, ← hlast.ops.length_eq, ← hlast.positions]
    exact ⟨List.rel_append (List.rel_flatten hblocks) (hlast.opsAt _), rfl⟩

theorem crashStateHash_alike {s : List (EpochOp δ)} {s' : List (EpochOp δ')}
    (h : List.Forall₂ (EpochOp.Alike S) s s') : crashStateHash s = crashStateHash s' := by
  induction h with
  | nil => rfl
  | cons ho _ ih => exact congrArg₂ List.cons ho.1 ih

theorem ops_ne_nil_of_alike (h : List.Forall₂ (Epoch.Alike S) epochs epochs')
    (hne : ∀ ep ∈ epochs, ep.ops ≠ []) : ∀ ep ∈ epochs', ep.ops ≠ [] := by
  induction h with
  | nil => nofun
  | cons he _ ih =>
    obtain ⟨hfirst, hrest⟩ := List.forall_mem_cons.mp hne
    refine List.forall_mem_cons.mpr ⟨fun hnil => hfirst ?_, ih hrest⟩
    exact List.forall₂_nil_right_iff.mp (hnil ▸ he.ops)

theorem retryLoop_alike (h : List.Forall₂ (Epoch.Alike S) epochs epochs')
    (hne : ∀ ep ∈ epochs, ep.ops ≠ []) (hnil : epochs ≠ []) (completed : Finset (List ℕ))
    (left : ℕ) (old : List (EpochOp δ)) (old' : List (EpochOp δ')) (r : Stream' ℕ) :
    Option.Rel (fun x x' => x.1.1 = x'.1.1 ∧ List.Forall₂ (EpochOp.Alike S) x.1.2.1 x'.1.2.1 ∧
        x.1.2.2 = x'.1.2.2 ∧ x.2 = x'.2)
      (retryLoop (genOneState epochs) completed left old r)
      (retryLoop (genOneState epochs') completed left old' r) := by
  have hne' := ops_ne_nil_of_alike h hne
  have hnil' : epochs' ≠ [] := by
    rintro rfl
    exact hnil (List.forall₂_nil_right_iff.mp h)
  induction left generalizing old old' r with
  | zero => exact .none
  | succ left ih =>
    obtain ⟨hstate, hr⟩ := drawnState_alike h r
    simp only [retryLoop, stateT_bind, genOneState_eq hne hnil, genOneState_eq hne' hnil',
      Option.bind_some, ← crashStateHash_alike hstate, ← hr]
    split_ifs
    all_goals first | exact ih _ _ _ | exact .some ⟨rfl, hstate, rfl, rfl⟩

/-- From epochs that are alike the same draws give crash states that are alike. -/
theorem generateCrashState_alike (h : List.Forall₂ (Epoch.Alike S) epochs epochs')
    (hne : ∀ ep ∈ epochs, ep.ops ≠ []) (hnil : epochs ≠ []) (completed : Finset (List ℕ))
    (r : Stream' ℕ) :
    Option.Rel (fun x x' => x.1.1 = x'.1.1 ∧ List.Forall₂ S x.1.2.1 x'.1.2.1 ∧
        x.1.2.2 = x'.1.2.2 ∧ x.2 = x'.2)
      (generateCrashState (genOneState epochs) completed r)
      (generateCrashState (genOneState epochs') completed r) := by
  have hloop := retryLoop_alike h hne hnil completed (maxRetries completed) [] [] r
  simp only [generateCrashState, stateT_bind]
  generalize retryLoop (genOneState epochs) completed (maxRetries completed) [] r = y at hloop ⊢
  generalize retryLoop (genOneState epochs') completed (maxRetries completed) [] r = y' at hloop ⊢
  cases hloop with
  | none => exact .none
  | @some x x' hx =>
    obtain ⟨⟨newState, crashState, exist⟩, r'⟩ := x
    obtain ⟨⟨newState', crashState', exist'⟩, r''⟩ := x'
    obtain ⟨rfl, hstate, rfl, rfl⟩ := hx
    have hops : List.Forall₂ S (crashState.map EpochOp.op) (crashState'.map EpochOp.op) := by
      rw [List.forall₂_map_left_iff, List.forall₂_map_right_iff]
      exact hstate.imp fun _ _ ho => ho.2
    cases exist with
    | false => exact .some ⟨rfl, hops, by rw [crashStateHash_alike hstate], rfl⟩
    | true => exact .some ⟨rfl, hops, rfl, rfl⟩

end Alike

/-- Other payloads make no difference to the draws. -/
theorem epochs_alike_mapData (f : Option δ → Option δ') (epochs : List (Epoch δ)) :
    List.Forall₂ (Epoch.Alike fun w w' => w.mapData f = w') epochs
      (epochs.map (Epoch.mapData f)) := by
  refine List.forall₂_map_right_iff.mpr (List.forall₂_same.mpr fun ep _ => ⟨rfl, rfl, ?_⟩)
  exact List.forall₂_map_right_iff.mpr (List.forall₂_same.mpr fun o _ => ⟨rfl, rfl⟩)

theorem generateCrashState_mapData (f : Option δ → Option δ') {epochs : List (Epoch δ)}
    (hne : ∀ ep ∈ epochs, ep.ops ≠ []) (hnil : epochs ≠ []) (completed : Finset (List ℕ))
    (r : Stream' ℕ) :
    generateCrashState (genOneState (epochs.map (Epoch.mapData f))) completed r =
      (generateCrashState (genOneState epochs) completed r).map fun x =>
        ((x.1.1, x.1.2.1.map (DiskWrite.mapData f), x.1.2.2), x.2) := by
  have halike := generateCrashState_alike (epochs_alike_mapData f epochs) hne hnil completed r
  generalize generateCrashState (genOneState epochs) completed r = y at halike
  generalize generateCrashState (genOneState (epochs.map (Epoch.mapData f))) completed r = y'
    at halike
  cases halike with
  | none => rfl
  | @some x x' hx =>
    obtain ⟨⟨ret, R, done⟩, r'⟩ := x
    obtain ⟨⟨ret', R', done'⟩, r''⟩ := x'
    obtain ⟨rfl, hR, rfl, rfl⟩ := hx
    have hmap : R' = R.map (DiskWrite.mapData f) := by
      rw [← List.forall₂_eq_eq_eq, List.forall₂_map_right_iff]
      exact hR.flip.imp fun _ _ hw => hw.symm
    rw [hmap]
    rfl

end CrashMonkey
