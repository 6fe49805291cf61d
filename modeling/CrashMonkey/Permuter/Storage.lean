import CrashMonkey.Permuter.Calls
import CrashMonkey.Permuter.Provenance
import CrashMonkey.Permuter.WriteGroups

namespace CrashMonkey

/-- The same operation, or two that write nothing. -/
def SameWrite (w w' : DiskWrite Payload) : Prop :=
  w = w' ∨ w.hasWriteFlag = false ∧ w'.hasWriteFlag = false

/-- Locals that differ at most in a data half that is not pending. -/
structure Locals.Alike (l l' : Locals Payload) : Prop where
  index : l.index = l'.index
  prevEpochFlushOp : l.prevEpochFlushOp = l'.prevEpochFlushOp
  overlaps : l.overlaps = l'.overlaps
  dataHalf : l.prevEpochFlushOp = true → l.dataHalf = l'.dataHalf

section Pass

variable {u u' : Uninit} {l l' : Locals Payload} {e e' : Epoch Payload} {w w' : DiskWrite Payload}

theorem Epoch.Alike.push (h : e.Alike SameWrite e') (i : ℕ) (hw : SameWrite w w') :
    (e.push i w).Alike SameWrite (e'.push i w') where
  hasBarrier := h.hasBarrier
  overlaps := h.overlaps
  ops := List.rel_append h.ops (.cons ⟨rfl, hw⟩ .nil)

theorem Epoch.Alike.emitDataHalf (h : e.Alike SameWrite e') (hl : l.Alike l') :
    (emitDataHalf l e).2.Alike SameWrite (emitDataHalf l' e').2 := by
  unfold CrashMonkey.emitDataHalf
  rw [← hl.prevEpochFlushOp, ← hl.index]
  split_ifs with hpending
  · exact h.push _ (.inl (hl.dataHalf hpending))
  · exact h

theorem Epoch.Alike.collectOp (h : e.Alike SameWrite e') (hl : l.Alike l')
    (w : DiskWrite Payload) :
    (collectOp w l e).2.Alike SameWrite (collectOp w l' e').2 := by
  obtain ⟨hbarrier, hoverlaps, hops⟩ := h.emitDataHalf hl
  simp only [CrashMonkey.collectOp, ← hl.overlaps, ← hl.index]
  rw [hoverlaps]
  apply Epoch.Alike.push _ _ (.inl rfl)
  exact ⟨hbarrier, rfl, hops⟩

theorem Epoch.Alike.closeEpoch (h : e.Alike SameWrite e') (hl : l.Alike l')
    (hquiet : w.splitsFlush = true → hasFlag (u.flagHalf l.index).biRw reqWrite = false)
    (hquiet' : w.splitsFlush = true → hasFlag (u'.flagHalf l.index).biRw reqWrite = false) :
    (closeEpoch u w l e).2.Alike SameWrite (closeEpoch u' w l' e').2 := by
  unfold CrashMonkey.closeEpoch
  rw [← hl.index]
  split_ifs with hs
  · exact h.push _ (.inr ⟨flagHalf_hasWriteFlag (hquiet hs) w, flagHalf_hasWriteFlag (hquiet' hs) w⟩)
  · have hpush := h.push l.index (.inl (rfl : w = w))
    exact ⟨rfl, hpush.overlaps, hpush.ops⟩

theorem Locals.Alike.next (hl : l.Alike l') (w : DiskWrite Payload) :
    (nextLocals u w l).Alike (nextLocals u' w l') := by
  unfold nextLocals CrashMonkey.closeEpoch CrashMonkey.collectOp CrashMonkey.emitDataHalf
  rw [← hl.index, ← hl.overlaps, ← hl.prevEpochFlushOp]
  split_ifs with hbarrier hs hpending
  · exact ⟨rfl, rfl, rfl, fun _ => rfl⟩
  · exact ⟨rfl, rfl, rfl, hl.dataHalf⟩
  · exact ⟨rfl, rfl, rfl, nofun⟩
  · exact ⟨rfl, hl.prevEpochFlushOp, rfl, hl.dataHalf⟩

theorem getD_alike {cur cur' : Option (Epoch Payload)}
    (h : Option.Rel (Epoch.Alike SameWrite) cur cur') (u u' : Uninit) (i j : ℕ) :
    (cur.getD (newEpoch u i)).Alike SameWrite (cur'.getD (newEpoch u' j)) := by
  cases h with
  | none => exact ⟨rfl, rfl, .nil⟩
  | some h => exact h

theorem splitFrom_alike {cur cur' : Option (Epoch Payload)}
    (h : Option.Rel (Epoch.Alike SameWrite) cur cur') (hl : l.Alike l')
    (ws : List (DiskWrite Payload))
    (hquiet : ∀ b w, ws[b]? = some w → w.splitsFlush = true →
      hasFlag (u.flagHalf (l.index + b)).biRw reqWrite = false)
    (hquiet' : ∀ b w, ws[b]? = some w → w.splitsFlush = true →
      hasFlag (u'.flagHalf (l.index + b)).biRw reqWrite = false) :
    List.Forall₂ (Epoch.Alike SameWrite) (splitFrom u cur l ws) (splitFrom u' cur' l' ws) := by
  induction ws generalizing cur cur' l l' with
  | nil =>
    cases h with
    | none => exact .nil
    | some h => exact .cons h .nil
  | cons w ws ih =>
    have hcur := getD_alike h u u' l.index l'.index
    have hrest {v : Uninit} (hv : ∀ b w', (w :: ws)[b]? = some w' → w'.splitsFlush = true →
        hasFlag (v.flagHalf (l.index + b)).biRw reqWrite = false) (b : ℕ) (w' : DiskWrite Payload)
        (hw' : ws[b]? = some w') (hs : w'.splitsFlush = true) :
        hasFlag (v.flagHalf ((nextLocals u w l).index + b)).biRw reqWrite = false := by
      rw [nextLocals_index, Nat.add_assoc, Nat.add_comm 1 b]
      exact hv (b + 1) w' hw' hs
    cases hw : w.isBarrierWrite with
    | true =>
      rw [splitFrom_barrier _ _ _ _ hw, splitFrom_barrier _ _ _ _ hw]
      exact .cons (hcur.closeEpoch hl (hquiet 0 w rfl) (hquiet' 0 w rfl))
        (ih .none (hl.next w) (hrest hquiet) (hrest hquiet'))
    | false =>
      rw [splitFrom_plain _ _ _ _ hw, splitFrom_plain _ _ _ _ hw]
      exact ih (.some (hcur.collectOp hl w)) (hl.next w) (hrest hquiet) (hrest hquiet')

end Pass

/-- What was left in quiet storage makes no difference to what is written. -/
theorem initDataVector_alike {u u' : Uninit} {log : List (DiskWrite Payload)}
    (hquiet : QuietStorage u log) (hquiet' : QuietStorage u' log) :
    List.Forall₂ (Epoch.Alike SameWrite) (initDataVector u log) (initDataVector u' log) := by
  rw [initDataVector_eq_splitFrom, initDataVector_eq_splitFrom]
  have hl : (initLocals Payload u).Alike (initLocals Payload u') :=
    ⟨rfl, rfl, rfl, fun hpending => absurd hpending Bool.false_ne_true⟩
  refine splitFrom_alike .none hl log ?_ ?_
  · intro b w hw hs
    rw [initLocals, Nat.zero_add]
    exact hquiet b w hw hs
  · intro b w hw hs
    rw [initLocals, Nat.zero_add]
    exact hquiet' b w hw hs

/-- Permuters with the same log and quiet storage hand out the same writes for the same
draws. -/
theorem crashStates_storage {u u' : Uninit} {log : List (DiskWrite Payload)} (hlog : log ≠ [])
    (hquiet : QuietStorage u log) (hquiet' : QuietStorage u' log) {n : ℕ}
    {completed : Finset (List ℕ)} {r r' : Stream' ℕ}
    {xs : List (Bool × List (DiskWrite Payload))} {p : Permuter Payload}
    (h : Permuter.crashStates genOneState n ⟨initDataVector u log, completed⟩ r =
      some ((xs, p), r')) :
    ∃ xs' p', Permuter.crashStates genOneState n ⟨initDataVector u' log, completed⟩ r =
        some ((xs', p'), r') ∧
      List.Forall₂ (fun x x' => x.1 = x'.1 ∧ List.Forall₂ SameWrite x.2 x'.2) xs xs' := by
  induction n generalizing completed r xs p with
  | zero =>
    cases h
    exact ⟨[], _, rfl, .nil⟩
  | succ n ih =>
    rw [Permuter.crashStates_succ] at h ⊢
    obtain ⟨⟨⟨ret, R, done⟩, r₁⟩, hcall, h⟩ := Option.bind_eq_some_iff.mp h
    obtain ⟨⟨⟨ys, q⟩, r₂⟩, hrest, heq⟩ := Option.map_eq_some_iff.mp h
    cases heq
    obtain ⟨ys', q', hrest', hys⟩ := ih hrest
    have halike := generateCrashState_alike (initDataVector_alike hquiet hquiet')
      (initDataVector_ops_ne_nil u log) (mt (initDataVector_eq_nil_iff u log).mp hlog) completed r
    rw [hcall] at halike
    generalize generateCrashState (genOneState (initDataVector u' log)) completed r = y at halike ⊢
    cases halike with
    | @some _ x' hx =>
      obtain ⟨⟨ret', R', done'⟩, r₁'⟩ := x'
      obtain ⟨hret, hR, hdone, hr⟩ := hx
      dsimp only at hret hR hdone hr
      subst hret hdone hr
      refine ⟨(ret, R') :: ys', q', ?_, .cons ⟨rfl, hR⟩ hys⟩
      rw [Option.bind_some, hrest', Option.map_some]

end CrashMonkey
