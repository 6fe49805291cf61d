import CrashMonkey.Lib.Arrangements
import CrashMonkey.Permuter.CrashImages
import CrashMonkey.Permuter.Distinct

namespace CrashMonkey

open Arrangements

variable {δ : Type}

/-- All selections of an epoch: arrangements of some of the slots, and with a barrier
those of all slots with the barrier behind them. -/
def selections (ep : Epoch δ) : List (List ℕ) :=
  ((List.range (slotCount ep)).flatMap fun k =>
      arrangements (k + 1) (List.range (slotCount ep))) ++
    if ep.hasBarrier then
      (arrangements (slotCount ep) (List.range (slotCount ep))).map (· ++ [ep.ops.length - 1])
    else []

def numSelections (ep : Epoch δ) : ℕ :=
  ((List.range (slotCount ep)).map fun k => (slotCount ep).descFactorial (k + 1)).sum +
    if ep.hasBarrier then (slotCount ep).factorial else 0

theorem selections_length (ep : Epoch δ) : (selections ep).length = numSelections ep := by
  have hslots (k : ℕ) : (arrangements k (List.range (slotCount ep))).length =
      (slotCount ep).descFactorial k := by
    rw [length_arrangements, List.length_range]
  rw [selections, numSelections, List.length_append, List.length_flatMap]
  simp only [hslots]
  split_ifs
  · rw [List.length_map, hslots, Nat.descFactorial_self]
  · rfl

theorem slotCount_of_barrier {ep : Epoch δ} (hb : ep.hasBarrier = true) :
    slotCount ep = ep.ops.length - 1 := if_pos hb

theorem lt_of_mem_arrangements {ep : Epoch δ} {k p : ℕ} {ps : List ℕ}
    (hps : ps ∈ arrangements k (List.range (slotCount ep))) (hp : p ∈ ps) : p < slotCount ep :=
  List.mem_range.mp ((mem_arrangements.mp hps).2.subset hp)

theorem nodup_of_mem_arrangements {ep : Epoch δ} {k : ℕ} {ps : List ℕ}
    (hps : ps ∈ arrangements k (List.range (slotCount ep))) : ps.Nodup := by
  obtain ⟨qs, hperm, hsublist⟩ := (mem_arrangements.mp hps).2
  exact hperm.nodup_iff.mp (hsublist.nodup List.nodup_range)

/-- Slots without the barrier. -/
theorem selection_of_slots {ep : Epoch δ} (hne : ep.ops ≠ []) {k : ℕ} {ps : List ℕ}
    (hps : ps ∈ arrangements k (List.range (slotCount ep))) : Selection ep ps := by
  have hpos := List.length_pos_iff.mpr hne
  refine ⟨nodup_of_mem_arrangements hps,
    fun p hp => (lt_of_mem_arrangements hps hp).trans_le (slotCount_le ep), fun hb hmem => ?_⟩
  have hlt := lt_of_mem_arrangements hps hmem
  rw [slotCount_of_barrier hb] at hlt
  omega

/-- All slots, and the barrier behind them. -/
theorem selection_of_barrier {ep : Epoch δ} (hne : ep.ops ≠ []) (hb : ep.hasBarrier = true)
    {qs : List ℕ} (hqs : qs ∈ arrangements (slotCount ep) (List.range (slotCount ep))) :
    Selection ep (qs ++ [ep.ops.length - 1]) := by
  have hpos := List.length_pos_iff.mpr hne
  have hslots := slotCount_of_barrier hb
  have hlen := (mem_arrangements.mp hqs).1
  have hlength : (qs ++ [ep.ops.length - 1]).length = ep.ops.length := by
    rw [List.length_append, List.length_singleton]
    omega
  have hlt : ∀ p ∈ qs, p < ep.ops.length - 1 :=
    fun p hp => hslots ▸ lt_of_mem_arrangements hqs hp
  refine ⟨?_, ?_, fun _ _ => ⟨hlength, List.getLast?_concat⟩⟩
  · apply List.nodup_append.mpr
    refine ⟨nodup_of_mem_arrangements hqs, List.nodup_singleton _, fun p hp b hb => ?_⟩
    rw [List.mem_singleton] at hb
    exact hb ▸ (hlt p hp).ne
  · intro p hp
    rcases List.mem_append.mp hp with hp | hp
    · have hbound := hlt p hp
      omega
    · rw [List.mem_singleton] at hp
      omega

theorem Selection.eq_barrier {ep : Epoch δ} {ps : List ℕ} (h : Selection ep ps)
    (hb : ep.hasBarrier = true) (hmem : ep.ops.length - 1 ∈ ps) :
    ∃ qs ∈ arrangements (slotCount ep) (List.range (slotCount ep)),
      qs ++ [ep.ops.length - 1] = ps := by
  obtain ⟨hall, hlast⟩ := h.barrier hb hmem
  have hslots := slotCount_of_barrier hb
  obtain ⟨qs, rfl⟩ : ∃ qs, qs ++ [ep.ops.length - 1] = ps :=
    ⟨_, List.dropLast_append_getLast? _ hlast⟩
  obtain ⟨hnodup, -, hdisj⟩ := List.nodup_append.mp h.nodup
  rw [List.length_append, List.length_singleton] at hall
  refine ⟨qs, mem_arrangements.mpr ⟨by omega, List.subperm_of_subset hnodup fun p hp => ?_⟩, rfl⟩
  have hlt := h.lt p (List.mem_append_left _ hp)
  have hne := hdisj p hp _ (List.mem_singleton_self _)
  rw [List.mem_range]
  omega

theorem Selection.subperm_slots {ep : Epoch δ} {ps : List ℕ} (h : Selection ep ps)
    (hnot : ¬ (ep.hasBarrier = true ∧ ep.ops.length - 1 ∈ ps)) :
    ps.Subperm (List.range (slotCount ep)) := by
  apply List.subperm_of_subset h.nodup
  intro p hp
  have hlt := h.lt p hp
  rw [List.mem_range, slotCount]
  split_ifs with hb
  · have hne : p ≠ ep.ops.length - 1 := fun e => hnot ⟨hb, e ▸ hp⟩
    omega
  · exact hlt

/-- The arrangements of slots, and those with the barrier. -/
theorem mem_selections {ep : Epoch δ} (hne : ep.ops ≠ []) {ps : List ℕ} :
    ps ∈ selections ep ↔ 1 ≤ ps.length ∧ Selection ep ps := by
  rw [selections, List.mem_append, List.mem_flatMap]
  constructor
  · rintro (⟨k, -, hps⟩ | hps)
    · have hlen := (mem_arrangements.mp hps).1
      exact ⟨by omega, selection_of_slots hne hps⟩
    · split_ifs at hps with hb
      · obtain ⟨qs, hqs, rfl⟩ := List.mem_map.mp hps
        exact ⟨by simp, selection_of_barrier hne hb hqs⟩
      · cases hps
  · rintro ⟨hlen, hsel⟩
    by_cases hb : ep.hasBarrier = true ∧ ep.ops.length - 1 ∈ ps
    · right
      rw [if_pos hb.1]
      exact List.mem_map.mpr (hsel.eq_barrier hb.1 hb.2)
    · have hsubperm := hsel.subperm_slots hb
      have hcount := hsubperm.length_le
      rw [List.length_range] at hcount
      left
      refine ⟨ps.length - 1, List.mem_range.mpr (by omega), ?_⟩
      rw [Nat.sub_add_cancel hlen]
      exact mem_arrangements.mpr ⟨rfl, hsubperm⟩

theorem selections_nodup {ep : Epoch δ} (hne : ep.ops ≠ []) : (selections ep).Nodup := by
  have hpos := List.length_pos_iff.mpr hne
  have hnodup (k : ℕ) := nodup_arrangements (List.nodup_range (n := slotCount ep)) k
  apply List.nodup_append.mpr
  refine ⟨?_, ?_, ?_⟩
  · -- the length of an arrangement tells where it comes from
    rw [List.nodup_flatMap]
    refine ⟨fun k _ => hnodup (k + 1), List.nodup_range.imp ?_⟩
    intro a b hab p ha hb
    have := (mem_arrangements.mp ha).1
    have := (mem_arrangements.mp hb).1
    omega
  · split_ifs
    · apply (hnodup _).map
      exact fun p q h => List.append_cancel_right h
    · exact List.nodup_nil
  · rintro p hp q hq rfl
    obtain ⟨k, hk, hpk⟩ := List.mem_flatMap.mp hp
    have hshort := (mem_arrangements.mp hpk).1
    rw [List.mem_range] at hk
    split_ifs at hq with hb
    · obtain ⟨qs, hqs, rfl⟩ := List.mem_map.mp hq
      have hlong := (mem_arrangements.mp hqs).1
      rw [List.length_append, List.length_singleton] at hshort
      omega
    · cases hq

/-- Different selections are different operations. -/
theorem opsAt_inj {ep : Epoch δ} (hnodup : (ep.ops.map EpochOp.absIndex).Nodup)
    {ps qs : List ℕ} (hp : Selection ep ps) (hq : Selection ep qs)
    (h : opsAt ep ps = opsAt ep qs) : ps = qs := by
  have hindex {ps : List ℕ} (hps : Selection ep ps) : (opsAt ep ps).map EpochOp.absIndex =
      ps.map fun p => (ep.ops.map EpochOp.absIndex).getD p 0 := by
    have hget : ∀ p ∈ ps, ep.ops[p]? = some (ep.ops.getD p defaultOp) := by
      intro p hp
      rw [List.getD_eq_getElem _ _ (hps.lt p hp)]
      exact List.getElem?_eq_getElem (hps.lt p hp)
    rw [opsAt, List.filterMap_congr hget, List.filterMap_eq_map', List.map_map]
    apply List.map_congr_left
    intro p hp
    have hlt := hps.lt p hp
    rw [Function.comp_apply, List.getD_eq_getElem _ _ hlt,
      List.getD_eq_getElem _ _ (by rw [List.length_map]; exact hlt), List.getElem_map]
  have hsub {ps : List ℕ} (hps : Selection ep ps) : ps ⊆ List.range ep.ops.length :=
    fun p hp => List.mem_range.mpr (hps.lt p hp)
  have hrange : (List.range ep.ops.length).map
      (fun p => (ep.ops.map EpochOp.absIndex).getD p 0) = ep.ops.map EpochOp.absIndex := by
    apply List.ext_getElem
    · rw [List.length_map, List.length_map, List.length_range]
    · intro i hi hi'
      rw [List.getElem_map, List.getElem_range, List.getD_eq_getElem _ _ hi']
  apply map_inj_of_subset (hrange ▸ hnodup) (hsub hp) (hsub hq)
  rw [← hindex hp, ← hindex hq, h]

def crashForms : List (Epoch δ) → List (List (EpochOp δ))
  | [] => []
  | ep :: eps => (selections ep).map (opsAt ep) ++ (crashForms eps).map (ep.ops ++ ·)

def numCrashStates (epochs : List (Epoch δ)) : ℕ := (epochs.map numSelections).sum

theorem crashForms_length (epochs : List (Epoch δ)) :
    (crashForms epochs).length = numCrashStates epochs := by
  induction epochs with
  | nil => rfl
  | cons ep eps ih =>
    rw [crashForms, List.length_append, List.length_map, List.length_map, selections_length, ih,
      numCrashStates, numCrashStates, List.map_cons, List.sum_cons]

theorem mem_crashForms {epochs : List (Epoch δ)} (hne : ∀ ep ∈ epochs, ep.ops ≠ [])
    (hoverlaps : ∀ ep ∈ epochs, ep.overlaps = false) {res : List (EpochOp δ)} :
    res ∈ crashForms epochs ↔ CrashForm epochs res := by
  induction epochs generalizing res with
  | nil => exact iff_of_false List.not_mem_nil not_crashForm_nil
  | cons ep eps ih =>
    have hrest (rest : List (EpochOp δ)) : rest ∈ crashForms eps ↔ CrashForm eps rest := ih
      (fun e he => hne e (List.mem_cons_of_mem _ he))
      (fun e he => hoverlaps e (List.mem_cons_of_mem _ he))
    have hblock (block : List (EpochOp δ)) : FullBlock ep block ↔ block = ep.ops := by
      rw [FullBlock, hoverlaps ep List.mem_cons_self, if_neg Bool.false_ne_true]
    rw [crashForms, List.mem_append, List.mem_map, List.mem_map, crashForm_cons]
    simp only [mem_selections (hne ep List.mem_cons_self), hrest, hblock]
    apply or_congr
    · constructor
      · rintro ⟨ps, ⟨hlen, hsel⟩, rfl⟩
        exact ⟨ps, hlen, hsel, rfl⟩
      · rintro ⟨ps, hlen, hsel, rfl⟩
        exact ⟨ps, ⟨hlen, hsel⟩, rfl⟩
    · constructor
      · rintro ⟨rest, h, rfl⟩
        exact ⟨ep.ops, rest, rfl, h, rfl⟩
      · rintro ⟨_, rest, rfl, h, rfl⟩
        exact ⟨rest, h, rfl⟩

theorem CrashForm.ne_nil {epochs : List (Epoch δ)} {res : List (EpochOp δ)}
    (h : CrashForm epochs res) : res ≠ [] := by
  obtain ⟨e, last, blocks, ps, -, -, -, hps, hsel, rfl⟩ := h
  apply List.append_ne_nil_of_right_ne_nil
  apply List.length_pos_iff.mp
  rw [opsAt_length hsel.lt]
  exact hps

theorem crashForms_nodup {epochs : List (Epoch δ)} (hne : ∀ ep ∈ epochs, ep.ops ≠ [])
    (hoverlaps : ∀ ep ∈ epochs, ep.overlaps = false)
    (hnodup : ∀ ep ∈ epochs, (ep.ops.map EpochOp.absIndex).Nodup) : (crashForms epochs).Nodup := by
  induction epochs with
  | nil => exact List.nodup_nil
  | cons ep eps ih =>
    have hne' : ∀ e ∈ eps, e.ops ≠ [] := fun e he => hne e (List.mem_cons_of_mem _ he)
    have hoverlaps' : ∀ e ∈ eps, e.overlaps = false :=
      fun e he => hoverlaps e (List.mem_cons_of_mem _ he)
    have hselection {ps : List ℕ} (hps : ps ∈ selections ep) : Selection ep ps :=
      ((mem_selections (hne ep List.mem_cons_self)).mp hps).2
    apply List.nodup_append.mpr
    refine ⟨?_, ?_, ?_⟩
    · apply (selections_nodup (hne ep List.mem_cons_self)).map_on
      intro ps hps qs hqs h
      exact opsAt_inj (hnodup ep List.mem_cons_self) (hselection hps) (hselection hqs) h
    · apply (ih hne' hoverlaps' fun e he => hnodup e (List.mem_cons_of_mem _ he)).map
      exact fun p q h => List.append_cancel_left h
    · -- what goes on behind a complete epoch is longer than a part of it
      rintro p hp q hq rfl
      obtain ⟨ps, hps, rfl⟩ := List.mem_map.mp hp
      obtain ⟨rest, hrest, heq⟩ := List.mem_map.mp hq
      have hshort := (hselection hps).length_le
      have hlong := List.length_pos_iff.mpr ((mem_crashForms hne' hoverlaps').mp hrest).ne_nil
      have hlen := congrArg List.length heq
      rw [List.length_append, opsAt_length (hselection hps).lt] at hlen
      omega

/-- Draws that give a crash state, whatever is drawn after them. -/
theorem exists_draws {epochs : List (Epoch δ)} (hne : ∀ ep ∈ epochs, ep.ops ≠ [])
    {res : List (EpochOp δ)} (h : CrashForm epochs res) :
    ∃ xs : List ℕ, ∀ old r, genOneState epochs old (xs ++ₛ r) = some ((true, res), r) := by
  obtain ⟨e, last, blocks, ps, he, hlast, hblocks, hps, hsel, rfl⟩ := h
  obtain ⟨m, rfl⟩ := Nat.exists_eq_add_of_le' he
  rw [Nat.add_sub_cancel] at hlast hblocks
  have hlt : m < epochs.length := (List.getElem?_eq_some_iff.mp hlast).1
  obtain ⟨xs, hxs⟩ := exists_fullBlocks (fun ep hep => hne ep (List.mem_of_mem_take hep)) hblocks
  obtain ⟨ys, hys⟩ := exists_positions hsel (hne last (List.mem_of_getElem? hlast))
  refine ⟨(m + 1 - 1) :: (ps.length - 1) :: (xs ++ ys), fun old r => ?_⟩
  have h₁ : Draw.uniform 1 epochs.length
      (((m + 1 - 1) :: (ps.length - 1) :: (xs ++ ys)) ++ₛ r) =
        some (m + 1, ((ps.length - 1) :: (xs ++ ys)) ++ₛ r) :=
    Draw.uniform_cons (by omega) (by omega) _
  have h₂ : Draw.uniform 1 last.ops.length (((ps.length - 1) :: (xs ++ ys)) ++ₛ r) =
      some (ps.length, (xs ++ ys) ++ₛ r) := Draw.uniform_cons hps hsel.length_le _
  rw [genOneState_run hlast hsel.length_le old h₁ h₂, Stream'.append_append_stream]
  simp only [hxs, hys]

/-- A call can hand out any crash state that is left. -/
theorem exists_generateCrashState_fresh {epochs : List (Epoch δ)}
    (hne : ∀ ep ∈ epochs, ep.ops ≠ []) {res : List (EpochOp δ)} (h : CrashForm epochs res)
    {completed : Finset (List ℕ)} (hfresh : crashStateHash res ∉ completed) :
    ∃ xs : List ℕ, ∀ r, generateCrashState (genOneState epochs) completed (xs ++ₛ r) =
      some ((true, res.map EpochOp.op, insert (crashStateHash res) completed), r) := by
  obtain ⟨xs, hxs⟩ := exists_draws hne h
  obtain ⟨left, hleft⟩ := Nat.exists_eq_add_of_le' (maxRetries_pos completed)
  refine ⟨xs, fun r => ?_⟩
  rw [generateCrashState, Draw.stateT_bind, hleft, retryLoop_fresh (hxs [] r) hfresh]
  rfl

/-- Several calls can hand out crash states that are left, in any order. -/
theorem exists_crashStates_fresh {epochs : List (Epoch δ)} (hne : ∀ ep ∈ epochs, ep.ops ≠ [])
    {states : List (List (EpochOp δ))} (hform : ∀ s ∈ states, CrashForm epochs s)
    (hkeys : (states.map crashStateHash).Nodup) {completed : Finset (List ℕ)}
    (hfresh : ∀ s ∈ states, crashStateHash s ∉ completed) :
    ∃ xs : List ℕ, ∀ r, ∃ p,
      Permuter.crashStates genOneState states.length ⟨epochs, completed⟩ (xs ++ₛ r) =
        some ((states.map fun s => (true, s.map EpochOp.op), p), r) := by
  induction states generalizing completed with
  | nil => exact ⟨[], fun r => ⟨_, rfl⟩⟩
  | cons s states ih =>
    obtain ⟨hkey, hkeys'⟩ := List.nodup_cons.mp hkeys
    obtain ⟨xs, hxs⟩ := exists_generateCrashState_fresh hne (hform s List.mem_cons_self)
      (hfresh s List.mem_cons_self)
    have hfresh' : ∀ t ∈ states, crashStateHash t ∉ insert (crashStateHash s) completed := by
      intro t ht hin
      rcases Finset.mem_insert.mp hin with heq | hin
      · exact hkey (heq ▸ List.mem_map_of_mem ht)
      · exact hfresh t (List.mem_cons_of_mem _ ht) hin
    obtain ⟨ys, hys⟩ := ih (fun t ht => hform t (List.mem_cons_of_mem _ ht)) hkeys' hfresh'
    refine ⟨xs ++ ys, fun r => ?_⟩
    obtain ⟨p, hp⟩ := hys r
    refine ⟨p, ?_⟩
    rw [List.length_cons, Permuter.crashStates_succ, Stream'.append_append_stream, hxs,
      Option.bind_some, hp]
    rfl

/-- No run hands out more than `N` crash states, any `N` different ones are handed out in
any order by some run, and no call finds a new one exactly when `N` were handed out. -/
structure Explores (epochs : List (Epoch δ)) (N : ℕ) : Prop where
  bound : ∀ n r xs p r', Permuter.crashStates genOneState n ⟨epochs, ∅⟩ r = some ((xs, p), r') →
    (xs.filter Prod.fst).length ≤ N
  exhausted : ∀ n r xs p r',
    Permuter.crashStates genOneState n ⟨epochs, ∅⟩ r = some ((xs, p), r') →
    ((xs.filter Prod.fst).length = N ↔ ∀ s ret R done s',
      generateCrashState (genOneState epochs) p.completed s = some ((ret, R, done), s') →
        ret = false)
  orders : ∃ states, states.length = N ∧ states.Nodup ∧ (∀ s, s ∈ states ↔ Draws epochs s) ∧
    ∀ order : List (List (EpochOp δ)), order.Perm states → ∃ r p r',
      Permuter.crashStates genOneState N ⟨epochs, ∅⟩ r =
        some ((order.map fun s => (true, s.map EpochOp.op), p), r')

/-- The keys that a run completes are those of as many crash states as it hands out. -/
theorem exists_handedOut {epochs : List (Epoch δ)} (hne : ∀ ep ∈ epochs, ep.ops ≠ [])
    {n : ℕ} {r r' : Stream' ℕ} {xs : List (Bool × List (DiskWrite δ))} {p : Permuter δ}
    (h : Permuter.crashStates genOneState n ⟨epochs, ∅⟩ r = some ((xs, p), r')) :
    ∃ states : List (List (EpochOp δ)), (∀ s ∈ states, CrashForm epochs s) ∧
      (xs.filter Prod.fst).length = states.length ∧ (states.map crashStateHash).Nodup ∧
      ∀ key, key ∈ p.completed ↔ key ∈ states.map crashStateHash := by
  by_cases hnil : epochs = []
  · subst hnil
    cases n with
    | zero =>
      have h : some (([], ⟨[], ∅⟩), r) = some ((xs, p), r') := h
      cases h
      exact ⟨[], nofun, rfl, List.nodup_nil, by simp⟩
    | succ n =>
      rw [Permuter.crashStates_succ, generateCrashState_nil] at h
      cases h
  · obtain ⟨states, hform, hstates, hnodup, -, hmem⟩ := crashStates_completed hne hnil h
    refine ⟨states, hform, ?_, hnodup, fun key => ?_⟩
    · have hlen := congrArg List.length hstates
      rwa [List.length_map, List.length_map] at hlen
    · rw [hmem]
      simp

section Log

variable (u : Uninit) (log : List (DiskWrite δ))

theorem initDataVector_nodup :
    ∀ ep ∈ initDataVector u log, (ep.ops.map EpochOp.absIndex).Nodup := by
  intro ep hep
  obtain ⟨k, hk⟩ := List.getElem?_of_mem hep
  exact (absIndex_sorted u hk).imp fun h => Nat.ne_of_lt h

theorem mem_crashForms_initDataVector {s : List (EpochOp δ)} :
    s ∈ crashForms (initDataVector u log) ↔ CrashForm (initDataVector u log) s :=
  mem_crashForms (initDataVector_ops_ne_nil u log) (initDataVector_overlaps u log)

theorem crashForms_initDataVector_nodup : (crashForms (initDataVector u log)).Nodup :=
  crashForms_nodup (initDataVector_ops_ne_nil u log) (initDataVector_overlaps u log)
    (initDataVector_nodup u log)

/-- Crash states with different keys are different ones of the list. -/
theorem subperm_crashForms {states : List (List (EpochOp δ))}
    (hform : ∀ s ∈ states, CrashForm (initDataVector u log) s)
    (hkeys : (states.map crashStateHash).Nodup) :
    states.Subperm (crashForms (initDataVector u log)) := by
  apply List.subperm_of_subset hkeys.of_map
  exact fun s hs => (mem_crashForms_initDataVector u log).mpr (hform s hs)

/-- In any order the crash states are handed out by some run. -/
theorem exists_crashStates_order {order : List (List (EpochOp δ))}
    (horder : order.Perm (crashForms (initDataVector u log))) :
    ∃ r p r', Permuter.crashStates genOneState (numCrashStates (initDataVector u log))
      ⟨initDataVector u log, ∅⟩ r =
        some ((order.map fun s => (true, s.map EpochOp.op), p), r') := by
  have hform : ∀ s ∈ order, CrashForm (initDataVector u log) s := fun s hs =>
    (mem_crashForms_initDataVector u log).mp (horder.mem_iff.mp hs)
  have hkeys : (order.map crashStateHash).Nodup := by
    apply (horder.nodup_iff.mpr (crashForms_initDataVector_nodup u log)).map_on
    exact fun s hs t ht h => crashForm_inj (initDataVector_nodup u log) (hform s hs) (hform t ht) h
  obtain ⟨xs, hxs⟩ := exists_crashStates_fresh (initDataVector_ops_ne_nil u log) hform hkeys
    fun s _ => Finset.notMem_empty (crashStateHash s)
  obtain ⟨p, hp⟩ := hxs (Stream'.const 0)
  rw [horder.length_eq, crashForms_length] at hp
  exact ⟨_, p, _, hp⟩

/-- With all crash states handed out no call finds a new one. -/
theorem ret_false_of_all {n : ℕ} {r : Stream' ℕ} {xs : List (Bool × List (DiskWrite δ))}
    {p : Permuter δ} {r' : Stream' ℕ}
    (h : Permuter.crashStates genOneState n ⟨initDataVector u log, ∅⟩ r = some ((xs, p), r'))
    (hall : (xs.filter Prod.fst).length = numCrashStates (initDataVector u log))
    {s s' : Stream' ℕ} {ret : Bool} {R : List (DiskWrite δ)} {done : Finset (List ℕ)}
    (hcall : generateCrashState (genOneState (initDataVector u log)) p.completed s =
      some ((ret, R, done), s')) : ret = false := by
  have hne := initDataVector_ops_ne_nil u log
  obtain ⟨states, hform, hlen, hkeys, hcompleted⟩ := exists_handedOut hne h
  have hsub := subperm_crashForms u log hform hkeys
  have hnil : initDataVector u log ≠ [] := by
    intro hnil
    rw [hnil, generateCrashState_nil] at hcall
    cases hcall
  obtain ⟨res, hres, -, ⟨-, hnew, -⟩ | ⟨hret, -⟩⟩ := generateCrashState_cases hne hnil hcall
  · have hperm := hsub.perm_of_length_le (by rw [crashForms_length]; omega)
    have hin : res ∈ states :=
      hperm.mem_iff.mpr ((mem_crashForms_initDataVector u log).mpr hres)
    exact absurd ((hcompleted _).mpr (List.mem_map_of_mem hin)) hnew
  · exact hret

/-- Before that some draws give a new one. -/
theorem exists_ret_true {n : ℕ} {r : Stream' ℕ} {xs : List (Bool × List (DiskWrite δ))}
    {p : Permuter δ} {r' : Stream' ℕ}
    (h : Permuter.crashStates genOneState n ⟨initDataVector u log, ∅⟩ r = some ((xs, p), r'))
    (hleft : (xs.filter Prod.fst).length ≠ numCrashStates (initDataVector u log)) :
    ∃ s R done s', generateCrashState (genOneState (initDataVector u log)) p.completed s =
      some ((true, R, done), s') := by
  have hne := initDataVector_ops_ne_nil u log
  obtain ⟨states, hform, hlen, hkeys, hcompleted⟩ := exists_handedOut hne h
  have hle := (subperm_crashForms u log hform hkeys).length_le
  rw [crashForms_length] at hle
  obtain ⟨res, hres, hnew⟩ : ∃ res ∈ crashForms (initDataVector u log), res ∉ states := by
    by_contra hno
    push Not at hno
    have hall := (List.subperm_of_subset (crashForms_initDataVector_nodup u log) hno).length_le
    rw [crashForms_length] at hall
    omega
  have hres' := (mem_crashForms_initDataVector u log).mp hres
  have hfresh : crashStateHash res ∉ p.completed := by
    intro hin
    obtain ⟨t, ht, heq⟩ := List.mem_map.mp ((hcompleted _).mp hin)
    apply hnew
    rwa [← crashForm_inj (initDataVector_nodup u log) (hform t ht) hres' heq]
  obtain ⟨ys, hys⟩ := exists_generateCrashState_fresh hne hres' hfresh
  exact ⟨_, _, _, _, hys (Stream'.const 0)⟩

/-- The crash states of any log are as many as its epochs have selections. -/
theorem explores_initDataVector :
    Explores (initDataVector u log) (numCrashStates (initDataVector u log)) where
  bound n r xs p r' h := by
    obtain ⟨states, hform, hlen, hkeys, -⟩ :=
      exists_handedOut (initDataVector_ops_ne_nil u log) h
    rw [hlen, ← crashForms_length]
    exact (subperm_crashForms u log hform hkeys).length_le
  exhausted n r xs p r' h := by
    constructor
    · exact fun hall s ret R done s' hcall => ret_false_of_all u log h hall hcall
    · intro hfalse
      by_contra hleft
      obtain ⟨s, R, done, s', hcall⟩ := exists_ret_true u log h hleft
      cases hfalse s true R done s' hcall
  orders := by
    have hne := initDataVector_ops_ne_nil u log
    refine ⟨crashForms (initDataVector u log), crashForms_length _,
      crashForms_initDataVector_nodup u log, fun s => ?_,
      fun order horder => exists_crashStates_order u log horder⟩
    rw [mem_crashForms_initDataVector, ← genOneState_iff hne []]
    constructor
    · exact fun ⟨r, r', h⟩ => ⟨[], r, r', h⟩
    · exact fun ⟨old, r, r', h⟩ => (genOneState_iff hne [] s).mpr
        ((genOneState_iff hne old s).mp ⟨r, r', h⟩)

end Log

/-- A plain write, a flush with data and two plain writes: the second epoch has three
operations, which are arranged in 3 + 6 + 6 ways. -/
example : numCrashStates (splitFrom default none (initLocals ℕ default)
    [⟨⟨0, reqWrite, 0, 512⟩, some 0⟩, ⟨⟨0, reqWrite ||| reqFlush, 1, 512⟩, some 1⟩,
      ⟨⟨0, reqWrite, 2, 512⟩, some 2⟩, ⟨⟨0, reqWrite, 3, 512⟩, some 3⟩]) = 19 := by
  decide

end CrashMonkey
