import CrashMonkey.Permuter.RandomPermuter

namespace CrashMonkey
open Draw

variable {δ : Type}

/-- The positions of the epoch that `n` draws select, in order: the barrier is
no empty slot, and comes last when it is wanted too. -/
def positions (ep : Epoch δ) (n : ℕ) (r : Stream' ℕ) : List ℕ × Stream' ℕ :=
  let picked := Draw.pick n (List.range (slotCount ep)) r
  (if picked.1.length = n then picked.1 else picked.1 ++ [ep.ops.length - 1], picked.2)

def opsAt (ep : Epoch δ) (ps : List ℕ) : List (EpochOp δ) := ps.filterMap fun p => ep.ops[p]?

theorem opsAt_length {ep : Epoch δ} {ps : List ℕ} (h : ∀ p ∈ ps, p < ep.ops.length) :
    (opsAt ep ps).length = ps.length := by
  induction ps with
  | nil => rfl
  | cons p ps ih =>
    have hp := h p List.mem_cons_self
    simp only [opsAt, List.filterMap_cons, List.getElem?_eq_getElem hp, List.length_cons]
    rw [← ih fun q hq => h q (List.mem_cons_of_mem _ hq)]
    rfl

theorem opsAt_append (ep : Epoch δ) (ps qs : List ℕ) :
    opsAt ep (ps ++ qs) = opsAt ep ps ++ opsAt ep qs := List.filterMap_append

theorem opsAt_last {ep : Epoch δ} {o : EpochOp δ} (h : ep.ops.getLast? = some o) :
    opsAt ep [ep.ops.length - 1] = [o] := by
  rw [List.getLast?_eq_getElem?] at h
  simp [opsAt, h]

theorem opsAt_range (ep : Epoch δ) : opsAt ep (List.range ep.ops.length) = ep.ops := by
  have h : opsAt ep (List.range ep.ops.length) =
      (List.range ep.ops.length).filterMap fun p => ep.ops[p]? := rfl
  rw [h]
  generalize ep.ops = ops
  induction ops with
  | nil => rfl
  | cons o ops ih =>
    rw [List.length_cons, List.range_succ_eq_map, List.filterMap_cons, List.filterMap_map]
    exact congrArg (o :: ·) ih

theorem slotCount_le (ep : Epoch δ) : slotCount ep ≤ ep.ops.length := by
  unfold slotCount
  split_ifs <;> omega

theorem pick_lt (ep : Epoch δ) (n : ℕ) (r : Stream' ℕ) :
    ∀ p ∈ (Draw.pick n (List.range (slotCount ep)) r).1, p < slotCount ep := fun _ hp =>
  List.mem_range.mp ((Draw.pick_subperm _ _ _).subset hp)

theorem positions_length {ep : Epoch δ} {n : ℕ} (hn : n ≤ ep.ops.length) (r : Stream' ℕ) :
    (positions ep n r).1.length = n := by
  have hlen := Draw.pick_length n (List.range (slotCount ep)) r
  rw [List.length_range] at hlen
  simp only [positions]
  split_ifs with h
  · exact h
  · have hslots : ep.ops.length ≤ slotCount ep + 1 := by
      unfold slotCount
      split_ifs <;> omega
    simp only [List.length_append, List.length_singleton]
    omega

theorem positions_lt {ep : Epoch δ} {n : ℕ} (hn : n ≤ ep.ops.length) (r : Stream' ℕ) :
    ∀ p ∈ (positions ep n r).1, p < ep.ops.length := by
  intro p hp
  have hle := slotCount_le ep
  simp only [positions] at hp
  split_ifs at hp with h
  · exact (pick_lt ep n r p hp).trans_le hle
  · have hlen := Draw.pick_length n (List.range (slotCount ep)) r
    rw [List.length_range] at hlen
    rcases List.mem_append.mp hp with hp | hp
    · exact (pick_lt ep n r p hp).trans_le hle
    · rw [List.mem_singleton] at hp
      omega

theorem placeSlots_run (ep : Epoch δ) (n : ℕ) (slots : List ℕ) (res : List (EpochOp δ))
    (start : ℕ) (r : Stream' ℕ) (hslots : ∀ s ∈ slots, s < ep.ops.length)
    (hres : start + n ≤ res.length) :
    placeSlots ep n slots res start r =
      some ((Buffer.overwrite res start (opsAt ep (Draw.pick n slots r).1),
        start + (Draw.pick n slots r).1.length), (Draw.pick n slots r).2) := by
  induction n generalizing slots res start r with
  | zero => simp [placeSlots, Draw.pick, opsAt, stateT_pure]
  | succ n ih =>
    cases slots with
    | nil => simp [placeSlots, Draw.pick, opsAt, stateT_pure]
    | cons s slots =>
      have hk : r.head % (slots.length + 1) < (s :: slots).length :=
        Nat.mod_lt _ (Nat.succ_pos _)
      have hslot := hslots _ (List.getElem_mem hk)
      have hidx : 0 + r.head % ((s :: slots).length - 1 - 0 + 1) =
          r.head % (slots.length + 1) := by simp
      have hrest := ih ((s :: slots).eraseIdx (r.head % (slots.length + 1)))
        (Buffer.overwrite res start [ep.ops[(s :: slots)[r.head % (slots.length + 1)]]])
        (start + 1) r.tail (fun t ht => hslots t (List.mem_of_mem_eraseIdx ht))
        (by rw [Buffer.overwrite_length (by simp; omega)]; omega)
      simp only [placeSlots, stateT_bind, Draw.uniform_run (Nat.zero_le _), Option.bind_some, hidx,
        List.getElem?_eq_getElem hk, List.getElem?_eq_getElem hslot, stateT_lift,
        Buffer.store_eq _ (show start < res.length by omega)]
      rw [hrest]
      have hwrite (xs : List (EpochOp δ)) :=
        Buffer.overwrite_overwrite [ep.ops[(s :: slots)[r.head % (slots.length + 1)]]] xs
          (show start + 1 ≤ res.length by omega)
      simp only [List.length_singleton] at hwrite
      simp only [Draw.pick, List.getD_eq_getElem _ _ hk]
      rw [hwrite]
      simp only [opsAt, List.filterMap_cons, List.getElem?_eq_getElem hslot, List.length_cons,
        List.singleton_append, Nat.add_assoc, Nat.add_comm 1]

/-- `permute_epoch` writes the selected operations and nothing else. -/
theorem permuteEpoch_run {ep : Epoch δ} {n : ℕ} (hn : n ≤ ep.ops.length)
    (res : List (EpochOp δ)) (start : ℕ) (hres : start + n ≤ res.length) (r : Stream' ℕ) :
    ∃ e, permuteEpoch res start (start + n) ep r =
      some ((Buffer.overwrite res start (opsAt ep (positions ep n r).1), e),
        (positions ep n r).2) := by
  have hn' : start + n - start = n := by omega
  have hplace := placeSlots_run ep n (List.range (slotCount ep)) res start r
    (fun s hs => (List.mem_range.mp hs).trans_le (slotCount_le ep)) hres
  have hlen := Draw.pick_length n (List.range (slotCount ep)) r
  rw [List.length_range] at hlen
  have hops := opsAt_length fun p hp => (pick_lt ep n r p hp).trans_le (slotCount_le ep)
  by_cases hall : (Draw.pick n (List.range (slotCount ep)) r).1.length = n
  · refine ⟨start + n, ?_⟩
    simp [permuteEpoch, stateT_bind, hn, hplace, hall, stateT_pure, positions]
  · -- the slots ran out, so the barrier is wanted too
    have hb : ep.hasBarrier = true := by
      by_contra hb
      have hslots : slotCount ep = ep.ops.length := by simp [slotCount, hb]
      omega
    have hslots : slotCount ep = ep.ops.length - 1 := by simp [slotCount, hb]
    have hnil : ep.ops ≠ [] := List.length_pos_iff.mp (by omega)
    obtain ⟨last, hlast⟩ : ∃ last, ep.ops.getLast? = some last :=
      ⟨_, List.getLast?_eq_some_getLast hnil⟩
    have hpicked : (Draw.pick n (List.range (slotCount ep)) r).1.length = ep.ops.length - 1 := by
      omega
    have hroom : start + (opsAt ep (Draw.pick n (List.range (slotCount ep)) r).1).length ≤
        res.length := by omega
    have hwrite := Buffer.overwrite_overwrite _ [last] hroom
    have hpos : start + (ep.ops.length - 1) < (Buffer.overwrite res start
        (opsAt ep (Draw.pick n (List.range (slotCount ep)) r).1)).length := by
      rw [Buffer.overwrite_length hroom]
      omega
    have hstore := Buffer.store_eq last hpos
    rw [hops, hpicked] at hwrite
    rw [hwrite] at hstore
    refine ⟨start + (ep.ops.length - 1), ?_⟩
    have hne : ¬ ep.ops.length - 1 = n := by omega
    simp only [permuteEpoch, stateT_bind, hn', stateT_guard hn, hplace, hpicked, Option.bind_some,
      Nat.add_left_cancel_iff, hne, if_false, stateT_guard hb, hlast, stateT_lift, hstore, stateT_pure,
      positions]
    rw [opsAt_append, opsAt_last hlast]

/-- Distinct positions of the epoch; a barrier is taken only after all the other
operations. -/
structure Selection (ep : Epoch δ) (ps : List ℕ) : Prop where
  nodup : ps.Nodup
  lt : ∀ p ∈ ps, p < ep.ops.length
  barrier : ep.hasBarrier = true → ep.ops.length - 1 ∈ ps →
    ps.length = ep.ops.length ∧ ps.getLast? = some (ep.ops.length - 1)

theorem positions_selection {ep : Epoch δ} {n : ℕ} (hne : ep.ops ≠ []) (hn : n ≤ ep.ops.length)
    (r : Stream' ℕ) : Selection ep (positions ep n r).1 := by
  have hpos := List.length_pos_iff.mpr hne
  have hlen := positions_length hn r
  have hpicked := Draw.pick_length n (List.range (slotCount ep)) r
  have hnodup : (Draw.pick n (List.range (slotCount ep)) r).1.Nodup :=
    Draw.pick_nodup List.nodup_range _ _
  rw [List.length_range] at hpicked
  refine ⟨?_, positions_lt hn r, fun hb hmem => ?_⟩
  · simp only [positions]
    split_ifs with h
    · exact hnodup
    · refine List.nodup_append.mpr ⟨hnodup, List.nodup_singleton _, fun a ha b hb' => ?_⟩
      rw [List.mem_singleton] at hb'
      have hlt := pick_lt ep n r a ha
      have hslots : slotCount ep ≤ ep.ops.length - 1 := by
        unfold slotCount at h hpicked ⊢
        split_ifs at h hpicked ⊢ <;> omega
      omega
  · have hslots : slotCount ep = ep.ops.length - 1 := by simp [slotCount, hb]
    simp only [positions] at hlen hmem ⊢
    split_ifs at hlen hmem ⊢ with h
    · have := pick_lt ep n r _ hmem
      omega
    · refine ⟨?_, by simp⟩
      rw [hlen]
      simp only [List.length_append, List.length_singleton] at hlen
      omega

/-- Every selection is drawn. -/
theorem exists_positions {ep : Epoch δ} {ps : List ℕ} (hs : Selection ep ps)
    (hne : ep.ops ≠ []) :
    ∃ xs : List ℕ, ∀ r, positions ep ps.length (xs ++ₛ r) = (ps, r) := by
  have hpos := List.length_pos_iff.mpr hne
  by_cases hb : ep.hasBarrier = true ∧ ep.ops.length - 1 ∈ ps
  · obtain ⟨hlen, hlast⟩ := hs.barrier hb.1 hb.2
    have hslots : slotCount ep = ep.ops.length - 1 := by simp [slotCount, hb.1]
    obtain ⟨init, rfl⟩ : ∃ init, init ++ [ep.ops.length - 1] = ps :=
      ⟨_, List.dropLast_append_getLast? _ hlast⟩
    simp only [List.length_append, List.length_singleton] at hlen
    obtain ⟨hnodup, -, hdisj⟩ := List.nodup_append.mp hs.nodup
    have hsub : init ⊆ List.range (slotCount ep) := by
      intro p hp
      have hlt := hs.lt p (by simp [hp])
      have hne := hdisj p hp (ep.ops.length - 1) (by simp)
      rw [List.mem_range]
      omega
    obtain ⟨xs, hxs⟩ := Draw.exists_pick (n := init.length + 1)
      (List.subperm_of_subset hnodup hsub) (by rw [List.length_range]; omega)
    refine ⟨xs, fun r => ?_⟩
    simp [positions, hxs]
  · have hsub : ps ⊆ List.range (slotCount ep) := by
      intro p hp
      have hlt := hs.lt p hp
      rw [List.mem_range]
      unfold slotCount
      split_ifs with h
      · have hne : p ≠ ep.ops.length - 1 := fun e => hb ⟨h, e ▸ hp⟩
        omega
      · exact hlt
    have hsp := List.subperm_of_subset hs.nodup hsub
    obtain ⟨xs, hxs⟩ := Draw.exists_pick (n := ps.length) hsp
      (min_eq_left hsp.length_le).symm
    refine ⟨xs, fun r => ?_⟩
    simp [positions, hxs]

end CrashMonkey
