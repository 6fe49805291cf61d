import CrashMonkey.Permuter.Calls
import CrashMonkey.Permuter.Provenance
import CrashMonkey.Permuter.Turns

/-!
# Selections and their keys

A crash state is a sequence of slots: the position of each operation in its epoch. The
permuter remembers crash states by log index, and two slots can have the same one. The
key still determines the slots: its length says which epoch is the last, and inside an
epoch the log indices grow.
-/

namespace CrashMonkey
open Draw

variable {δ : Type}

/-- A pending data half waits at the first index after a barrier. -/
theorem Waiting.barrier_before {log : List (DiskWrite δ)} {p n : ℕ} (h : Waiting log p n)
    (hn : n ≤ log.length) : ∃ w, log[n - 1]? = some w ∧ w.isBarrierWrite = true := by
  obtain ⟨hlt, ⟨v, hv, hs⟩, hbetween⟩ := h
  obtain rfl | hne := eq_or_ne p (n - 1)
  · exact ⟨v, hv, DiskWrite.isBarrierWrite_of_splitsFlush hs⟩
  · have hw := List.getElem?_eq_getElem (show n - 1 < log.length by omega)
    exact ⟨_, hw, (hbetween (n - 1) _ (by omega) (by omega) hw).1⟩

/-- What is pushed at `n` carries the index `n`, or that of the barrier before it. -/
theorem opsOn_absIndex (u : Uninit) {log : List (DiskWrite δ)} {n : ℕ} (hn : n < log.length) :
    (opsOn u log n).map EpochOp.absIndex = [n] ∨
      (∃ w, 0 < n ∧ log[n - 1]? = some w ∧ w.isBarrierWrite = true) ∧
        (opsOn u log n).map EpochOp.absIndex = [n - 1, n] := by
  have hw := List.getElem?_eq_getElem hn
  rw [opsOn_eq u hw, turnOps, localsAt_index u hn.le]
  by_cases hb : log[n].isBarrierWrite = true
  · rw [if_pos hb]
    exact .inl rfl
  · rw [if_neg hb]
    cases hprev : (localsAt u log n).prevEpochFlushOp with
    | false => exact .inl rfl
    | true =>
      obtain ⟨p, hp⟩ := (localsAt_pending u log hn.le).1.mp hprev
      obtain ⟨w, hbefore⟩ := hp.barrier_before hn.le
      exact .inr ⟨⟨w, (Nat.zero_le p).trans_lt hp.1, hbefore⟩, rfl⟩

theorem absIndex_sorted (u : Uninit) {log : List (DiskWrite δ)} {k : ℕ} {ep : Epoch δ}
    (hep : (initDataVector u log)[k]? = some ep) :
    (ep.ops.map EpochOp.absIndex).Pairwise (· < ·) := by
  rw [initDataVector_ops u hep, List.map_flatMap, List.pairwise_flatMap]
  constructor
  · intro n hn
    obtain h | ⟨⟨w, hpos, -⟩, h⟩ := opsOn_absIndex u (mem_turnsOf.mp hn).2.1
    · rw [h]
      exact List.pairwise_singleton _ _
    · rw [h]
      exact List.pairwise_pair.mpr (by omega)
  · have hsorted : (turnsOf log 0 k).Pairwise (· < ·) := (List.pairwise_lt_range').filter _
    refine hsorted.imp_of_mem fun {m n} hm hn hmn a ha b hb => ?_
    obtain ⟨-, hmlt, hmk⟩ := mem_turnsOf.mp hm
    obtain ⟨-, hnlt, hnk⟩ := mem_turnsOf.mp hn
    have ham : a ≤ m := by
      obtain h | ⟨-, h⟩ := opsOn_absIndex u hmlt <;> rw [h] at ha <;> simp at ha <;> omega
    obtain h | ⟨⟨w, hpos, hw, hbar⟩, h⟩ := opsOn_absIndex u hnlt
    · rw [h, List.mem_singleton] at hb
      omega
    · -- the barrier before `n` is in an earlier epoch than `m`
      have hlt := epochOf_lt hw hbar (show n - 1 < n by omega)
      have hmono := epochOf_mono log (show m ≤ n - 1 by omega)
      omega

/-- Lists of elements of `l` are told apart by `f` when the elements of `l` are. -/
theorem map_inj_of_subset {α β : Type*} {f : α → β} {l xs ys : List α} (h : (l.map f).Nodup)
    (hx : xs ⊆ l) (hy : ys ⊆ l) (hmap : xs.map f = ys.map f) : xs = ys := by
  have hinj := List.inj_on_of_nodup_map h
  induction xs generalizing ys with
  | nil => exact (List.map_eq_nil_iff.mp hmap.symm).symm
  | cons x xs ih =>
    cases ys with
    | nil => cases hmap
    | cons y ys =>
      obtain ⟨hhead, htail⟩ := List.cons.inj hmap
      obtain ⟨hx₀, hxs⟩ := List.cons_subset.mp hx
      obtain ⟨hy₀, hys⟩ := List.cons_subset.mp hy
      rw [hinj hx₀ hy₀ hhead, ih hxs hys htail]

theorem opsAt_subset (ep : Epoch δ) (ps : List ℕ) : opsAt ep ps ⊆ ep.ops := by
  intro o ho
  obtain ⟨p, -, hp⟩ := List.mem_filterMap.mp ho
  exact List.mem_of_getElem? hp

theorem blocks_length {eps : List (Epoch δ)} {blocks : List (List (EpochOp δ))}
    (h : List.Forall₂ FullBlock eps blocks) : blocks.flatten.length = totalOps eps := by
  induction h with
  | nil => rfl
  | cons hb _ ih =>
    rw [List.flatten_cons, List.length_append, ih, hb.perm.length_eq]
    rfl

theorem blocks_inj {eps : List (Epoch δ)} {bs cs : List (List (EpochOp δ))}
    (hnodup : ∀ ep ∈ eps, (ep.ops.map EpochOp.absIndex).Nodup)
    (hb : List.Forall₂ FullBlock eps bs) (hc : List.Forall₂ FullBlock eps cs)
    (h : bs.flatten.map EpochOp.absIndex = cs.flatten.map EpochOp.absIndex) : bs = cs := by
  induction hb generalizing cs with
  | nil =>
    cases hc
    rfl
  | @cons ep b eps bs hb hbs ih =>
    cases hc with
    | @cons _ c _ cs hc hcs =>
      rw [List.flatten_cons, List.flatten_cons, List.map_append, List.map_append] at h
      obtain ⟨hhead, htail⟩ := List.append_inj h (by simp [hb.perm.length_eq, hc.perm.length_eq])
      rw [map_inj_of_subset (hnodup ep List.mem_cons_self) hb.perm.subset hc.perm.subset hhead,
        ih (fun e he => hnodup e (List.mem_cons_of_mem _ he)) hcs htail]

theorem totalOps_take_succ {epochs : List (Epoch δ)} {m : ℕ} {ep : Epoch δ}
    (h : epochs[m]? = some ep) :
    totalOps (epochs.take (m + 1)) = totalOps (epochs.take m) + ep.ops.length := by
  simp [totalOps, List.take_add_one, h]

theorem totalOps_take_mono (epochs : List (Epoch δ)) {m n : ℕ} (h : m ≤ n) :
    totalOps (epochs.take m) ≤ totalOps (epochs.take n) :=
  ((List.take_sublist_take_left h).map _).sum_le_sum fun _ _ => Nat.zero_le _

theorem Selection.length_le {ep : Epoch δ} {ps : List ℕ} (h : Selection ep ps) :
    ps.length ≤ ep.ops.length := by
  have hsub : ps ⊆ List.range ep.ops.length := fun p hp => List.mem_range.mpr (h.lt p hp)
  simpa using (List.subperm_of_subset h.nodup hsub).length_le

/-- Crash states of one permuter with the same key are the same. -/
theorem crashForm_inj {epochs : List (Epoch δ)}
    (hnodup : ∀ ep ∈ epochs, (ep.ops.map EpochOp.absIndex).Nodup) {s t : List (EpochOp δ)}
    (hs : CrashForm epochs s) (ht : CrashForm epochs t)
    (hkey : crashStateHash s = crashStateHash t) : s = t := by
  obtain ⟨e, last, bs, ps, he, hlast, hbs, hps, hsel, rfl⟩ := hs
  obtain ⟨e', last', cs, qs, he', hlast', hcs, hqs, hsel', rfl⟩ := ht
  obtain ⟨m, rfl⟩ := Nat.exists_eq_add_of_le' he
  obtain ⟨n, rfl⟩ := Nat.exists_eq_add_of_le' he'
  rw [Nat.add_sub_cancel] at hlast hbs hlast' hcs
  have hlen := congrArg List.length hkey
  simp only [crashStateHash, List.length_map, List.length_append, blocks_length hbs,
    blocks_length hcs, opsAt_length hsel.lt, opsAt_length hsel'.lt] at hlen
  -- the length determines the number of epochs
  have aux {m n a b : ℕ} {ep : Epoch δ} (hep : epochs[m]? = some ep) (ha : a ≤ ep.ops.length)
      (hb : 1 ≤ b) (h : totalOps (epochs.take m) + a = totalOps (epochs.take n) + b) : n ≤ m := by
    by_contra hlt
    have hle := totalOps_take_mono epochs (not_le.mp hlt)
    rw [Nat.succ_eq_add_one, totalOps_take_succ hep] at hle
    omega
  obtain rfl : m = n := le_antisymm (aux hlast' hsel'.length_le hps hlen.symm)
    (aux hlast hsel.length_le hqs hlen)
  obtain rfl : last = last' := by simpa [hlast] using hlast'
  -- and the log indices the operations
  rw [crashStateHash, crashStateHash, List.map_append, List.map_append] at hkey
  obtain ⟨hblocks, hops⟩ := List.append_inj hkey
    (by rw [List.length_map, List.length_map, blocks_length hbs, blocks_length hcs])
  rw [blocks_inj (fun ep hep => hnodup ep (List.mem_of_mem_take hep)) hbs hcs hblocks,
    map_inj_of_subset (hnodup last (List.mem_of_getElem? hlast)) (opsAt_subset last ps)
      (opsAt_subset last qs) hops]

/-- The epochs with each payload replaced by the slot it stands in: the number of its
epoch and its position there. -/
def slotted (epochs : List (Epoch δ)) : List (Epoch (ℕ × ℕ)) :=
  epochs.mapIdx fun e ep => ⟨ep.numMeta, ep.hasBarrier, ep.overlaps,
    ep.ops.mapIdx fun p o => ⟨o.absIndex, o.op.metadata, some (e, p)⟩⟩

def slotOp (epochs : List (Epoch δ)) (slot : ℕ × ℕ) : Option (EpochOp δ) :=
  epochs[slot.1]?.bind fun ep => ep.ops[slot.2]?

def payloadAt (epochs : List (Epoch δ)) (label : Option (ℕ × ℕ)) : Option δ :=
  label.bind fun slot => (slotOp epochs slot).bind fun o => o.op.data

def slots (R : List (DiskWrite (ℕ × ℕ))) : List (ℕ × ℕ) := R.filterMap DiskWrite.data

theorem slotted_mapData (epochs : List (Epoch δ)) :
    (slotted epochs).map (Epoch.mapData (payloadAt epochs)) = epochs := by
  apply List.ext_getElem?
  intro e
  simp only [slotted, List.getElem?_map, List.getElem?_mapIdx, Option.map_map]
  cases hep : epochs[e]? with
  | none => rfl
  | some ep =>
    have hops : (ep.ops.mapIdx fun p o =>
        (⟨o.absIndex, o.op.metadata, some (e, p)⟩ : EpochOp (ℕ × ℕ))).map
          (EpochOp.mapData (payloadAt epochs)) = ep.ops := by
      apply List.ext_getElem?
      intro p
      simp only [List.getElem?_map, List.getElem?_mapIdx, Option.map_map]
      cases hp : ep.ops[p]? with
      | none => rfl
      | some o => simp [EpochOp.mapData, DiskWrite.mapData, payloadAt, slotOp, hep, hp]
    simp only [Option.map_some, Function.comp_apply, Epoch.mapData, hops]

theorem slotted_ops_ne_nil {epochs : List (Epoch δ)} (hne : ∀ ep ∈ epochs, ep.ops ≠ []) :
    ∀ ep ∈ slotted epochs, ep.ops ≠ [] := by
  intro ep hep
  obtain ⟨e, he, rfl⟩ := List.mem_mapIdx.mp hep
  simpa using hne _ (List.getElem_mem he)

theorem slotted_nodup {epochs : List (Epoch δ)}
    (hnodup : ∀ ep ∈ epochs, (ep.ops.map EpochOp.absIndex).Nodup) :
    ∀ ep ∈ slotted epochs, (ep.ops.map EpochOp.absIndex).Nodup := by
  intro ep hep
  obtain ⟨e, he, rfl⟩ := List.mem_mapIdx.mp hep
  have hsame : (epochs[e].ops.mapIdx fun p o =>
      (⟨o.absIndex, o.op.metadata, some (e, p)⟩ : EpochOp (ℕ × ℕ))).map EpochOp.absIndex =
        epochs[e].ops.map EpochOp.absIndex := by
    apply List.ext_getElem?
    intro p
    simp only [List.getElem?_map, List.getElem?_mapIdx, Option.map_map]
    rfl
  simpa only [hsame] using hnodup _ (List.getElem_mem he)

def slotKey (epochs : List (Epoch δ)) (slots : List (ℕ × ℕ)) : List ℕ :=
  slots.map fun slot => (slotOp epochs slot).elim 0 EpochOp.absIndex

/-- Every operation of the labelled epochs carries its own slot. -/
theorem mem_slotted {epochs : List (Epoch δ)} {ep : Epoch (ℕ × ℕ)} {o : EpochOp (ℕ × ℕ)}
    (hep : ep ∈ slotted epochs) (ho : o ∈ ep.ops) :
    ∃ slot, o.op.data = some slot ∧
      (slotOp epochs slot).elim 0 EpochOp.absIndex = o.absIndex := by
  obtain ⟨e, he, rfl⟩ := List.mem_mapIdx.mp hep
  obtain ⟨p, hp, rfl⟩ := List.mem_mapIdx.mp ho
  refine ⟨(e, p), rfl, ?_⟩
  simp [slotOp, he, hp]

theorem CrashForm.mem {epochs : List (Epoch δ)} {s : List (EpochOp δ)} (h : CrashForm epochs s)
    {o : EpochOp δ} (ho : o ∈ s) : ∃ ep ∈ epochs, o ∈ ep.ops := by
  obtain ⟨e, last, blocks, ps, -, hlast, hblocks, -, -, rfl⟩ := h
  rcases List.mem_append.mp ho with ho | ho
  · obtain ⟨b, hb, hob⟩ := List.mem_flatten.mp ho
    obtain ⟨i, hi, rfl⟩ := List.getElem_of_mem hb
    obtain ⟨hlen, hget⟩ := List.forall₂_iff_get.mp hblocks
    have hi' : i < (epochs.take (e - 1)).length := hlen ▸ hi
    exact ⟨_, List.mem_of_mem_take (List.get_mem _ ⟨i, hi'⟩), (hget i hi' hi).perm.subset hob⟩
  · exact ⟨last, List.mem_of_getElem? hlast, opsAt_subset last ps ho⟩

theorem slotKey_slots {epochs : List (Epoch δ)} {s : List (EpochOp (ℕ × ℕ))}
    (h : CrashForm (slotted epochs) s) :
    slotKey epochs (slots (s.map EpochOp.op)) = crashStateHash s := by
  have hall : ∀ o ∈ s, ∃ slot, o.op.data = some slot ∧
      (slotOp epochs slot).elim 0 EpochOp.absIndex = o.absIndex := fun o ho =>
    let ⟨_, hep, hop⟩ := h.mem ho
    mem_slotted hep hop
  clear h
  induction s with
  | nil => rfl
  | cons o s ih =>
    obtain ⟨slot, hdata, habs⟩ := hall o List.mem_cons_self
    have hrest := ih fun o' ho' => hall o' (List.mem_cons_of_mem _ ho')
    simp only [slotKey, slots, crashStateHash] at hrest
    simp only [slotKey, slots, crashStateHash, List.map_cons, List.filterMap_cons, hdata, habs,
      hrest]

end CrashMonkey
