import CrashMonkey.Permuter.Selections
import CrashMonkey.Permuter.Split

namespace CrashMonkey
open Draw

variable {δ : Type}

/-- All positions of the epoch, with a barrier in the last place. -/
structure Arrangement (ep : Epoch δ) (ps : List ℕ) : Prop where
  perm : ps.Perm (List.range ep.ops.length)
  barrier : ep.hasBarrier = true → ps.getLast? = some (ep.ops.length - 1)

/-- What a complete epoch contributes: its recorded order, or when writes overlap
any order that keeps a barrier last. -/
def FullBlock (ep : Epoch δ) (block : List (EpochOp δ)) : Prop :=
  if ep.overlaps = true then ∃ ps, Arrangement ep ps ∧ block = opsAt ep ps else block = ep.ops

theorem arrangement_iff {ep : Epoch δ} (hne : ep.ops ≠ []) (ps : List ℕ) :
    Arrangement ep ps ↔ Selection ep ps ∧ ps.length = ep.ops.length := by
  have hpos := List.length_pos_iff.mpr hne
  constructor
  · rintro ⟨hperm, hb⟩
    have hlen : ps.length = ep.ops.length := by simpa using hperm.length_eq
    refine ⟨⟨hperm.nodup_iff.mpr List.nodup_range, fun p hp => ?_, fun h _ => ⟨hlen, hb h⟩⟩, hlen⟩
    exact List.mem_range.mp (hperm.subset hp)
  · rintro ⟨hs, hlen⟩
    have hsub : ps ⊆ List.range ep.ops.length := fun p hp => List.mem_range.mpr (hs.lt p hp)
    have hperm := (List.subperm_of_subset hs.nodup hsub).perm_of_length_le (by simp [hlen])
    refine ⟨hperm, fun h => (hs.barrier h ?_).2⟩
    exact hperm.symm.subset (List.mem_range.mpr (by omega))

theorem Arrangement.opsAt_perm {ep : Epoch δ} {ps : List ℕ} (h : Arrangement ep ps) :
    (opsAt ep ps).Perm ep.ops := by
  have hperm : (opsAt ep ps).Perm (opsAt ep (List.range ep.ops.length)) := h.perm.filterMap _
  rwa [opsAt_range] at hperm

theorem FullBlock.perm {ep : Epoch δ} {block : List (EpochOp δ)} (h : FullBlock ep block) :
    block.Perm ep.ops := by
  unfold FullBlock at h
  split_ifs at h
  · obtain ⟨ps, hps, rfl⟩ := h
    exact hps.opsAt_perm
  · exact .of_eq h

theorem fullBlock_ops {ep : Epoch δ} (hne : ep.ops ≠ []) : FullBlock ep ep.ops := by
  have hpos := List.length_pos_iff.mpr hne
  unfold FullBlock
  split_ifs
  · refine ⟨List.range ep.ops.length, ⟨.refl _, fun _ => ?_⟩, (opsAt_range ep).symm⟩
    rw [List.getLast?_range, if_neg (by omega)]
  · rfl

def fullBlock (ep : Epoch δ) (r : Stream' ℕ) : List (EpochOp δ) × Stream' ℕ :=
  if ep.overlaps = true then
    (opsAt ep (positions ep ep.ops.length r).1, (positions ep ep.ops.length r).2)
  else (ep.ops, r)

def fullBlocks : List (Epoch δ) → Stream' ℕ → List (List (EpochOp δ)) × Stream' ℕ
  | [], r => ([], r)
  | ep :: eps, r =>
    let b := fullBlock ep r
    let rest := fullBlocks eps b.2
    (b.1 :: rest.1, rest.2)

theorem fullBlock_length (ep : Epoch δ) (r : Stream' ℕ) :
    (fullBlock ep r).1.length = ep.ops.length := by
  unfold fullBlock
  split_ifs
  · rw [opsAt_length (positions_lt le_rfl r), positions_length le_rfl]
  · rfl

theorem fullBlocks_flatten_length (eps : List (Epoch δ)) (r : Stream' ℕ) :
    (fullBlocks eps r).1.flatten.length = totalOps eps := by
  induction eps generalizing r with
  | nil => rfl
  | cons ep eps ih =>
    simp only [fullBlocks, List.flatten_cons, List.length_append, fullBlock_length, ih, totalOps,
      List.map_cons, List.sum_cons]

theorem fullBlock_spec {ep : Epoch δ} (hne : ep.ops ≠ []) (r : Stream' ℕ) :
    FullBlock ep (fullBlock ep r).1 := by
  unfold FullBlock fullBlock
  split_ifs
  · exact ⟨_, (arrangement_iff hne _).mpr
      ⟨positions_selection hne le_rfl r, positions_length le_rfl r⟩, rfl⟩
  · rfl

theorem exists_fullBlock {ep : Epoch δ} (hne : ep.ops ≠ []) {b : List (EpochOp δ)}
    (hb : FullBlock ep b) : ∃ xs : List ℕ, ∀ r, fullBlock ep (xs ++ₛ r) = (b, r) := by
  unfold FullBlock at hb
  unfold fullBlock
  split_ifs at hb ⊢
  · obtain ⟨ps, hps, rfl⟩ := hb
    obtain ⟨hsel, hlen⟩ := (arrangement_iff hne ps).mp hps
    obtain ⟨xs, hxs⟩ := exists_positions hsel hne
    rw [hlen] at hxs
    exact ⟨xs, fun r => by rw [hxs]⟩
  · exact ⟨[], fun r => by rw [hb]; rfl⟩

theorem fullBlocks_spec {eps : List (Epoch δ)} (hne : ∀ ep ∈ eps, ep.ops ≠ [])
    (r : Stream' ℕ) : List.Forall₂ FullBlock eps (fullBlocks eps r).1 := by
  induction eps generalizing r with
  | nil => exact .nil
  | cons ep eps ih =>
    exact .cons (fullBlock_spec (hne ep List.mem_cons_self) r)
      (ih (fun e he => hne e (List.mem_cons_of_mem _ he)) _)

theorem exists_fullBlocks {eps : List (Epoch δ)} (hne : ∀ ep ∈ eps, ep.ops ≠ [])
    {bs : List (List (EpochOp δ))} (hbs : List.Forall₂ FullBlock eps bs) :
    ∃ xs : List ℕ, ∀ r, fullBlocks eps (xs ++ₛ r) = (bs, r) := by
  induction hbs with
  | nil => exact ⟨[], fun r => rfl⟩
  | cons hb _ ih =>
    obtain ⟨xs, hxs⟩ := exists_fullBlock (hne _ List.mem_cons_self) hb
    obtain ⟨ys, hys⟩ := ih fun e he => hne e (List.mem_cons_of_mem _ he)
    refine ⟨xs ++ ys, fun r => ?_⟩
    rw [Stream'.append_append_stream]
    simp only [fullBlocks, hxs, hys]

theorem copyOps_run (ops res : List (EpochOp δ)) (curr : ℕ) (r : Stream' ℕ)
    (h : curr + ops.length ≤ res.length) :
    copyOps ops res curr r =
      some ((Buffer.overwrite res curr ops, curr + ops.length), r) := by
  induction ops generalizing res curr with
  | nil => simp [copyOps, stateT_pure]
  | cons o ops ih =>
    simp only [List.length_cons] at h
    have hwrite := Buffer.overwrite_overwrite [o] ops (show curr + 1 ≤ res.length by omega)
    have hrest := ih (Buffer.overwrite res curr [o]) (curr + 1)
      (by rw [Buffer.overwrite_length (by simp; omega)]; omega)
    simp only [List.length_singleton] at hwrite
    rw [hwrite] at hrest
    simp only [copyOps, stateT_bind, Buffer.store_eq o (show curr < res.length by omega), stateT_lift,
      Option.bind_some, hrest, List.length_cons, List.singleton_append, Nat.add_assoc,
      Nat.add_comm 1]

/-- One turn at an epoch that is not the last one places its complete block. -/
theorem placeEpochs_succ {epochs : List (Epoch δ)} {ep : Epoch δ} {num k left i : ℕ}
    {res : List (EpochOp δ)} {curr : ℕ} (hi : epochs[i]? = some ep) (hlt : i < num - 1)
    (hres : curr + ep.ops.length ≤ res.length) (r : Stream' ℕ) :
    placeEpochs epochs num k (left + 1) i res curr r =
      placeEpochs epochs num k left (i + 1) (Buffer.overwrite res curr (fullBlock ep r).1)
        (curr + ep.ops.length) (fullBlock ep r).2 := by
  have hne : i ≠ num - 1 := by omega
  cases ho : ep.overlaps with
  | true =>
    obtain ⟨e, he⟩ := permuteEpoch_run le_rfl res curr hres r
    simp only [placeEpochs, stateT_bind, hi, stateT_lift, Option.bind_some, ho, true_or, if_true,
      hne, ne_eq, not_false_eq_true, he, fullBlock]
  | false =>
    simp only [placeEpochs, stateT_bind, hi, stateT_lift, Option.bind_some, ho, hne, or_self,
      Bool.false_eq_true, if_false, copyOps_run _ _ _ _ hres, fullBlock]

/-- The epochs `eps` complete and then `k` operations of `last`. -/
theorem placeEpochs_run (epochs eps tl : List (Epoch δ)) (last : Epoch δ) (k i : ℕ)
    (res : List (EpochOp δ)) (curr : ℕ) (r : Stream' ℕ)
    (hdrop : epochs.drop i = eps ++ last :: tl) (hk : k ≤ last.ops.length)
    (hres : curr + totalOps eps + k ≤ res.length) :
    placeEpochs epochs (i + eps.length + 1) k (eps.length + 1) i res curr r =
      some (Buffer.overwrite res curr ((fullBlocks eps r).1.flatten ++
          opsAt last (positions last k (fullBlocks eps r).2).1),
        (positions last k (fullBlocks eps r).2).2) := by
  induction eps generalizing i res curr r with
  | nil =>
    have hi : epochs[i]? = some last := by
      rw [← List.head?_drop, hdrop]
      rfl
    simp only [totalOps, List.map_nil, List.sum_nil, Nat.add_zero] at hres
    obtain ⟨e, he⟩ := permuteEpoch_run hk res curr hres r
    simp only [placeEpochs, stateT_bind, hi, stateT_lift, Option.bind_some, List.length_nil,
      Nat.add_zero, Nat.add_sub_cancel, or_true, if_true, ne_eq, not_true_eq_false, if_false, he,
      stateT_pure, fullBlocks, List.flatten_nil, List.nil_append]
  | cons ep eps ih =>
    have hi : epochs[i]? = some ep := by
      rw [← List.head?_drop, hdrop]
      rfl
    have hdrop' : epochs.drop (i + 1) = eps ++ last :: tl := by
      rw [← List.tail_drop, hdrop]
      rfl
    have htotal : totalOps (ep :: eps) = ep.ops.length + totalOps eps := rfl
    have hlen := fullBlock_length ep r
    have hrest := ih (i + 1) (Buffer.overwrite res curr (fullBlock ep r).1)
      (curr + ep.ops.length) (fullBlock ep r).2 hdrop'
      (by rw [Buffer.overwrite_length (by omega)]; omega)
    have hroom : curr + (fullBlock ep r).1.length ≤ res.length := by omega
    have hwrite := Buffer.overwrite_overwrite _
      ((fullBlocks eps (fullBlock ep r).2).1.flatten ++
        opsAt last (positions last k (fullBlocks eps (fullBlock ep r).2).2).1) hroom
    rw [hlen] at hwrite
    have hnum : i + (ep :: eps).length + 1 = i + 1 + eps.length + 1 := by
      simp only [List.length_cons]
      omega
    rw [hnum, List.length_cons, placeEpochs_succ hi (by omega) (by omega), hrest, hwrite]
    simp only [fullBlocks, List.flatten_cons, List.append_assoc]

/-- The results a random permuter should have: for some number `e` of epochs the
blocks of the ones before the last, and at least one operation of the last. -/
def CrashForm (epochs : List (Epoch δ)) (res : List (EpochOp δ)) : Prop :=
  ∃ e last blocks ps, 1 ≤ e ∧ epochs[e - 1]? = some last ∧
    List.Forall₂ FullBlock (epochs.take (e - 1)) blocks ∧
    1 ≤ ps.length ∧ Selection last ps ∧ res = blocks.flatten ++ opsAt last ps

/-- The result for given numbers of epochs and requests. -/
theorem genOneState_run {epochs : List (Epoch δ)} {last : Epoch δ} {m k : ℕ}
    (hm : epochs[m]? = some last) (hk : k ≤ last.ops.length)
    (res : List (EpochOp δ)) {r r₁ r₂ : Stream' ℕ}
    (h₁ : Draw.uniform 1 epochs.length r = some (m + 1, r₁))
    (h₂ : Draw.uniform 1 last.ops.length r₁ = some (k, r₂)) :
    genOneState epochs res r =
      some ((true, (fullBlocks (epochs.take m) r₂).1.flatten ++
        opsAt last (positions last k (fullBlocks (epochs.take m) r₂).2).1),
        (positions last k (fullBlocks (epochs.take m) r₂).2).2) := by
  have hlt : m < epochs.length := (List.getElem?_eq_some_iff.mp hm).1
  have hlast : epochs[m] = last := (List.getElem?_eq_some_iff.mp hm).2
  have hlen : (epochs.take m).length = m := by simp; omega
  have hdrop : epochs.drop 0 = epochs.take m ++ last :: epochs.drop (m + 1) := by
    rw [List.drop_zero, ← hlast, ← List.drop_eq_getElem_cons hlt, List.take_append_drop]
  have hsize := Buffer.resize_length defaultOp res (totalOps (epochs.take m) + k)
  have hplace := placeEpochs_run epochs (epochs.take m) (epochs.drop (m + 1)) last k 0
    (Buffer.resize defaultOp res (totalOps (epochs.take m) + k)) 0 r₂ hdrop hk (by omega)
  rw [hlen, Nat.zero_add] at hplace
  rw [Buffer.overwrite_all] at hplace
  · simp only [genOneState, stateT_bind, h₁, Option.bind_some, Nat.add_sub_cancel, hm, stateT_lift,
      h₂, hplace, stateT_pure]
  · rw [List.length_append, fullBlocks_flatten_length, hsize,
      opsAt_length (positions_lt hk _), positions_length hk]

theorem genOneState_nil (old : List (EpochOp δ)) (r : Stream' ℕ) :
    genOneState [] old r = none := rfl

def drawnState (epochs : List (Epoch δ)) (r : Stream' ℕ) : List (EpochOp δ) × Stream' ℕ :=
  let m := r.head % epochs.length
  match epochs[m]? with
  | none => ([], r)
  | some last =>
    let blocks := fullBlocks (epochs.take m) r.tail.tail
    let ps := positions last (1 + r.tail.head % last.ops.length) blocks.2
    (blocks.1.flatten ++ opsAt last ps.1, ps.2)

/-- On epochs with operations a state is generated whatever is drawn. -/
theorem genOneState_eq {epochs : List (Epoch δ)} (hne : ∀ ep ∈ epochs, ep.ops ≠ [])
    (hnil : epochs ≠ []) (old : List (EpochOp δ)) (r : Stream' ℕ) :
    genOneState epochs old r =
      some ((true, (drawnState epochs r).1), (drawnState epochs r).2) := by
  have hpos := List.length_pos_iff.mpr hnil
  have hlt : r.head % epochs.length < epochs.length := Nat.mod_lt _ hpos
  have hlast := List.getElem?_eq_getElem hlt
  have hops := List.length_pos_iff.mpr (hne _ (List.getElem_mem hlt))
  have h₁ := Draw.uniform_run hpos r
  have h₂ := Draw.uniform_run hops r.tail
  have hk := (Draw.uniform_run_mem h₂).2
  rw [Nat.sub_add_cancel hpos, Nat.add_comm] at h₁
  rw [Nat.sub_add_cancel hops] at h₂ hk
  rw [genOneState_run hlast hk old h₁ h₂]
  simp only [drawnState, hlast]

theorem drawnState_form {epochs : List (Epoch δ)} (hne : ∀ ep ∈ epochs, ep.ops ≠ [])
    (hnil : epochs ≠ []) (r : Stream' ℕ) : CrashForm epochs (drawnState epochs r).1 := by
  have hpos := List.length_pos_iff.mpr hnil
  have hlt : r.head % epochs.length < epochs.length := Nat.mod_lt _ hpos
  have hlast := List.getElem?_eq_getElem hlt
  have hops := hne _ (List.getElem_mem hlt)
  have hk := Nat.mod_lt r.tail.head (List.length_pos_iff.mpr hops)
  simp only [drawnState, hlast]
  refine ⟨_ + 1, _, _, _, by omega, hlast,
    fullBlocks_spec (fun ep hep => hne ep (List.mem_of_mem_take hep)) _, ?_,
    positions_selection hops (by omega) _, rfl⟩
  rw [positions_length (by omega)]
  omega

/-- Every result has the form, whatever is drawn, and every sequence of the form is
the result of some draws. -/
theorem genOneState_iff {epochs : List (Epoch δ)} (hne : ∀ ep ∈ epochs, ep.ops ≠ [])
    (old res : List (EpochOp δ)) :
    (∃ r r', genOneState epochs old r = some ((true, res), r')) ↔ CrashForm epochs res := by
  constructor
  · rintro ⟨r, r', h⟩
    have hnil : epochs ≠ [] := by
      rintro rfl
      simp [genOneState_nil] at h
    rw [genOneState_eq hne hnil old r] at h
    obtain rfl : (drawnState epochs r).1 = res := by simpa using congrArg (Option.map (·.1.2)) h
    exact drawnState_form hne hnil r
  · rintro ⟨e, last, blocks, ps, he, hlast, hblocks, hps, hsel, rfl⟩
    obtain ⟨m, rfl⟩ := Nat.exists_eq_add_of_le' he
    rw [Nat.add_sub_cancel] at hlast hblocks
    have hlt : m < epochs.length := (List.getElem?_eq_some_iff.mp hlast).1
    have hops := hne last (List.mem_of_getElem? hlast)
    have hlen : ps.length ≤ last.ops.length := by
      simpa using (List.subperm_of_subset hsel.nodup
        (fun p hp => List.mem_range.mpr (hsel.lt p hp))).length_le
    obtain ⟨xs, hxs⟩ := exists_fullBlocks (fun ep hep => hne ep (List.mem_of_mem_take hep)) hblocks
    obtain ⟨ys, hys⟩ := exists_positions hsel hops
    -- the numbers of epochs and of requests, then the blocks, then the selection
    let r₂ : Stream' ℕ := xs ++ₛ (ys ++ₛ Stream'.const 0)
    let r₁ : Stream' ℕ := Stream'.cons (ps.length - 1) r₂
    have h₁ : Draw.uniform 1 epochs.length (Stream'.cons (m + 1 - 1) r₁) = some (m + 1, r₁) :=
      Draw.uniform_cons (by omega) (by omega) _
    have h₂ : Draw.uniform 1 last.ops.length r₁ = some (ps.length, r₂) :=
      Draw.uniform_cons hps hlen _
    refine ⟨Stream'.cons (m + 1 - 1) r₁, Stream'.const 0, ?_⟩
    rw [genOneState_run hlast hlen old h₁ h₂]
    simp only [r₂, hxs, hys]

theorem splitFrom_ops_ne_nil (u : Uninit) (cur : Option (Epoch δ)) (l : Locals δ)
    (ws : List (DiskWrite δ)) (hcur : ∀ e ∈ cur, e.ops ≠ []) :
    ∀ ep ∈ splitFrom u cur l ws, ep.ops ≠ [] := by
  have hturn (w : DiskWrite δ) (l : Locals δ) : turnOps u w l ≠ [] := by
    unfold turnOps
    split_ifs <;> simp
  induction ws generalizing cur l with
  | nil =>
    intro ep hep
    exact hcur ep (by simpa [splitFrom] using hep)
  | cons w ws ih =>
    cases hw : w.isBarrierWrite with
    | true =>
      rw [splitFrom_barrier _ _ _ _ hw]
      intro ep hep
      rcases List.mem_cons.mp hep with rfl | hep
      · rw [closeEpoch_ops u hw]
        exact List.append_ne_nil_of_right_ne_nil _ (hturn w l)
      · exact ih none _ (by simp) ep hep
    | false =>
      rw [splitFrom_plain _ _ _ _ hw]
      refine ih _ _ fun e he => ?_
      obtain rfl : (collectOp w l (cur.getD (newEpoch u l.index))).2 = e := by simpa using he
      rw [collectOp_ops u hw]
      exact List.append_ne_nil_of_right_ne_nil _ (hturn w l)

theorem initDataVector_ops_ne_nil (u : Uninit) (log : List (DiskWrite δ)) :
    ∀ ep ∈ initDataVector u log, ep.ops ≠ [] := by
  rw [initDataVector_eq_splitFrom]
  exact splitFrom_ops_ne_nil u none _ log (by simp)

/-- On the epochs built from any log, the results of `gen_one_state` are exactly the
sequences of the form, and as long as there is an epoch each draw gives one. -/
theorem genOneState_initDataVector_iff (u : Uninit) (log : List (DiskWrite δ))
    (hnil : initDataVector u log ≠ []) (old res : List (EpochOp δ)) :
    ((∃ r r', genOneState (initDataVector u log) old r = some ((true, res), r')) ↔
      CrashForm (initDataVector u log) res) ∧
    ∀ r, ∃ res' r', genOneState (initDataVector u log) old r = some ((true, res'), r') := by
  have hne := initDataVector_ops_ne_nil u log
  exact ⟨genOneState_iff hne old res, fun r => ⟨_, _, genOneState_eq hne hnil old r⟩⟩

def fuaThenWriteLog : List (DiskWrite ℕ) :=
  [⟨⟨0, reqWrite ||| reqFua, 0, 512⟩, some 0⟩, ⟨⟨0, reqWrite, 1, 512⟩, some 1⟩]

theorem genOneState_fuaThenWriteLog :
    initDataVector default fuaThenWriteLog ≠ [] ∧
    ((∃ r r', genOneState (initDataVector default fuaThenWriteLog) [] r =
        some ((true, [⟨0, ⟨⟨0, reqWrite ||| reqFua, 0, 512⟩, some 0⟩⟩]), r')) ↔
      CrashForm (initDataVector default fuaThenWriteLog)
        [⟨0, ⟨⟨0, reqWrite ||| reqFua, 0, 512⟩, some 0⟩⟩]) ∧
    ∀ r, ∃ res' r',
      genOneState (initDataVector default fuaThenWriteLog) [] r = some ((true, res'), r') := by
  have hnil : initDataVector default fuaThenWriteLog ≠ [] := by
    rw [initDataVector_eq_splitFrom]
    decide
  exact ⟨hnil, genOneState_initDataVector_iff default fuaThenWriteLog hnil [] _⟩

end CrashMonkey
