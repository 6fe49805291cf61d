import CrashMonkey.Permuter.Provenance
import CrashMonkey.Permuter.Turns

namespace CrashMonkey

variable {δ : Type}

/-- The log with each payload labelled by its log index. -/
def withOrigin (log : List (DiskWrite δ)) : List (DiskWrite (δ × ℕ)) :=
  log.mapIdx fun i w => w.mapData (Option.map fun d => (d, i))

def eraseOrigin : DiskWrite (δ × ℕ) → DiskWrite δ := DiskWrite.mapData (Option.map Prod.fst)

/-- The log indices whose payloads are in a crash state. -/
def origins (R : List (DiskWrite (δ × ℕ))) : List ℕ := R.filterMap fun w => w.data.map Prod.snd

theorem map_eraseOrigin_withOrigin (log : List (DiskWrite δ)) :
    (withOrigin log).map eraseOrigin = log := by
  refine List.ext_getElem? fun i => ?_
  simp [withOrigin, eraseOrigin, DiskWrite.mapData, Function.comp_def]

theorem withOrigin_getElem? (log : List (DiskWrite δ)) (i : ℕ) :
    (withOrigin log)[i]? = log[i]?.map (DiskWrite.mapData (Option.map fun d => (d, i))) := by
  simp [withOrigin]

theorem epochOf_withOrigin (log : List (DiskWrite δ)) (n : ℕ) :
    epochOf (withOrigin log) n = epochOf log n := by
  conv_rhs => rw [← map_eraseOrigin_withOrigin log]
  rw [epochOf, epochOf, ← List.map_take, List.countP_map]
  rfl

theorem mem_origins_map {ops : List (EpochOp (δ × ℕ))} {p : ℕ} :
    p ∈ origins (ops.map EpochOp.op) ↔ ∃ o ∈ ops, ∃ d, o.op.data = some (d, p) := by
  simp [origins]

theorem mem_origins_perm {ops ops' : List (EpochOp (δ × ℕ))} (h : ops.Perm ops') (p : ℕ) :
    p ∈ origins (ops.map EpochOp.op) ↔ p ∈ origins (ops'.map EpochOp.op) :=
  ((h.map EpochOp.op).filterMap _).mem_iff

def WritesData (log : List (DiskWrite δ)) (i : ℕ) : Prop :=
  ∃ w, log[i]? = some w ∧ w.hasWriteFlag = true ∧ w.data.isSome = true

theorem waiting_withOrigin (log : List (DiskWrite δ)) (p n : ℕ) :
    Waiting (withOrigin log) p n ↔ Waiting log p n := by
  simp only [Waiting, withOrigin_getElem?, Option.map_eq_some_iff, exists_exists_and_eq_and,
    mapData_splitsFlush]
  refine and_congr_right fun _ => and_congr_right fun _ => ⟨fun h m w hp hn hw => ?_, ?_⟩
  · have hm := h m (w.mapData _) hp hn ⟨w, hw, rfl⟩
    rwa [mapData_isBarrierWrite, mapData_splitsFlush] at hm
  · rintro h m _ hp hn ⟨w, hw, rfl⟩
    exact h m w hp hn hw

theorem pending_data (u : Uninit) (log : List (DiskWrite δ)) {n : ℕ} (hn : n ≤ log.length)
    (p : ℕ) :
    ((localsAt u (withOrigin log) n).prevEpochFlushOp = true ∧
        ∃ d, (localsAt u (withOrigin log) n).dataHalf.data = some (d, p)) ↔
      Waiting log p n ∧ ∃ w, log[p]? = some w ∧ w.data.isSome = true := by
  obtain ⟨hprev, hdata⟩ := localsAt_pending u (withOrigin log) (n := n) (by simpa [withOrigin])
  simp only [waiting_withOrigin] at hprev hdata
  have hhalf {q : ℕ} {w : DiskWrite δ} (hq : Waiting log q n) (hw : log[q]? = some w) :
      (localsAt u (withOrigin log) n).dataHalf.data = w.data.map fun d => (d, q) := by
    rw [hdata q _ hq (by rw [withOrigin_getElem?, hw]; rfl), dataHalf_data]
    rfl
  constructor
  · rintro ⟨h, d, hd⟩
    obtain ⟨q, hq⟩ := hprev.mp h
    obtain ⟨w, hw, -⟩ := hq.2.1
    rw [hhalf hq hw, Option.map_eq_some_iff] at hd
    obtain ⟨d', hd', heq⟩ := hd
    obtain rfl : q = p := (Prod.mk.inj heq).2
    exact ⟨hq, w, hw, by rw [hd']; rfl⟩
  · rintro ⟨hp, w, hw, hd⟩
    obtain ⟨d, hd⟩ := Option.isSome_iff_exists.mp hd
    exact ⟨hprev.mpr ⟨p, hp⟩, d, by rw [hhalf hp hw, hd]; rfl⟩

/-- The payloads that the turn at `n` pushes. -/
theorem opsOn_origins (u : Uninit) (log : List (DiskWrite δ)) (n p : ℕ) :
    p ∈ origins ((opsOn u (withOrigin log) n).map EpochOp.op) ↔
      Lands log p n ∧ ∃ w, log[p]? = some w ∧ w.data.isSome = true := by
  rw [mem_origins_map]
  cases hn : log[n]? with
  | none =>
    have hnil : opsOn u (withOrigin log) n = [] := by simp [opsOn, withOrigin_getElem?, hn]
    simp [hnil, Lands, hn]
  | some w =>
    have hlt := (List.getElem?_eq_some_iff.mp hn).1
    have hL := withOrigin_getElem? log n
    rw [hn, Option.map_some] at hL
    have hown : (∃ d, (w.mapData (Option.map fun d => (d, n))).data = some (d, p)) ↔
        n = p ∧ w.data.isSome = true := by
      cases hd : w.data <;> simp [DiskWrite.mapData, hd]
    rw [opsOn_eq u hL, turnOps]
    cases hb : w.isBarrierWrite with
    | true =>
      have hb' : (w.mapData (Option.map fun d => (d, n))).isBarrierWrite = true := hb
      cases hs : w.splitsFlush with
      | true => simp [hb', hs, flagHalf_data, Lands, hn, hb]
      | false =>
        simp only [hb', mapData_splitsFlush, hs, if_true, Bool.false_eq_true, if_false,
          List.mem_singleton, exists_eq_left, hown, Lands, hn, Option.some.injEq]
        constructor
        · rintro ⟨rfl, hd⟩
          exact ⟨.inl ⟨rfl, w, rfl, hs⟩, w, hn, hd⟩
        · rintro ⟨⟨rfl, -⟩ | ⟨-, _, rfl, hb₀⟩, v, hv, hd⟩
          · obtain rfl : w = v := by simpa [hn] using hv
            exact ⟨rfl, hd⟩
          · simp [hb] at hb₀
    | false =>
      have hb' : (w.mapData (Option.map fun d => (d, n))).isBarrierWrite = false := hb
      have hs : w.splitsFlush = false := by
        cases hs : w.splitsFlush with
        | false => rfl
        | true => simp [DiskWrite.isBarrierWrite_of_splitsFlush hs] at hb
      rw [hb', if_neg Bool.false_ne_true]
      simp only [List.mem_append, List.mem_singleton, or_and_right, exists_or, exists_eq_left,
        hown]
      have hpend : (∃ o ∈ (if (localsAt u (withOrigin log) n).prevEpochFlushOp = true then
          [(⟨(localsAt u (withOrigin log) n).index - 1, (localsAt u (withOrigin log) n).dataHalf⟩ :
            EpochOp (δ × ℕ))] else []), ∃ d, o.op.data = some (d, p)) ↔
          Waiting log p n ∧ ∃ w, log[p]? = some w ∧ w.data.isSome = true := by
        rw [← pending_data u log hlt.le p]
        split_ifs with h <;> simp [h]
      rw [hpend]
      constructor
      · rintro (⟨hp, hd⟩ | ⟨rfl, hd⟩)
        · exact ⟨.inr ⟨hp, w, hn, hb⟩, hd⟩
        · exact ⟨.inl ⟨rfl, w, hn, hs⟩, w, hn, hd⟩
      · rintro ⟨⟨rfl, -⟩ | ⟨hp, -⟩, v, hv, hd⟩
        · obtain rfl : w = v := by simpa [hn] using hv
          exact .inr ⟨rfl, hd⟩
        · exact .inl ⟨hp, v, hv, hd⟩

variable (u : Uninit) (log : List (DiskWrite δ))

theorem epoch_origins {k : ℕ} {ep : Epoch (δ × ℕ)}
    (h : (initDataVector u (withOrigin log))[k]? = some ep) (p : ℕ) :
    p ∈ origins (ep.ops.map EpochOp.op) ↔
      (∃ n, Lands log p n ∧ epochOf log n = k) ∧ ∃ w, log[p]? = some w ∧ w.data.isSome = true := by
  have hlen : (withOrigin log).length = log.length := by simp [withOrigin]
  have hmem : p ∈ origins (ep.ops.map EpochOp.op) ↔
      ∃ n ∈ turnsOf (withOrigin log) 0 k,
        p ∈ origins ((opsOn u (withOrigin log) n).map EpochOp.op) := by
    rw [initDataVector_ops u h]
    simp only [mem_origins_map, List.mem_flatMap]
    constructor
    · rintro ⟨o, ⟨n, hn, ho⟩, hd⟩
      exact ⟨n, hn, o, ho, hd⟩
    · rintro ⟨n, hn, o, ho, hd⟩
      exact ⟨o, ⟨n, hn, ho⟩, hd⟩
  simp only [hmem, mem_turnsOf, opsOn_origins, epochOf_withOrigin, hlen]
  constructor
  · rintro ⟨n, ⟨-, -, hk⟩, hl, hd⟩
    exact ⟨⟨n, hl, hk⟩, hd⟩
  · rintro ⟨⟨n, hl, hk⟩, hd⟩
    exact ⟨n, ⟨Nat.zero_le n, hl.lt_length, hk⟩, hl, hd⟩

/-- The barrier that an epoch has is its last operation, and the ones before it
push nothing from later on. -/
theorem epoch_closing {k : ℕ} {ep : Epoch (δ × ℕ)}
    (h : (initDataVector u (withOrigin log))[k]? = some ep) (hb : ep.hasBarrier = true) :
    ∃ b w init, log[b]? = some w ∧ w.isBarrierWrite = true ∧ epochOf log b = k ∧
      ep.ops = init ++ [⟨b, w.mapData (Option.map fun d => (d, b))⟩] ∧
      ∀ p ∈ origins (init.map EpochOp.op), p < b := by
  obtain ⟨b, v, hv, hbar, hs, hk⟩ := (initDataVector_hasBarrier u h).mp hb
  have hv' := hv
  rw [withOrigin_getElem?, Option.map_eq_some_iff] at hv'
  obtain ⟨w, hw, rfl⟩ := hv'
  have hops := initDataVector_ops u h
  rw [← hk, turnsOf_barrier hv hbar] at hops
  have hlast : opsOn u (withOrigin log) b =
      [⟨b, w.mapData (Option.map fun d => (d, b))⟩] := by
    rw [opsOn_eq u hv, turnOps, if_pos hbar, hs,
      localsAt_index u (List.getElem?_eq_some_iff.mp hv).1.le]
    rfl
  rw [List.flatMap_append, List.flatMap_singleton, hlast] at hops
  refine ⟨b, w, _, hw, hbar, by rwa [epochOf_withOrigin] at hk, hops, fun p hp => ?_⟩
  · simp only [mem_origins_map, List.mem_flatMap, List.mem_filter, List.mem_range] at hp
    obtain ⟨o, ⟨n, ⟨hn, -⟩, ho⟩, hd⟩ := hp
    have := ((opsOn_origins u log n p).mp (mem_origins_map.mpr ⟨o, ho, hd⟩)).1.le
    omega

theorem blocks_origins {epochs : List (Epoch (δ × ℕ))} {blocks : List (List (EpochOp (δ × ℕ)))}
    {m : ℕ} (h : List.Forall₂ FullBlock (epochs.take m) blocks) (p : ℕ) :
    p ∈ origins (blocks.flatten.map EpochOp.op) ↔
      ∃ k ep, k < m ∧ epochs[k]? = some ep ∧ p ∈ origins (ep.ops.map EpochOp.op) := by
  have hblocks : p ∈ origins (blocks.flatten.map EpochOp.op) ↔
      ∃ ep ∈ epochs.take m, p ∈ origins (ep.ops.map EpochOp.op) := by
    generalize epochs.take m = eps at h
    induction h with
    | nil => simp [origins]
    | @cons ep block _ _ hb _ ih =>
      have hperm := mem_origins_perm hb.perm p
      rw [List.flatten_cons, List.map_append, origins, List.filterMap_append, List.mem_append]
      rw [← origins, ← origins, ih, hperm]
      simp
  rw [hblocks]
  constructor
  · rintro ⟨ep, hep, hp⟩
    obtain ⟨k, hk⟩ := List.getElem?_of_mem hep
    rw [List.getElem?_take] at hk
    split_ifs at hk with hlt
    exact ⟨k, ep, hlt, hk, hp⟩
  · rintro ⟨k, ep, hlt, hk, hp⟩
    have hk' : (epochs.take m)[k]? = some ep := by rw [List.getElem?_take, if_pos hlt, hk]
    exact ⟨ep, List.mem_of_getElem? hk', hp⟩

variable {log}

/-- If `R` has the payload of a write, then for every barrier recorded earlier it has
those of all the writes before the barrier, and the barrier's own unless it is a
flush without FUA. -/
def BarrierSound (log : List (DiskWrite δ)) (R : List (DiskWrite (δ × ℕ))) : Prop :=
  ∀ j b w, WritesData log j → j ∈ origins R → b < j → log[b]? = some w →
    w.isBarrierWrite = true →
    (∀ i, i < b → WritesData log i → i ∈ origins R) ∧
    (¬ ((w.hasFlushFlag = true ∨ w.hasFlushSeqFlag = true) ∧ w.hasFUAFlag = false) →
      WritesData log b → b ∈ origins R)

/-- A data half that is pushed late, because a barrier follows its flush directly, is
still pushed in time: a barrier stands between it and every later write. -/
def FlushDataOrdered (log : List (DiskWrite δ)) : Prop :=
  ∀ i w b, log[i]? = some w → w.splitsFlush = true → w.data.isSome = true →
    log[i + 1]? = some b → b.isBarrierWrite = true →
    ∀ j c, i + 1 < j → WritesData log j → Lands log j c →
      ∃ c', Lands log i c' ∧ ∃ k v, c' ≤ k ∧ k ≤ c ∧ log[k]? = some v ∧ v.isBarrierWrite = true

theorem WritesData.hasData {i : ℕ} (h : WritesData log i) :
    ∃ w, log[i]? = some w ∧ w.data.isSome = true := by
  obtain ⟨w, hw, -, hd⟩ := h
  exact ⟨w, hw, hd⟩

/-- The payloads of a state of the form, for the selection `ps` of the last epoch. -/
theorem form_origins {m : ℕ} {last : Epoch (δ × ℕ)} {blocks : List (List (EpochOp (δ × ℕ)))}
    {ps : List ℕ}
    (h : List.Forall₂ FullBlock ((initDataVector u (withOrigin log)).take m) blocks)
    {p : ℕ} (hp : WritesData log p) :
    p ∈ origins ((blocks.flatten ++ opsAt last ps).map EpochOp.op) ↔
      (∃ n, Lands log p n ∧ epochOf log n < m) ∨
        p ∈ origins ((opsAt last ps).map EpochOp.op) := by
  have happ : origins ((blocks.flatten ++ opsAt last ps).map EpochOp.op) =
      origins (blocks.flatten.map EpochOp.op) ++ origins ((opsAt last ps).map EpochOp.op) := by
    rw [List.map_append, origins, List.filterMap_append, ← origins, ← origins]
  rw [happ, List.mem_append, blocks_origins h]
  refine or_congr_left ⟨?_, ?_⟩
  · rintro ⟨k, ep, hk, hep, hmem⟩
    obtain ⟨⟨n, hn, rfl⟩, -⟩ := (epoch_origins u log hep p).mp hmem
    exact ⟨n, hn, hk⟩
  · rintro ⟨n, hn, hk⟩
    have hlt := hn.lt_length
    obtain ⟨ep, hep⟩ := exists_epoch u (withOrigin log) (n := n) (by simpa [withOrigin])
    rw [epochOf_withOrigin] at hep
    exact ⟨_, ep, hk, hep, (epoch_origins u log hep p).mpr ⟨⟨n, hn, rfl⟩, hp.hasData⟩⟩

theorem opsAt_origins {last : Epoch (δ × ℕ)} {ps : List ℕ} {p : ℕ}
    (h : p ∈ origins ((opsAt last ps).map EpochOp.op)) :
    ∃ q ∈ ps, ∃ o d, last.ops[q]? = some o ∧ o.op.data = some (d, p) := by
  obtain ⟨o, ho, d, hd⟩ := mem_origins_map.mp h
  obtain ⟨q, hq, hqo⟩ := List.mem_filterMap.mp ho
  exact ⟨q, hq, o, d, hqo, hd⟩

/-- If the payload of the barrier of an epoch is selected, so is the whole epoch. -/
theorem opsAt_origins_of_barrier {last : Epoch (δ × ℕ)} {ps : List ℕ} {k c p : ℕ}
    {v : DiskWrite δ} (hlast : (initDataVector u (withOrigin log))[k]? = some last)
    (hsel : Selection last ps) (hk : epochOf log c = k) (hv : log[c]? = some v)
    (hbar : v.isBarrierWrite = true) (hs : v.splitsFlush = false)
    (hc : c ∈ origins ((opsAt last ps).map EpochOp.op))
    (hp : p ∈ origins (last.ops.map EpochOp.op)) :
    p ∈ origins ((opsAt last ps).map EpochOp.op) := by
  have hb : last.hasBarrier = true := by
    have hvL : (withOrigin log)[c]? = some (v.mapData (Option.map fun d => (d, c))) := by
      rw [withOrigin_getElem?, hv]
      rfl
    refine (initDataVector_hasBarrier u hlast).mpr ⟨c, _, hvL, hbar, hs, ?_⟩
    rw [epochOf_withOrigin, hk]
  obtain ⟨b, w, init, hw, hwb, hkb, hops, hinit⟩ := epoch_closing u log hlast hb
  obtain rfl : b = c := by
    rcases lt_trichotomy b c with hlt | heq | hlt
    · have := epochOf_lt hw hwb hlt
      omega
    · exact heq
    · have := epochOf_lt hv hbar hlt
      omega
  obtain ⟨q, hq, o, d, hqo, hd⟩ := opsAt_origins hc
  -- only the last operation carries the payload of the barrier
  have hqlast : q = last.ops.length - 1 := by
    have hqlt := hsel.lt q hq
    by_contra hne
    have hlen : last.ops.length = init.length + 1 := by simp [hops]
    rw [hops, List.getElem?_append_left (by omega)] at hqo
    have := hinit b (mem_origins_map.mpr ⟨o, List.mem_of_getElem? hqo, d, hd⟩)
    omega
  have hall := hsel.barrier hb (hqlast ▸ hq)
  have hne : last.ops ≠ [] := by simp [hops]
  have hperm := ((arrangement_iff hne ps).mpr ⟨hsel, hall.1⟩).opsAt_perm
  exact (mem_origins_perm hperm p).mpr hp

/-- Where a payload of a state of the form stands. -/
theorem form_lands {m : ℕ} {last : Epoch (δ × ℕ)} {blocks : List (List (EpochOp (δ × ℕ)))}
    {ps : List ℕ} (hlast : (initDataVector u (withOrigin log))[m]? = some last)
    (h : List.Forall₂ FullBlock ((initDataVector u (withOrigin log)).take m) blocks)
    {j : ℕ} (hj : WritesData log j)
    (hmem : j ∈ origins ((blocks.flatten ++ opsAt last ps).map EpochOp.op)) :
    ∃ c, Lands log j c ∧ (epochOf log c < m ∨ epochOf log c = m ∧
      j ∈ origins ((opsAt last ps).map EpochOp.op)) := by
  obtain ⟨c, hc, hlt⟩ | hmem := (form_origins u h hj).mp hmem
  · exact ⟨c, hc, .inl hlt⟩
  · obtain ⟨q, hq, o, d, hqo, hd⟩ := opsAt_origins hmem
    have hjlast := mem_origins_map.mpr ⟨o, List.mem_of_getElem? hqo, d, hd⟩
    obtain ⟨⟨c, hc, hk⟩, -⟩ := (epoch_origins u log hlast j).mp hjlast
    exact ⟨c, hc, .inr ⟨hk, hmem⟩⟩

/-- An operation lands before the next ones do, unless its data half is held up. -/
theorem exists_lands_le {i b : ℕ} {w v : DiskWrite δ} (hw : log[i]? = some w)
    (hv : log[b]? = some v) (hib : i < b)
    (hfree : w.splitsFlush = true → ∀ w', log[i + 1]? = some w' → w'.isBarrierWrite = false) :
    ∃ n, Lands log i n ∧ n ≤ b := by
  cases hs : w.splitsFlush with
  | false => exact ⟨i, .inl ⟨rfl, w, hw, hs⟩, hib.le⟩
  | true =>
    have hlt : i + 1 < log.length := by
      have := (List.getElem?_eq_some_iff.mp hv).1
      omega
    have hnext := List.getElem?_eq_getElem hlt
    -- the data half comes directly
    refine ⟨i + 1, .inr ⟨⟨by omega, ⟨w, hw, hs⟩, ?_⟩, _, hnext, hfree hs _ hnext⟩, hib⟩
    intro m w hm₁ hm₂ _
    omega

/-- On an ordered log every state of the form is sound. -/
theorem barrierSound_of_form (hcond : FlushDataOrdered log) {res : List (EpochOp (δ × ℕ))}
    (h : CrashForm (initDataVector u (withOrigin log)) res) :
    BarrierSound log (res.map EpochOp.op) := by
  obtain ⟨e, last, blocks, ps, he, hlast, hblocks, -, hsel, rfl⟩ := h
  intro j b wb hj hjR hbj hwb hbar
  obtain ⟨c, hc, hce⟩ := form_lands u hlast hblocks hj hjR
  have hbc : epochOf log b < epochOf log c := epochOf_lt hwb hbar (hbj.trans_le hc.le)
  refine ⟨fun i hib hi => ?_, fun hflush hb => ?_⟩
  · rw [form_origins u hblocks hi]
    obtain ⟨wi, hwi, hwf, hd⟩ := hi
    by_cases hheld : wi.splitsFlush = true ∧
        ∃ w', log[i + 1]? = some w' ∧ w'.isBarrierWrite = true
    · obtain ⟨hs, w', hnext, hb'⟩ := hheld
      have hij : i + 1 < j := by omega
      obtain ⟨c', hc', k, v, hck, hkc, hv, hvb⟩ := hcond i wi w' hwi hs hd hnext hb' j c hij hj hc
      have hmono := epochOf_mono log hck
      obtain hlt | rfl := hkc.lt_or_eq
      · have := epochOf_lt hv hvb hlt
        exact .inl ⟨c', hc', by omega⟩
      · obtain hlt | ⟨heq, hmem⟩ := hce
        · exact .inl ⟨c', hc', by omega⟩
        · obtain hlt' | heq' := hmono.lt_or_eq
          · exact .inl ⟨c', hc', by omega⟩
          · -- `j` is the barrier of the last epoch, which is there as a whole
            obtain ⟨rfl, w, hw, hws⟩ | ⟨-, w, hw, hwb'⟩ := hc
            · obtain rfl : v = w := by simpa [hv] using hw
              refine .inr (opsAt_origins_of_barrier u hlast hsel heq hv hvb hws hmem ?_)
              exact (epoch_origins u log hlast i).mpr ⟨⟨c', hc', heq'.trans heq⟩, wi, hwi, hd⟩
            · obtain rfl : v = w := by simpa [hv] using hw
              simp [hvb] at hwb'
    · have hfree : wi.splitsFlush = true → ∀ w', log[i + 1]? = some w' →
          w'.isBarrierWrite = false := fun hs w' hw' =>
        Bool.eq_false_iff.mpr fun hb' => hheld ⟨hs, w', hw', hb'⟩
      obtain ⟨n, hn, hnb⟩ := exists_lands_le hwi hwb hib hfree
      have := epochOf_mono log hnb
      exact .inl ⟨n, hn, by omega⟩
  · rw [form_origins u hblocks hb]
    have hs : wb.splitsFlush = false := by
      by_contra hs
      refine hflush ?_
      simpa [DiskWrite.splitsFlush, DiskWrite.hasWriteFlag_of_isBarrierWrite hbar] using hs
    exact .inl ⟨b, .inl ⟨rfl, wb, hwb, hs⟩, by omega⟩

/-- A selection of the epoch where `j` lands that has the payload of `j`, and that of
`i` only if `i` lands in time. -/
theorem exists_selection {last : Epoch (δ × ℕ)} {i j c : ℕ}
    (hlast : (initDataVector u (withOrigin log))[epochOf log c]? = some last) (hij : i ≠ j)
    (hj : WritesData log j) (hc : Lands log j c)
    (hno : ∀ c', Lands log i c' → ∀ k v, c' ≤ k → k ≤ c → log[k]? = some v →
      v.isBarrierWrite = false) :
    ∃ ps, 1 ≤ ps.length ∧ Selection last ps ∧ j ∈ origins ((opsAt last ps).map EpochOp.op) ∧
      i ∉ origins ((opsAt last ps).map EpochOp.op) := by
  have hjlast := (epoch_origins u log hlast j).mpr ⟨⟨c, hc, rfl⟩, hj.hasData⟩
  obtain ⟨o, ho, d, hd⟩ := mem_origins_map.mp hjlast
  have hpos := List.length_pos_iff.mpr (List.ne_nil_of_mem ho)
  obtain ⟨q, hq⟩ := List.getElem?_of_mem ho
  have hqlt := (List.getElem?_eq_some_iff.mp hq).1
  by_cases hbar : last.hasBarrier = true ∧ q = last.ops.length - 1
  · -- the payload is that of the barrier, so all of the epoch is needed
    refine ⟨List.range last.ops.length, by simpa using Nat.succ_le_of_lt hpos, ?_, ?_⟩
    · refine ⟨List.nodup_range, fun p hp => List.mem_range.mp hp, fun _ _ => ⟨by simp, ?_⟩⟩
      rw [List.getLast?_range, if_neg (by omega)]
    rw [opsAt_range]
    refine ⟨hjlast, fun hi => ?_⟩
    obtain ⟨⟨c', hc', hk⟩, -⟩ := (epoch_origins u log hlast i).mp hi
    obtain ⟨b, w, init, hw, hwb, hkb, hops, -⟩ := epoch_closing u log hlast hbar.1
    obtain rfl : b = j := by
      have hqo : last.ops[q]? = some ⟨b, w.mapData (Option.map fun d => (d, b))⟩ := by
        simp [hbar.2, hops]
      rw [hq, Option.some.injEq] at hqo
      rw [hqo] at hd
      obtain ⟨d', -, heq⟩ := Option.map_eq_some_iff.mp hd
      exact (Prod.mk.inj heq).2
    have hbc : b = c := by
      by_contra hne
      have := epochOf_lt hw hwb (lt_of_le_of_ne hc.le hne)
      omega
    subst hbc
    have hle : c' ≤ b := by
      by_contra hlt
      have := epochOf_lt hw hwb (not_le.mp hlt)
      omega
    simp [hno c' hc' b w hle le_rfl hw] at hwb
  · have hops : opsAt last [q] = [o] := by simp [opsAt, hq]
    refine ⟨[q], le_rfl, ⟨List.nodup_singleton q, by simpa using hqlt, fun hb hmem => ?_⟩, ?_⟩
    · exact absurd ⟨hb, by simpa [eq_comm] using hmem⟩ hbar
    · rw [hops]
      simp [origins, hd, hij]

theorem ordered_of_barrierSound
    (h : ∀ res, CrashForm (initDataVector u (withOrigin log)) res →
      BarrierSound log (res.map EpochOp.op)) : FlushDataOrdered log := by
  intro i w b hw hs hd hnext hb j c hij hj hc
  by_contra hno
  have hlate : ∀ c', Lands log i c' → ∀ k v, c' ≤ k → k ≤ c → log[k]? = some v →
      v.isBarrierWrite = false := by
    intro c' hc' k v hck hkc hv
    by_contra hvb
    exact hno ⟨c', hc', k, v, hck, hkc, hv, by simpa using hvb⟩
  have hclt := hc.lt_length
  obtain ⟨last, hlast⟩ := exists_epoch u (withOrigin log) (n := c) (by simpa [withOrigin])
  rw [epochOf_withOrigin] at hlast
  obtain ⟨ps, hps, hsel, hjps, hips⟩ :=
    exists_selection u hlast (show i ≠ j by omega) hj hc hlate
  have hblocks : List.Forall₂ FullBlock
      ((initDataVector u (withOrigin log)).take (epochOf log c))
      (((initDataVector u (withOrigin log)).take (epochOf log c)).map Epoch.ops) := by
    rw [List.forall₂_map_right_iff, List.forall₂_same]
    exact fun ep hep =>
      fullBlock_ops (initDataVector_ops_ne_nil u _ ep (List.mem_of_mem_take hep))
  have hi : WritesData log i := by
    simp only [DiskWrite.splitsFlush, Bool.and_eq_true] at hs
    exact ⟨w, hw, hs.1.2, hd⟩
  have hsound := h _ ⟨epochOf log c + 1, last, _, ps, by omega, hlast, hblocks, hps, hsel, rfl⟩
    j (i + 1) b hj ((form_origins u hblocks hj).mpr (.inr hjps)) hij hnext hb
  obtain ⟨c', hc', hlt⟩ | hmem :=
    (form_origins u hblocks hi).mp (hsound.1 i (Nat.lt_succ_self i) hi)
  · obtain ⟨k, v, hck, hkc, hv, hvb⟩ := exists_barrier_of_epochOf_lt hlt
    simp [hlate c' hc' k v hck hkc.le hv] at hvb
  · exact hips hmem

/-- Whatever is drawn and whatever is completed, the crash state that is returned is
sound; the same run on the labelled log tells which payloads are in it. -/
def CrashStatesSound (u : Uninit) (log : List (DiskWrite δ)) : Prop :=
  ∀ completed r ret R done r',
    generateCrashState (genOneState (initDataVector u log)) completed r =
      some ((ret, R, done), r') →
    ∃ R', generateCrashState (genOneState (initDataVector u (withOrigin log))) completed r =
        some ((ret, R', done), r') ∧
      R'.map eraseOrigin = R ∧ BarrierSound log R'

/-- All crash states of a log are sound for its barriers if and only if the data
halves that are pushed late are still pushed in time. -/
theorem crashStatesSound_iff (u : Uninit) (log : List (DiskWrite δ)) :
    CrashStatesSound u log ↔ FlushDataOrdered log := by
  have hne := initDataVector_ops_ne_nil u (withOrigin log)
  have herase : initDataVector u log = (initDataVector u (withOrigin log)).map
      (Epoch.mapData (Option.map Prod.fst)) := by
    rw [← initDataVector_mapData _ rfl]
    exact congrArg _ (map_eraseOrigin_withOrigin log).symm
  obtain hnil | hnil := eq_or_ne (initDataVector u (withOrigin log)) []
  · obtain rfl : log = [] := by
      by_contra hlog
      obtain ⟨ep, hep⟩ := exists_epoch u (withOrigin log) (n := 0)
        (by simpa [withOrigin] using List.length_pos_iff.mpr hlog)
      simp [hnil] at hep
    refine iff_of_true (fun completed r ret R done r' h => ?_) fun i w b hw => by simp at hw
    rw [herase, hnil, List.map_nil, generateCrashState_nil] at h
    cases h
  · have hrun := fun completed r =>
      generateCrashState_mapData (Option.map Prod.fst) hne hnil completed r
    rw [← herase] at hrun
    constructor
    · intro h
      refine ordered_of_barrierSound u fun res hres => ?_
      obtain ⟨r, r', done, hgen⟩ := exists_generateCrashState hne hres
      obtain ⟨R', hR', -, hsound⟩ := h ∅ r _ _ _ r' (by rw [hrun, hgen]; rfl)
      obtain rfl : res.map EpochOp.op = R' := by
        rw [hgen] at hR'
        simpa using hR'
      exact hsound
    · intro hcond completed r ret R done r' h
      rw [hrun] at h
      obtain ⟨⟨⟨ret', R', done'⟩, r''⟩, hR', heq⟩ := Option.map_eq_some_iff.mp h
      simp only [Prod.mk.injEq] at heq
      obtain ⟨⟨rfl, rfl, rfl⟩, rfl⟩ := heq
      obtain ⟨res, hres, rfl, -⟩ := generateCrashState_cases hne hnil hR'
      exact ⟨_, hR', rfl, barrierSound_of_form u hcond hres⟩

def lateFlushLog : List (DiskWrite ℕ) :=
  [⟨⟨0, reqWrite ||| reqFlush, 0, 512⟩, some 10⟩, ⟨⟨0, reqWrite ||| reqFua, 1, 512⟩, some 11⟩,
    ⟨⟨0, reqWrite, 2, 512⟩, some 12⟩]

/-- With three epochs drawn, one request and the second of its two operations, the
plain write is on the disk without the data of the flush. -/
theorem not_crashStatesSound_lateFlushLog : ¬ CrashStatesSound default lateFlushLog := by
  intro h
  have hlog : initDataVector default lateFlushLog =
      splitFrom default none (initLocals ℕ default) lateFlushLog :=
    initDataVector_eq_splitFrom _ _
  have hlabelled : initDataVector default (withOrigin lateFlushLog) =
      splitFrom default none (initLocals (ℕ × ℕ) default) (withOrigin lateFlushLog) :=
    initDataVector_eq_splitFrom _ _
  unfold CrashStatesSound at h
  rw [hlog, hlabelled] at h
  obtain ⟨R', hR', -, hsound⟩ := h ∅ ([2, 0, 1] ++ₛ Stream'.const 0) _ _ _ _ rfl
  let payloads (x : (Bool × List (DiskWrite (ℕ × ℕ)) × Finset (List ℕ)) × Stream' ℕ) : List ℕ :=
    origins x.1.2.1
  have horigins : [1, 2] = origins R' := Option.some.inj (congrArg (Option.map payloads) hR')
  have hmem := (hsound 2 1 _ ⟨_, rfl, by decide, rfl⟩ (by simp [← horigins]) (by decide) rfl
    (by decide)).1 0 (by decide) ⟨_, rfl, by decide, rfl⟩
  simp [← horigins] at hmem

end CrashMonkey
