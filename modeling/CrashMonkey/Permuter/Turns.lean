import CrashMonkey.Permuter.Split

namespace CrashMonkey

variable {δ : Type}

def localsAt (u : Uninit) (log : List (DiskWrite δ)) (n : ℕ) : Locals δ :=
  (log.take n).foldl (fun l w => nextLocals u w l) (initLocals δ u)

theorem localsAt_succ (u : Uninit) {log : List (DiskWrite δ)} {n : ℕ} {w : DiskWrite δ}
    (h : log[n]? = some w) : localsAt u log (n + 1) = nextLocals u w (localsAt u log n) := by
  simp [localsAt, List.take_add_one, h]

theorem localsAt_index (u : Uninit) {log : List (DiskWrite δ)} {n : ℕ} (h : n ≤ log.length) :
    (localsAt u log n).index = n := by
  induction n with
  | zero => rfl
  | succ n ih =>
    rw [localsAt_succ u (List.getElem?_eq_getElem h), nextLocals_index, ih (by omega)]

def opsOn (u : Uninit) (log : List (DiskWrite δ)) (n : ℕ) : List (EpochOp δ) :=
  log[n]?.elim [] fun w => turnOps u w (localsAt u log n)

theorem opsOn_eq (u : Uninit) {log : List (DiskWrite δ)} {n : ℕ} {w : DiskWrite δ}
    (h : log[n]? = some w) : opsOn u log n = turnOps u w (localsAt u log n) := by
  simp [opsOn, h]

/-- The number of the epoch to which index `n` pushes: the barriers before `n`. -/
def epochOf (log : List (DiskWrite δ)) (n : ℕ) : ℕ := (log.take n).countP DiskWrite.isBarrierWrite

theorem epochOf_succ {log : List (DiskWrite δ)} {n : ℕ} {w : DiskWrite δ} (h : log[n]? = some w) :
    epochOf log (n + 1) = epochOf log n + w.isBarrierWrite.toNat := by
  cases hw : w.isBarrierWrite <;> simp [epochOf, List.take_add_one, h, List.countP_append, hw]

theorem epochOf_mono (log : List (DiskWrite δ)) : Monotone (epochOf log) := fun _ _ h =>
  (List.take_sublist_take_left h).countP_le

/-- A barrier separates the epochs. -/
theorem epochOf_lt {log : List (DiskWrite δ)} {b n : ℕ} {w : DiskWrite δ} (h : log[b]? = some w)
    (hw : w.isBarrierWrite = true) (hbn : b < n) : epochOf log b < epochOf log n := by
  have hle := epochOf_mono log hbn
  rw [Nat.succ_eq_add_one, epochOf_succ h, hw] at hle
  exact hle

/-- Between indices of different epochs there is a barrier. -/
theorem exists_barrier_of_epochOf_lt {log : List (DiskWrite δ)} {a n : ℕ}
    (h : epochOf log a < epochOf log n) :
    ∃ b w, a ≤ b ∧ b < n ∧ log[b]? = some w ∧ w.isBarrierWrite = true := by
  induction n with
  | zero => simp [epochOf] at h
  | succ n ih =>
    by_cases hlt : epochOf log a < epochOf log n
    · obtain ⟨b, w, hab, hbn, hw⟩ := ih hlt
      exact ⟨b, w, hab, by omega, hw⟩
    · have han : a ≤ n := by
        by_contra han
        exact absurd (epochOf_mono log (show n + 1 ≤ a by omega)) (by omega)
      cases hn : log[n]? with
      | none =>
        have heq : epochOf log (n + 1) = epochOf log n := by simp [epochOf, List.take_add_one, hn]
        omega
      | some w =>
        rw [epochOf_succ hn] at h
        cases hw : w.isBarrierWrite with
        | false => simp [hw] at h; omega
        | true => exact ⟨n, w, han, by omega, hn, hw⟩

def turnsOf (log : List (DiskWrite δ)) (n k : ℕ) : List ℕ :=
  (List.range' n (log.length - n)).filter fun m => epochOf log m = k

theorem mem_turnsOf {log : List (DiskWrite δ)} {n k m : ℕ} :
    m ∈ turnsOf log n k ↔ n ≤ m ∧ m < log.length ∧ epochOf log m = k := by
  simp only [turnsOf, List.mem_filter, List.mem_range'_1, decide_eq_true_eq]
  omega

theorem turnsOf_cons {log : List (DiskWrite δ)} {n : ℕ} (h : n < log.length) (k : ℕ) :
    turnsOf log n k =
      if epochOf log n = k then n :: turnsOf log (n + 1) k else turnsOf log (n + 1) k := by
  obtain ⟨d, hd⟩ := Nat.exists_eq_add_of_lt h
  have h₁ : log.length - n = d + 1 := by omega
  have h₂ : log.length - (n + 1) = d := by omega
  rw [turnsOf, turnsOf, h₁, h₂, List.range'_succ, List.filter_cons]
  simp

theorem turnsOf_eq_nil {log : List (DiskWrite δ)} {n k : ℕ} (h : k < epochOf log n) :
    turnsOf log n k = [] := by
  refine List.eq_nil_iff_forall_not_mem.mpr fun m hm => ?_
  obtain ⟨hnm, -, hk⟩ := mem_turnsOf.mp hm
  have := epochOf_mono log hnm
  omega

/-- A barrier is the last index of its epoch. -/
theorem turnsOf_barrier {log : List (DiskWrite δ)} {b : ℕ} {w : DiskWrite δ}
    (h : log[b]? = some w) (hw : w.isBarrierWrite = true) :
    turnsOf log 0 (epochOf log b) =
      (List.range b).filter (fun m => epochOf log m = epochOf log b) ++ [b] := by
  have hlt := (List.getElem?_eq_some_iff.mp h).1
  have hsplit : List.range' 0 (log.length - 0) =
      List.range b ++ List.range' b (log.length - b) := by
    have happ := List.range'_append_1 (s := 0) (m := b) (n := log.length - b)
    rw [Nat.zero_add, show b + (log.length - b) = log.length - 0 by omega] at happ
    rw [List.range_eq_range', happ]
  have hcons := turnsOf_cons hlt (epochOf log b)
  rw [if_pos rfl, turnsOf_eq_nil (epochOf_lt h hw (Nat.lt_succ_self b))] at hcons
  rw [turnsOf, hsplit, List.filter_append, ← hcons, turnsOf]

def epochsFrom (u : Uninit) (log : List (DiskWrite δ)) (cur : Option (Epoch δ)) (n : ℕ) :
    List (Epoch δ) :=
  splitFrom u cur (localsAt u log n) (log.drop n)

theorem epochsFrom_barrier (u : Uninit) {log : List (DiskWrite δ)} (cur : Option (Epoch δ))
    {n : ℕ} {w : DiskWrite δ} (h : log[n]? = some w) (hw : w.isBarrierWrite = true) :
    epochsFrom u log cur n = (closeEpoch u w (localsAt u log n)
      (cur.getD (newEpoch u (localsAt u log n).index))).2 :: epochsFrom u log none (n + 1) := by
  obtain ⟨hlt, rfl⟩ := List.getElem?_eq_some_iff.mp h
  rw [epochsFrom, List.drop_eq_getElem_cons hlt, splitFrom_barrier _ _ _ _ hw, epochsFrom,
    localsAt_succ u h]

theorem epochsFrom_plain (u : Uninit) {log : List (DiskWrite δ)} (cur : Option (Epoch δ))
    {n : ℕ} {w : DiskWrite δ} (h : log[n]? = some w) (hw : w.isBarrierWrite = false) :
    epochsFrom u log cur n = epochsFrom u log (some (collectOp w (localsAt u log n)
      (cur.getD (newEpoch u (localsAt u log n).index))).2) (n + 1) := by
  obtain ⟨hlt, rfl⟩ := List.getElem?_eq_some_iff.mp h
  rw [epochsFrom, List.drop_eq_getElem_cons hlt, splitFrom_plain _ _ _ _ hw, epochsFrom,
    localsAt_succ u h]

theorem epochsFrom_end (u : Uninit) {log : List (DiskWrite δ)} (cur : Option (Epoch δ)) {n : ℕ}
    (h : log.length ≤ n) : epochsFrom u log cur n = cur.toList := by
  rw [epochsFrom, List.drop_eq_nil_of_le h]
  cases cur <;> rfl

theorem initDataVector_eq_epochsFrom (u : Uninit) (log : List (DiskWrite δ)) :
    initDataVector u log = epochsFrom u log none 0 := initDataVector_eq_splitFrom u log

/-- Induction along the pass: at the end of the log, at a barrier and at any other
operation. -/
theorem epochsFrom_induction (u : Uninit) (log : List (DiskWrite δ))
    {P : Option (Epoch δ) → ℕ → Prop}
    (stop : ∀ cur n, log.length ≤ n → P cur n)
    (barrier : ∀ cur n w, log[n]? = some w → w.isBarrierWrite = true → P none (n + 1) → P cur n)
    (plain : ∀ cur n w, log[n]? = some w → w.isBarrierWrite = false →
      P (some (collectOp w (localsAt u log n)
        (cur.getD (newEpoch u (localsAt u log n).index))).2) (n + 1) → P cur n)
    (cur : Option (Epoch δ)) (n : ℕ) : P cur n := by
  obtain hn | hn := le_or_gt log.length n
  · exact stop cur n hn
  · have hw := List.getElem?_eq_getElem hn
    cases hb : log[n].isBarrierWrite with
    | true => exact barrier cur n _ hw hb (epochsFrom_induction u log stop barrier plain _ _)
    | false => exact plain cur n _ hw hb (epochsFrom_induction u log stop barrier plain _ _)
termination_by log.length - n

theorem epochsFrom_ops (u : Uninit) (log : List (DiskWrite δ)) (cur : Option (Epoch δ)) (n k : ℕ)
    {ep : Epoch δ} (h : (epochsFrom u log cur n)[k]? = some ep) :
    ep.ops = (if k = 0 then cur.elim [] Epoch.ops else []) ++
      (turnsOf log n (epochOf log n + k)).flatMap (opsOn u log) := by
  have hcur (cur : Option (Epoch δ)) (i : ℕ) :
      (cur.getD (newEpoch u i)).ops = cur.elim [] Epoch.ops := by
    cases cur <;> rfl
  induction cur, n using epochsFrom_induction u log generalizing k with
  | stop cur n hn =>
    have hnil : turnsOf log n (epochOf log n + k) = [] := by simp [turnsOf, hn]
    rw [epochsFrom_end u cur hn] at h
    cases cur with
    | none => simp at h
    | some e =>
      cases k with
      | zero =>
        obtain rfl : e = ep := by simpa using h
        rw [hnil]
        simp
      | succ k => simp at h
  | barrier cur n w hw hb ih =>
    have hlt := (List.getElem?_eq_some_iff.mp hw).1
    have hnext : epochOf log (n + 1) = epochOf log n + 1 := by rw [epochOf_succ hw, hb]; rfl
    rw [epochsFrom_barrier u cur hw hb] at h
    rw [turnsOf_cons hlt]
    cases k with
    | zero =>
      obtain rfl : _ = ep := by simpa using h
      rw [closeEpoch_ops u hb, hcur, turnsOf_eq_nil (by omega)]
      simp [opsOn_eq u hw]
    | succ k =>
      have hne : ¬ epochOf log n = epochOf log n + (k + 1) := by omega
      rw [ih k (by simpa using h), hnext, if_neg hne]
      simp [Nat.add_assoc, Nat.add_comm 1]
  | plain cur n w hw hb ih =>
    have hlt := (List.getElem?_eq_some_iff.mp hw).1
    have hnext : epochOf log (n + 1) = epochOf log n := by rw [epochOf_succ hw, hb]; rfl
    rw [epochsFrom_plain u cur hw hb] at h
    rw [ih k h, turnsOf_cons hlt, hnext]
    cases k with
    | zero => simp [collectOp_ops u hb, hcur, opsOn_eq u hw]
    | succ k => simp

/-- A search from index `n` on looks at the operation there first. -/
theorem exists_from_iff {log : List (DiskWrite δ)} {n : ℕ} {w : DiskWrite δ} (hw : log[n]? = some w)
    {Q : ℕ → DiskWrite δ → Prop} : (∃ b v, n ≤ b ∧ log[b]? = some v ∧ Q b v) ↔
      Q n w ∨ ∃ b v, n + 1 ≤ b ∧ log[b]? = some v ∧ Q b v := by
  constructor
  · rintro ⟨b, v, hnb, hv, hQ⟩
    obtain rfl | hlt := hnb.eq_or_lt
    · obtain rfl : w = v := by simpa [hw] using hv
      exact .inl hQ
    · exact .inr ⟨b, v, hlt, hv, hQ⟩
  · rintro (hQ | ⟨b, v, hnb, hv, hQ⟩)
    · exact ⟨n, w, le_rfl, hw, hQ⟩
    · exact ⟨b, v, (Nat.le_succ n).trans hnb, hv, hQ⟩

theorem collectOp_hasBarrier (w : DiskWrite δ) (l : Locals δ) (e : Epoch δ) :
    (collectOp w l e).2.hasBarrier = e.hasBarrier := by
  simp only [collectOp, emitDataHalf]
  split_ifs <;> rfl

/-- An epoch has a barrier exactly when a barrier that is not divided ends it. -/
theorem epochsFrom_hasBarrier (u : Uninit) (log : List (DiskWrite δ)) (cur : Option (Epoch δ))
    (n k : ℕ) {ep : Epoch δ} (h : (epochsFrom u log cur n)[k]? = some ep)
    (hcur : ∀ e ∈ cur, e.hasBarrier = false) :
    ep.hasBarrier = true ↔ ∃ b w, n ≤ b ∧ log[b]? = some w ∧ w.isBarrierWrite = true ∧
      w.splitsFlush = false ∧ epochOf log b = epochOf log n + k := by
  have hnew {cur : Option (Epoch δ)} (hcur : ∀ e ∈ cur, e.hasBarrier = false) (i : ℕ) :
      (cur.getD (newEpoch u i)).hasBarrier = false := by
    cases cur with
    | none => rfl
    | some e => exact hcur e rfl
  induction cur, n using epochsFrom_induction u log generalizing k with
  | stop cur n hn =>
    rw [epochsFrom_end u cur hn] at h
    have hf := hcur ep (Option.mem_toList.mp (List.mem_of_getElem? h))
    refine iff_of_false (by simp [hf]) ?_
    rintro ⟨b, w, hnb, hb, -⟩
    have := (List.getElem?_eq_some_iff.mp hb).1
    omega
  | barrier cur n w hw hb ih =>
    have hnext : epochOf log (n + 1) = epochOf log n + 1 := by rw [epochOf_succ hw, hb]; rfl
    rw [epochsFrom_barrier u cur hw hb] at h
    rw [exists_from_iff hw]
    cases k with
    | zero =>
      have hclose : ep.hasBarrier = !w.splitsFlush := by
        obtain rfl : _ = ep := by simpa using h
        unfold closeEpoch
        cases w.splitsFlush <;> simp [hnew hcur]
      -- later operations are in later epochs
      have hlater : ¬ ∃ b v, n + 1 ≤ b ∧ log[b]? = some v ∧ v.isBarrierWrite = true ∧
          v.splitsFlush = false ∧ epochOf log b = epochOf log n + 0 := by
        rintro ⟨b, v, hnb, -, -, -, heq⟩
        have := epochOf_mono log hnb
        omega
      rw [hclose, or_iff_left hlater]
      simp [hb]
    | succ k =>
      have hhere : ¬ (w.isBarrierWrite = true ∧ w.splitsFlush = false ∧
          epochOf log n = epochOf log n + (k + 1)) := by omega
      refine (ih k (by simpa using h) (by simp)).trans ?_
      rw [hnext, or_iff_right hhere, Nat.add_assoc, Nat.add_comm 1]
  | plain cur n w hw hb ih =>
    have hnext : epochOf log (n + 1) = epochOf log n := by rw [epochOf_succ hw, hb]; rfl
    rw [epochsFrom_plain u cur hw hb] at h
    have hcollect : ∀ e ∈ some (collectOp w (localsAt u log n)
        (cur.getD (newEpoch u (localsAt u log n).index))).2, e.hasBarrier = false := by
      intro e he
      obtain rfl := Option.some.inj he
      rw [collectOp_hasBarrier]
      exact hnew hcur _
    have hhere : ¬ (w.isBarrierWrite = true ∧ w.splitsFlush = false ∧
        epochOf log n = epochOf log n + k) := by simp [hb]
    refine (ih k h hcollect).trans ?_
    rw [hnext, exists_from_iff hw, or_iff_right hhere]

theorem epochOf_lt_length (u : Uninit) (log : List (DiskWrite δ)) (cur : Option (Epoch δ))
    {n m : ℕ} (hn : n ≤ m) (hm : m < log.length) :
    epochOf log m < epochOf log n + (epochsFrom u log cur n).length := by
  induction cur, n using epochsFrom_induction u log with
  | stop cur n h => omega
  | barrier cur n w hw hb ih =>
    rw [epochsFrom_barrier u cur hw hb, List.length_cons]
    obtain rfl | hlt := hn.eq_or_lt
    · omega
    · have := ih hlt
      rw [epochOf_succ hw, hb, Bool.toNat_true] at this
      omega
  | plain cur n w hw hb ih =>
    obtain rfl | hlt := hn.eq_or_lt
    · obtain ⟨e, rest, he, -⟩ := splitFrom_some u (collectOp w (localsAt u log n)
        (cur.getD (newEpoch u (localsAt u log n).index))).2 (localsAt u log (n + 1))
        (log.drop (n + 1))
      rw [epochsFrom_plain u cur hw hb, epochsFrom, he]
      simp
    · rw [epochsFrom_plain u cur hw hb]
      have := ih hlt
      rwa [epochOf_succ hw, hb, Bool.toNat_false] at this

theorem initDataVector_ops (u : Uninit) {log : List (DiskWrite δ)} {k : ℕ} {ep : Epoch δ}
    (h : (initDataVector u log)[k]? = some ep) :
    ep.ops = (turnsOf log 0 k).flatMap (opsOn u log) := by
  rw [initDataVector_eq_epochsFrom] at h
  have hzero : epochOf log 0 = 0 := rfl
  simpa [hzero] using epochsFrom_ops u log none 0 k h

theorem initDataVector_hasBarrier (u : Uninit) {log : List (DiskWrite δ)} {k : ℕ} {ep : Epoch δ}
    (h : (initDataVector u log)[k]? = some ep) :
    ep.hasBarrier = true ↔ ∃ b w, log[b]? = some w ∧ w.isBarrierWrite = true ∧
      w.splitsFlush = false ∧ epochOf log b = k := by
  rw [initDataVector_eq_epochsFrom] at h
  have hzero : epochOf log 0 = 0 := rfl
  simpa [hzero] using epochsFrom_hasBarrier u log none 0 k h (by simp)

theorem exists_epoch (u : Uninit) (log : List (DiskWrite δ)) {n : ℕ} (h : n < log.length) :
    ∃ ep, (initDataVector u log)[epochOf log n]? = some ep := by
  have hlt := epochOf_lt_length u log none (Nat.zero_le n) h
  rw [← initDataVector_eq_epochsFrom, show epochOf log 0 = 0 from rfl, Nat.zero_add] at hlt
  exact ⟨_, List.getElem?_eq_getElem hlt⟩

/-- The data half of the divided flush at `p` is pending at `n`: only barriers that
are not divided stand between. -/
def Waiting (log : List (DiskWrite δ)) (p n : ℕ) : Prop :=
  p < n ∧ (∃ w, log[p]? = some w ∧ w.splitsFlush = true) ∧
    ∀ m w, p < m → m < n → log[m]? = some w → w.isBarrierWrite = true ∧ w.splitsFlush = false

/-- The payload of the operation at `p` is pushed at `n`: its own, or that of a
pending data half when no barrier is there. -/
def Lands (log : List (DiskWrite δ)) (p n : ℕ) : Prop :=
  (n = p ∧ ∃ w, log[n]? = some w ∧ w.splitsFlush = false) ∨
    (Waiting log p n ∧ ∃ w, log[n]? = some w ∧ w.isBarrierWrite = false)

theorem waiting_succ {log : List (DiskWrite δ)} {n p : ℕ} {w : DiskWrite δ}
    (h : log[n]? = some w) : Waiting log p (n + 1) ↔ (p = n ∧ w.splitsFlush = true) ∨
      (Waiting log p n ∧ w.isBarrierWrite = true ∧ w.splitsFlush = false) := by
  constructor
  · rintro ⟨hlt, ⟨v, hv, hs⟩, hbetween⟩
    obtain rfl | hne := eq_or_ne p n
    · obtain rfl : w = v := by simpa [h] using hv
      exact .inl ⟨rfl, hs⟩
    · refine .inr ⟨⟨by omega, ⟨v, hv, hs⟩, fun m x hpm hmn hx => ?_⟩, ?_⟩
      · exact hbetween m x hpm (by omega) hx
      · exact hbetween n w (by omega) (by omega) h
  · rintro (⟨rfl, hs⟩ | ⟨⟨hlt, hv, hbetween⟩, hb, hs⟩)
    · exact ⟨by omega, ⟨w, h, hs⟩, fun m x _ _ _ => by omega⟩
    · refine ⟨by omega, hv, fun m x hpm hmn hx => ?_⟩
      obtain rfl | hne := eq_or_ne m n
      · obtain rfl : w = x := by simpa [h] using hx
        exact ⟨hb, hs⟩
      · exact hbetween m x hpm (by omega) hx

/-- `prev_epoch_flush_op` and `data_half` are about the flush that is pending. -/
theorem localsAt_pending (u : Uninit) (log : List (DiskWrite δ)) {n : ℕ} (hn : n ≤ log.length) :
    ((localsAt u log n).prevEpochFlushOp = true ↔ ∃ p, Waiting log p n) ∧
      ∀ p w, Waiting log p n → log[p]? = some w → (localsAt u log n).dataHalf = w.dataHalf := by
  induction n with
  | zero =>
    refine ⟨iff_of_false (by simp [localsAt, initLocals]) ?_, ?_⟩
    · rintro ⟨p, hp, -⟩
      omega
    · rintro p w ⟨hp, -⟩
      omega
  | succ n ih =>
    obtain ⟨hprev, hdata⟩ := ih (by omega)
    have hw := List.getElem?_eq_getElem (show n < log.length by omega)
    generalize log[n] = w at hw
    have hbar : w.splitsFlush = true → w.isBarrierWrite = true :=
      DiskWrite.isBarrierWrite_of_splitsFlush
    rw [localsAt_succ u hw, nextLocals_prevEpochFlushOp, nextLocals_dataHalf]
    refine ⟨?_, fun p v hp hv => ?_⟩
    · simp only [Bool.and_eq_true, Bool.or_eq_true, hprev, waiting_succ hw]
      constructor
      · rintro ⟨hb, hs | ⟨p, hp⟩⟩
        · exact ⟨n, .inl ⟨rfl, hs⟩⟩
        · cases hs : w.splitsFlush with
          | true => exact ⟨n, .inl ⟨rfl, rfl⟩⟩
          | false => exact ⟨p, .inr ⟨hp, hb, rfl⟩⟩
      · rintro ⟨p, ⟨-, hs⟩ | ⟨hp, hb, -⟩⟩
        · exact ⟨hbar hs, .inl hs⟩
        · exact ⟨hb, .inr ⟨p, hp⟩⟩
    · obtain ⟨rfl, hs⟩ | ⟨hp, -, hs⟩ := (waiting_succ hw).mp hp
      · obtain rfl : w = v := by simpa [hw] using hv
        rw [if_pos hs]
      · rw [if_neg (by simp [hs]), hdata p v hp hv]

theorem Lands.le {log : List (DiskWrite δ)} {p n : ℕ} (h : Lands log p n) : p ≤ n := by
  obtain ⟨rfl, -⟩ | ⟨⟨hlt, -⟩, -⟩ := h
  · exact le_rfl
  · exact hlt.le

theorem Lands.lt_length {log : List (DiskWrite δ)} {p n : ℕ} (h : Lands log p n) :
    n < log.length := by
  obtain ⟨-, w, hw, -⟩ | ⟨-, w, hw, -⟩ := h <;> exact (List.getElem?_eq_some_iff.mp hw).1

/-- What holds of the operations of the log, and of the halves of those that are divided,
holds of all operations in the epochs. -/
theorem initDataVector_forall (u : Uninit) {log : List (DiskWrite δ)} {P : DiskWrite δ → Prop}
    (hlog : ∀ w ∈ log, P w) (hdata : ∀ w ∈ log, P w → P w.dataHalf)
    (hflag : ∀ b (w : DiskWrite δ), log[b]? = some w → w.splitsFlush = true →
      P (w.flagHalf (u.flagHalf b))) :
    ∀ ep ∈ initDataVector u log, ∀ o ∈ ep.ops, P o.op := by
  intro ep hep o ho
  obtain ⟨k, hk⟩ := List.mem_iff_getElem?.mp hep
  rw [initDataVector_ops u hk] at ho
  obtain ⟨n, hn, ho⟩ := List.mem_flatMap.mp ho
  have hlt := (mem_turnsOf.mp hn).2.1
  have hw := List.getElem?_eq_getElem hlt
  have hmem := List.mem_of_getElem? hw
  rw [opsOn_eq u hw, turnOps] at ho
  split_ifs at ho with hbarrier hsplit hpending
  · rw [List.mem_singleton.mp ho]
    rw [localsAt_index u hlt.le]
    exact hflag n _ hw hsplit
  · rw [List.mem_singleton.mp ho]
    exact hlog _ hmem
  · rcases List.mem_append.mp ho with ho | ho
    · -- the data half is that of an operation before
      obtain ⟨hiff, hhalf⟩ := localsAt_pending u log hlt.le
      obtain ⟨p, hp⟩ := hiff.mp hpending
      obtain ⟨w, hpw, -⟩ := hp.2.1
      have hwmem := List.mem_of_getElem? hpw
      rw [List.mem_singleton.mp ho]
      change P (localsAt u log n).dataHalf
      rw [hhalf p w hp hpw]
      exact hdata w hwmem (hlog w hwmem)
    · rw [List.mem_singleton.mp ho]
      exact hlog _ hmem
  · rw [List.nil_append, List.mem_singleton] at ho
    rw [ho]
    exact hlog _ hmem

end CrashMonkey
