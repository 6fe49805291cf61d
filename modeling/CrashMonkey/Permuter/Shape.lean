import CrashMonkey.Permuter.CrashStates
import CrashMonkey.Permuter.Turns

namespace CrashMonkey

variable {δ : Type}

/-- The barrier write `w`, at log index `b`, closes the epoch with number `k`. -/
def Closes (log : List (DiskWrite δ)) (k b : ℕ) (w : DiskWrite δ) : Prop :=
  log[b]? = some w ∧ w.isBarrierWrite = true ∧ epochOf log b = k

/-- Only one barrier closes an epoch. -/
theorem Closes.unique {log : List (DiskWrite δ)} {k b c : ℕ} {v w : DiskWrite δ}
    (hv : Closes log k b v) (hw : Closes log k c w) : b = c ∧ v = w := by
  have aux {b c : ℕ} {v w : DiskWrite δ} (hv : Closes log k b v) (hw : Closes log k c w) :
      c ≤ b := by
    by_contra hlt
    have := epochOf_lt hv.1 hv.2.1 (not_le.mp hlt)
    rw [hv.2.2, hw.2.2] at this
    exact lt_irrefl k this
  obtain rfl := le_antisymm (aux hw hv) (aux hv hw)
  exact ⟨rfl, by simpa [hv.1] using hw.1⟩

/-- Every epoch before the one of index `n` has been closed. -/
theorem exists_closes {log : List (DiskWrite δ)} {k n : ℕ} (h : k < epochOf log n) :
    ∃ b w, Closes log k b w := by
  induction n with
  | zero => exact absurd h (Nat.not_lt_zero k)
  | succ n ih =>
    by_cases hlt : k < epochOf log n
    · exact ih hlt
    · cases hn : log[n]? with
      | none =>
        have heq : epochOf log (n + 1) = epochOf log n := by simp [epochOf, List.take_add_one, hn]
        exact absurd (heq ▸ h) hlt
      | some w =>
        rw [epochOf_succ hn] at h
        -- the count has gone up here, so `w` is the barrier
        cases hw : w.isBarrierWrite with
        | false => exact absurd (by simpa [hw] using h) hlt
        | true =>
          rw [hw, Bool.toNat_true] at h
          exact ⟨n, w, hn, hw, by omega⟩

structure EpochForm (log : List (DiskWrite δ)) (k : ℕ) (ep : Epoch δ) : Prop where
  nonempty : ep.ops ≠ []
  barrier : ep.hasBarrier = true ↔ ∃ b w, Closes log k b w
  last : ∀ b w, Closes log k b w → ∃ o, ep.ops.getLast? = some o ∧ o.absIndex = b ∧
    (o.op = w ∨ w.splitsFlush = true ∧ ∃ stale, o.op = w.flagHalf stale)
  before : ∀ o ∈ ep.ops.dropLast, o.op.isBarrierWrite = false

def EpochsFormed (log : List (DiskWrite δ)) (epochs : List (Epoch δ)) : Prop :=
  ∀ k ep, epochs[k]? = some ep →
    EpochForm log k ep ∧ (k + 1 < epochs.length → ep.hasBarrier = true)

/-- Without divided flushes each operation is pushed as it is. -/
theorem opsOn_whole (u : Uninit) {log : List (DiskWrite δ)}
    (hlog : ∀ w ∈ log, w.splitsFlush = false) {n : ℕ} {w : DiskWrite δ}
    (hw : log[n]? = some w) : opsOn u log n = [⟨n, w⟩] := by
  have hlt := (List.getElem?_eq_some_iff.mp hw).1
  have hs := hlog w (List.mem_of_getElem? hw)
  have hprev : (localsAt u log n).prevEpochFlushOp = false := by
    rw [Bool.eq_false_iff]
    intro h
    obtain ⟨p, -, ⟨v, hv, hs'⟩, -⟩ := (localsAt_pending u log hlt.le).1.mp h
    rw [hlog v (List.mem_of_getElem? hv)] at hs'
    cases hs'
  rw [opsOn_eq u hw, turnOps, localsAt_index u hlt.le, hprev, hs]
  simp only [Bool.false_eq_true, if_false, List.nil_append]
  split_ifs <;> rfl

/-- A barrier is pushed last, and everything before it comes from earlier indices. -/
theorem ops_of_closes (u : Uninit) {log : List (DiskWrite δ)} {k b : ℕ} {w : DiskWrite δ}
    {ep : Epoch δ} (hep : (initDataVector u log)[k]? = some ep) (hb : Closes log k b w) :
    ep.ops = ((List.range b).filter fun m => epochOf log m = k).flatMap (opsOn u log) ++
      [⟨b, if w.splitsFlush then w.flagHalf (u.flagHalf b) else w⟩] := by
  obtain ⟨hw, hbar, rfl⟩ := hb
  have hlt := (List.getElem?_eq_some_iff.mp hw).1
  rw [initDataVector_ops u hep, turnsOf_barrier hw hbar, List.flatMap_append,
    List.flatMap_singleton, opsOn_eq u hw, turnOps, if_pos hbar, localsAt_index u hlt.le]

theorem epochForm_of_whole (u : Uninit) {log : List (DiskWrite δ)}
    (hlog : ∀ w ∈ log, w.splitsFlush = false) {k : ℕ} {ep : Epoch δ}
    (hep : (initDataVector u log)[k]? = some ep) : EpochForm log k ep where
  nonempty := initDataVector_ops_ne_nil u log ep (List.mem_of_getElem? hep)
  barrier := by
    rw [initDataVector_hasBarrier u hep]
    constructor
    · rintro ⟨b, w, hw, hbar, -, hk⟩
      exact ⟨b, w, hw, hbar, hk⟩
    · rintro ⟨b, w, hw, hbar, hk⟩
      exact ⟨b, w, hw, hbar, hlog w (List.mem_of_getElem? hw), hk⟩
  last b w hb := by
    refine ⟨⟨b, w⟩, ?_, rfl, .inl rfl⟩
    rw [ops_of_closes u hep hb, List.getLast?_concat, hlog w (List.mem_of_getElem? hb.1)]
    rfl
  before o ho := by
    rw [Bool.eq_false_iff]
    intro hbar
    -- `o` is the log operation at some index `n` of the epoch
    have hmem := List.dropLast_subset _ ho
    rw [initDataVector_ops u hep] at hmem
    obtain ⟨n, hn, hon⟩ := List.mem_flatMap.mp hmem
    obtain ⟨-, hlt, hk⟩ := mem_turnsOf.mp hn
    have hw := List.getElem?_eq_getElem hlt
    rw [opsOn_whole u hlog hw, List.mem_singleton] at hon
    subst hon
    -- so it is the barrier that closes the epoch, and not before it
    rw [ops_of_closes u hep ⟨hw, hbar, hk⟩, List.dropLast_concat] at ho
    obtain ⟨m, hm, hom⟩ := List.mem_flatMap.mp ho
    have hmn := List.mem_range.mp (List.mem_of_mem_filter hm)
    rw [opsOn_whole u hlog (List.getElem?_eq_getElem (hmn.trans hlt)), List.mem_singleton] at hom
    exact hmn.ne' (congrArg EpochOp.absIndex hom)

/-- An epoch that is not the last one has been closed. -/
theorem closes_of_lt_length (u : Uninit) {log : List (DiskWrite δ)} {k : ℕ}
    (h : k + 1 < (initDataVector u log).length) : ∃ b w, Closes log k b w := by
  have hep := List.getElem?_eq_getElem h
  have hops := initDataVector_ops_ne_nil u log _ (List.mem_of_getElem? hep)
  rw [initDataVector_ops u hep] at hops
  -- the next epoch has an operation, and `k + 1` barriers stand before it
  obtain ⟨n, hn⟩ : ∃ n, n ∈ turnsOf log 0 (k + 1) := by
    apply List.exists_mem_of_ne_nil
    intro hnil
    rw [hnil] at hops
    exact hops rfl
  exact exists_closes (n := n) (by rw [(mem_turnsOf.mp hn).2.2]; exact Nat.lt_succ_self k)

/-- A divided flush closes its epoch, but the copy that was pushed before the flag is
set does not say so; all other logs are split as `permute_epoch` expects. -/
theorem epochsFormed_iff (u : Uninit) (log : List (DiskWrite δ)) :
    EpochsFormed log (initDataVector u log) ↔ ∀ w ∈ log, w.splitsFlush = false := by
  constructor
  · intro h w hmem
    rw [Bool.eq_false_iff]
    intro hs
    obtain ⟨p, hw⟩ := List.getElem?_of_mem hmem
    obtain ⟨ep, hep⟩ := exists_epoch u log (List.getElem?_eq_some_iff.mp hw).1
    have hcloses : Closes log (epochOf log p) p w :=
      ⟨hw, DiskWrite.isBarrierWrite_of_splitsFlush hs, rfl⟩
    have hflag := (h _ ep hep).1.barrier.mpr ⟨p, w, hcloses⟩
    obtain ⟨b, v, hv, hbar, hs', hk⟩ := (initDataVector_hasBarrier u hep).mp hflag
    -- both barriers close the same epoch
    obtain ⟨-, rfl⟩ := hcloses.unique ⟨hv, hbar, hk⟩
    rw [hs] at hs'
    cases hs'
  · intro hlog k ep hep
    refine ⟨epochForm_of_whole u hlog hep, fun hlt => ?_⟩
    exact (epochForm_of_whole u hlog hep).barrier.mpr (closes_of_lt_length u hlt)

def flushLog : List (DiskWrite ℕ) := [⟨⟨0, reqWrite ||| reqFlush, 0, 512⟩, some 0⟩]

theorem not_epochsFormed_flushLog :
    ¬ EpochsFormed flushLog (initDataVector default flushLog) := by
  intro h
  have hep : (initDataVector default flushLog)[0]? =
      some ⟨0, false, false, [⟨0, ⟨⟨0, reqFlush, 0, 0⟩, none⟩⟩]⟩ := by
    rw [initDataVector_eq_splitFrom]
    decide
  have hflag := (h 0 _ hep).1.barrier.mpr ⟨0, _, rfl, by decide, rfl⟩
  cases hflag

end CrashMonkey
