import CrashMonkey.Harness.Replay
import CrashMonkey.Permuter.CrashStates
import CrashMonkey.Permuter.Turns

namespace CrashMonkey

variable {δ : Type}

theorem collectOp_overlaps (w : DiskWrite δ) {l : Locals δ} (e : Epoch δ) (hl : l.overlaps = []) :
    (collectOp w l e).1.overlaps = [] ∧ (collectOp w l e).2.overlaps = e.overlaps := by
  unfold collectOp emitDataHalf
  rw [hl]
  split_ifs <;> simp [scanRanges]

theorem localsAt_overlaps (u : Uninit) (log : List (DiskWrite δ)) (n : ℕ) :
    (localsAt u log n).overlaps = [] := by
  induction n with
  | zero => rfl
  | succ n ih =>
    cases hn : log[n]? with
    | none =>
      have hsame : localsAt u log (n + 1) = localsAt u log n := by
        simp [localsAt, List.take_add_one, hn]
      rw [hsame, ih]
    | some w =>
      rw [localsAt_succ u hn, nextLocals]
      split_ifs
      · unfold closeEpoch
        split_ifs <;> exact ih
      · exact (collectOp_overlaps w _ ih).1

theorem epochsFrom_overlaps (u : Uninit) (log : List (DiskWrite δ)) (cur : Option (Epoch δ))
    (n : ℕ) (hcur : ∀ e ∈ cur, e.overlaps = false) :
    ∀ ep ∈ epochsFrom u log cur n, ep.overlaps = false := by
  have hnew {cur : Option (Epoch δ)} (hcur : ∀ e ∈ cur, e.overlaps = false) (i : ℕ) :
      (cur.getD (newEpoch u i)).overlaps = false := by
    cases cur with
    | none => rfl
    | some e => exact hcur e rfl
  induction cur, n using epochsFrom_induction u log with
  | stop cur n hn =>
    rw [epochsFrom_end u cur hn]
    exact fun ep hep => hcur ep (Option.mem_toList.mp hep)
  | barrier cur n w hw hb ih =>
    rw [epochsFrom_barrier u cur hw hb]
    refine List.forall_mem_cons.mpr ⟨?_, ih (by simp)⟩
    unfold closeEpoch
    split_ifs <;> exact hnew hcur _
  | plain cur n w hw hb ih =>
    rw [epochsFrom_plain u cur hw hb]
    refine ih fun e he => ?_
    obtain rfl : _ = e := by simpa using he
    rw [(collectOp_overlaps w _ (localsAt_overlaps u log n)).2, hnew hcur]

theorem initDataVector_overlaps (u : Uninit) (log : List (DiskWrite δ)) :
    ∀ ep ∈ initDataVector u log, ep.overlaps = false := by
  rw [initDataVector_eq_epochsFrom]
  exact epochsFrom_overlaps u log none 0 (by simp)

def DiskWrite.Disjoint (v w : DiskWrite δ) : Prop :=
  v.hasWriteFlag = true → w.hasWriteFlag = true →
    Image.Apart v.byteAddr v.metadata.size.toNat w.byteAddr w.metadata.size.toNat

theorem DiskWrite.Disjoint.symm {v w : DiskWrite δ} (h : v.Disjoint w) : w.Disjoint v :=
  fun hw hv => (h hv hw).symm

/-- The epoch ends with a barrier of the log, or with the flush half of one. -/
def Epoch.closed (log : List (DiskWrite δ)) (ep : Epoch δ) : Bool :=
  (ep.ops.getLast?.bind fun o => log[o.absIndex]?).any DiskWrite.isBarrierWrite

def Epoch.reorderable (log : List (DiskWrite δ)) (ep : Epoch δ) : List (EpochOp δ) :=
  if ep.closed log then ep.ops.dropLast else ep.ops

def Epoch.Overlapping (log : List (DiskWrite δ)) (ep : Epoch δ) : Prop :=
  ¬ (ep.reorderable log).Pairwise fun a b => a.op.Disjoint b.op

def PlainTurn (log : List (DiskWrite δ)) (n : ℕ) : Prop :=
  ∃ w, log[n]? = some w ∧ w.isBarrierWrite = false

/-- Writes of the log that are pushed to one epoch, and not as its barrier, have
disjoint ranges. -/
def RangesApart (log : List (DiskWrite δ)) : Prop :=
  ∀ p q m n v w, p ≠ q → Lands log p m → Lands log q n → PlainTurn log m → PlainTurn log n →
    epochOf log m = epochOf log n → log[p]? = some v → log[q]? = some w → v.Disjoint w

theorem dataHalf_hasWriteFlag (w : DiskWrite δ) : w.dataHalf.hasWriteFlag = w.hasWriteFlag := by
  unfold DiskWrite.dataHalf
  split_ifs <;> simp [DiskWrite.hasWriteFlag, DiskWriteOpMeta.cHasWriteFlag,
    DiskWrite.clearFlushFlag, DiskWrite.clearFlushSeqFlag, DiskWriteOpMeta.cClearFlushFlag,
    DiskWriteOpMeta.cClearFlushSeqFlag, reqWrite, reqFlush, reqFlushSeq, hasFlag_clear]

theorem dataHalf_range (w : DiskWrite δ) : w.dataHalf.byteAddr = w.byteAddr ∧
    w.dataHalf.metadata.size = w.metadata.size := by
  unfold DiskWrite.dataHalf
  split_ifs <;> exact ⟨rfl, rfl⟩

theorem Lands.unique {log : List (DiskWrite δ)} {p m n : ℕ} (hm : Lands log p m)
    (hn : Lands log p n) : m = n := by
  have aux {p m n : ℕ} (hm : Lands log p m) (hn : Lands log p n) : n ≤ m := by
    obtain ⟨rfl, w, hw, hs⟩ | ⟨⟨hpm, ⟨w, hw, hs⟩, -⟩, v, hv, hb⟩ := hm
    · obtain ⟨rfl, -⟩ | ⟨⟨-, ⟨w', hw', hs'⟩, -⟩, -⟩ := hn
      · exact le_rfl
      · obtain rfl : w = w' := by simpa [hw] using hw'
        simp [hs] at hs'
    · obtain ⟨rfl, -⟩ | ⟨⟨-, -, hbetween⟩, -⟩ := hn
      · exact hpm.le
      · by_contra hlt
        simp [(hbetween m v hpm (not_le.mp hlt) hv).1] at hb
  exact le_antisymm (aux hn hm) (aux hm hn)

theorem Waiting.unique {log : List (DiskWrite δ)} {p q n : ℕ} (hp : Waiting log p n)
    (hq : Waiting log q n) : p = q := by
  have aux {p q : ℕ} (hp : Waiting log p n) (hq : Waiting log q n) : q ≤ p := by
    obtain ⟨w, hw, hs⟩ := hq.2.1
    by_contra hlt
    simp [(hp.2.2 q w (not_le.mp hlt) hq.1 hw).2] at hs
  exact le_antisymm (aux hq hp) (aux hp hq)

def ApartAt (log : List (DiskWrite δ)) (p q : ℕ) : Prop :=
  ∀ v w, log[p]? = some v → log[q]? = some w → v.Disjoint w

theorem ApartAt.symm {log : List (DiskWrite δ)} {p q : ℕ} (h : ApartAt log p q) :
    ApartAt log q p := fun v w hv hw => (h w v hw hv).symm

/-- The operation `o` is pushed for log index `p`: it is the one there, or its data
half. -/
def PushedFor (log : List (DiskWrite δ)) (p : ℕ) (o : EpochOp δ) : Prop :=
  ∃ w, log[p]? = some w ∧ (o.op = w ∨ o.op = w.dataHalf)

theorem PushedFor.disjoint_iff {log : List (DiskWrite δ)} {p q : ℕ} {a b : EpochOp δ}
    (ha : PushedFor log p a) (hb : PushedFor log q b) :
    a.op.Disjoint b.op ↔ ApartAt log p q := by
  have hsame {a : EpochOp δ} {v : DiskWrite δ} (ha : a.op = v ∨ a.op = v.dataHalf) :
      a.op.hasWriteFlag = v.hasWriteFlag ∧ a.op.byteAddr = v.byteAddr ∧
        a.op.metadata.size = v.metadata.size := by
    obtain ha | ha := ha <;> rw [ha]
    · exact ⟨rfl, rfl, rfl⟩
    · exact ⟨dataHalf_hasWriteFlag v, dataHalf_range v⟩
  obtain ⟨v, hv, ha⟩ := ha
  obtain ⟨w, hw, hb⟩ := hb
  obtain ⟨h₁, h₂, h₃⟩ := hsame ha
  obtain ⟨h₄, h₅, h₆⟩ := hsame hb
  have hdisj : a.op.Disjoint b.op ↔ v.Disjoint w := by
    rw [DiskWrite.Disjoint, DiskWrite.Disjoint, h₁, h₂, h₃, h₄, h₅, h₆]
  rw [hdisj]
  constructor
  · intro h v' w' hv' hw'
    obtain rfl : v = v' := by simpa [hv] using hv'
    obtain rfl : w = w' := by simpa [hw] using hw'
    exact h
  · exact fun h => h v w hv hw

/-- What a plain turn pushes: its operation, after the data half of a pending flush. -/
theorem opsOn_plain (u : Uninit) {log : List (DiskWrite δ)} {n : ℕ} (hn : PlainTurn log n) :
    ∃ o, PushedFor log n o ∧
      ((∃ p d, Waiting log p n ∧ PushedFor log p d ∧ opsOn u log n = [d, o]) ∨
        ((∀ p, ¬ Waiting log p n) ∧ opsOn u log n = [o])) := by
  obtain ⟨w, hw, hb⟩ := hn
  have hlt := (List.getElem?_eq_some_iff.mp hw).1
  obtain ⟨hprev, hdata⟩ := localsAt_pending u log hlt.le
  refine ⟨⟨(localsAt u log n).index, w⟩, ⟨w, hw, .inl rfl⟩, ?_⟩
  rw [opsOn_eq u hw, turnOps, if_neg (by simp [hb])]
  by_cases hp : (localsAt u log n).prevEpochFlushOp = true
  · obtain ⟨p, hwait⟩ := hprev.mp hp
    obtain ⟨v, hv, -⟩ := hwait.2.1
    exact .inl ⟨p, _, hwait, ⟨v, hv, .inr (hdata p v hwait hv)⟩, by rw [if_pos hp]; rfl⟩
  · exact .inr ⟨fun p hwait => hp (hprev.mpr ⟨p, hwait⟩), by rw [if_neg hp]; rfl⟩

theorem lands_plain {log : List (DiskWrite δ)} {n : ℕ} (hn : PlainTurn log n) (p : ℕ) :
    Lands log p n ↔ p = n ∨ Waiting log p n := by
  obtain ⟨w, hw, hb⟩ := hn
  have hs : w.splitsFlush = false := by
    cases hs : w.splitsFlush with
    | false => rfl
    | true => simp [DiskWrite.isBarrierWrite_of_splitsFlush hs] at hb
  constructor
  · rintro (⟨rfl, -⟩ | ⟨hp, -⟩)
    · exact .inl rfl
    · exact .inr hp
  · rintro (rfl | hp)
    · exact .inl ⟨rfl, w, hw, hs⟩
    · exact .inr ⟨hp, w, hw, hb⟩

theorem mem_opsOn_plain (u : Uninit) {log : List (DiskWrite δ)} {n : ℕ} (hn : PlainTurn log n)
    {o : EpochOp δ} (ho : o ∈ opsOn u log n) : ∃ p, Lands log p n ∧ PushedFor log p o := by
  obtain ⟨own, hown, ⟨p, d, hp, hd, heq⟩ | ⟨-, heq⟩⟩ := opsOn_plain u hn
  · rw [heq, List.mem_cons, List.mem_singleton] at ho
    obtain rfl | rfl := ho
    · exact ⟨p, (lands_plain hn p).mpr (.inr hp), hd⟩
    · exact ⟨n, (lands_plain hn n).mpr (.inl rfl), hown⟩
  · rw [heq, List.mem_singleton] at ho
    exact ⟨n, (lands_plain hn n).mpr (.inl rfl), ho ▸ hown⟩

theorem exists_mem_opsOn_plain (u : Uninit) {log : List (DiskWrite δ)} {p n : ℕ}
    (hn : PlainTurn log n) (hp : Lands log p n) : ∃ o ∈ opsOn u log n, PushedFor log p o := by
  obtain ⟨own, hown, ⟨q, d, hq, hd, heq⟩ | ⟨hno, heq⟩⟩ := opsOn_plain u hn
  · obtain rfl | hwait := (lands_plain hn p).mp hp
    · exact ⟨own, by simp [heq], hown⟩
    · obtain rfl := hwait.unique hq
      exact ⟨d, by simp [heq], hd⟩
  · obtain rfl | hwait := (lands_plain hn p).mp hp
    · exact ⟨own, by simp [heq], hown⟩
    · exact absurd hwait (hno p)

theorem opsOn_plain_pairwise (u : Uninit) {log : List (DiskWrite δ)} {n : ℕ}
    (hn : PlainTurn log n) :
    ((opsOn u log n).Pairwise fun a b => a.op.Disjoint b.op) ↔
      ∀ p q, p ≠ q → Lands log p n → Lands log q n → ApartAt log p q := by
  obtain ⟨own, hown, ⟨p, d, hp, hd, heq⟩ | ⟨hno, heq⟩⟩ := opsOn_plain u hn
  · rw [heq, List.pairwise_pair, hd.disjoint_iff hown]
    constructor
    · intro h p' q' hne hp' hq'
      obtain rfl | hp' := (lands_plain hn p').mp hp'
      · obtain rfl | hq' := (lands_plain hn q').mp hq'
        · exact absurd rfl hne
        · exact hq'.unique hp ▸ h.symm
      · obtain rfl | hq' := (lands_plain hn q').mp hq'
        · exact hp'.unique hp ▸ h
        · exact absurd (hp'.unique hq') hne
    · exact fun h => h p n hp.1.ne ((lands_plain hn p).mpr (.inr hp))
        ((lands_plain hn n).mpr (.inl rfl))
  · rw [heq]
    refine iff_of_true (List.pairwise_singleton _ _) fun p q hne hp hq => absurd ?_ hne
    obtain rfl | hp := (lands_plain hn p).mp hp
    · obtain rfl | hq := (lands_plain hn q).mp hq
      · rfl
      · exact absurd hq (hno q)
    · exact absurd hp (hno p)

def plainTurns (log : List (DiskWrite δ)) (k : ℕ) : List ℕ :=
  (turnsOf log 0 k).filter fun n => !log[n]?.any DiskWrite.isBarrierWrite

theorem mem_plainTurns {log : List (DiskWrite δ)} {k n : ℕ} :
    n ∈ plainTurns log k ↔ PlainTurn log n ∧ epochOf log n = k := by
  rw [plainTurns, List.mem_filter, mem_turnsOf, PlainTurn]
  cases hn : log[n]? with
  | none => simp [List.getElem?_eq_none_iff.mp hn]
  | some w =>
    have := (List.getElem?_eq_some_iff.mp hn).1
    simp [this, and_comm]

theorem turnsOf_sorted (log : List (DiskWrite δ)) (n k : ℕ) :
    (turnsOf log n k).Pairwise (· < ·) := (List.pairwise_lt_range').filter _

/-- The last operation that a turn pushes carries its index. -/
theorem opsOn_getLast (u : Uninit) {log : List (DiskWrite δ)} {n : ℕ} {w : DiskWrite δ}
    (hw : log[n]? = some w) : ∃ init o, opsOn u log n = init ++ [o] ∧ o.absIndex = n ∧
      (w.isBarrierWrite = true → init = []) := by
  have hi := localsAt_index u (List.getElem?_eq_some_iff.mp hw).1.le
  rw [opsOn_eq u hw, turnOps]
  by_cases hb : w.isBarrierWrite = true
  · rw [if_pos hb]
    exact ⟨[], _, rfl, hi, fun _ => rfl⟩
  · rw [if_neg hb]
    exact ⟨_, _, rfl, hi, fun h => absurd h hb⟩

theorem reorderable_eq (u : Uninit) {log : List (DiskWrite δ)} {k : ℕ} {ep : Epoch δ}
    (h : (initDataVector u log)[k]? = some ep) :
    ep.reorderable log = (plainTurns log k).flatMap (opsOn u log) := by
  have hops := initDataVector_ops u h
  obtain hnil | ⟨init, m, hturns⟩ := List.eq_nil_or_concat (turnsOf log 0 k)
  · simp [Epoch.reorderable, Epoch.closed, hops, plainTurns, hnil]
  · rw [List.concat_eq_append] at hturns
    obtain ⟨-, hm, hk⟩ := mem_turnsOf.mp (show m ∈ turnsOf log 0 k by simp [hturns])
    have hw := List.getElem?_eq_getElem hm
    generalize log[m] = w at hw
    -- no barrier stands before the last index of an epoch
    have hinit : ∀ n ∈ init, (!log[n]?.any DiskWrite.isBarrierWrite) = true := by
      intro n hn
      obtain ⟨-, -, hkn⟩ := mem_turnsOf.mp (show n ∈ turnsOf log 0 k by simp [hturns, hn])
      have hlt : n < m := by
        have hsorted := turnsOf_sorted log 0 k
        rw [hturns, List.pairwise_append] at hsorted
        exact hsorted.2.2 n hn m List.mem_cons_self
      cases hv : log[n]? with
      | none => rfl
      | some v =>
        cases hb : v.isBarrierWrite with
        | false => simp [hb]
        | true =>
          have := epochOf_lt hv hb hlt
          omega
    obtain ⟨pre, o, ho, habs, hpre⟩ := opsOn_getLast u hw
    rw [hturns, List.flatMap_append, List.flatMap_singleton, ho, ← List.append_assoc] at hops
    have hclosed : ep.closed log = w.isBarrierWrite := by
      rw [Epoch.closed, hops, List.getLast?_concat]
      simp [habs, hw]
    rw [plainTurns, hturns, List.filter_append, List.filter_eq_self.mpr hinit, Epoch.reorderable,
      hclosed]
    cases hb : w.isBarrierWrite with
    | true =>
      rw [if_pos rfl, hops, List.dropLast_concat, hpre hb]
      simp [hw, hb]
    | false =>
      rw [if_neg Bool.false_ne_true, hops]
      simp [hw, hb, ho]

/-- The reorderable operations of all epochs are apart exactly when the ranges are. -/
theorem overlapping_iff (u : Uninit) (log : List (DiskWrite δ)) :
    (∀ ep ∈ initDataVector u log, ¬ ep.Overlapping log) ↔ RangesApart log := by
  have hep {k : ℕ} {ep : Epoch δ} (h : (initDataVector u log)[k]? = some ep) :
      ¬ ep.Overlapping log ↔ ∀ p q m n, p ≠ q → Lands log p m → Lands log q n →
        m ∈ plainTurns log k → n ∈ plainTurns log k → ApartAt log p q := by
    rw [Epoch.Overlapping, not_not, reorderable_eq u h, List.pairwise_flatMap]
    constructor
    · rintro ⟨hsame, hcross⟩ p q m n hne hp hq hm hn
      have hlt {p q m n : ℕ} (hp : Lands log p m) (hq : Lands log q n)
          (hm : m ∈ plainTurns log k) (hn : n ∈ plainTurns log k) (hmn : m < n) :
          ApartAt log p q := by
        obtain ⟨a, ha, hpa⟩ := exists_mem_opsOn_plain u (mem_plainTurns.mp hm).1 hp
        obtain ⟨b, hb, hqb⟩ := exists_mem_opsOn_plain u (mem_plainTurns.mp hn).1 hq
        have hsorted : (plainTurns log k).Pairwise (· < ·) := (turnsOf_sorted log 0 k).filter _
        have hboth := List.Pairwise.forall_of_forall_of_flip (R := fun m n => m < n →
          ∀ x ∈ opsOn u log m, ∀ y ∈ opsOn u log n, x.op.Disjoint y.op)
          (fun m _ h => absurd h (lt_irrefl m)) (hcross.imp fun {a b} h (_ : a < b) => h)
          (hsorted.imp fun {a b} h (h' : b < a) => absurd (h.trans h') (lt_irrefl _))
        exact (hpa.disjoint_iff hqb).mp (hboth hm hn hmn a ha b hb)
      obtain hmn | rfl | hmn := lt_trichotomy m n
      · exact hlt hp hq hm hn hmn
      · exact (opsOn_plain_pairwise u (mem_plainTurns.mp hm).1).mp (hsame m hm) p q hne hp hq
      · exact (hlt hq hp hn hm hmn).symm
    · intro hall
      refine ⟨fun n hn => ?_, ?_⟩
      · exact (opsOn_plain_pairwise u (mem_plainTurns.mp hn).1).mpr fun p q hne hp hq =>
          hall p q n n hne hp hq hn hn
      · refine ((turnsOf_sorted log 0 k).filter _).imp_of_mem fun {m n} hm hn hmn a ha b hb => ?_
        obtain ⟨p, hp, hpa⟩ := mem_opsOn_plain u (mem_plainTurns.mp hm).1 ha
        obtain ⟨q, hq, hqb⟩ := mem_opsOn_plain u (mem_plainTurns.mp hn).1 hb
        have hne : p ≠ q := by
          rintro rfl
          exact hmn.ne (hp.unique hq)
        exact (hpa.disjoint_iff hqb).mpr (hall p q m n hne hp hq hm hn)
  constructor
  · intro h p q m n v w hne hp hq hm hn hk hv hw
    obtain ⟨ep, hk'⟩ := exists_epoch u log hp.lt_length
    exact (hep hk').mp (h ep (List.mem_of_getElem? hk')) p q m n hne hp hq
      (mem_plainTurns.mpr ⟨hm, rfl⟩) (mem_plainTurns.mpr ⟨hn, hk.symm⟩) v w hv hw
  · intro h ep hmem
    obtain ⟨k, hk⟩ := List.getElem?_of_mem hmem
    refine (hep hk).mpr fun p q m n hne hp hq hm hn v w hv hw => ?_
    obtain ⟨hm, hkm⟩ := mem_plainTurns.mp hm
    obtain ⟨hn, hkn⟩ := mem_plainTurns.mp hn
    exact h p q m n v w hne hp hq hm hn (hkm.trans hkn.symm) hv hw

/-- Whenever the replay of the recorded order succeeds, so does that of any order that
keeps a barrier last and meets no failing call, with the same content. -/
def ReplaysAlike (log : List (DiskWrite Payload)) (ep : Epoch Payload) : Prop :=
  ∀ order : List (EpochOp Payload), order.Perm ep.ops →
    (ep.closed log = true → order.getLast? = ep.ops.getLast?) →
    ∀ capacity img calls calls' img₁ img₂ rest₁ rest₂ res,
      testWriteData capacity (ep.ops.map EpochOp.op) calls img = some (true, img₁, rest₁) →
      .failed ∉ calls' →
      testWriteData capacity (order.map EpochOp.op) calls' img = some (res, img₂, rest₂) →
      res = true ∧ img₂ = img₁

/-- The flag tells exactly which epochs have overlapping writes, and the others can be
replayed in any order. -/
def OverlapsJustified (u : Uninit) (log : List (DiskWrite Payload)) : Prop :=
  ∀ ep ∈ initDataVector u log, (ep.overlaps = true ↔ ep.Overlapping log) ∧
    (ep.overlaps = false → ReplaysAlike log ep)

theorem replayOp_comm {v w : DiskWrite Payload} (h : v.Disjoint w) (img : ℕ → UInt8) :
    replayOp (replayOp img v) w = replayOp (replayOp img w) v := by
  unfold replayOp
  cases hv : v.hasWriteFlag with
  | false => rfl
  | true =>
    cases hw : w.hasWriteFlag with
    | false => rfl
    | true => exact Image.overlay_comm (h hv hw) img _ _

theorem foldl_replayOp_perm {ops order : List (EpochOp Payload)} (h : order.Perm ops)
    (hdisj : ops.Pairwise fun a b => a.op.Disjoint b.op) (img : ℕ → UInt8) :
    (order.map EpochOp.op).foldl replayOp img = (ops.map EpochOp.op).foldl replayOp img := by
  refine (Image.foldl_perm (h.symm.map EpochOp.op) ?_ img).symm
  rw [List.pairwise_map]
  exact hdisj.imp fun hab img => replayOp_comm hab img

theorem replaysAlike {log : List (DiskWrite Payload)} {ep : Epoch Payload}
    (h : ¬ ep.Overlapping log) : ReplaysAlike log ep := by
  intro order hperm hlast capacity img calls calls' img₁ img₂ rest₁ rest₂ res hrec hcalls hrun
  rw [Epoch.Overlapping, not_not] at h
  obtain ⟨himg₁, hall⟩ := testWriteData_true hrec
  have hall' : ∀ w ∈ order.map EpochOp.op, Replayable capacity w := fun w hw =>
    hall w ((hperm.map EpochOp.op).mem_iff.mp hw)
  obtain rfl := testWriteData_no_failure hcalls hall' hrun
  refine ⟨rfl, (testWriteData_true hrun).1.trans (.trans ?_ himg₁.symm)⟩
  cases hclosed : ep.closed log with
  | false =>
    rw [Epoch.reorderable, hclosed, if_neg Bool.false_ne_true] at h
    exact foldl_replayOp_perm hperm h img
  | true =>
    rw [Epoch.reorderable, hclosed, if_pos rfl] at h
    -- the barrier is last in both
    obtain ⟨o, ho⟩ : ∃ o, ep.ops.getLast? = some o := by
      refine Option.isSome_iff_exists.mp ?_
      rw [Epoch.closed] at hclosed
      cases hl : ep.ops.getLast? with
      | none => simp [hl] at hclosed
      | some o => rfl
    have hops := List.dropLast_append_getLast? o ho
    have horder := List.dropLast_append_getLast? o ((hlast hclosed).trans ho)
    have hinit : order.dropLast.Perm ep.ops.dropLast := by
      rw [← hops, ← horder] at hperm
      exact (List.perm_append_right_iff [o]).mp hperm
    rw [← hops, ← horder, List.map_append, List.map_append, List.foldl_append, List.foldl_append,
      foldl_replayOp_perm hinit h img]

/-- The flag is exact, and leaves out no crash state, if and only if the writes that an
epoch can reorder never overlap: it is always false. -/
theorem overlapsJustified_iff (u : Uninit) (log : List (DiskWrite Payload)) :
    OverlapsJustified u log ↔ RangesApart log := by
  rw [← overlapping_iff u log]
  constructor
  · intro h ep hep hover
    have htrue := (h ep hep).1.mpr hover
    rw [initDataVector_overlaps u log ep hep] at htrue
    cases htrue
  · intro h ep hep
    have hfalse := initDataVector_overlaps u log ep hep
    exact ⟨iff_of_false (by simp [hfalse]) (h ep hep), fun _ => replaysAlike (h ep hep)⟩

def sameSectorLog : List (DiskWrite Payload) :=
  [⟨⟨0, reqWrite, 0, 512⟩, some fun _ => 1⟩, ⟨⟨0, reqWrite, 0, 512⟩, some fun _ => 2⟩]

theorem not_overlapsJustified_sameSectorLog :
    ¬ OverlapsJustified default sameSectorLog := by
  intro h
  have hep : initDataVector default sameSectorLog = [⟨0, false, false,
      [⟨0, ⟨⟨0, reqWrite, 0, 512⟩, some fun _ => 1⟩⟩,
        ⟨1, ⟨⟨0, reqWrite, 0, 512⟩, some fun _ => 2⟩⟩]⟩] := by
    rw [initDataVector_eq_splitFrom]
    rfl
  have hover := (h _ (by rw [hep]; exact List.mem_cons_self)).1.mpr ?_
  · cases hover
  · intro hpair
    have hpair := List.pairwise_pair.mp hpair
    exact hpair (by decide) (by decide) 0 ⟨by decide, by decide⟩

end CrashMonkey
