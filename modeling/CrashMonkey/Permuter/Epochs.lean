import CrashMonkey.DiskWrite

namespace CrashMonkey

variable {δ : Type}

structure EpochOp (δ : Type) where
  absIndex : ℕ
  op : DiskWrite δ
deriving DecidableEq, Repr

structure Epoch (δ : Type) where
  numMeta : BitVec 32
  hasBarrier : Bool
  overlaps : Bool
  ops : List (EpochOp δ)
deriving DecidableEq, Repr

/-- `struct range`, in the 32-bit arithmetic of its `unsigned int` fields. -/
structure Range where
  start : BitVec 32
  stop : BitVec 32
deriving DecidableEq, Repr

/-- What the storage of the locals that `InitDataVector` leaves uninitialised
holds. The `current_epoch` and the `flag_half` made at log index `i` have their
own stale contents. -/
structure Uninit where
  numMeta : ℕ → BitVec 32
  flagHalf : ℕ → DiskWriteOpMeta
  dataHalf : DiskWriteOpMeta
deriving Inhabited

structure Locals (δ : Type) where
  index : ℕ
  prevEpochFlushOp : Bool
  dataHalf : DiskWrite δ
  overlaps : List Range

def Epoch.push (e : Epoch δ) (index : ℕ) (w : DiskWrite δ) : Epoch δ :=
  { e with ops := e.ops ++ [⟨index, w⟩], numMeta := e.numMeta + .ofNat 32 w.isMeta.toNat }

@[simp] theorem Epoch.push_ops (e : Epoch δ) (i : ℕ) (w : DiskWrite δ) :
    (e.push i w).ops = e.ops ++ [⟨i, w⟩] := rfl

@[simp] theorem Epoch.push_hasBarrier (e : Epoch δ) (i : ℕ) (w : DiskWrite δ) :
    (e.push i w).hasBarrier = e.hasBarrier := rfl

@[simp] theorem Epoch.push_overlaps (e : Epoch δ) (i : ℕ) (w : DiskWrite δ) :
    (e.push i w).overlaps = e.overlaps := rfl

/-- The scan of the ordered range list for `[start, stop]`. A hit leaves the
loop; the range it grows is a local copy, so the list keeps the old one. -/
def scanRanges (start stop : BitVec 32) : List Range → List Range × Bool
  | [] => ([], false)
  | r :: rs =>
    if (r.start ≤ start ∧ start ≤ r.stop) ∨ (r.start ≤ stop ∧ stop ≤ r.stop) then
      (r :: rs, true)
    else
      let rest := scanRanges start stop rs
      if stop < r.start then (⟨start, stop⟩ :: r :: rest.1, rest.2) else (r :: rest.1, rest.2)

/-- The data half that the previous epoch left behind goes first. -/
def emitDataHalf (l : Locals δ) (e : Epoch δ) : Locals δ × Epoch δ :=
  if l.prevEpochFlushOp then
    ({ l with prevEpochFlushOp := false }, e.push (l.index - 1) l.dataHalf)
  else (l, e)

/-- One turn of the inner loop: `w` is the operation at `index`, no barrier. -/
def collectOp (w : DiskWrite δ) (l : Locals δ) (e : Epoch δ) : Locals δ × Epoch δ :=
  let le := emitDataHalf l e
  let start := w.metadata.writeSector.setWidth 32
  let scan := scanRanges start (start + w.metadata.size) l.overlaps
  ({ le.1 with index := l.index + 1, overlaps := scan.1 },
    { le.2 with overlaps := le.2.overlaps || scan.2 }.push l.index w)

/-- The inner loop, on the rest of the log from `index` on; it stops at the first
barrier and returns what is then left. -/
def collectOps : List (DiskWrite δ) → Locals δ → Epoch δ →
    List (DiskWrite δ) × Locals δ × Epoch δ
  | [], l, e => ([], l, e)
  | w :: ws, l, e =>
    if w.isBarrierWrite then (w :: ws, l, e)
    else collectOps ws (collectOp w l e).1 (collectOp w l e).2

/-- A barrier that is divided: a flush with data and without FUA. -/
def DiskWrite.splitsFlush (w : DiskWrite δ) : Bool :=
  (w.hasFlushFlag || w.hasFlushSeqFlag) && w.hasWriteFlag && !w.hasFUAFlag

/-- `flag_half`: default-initialised, so `stale` but for the flush bits it sets. -/
def DiskWrite.flagHalf (stale : DiskWriteOpMeta) (w : DiskWrite δ) : DiskWrite δ :=
  let h : DiskWrite δ := ⟨stale, none⟩
  let h := if w.hasFlushFlag then h.setFlushFlag else h
  if w.hasFlushSeqFlag then h.setFlushSeqFlag else h

def DiskWrite.dataHalf (w : DiskWrite δ) : DiskWrite δ :=
  let d := if w.hasFlushFlag then w.clearFlushFlag else w
  if w.hasFlushSeqFlag then d.clearFlushSeqFlag else d

/-- The part after the inner loop, at a barrier `w`: the locals it leaves and the
epoch as it is pushed. On the divided path `has_barrier` is set on the local
only after the push, so the pushed copy keeps `false`. -/
def closeEpoch (u : Uninit) (w : DiskWrite δ) (l : Locals δ) (e : Epoch δ) :
    Locals δ × Epoch δ :=
  if w.splitsFlush then
    ({ l with index := l.index + 1, prevEpochFlushOp := true, dataHalf := w.dataHalf },
      e.push l.index (w.flagHalf (u.flagHalf l.index)))
  else
    ({ l with index := l.index + 1 }, { e.push l.index w with hasBarrier := true })

def newEpoch (u : Uninit) (index : ℕ) : Epoch δ := ⟨u.numMeta index, false, false, []⟩

theorem collectOps_length_le (ws : List (DiskWrite δ)) (l : Locals δ) (e : Epoch δ) :
    (collectOps ws l e).1.length ≤ ws.length := by
  induction ws generalizing l e with
  | nil => simp [collectOps]
  | cons w ws ih =>
    rw [collectOps]
    split_ifs
    · exact le_rfl
    · exact (ih _ _).trans (Nat.le_succ _)

def initLoop (u : Uninit) : List (DiskWrite δ) → Locals δ → List (Epoch δ)
  | [], _ => []
  | w :: ws, l =>
    match _h : collectOps (w :: ws) l (newEpoch u l.index) with
    | ([], _, e) => [e]
    | (b :: rest, l', e) => (closeEpoch u b l' e).2 :: initLoop u rest (closeEpoch u b l' e).1
termination_by ws => ws.length
decreasing_by
  have := collectOps_length_le (w :: ws) l (newEpoch u l.index)
  rw [_h] at this
  simp only [List.length_cons] at this ⊢
  omega

def initDataVector (u : Uninit) (log : List (DiskWrite δ)) : List (Epoch δ) :=
  initLoop u log ⟨0, false, ⟨u.dataHalf, none⟩, []⟩

end CrashMonkey
