import CrashMonkey.Lib.Buffer
import CrashMonkey.Lib.Draw
import CrashMonkey.Permuter.Epochs

namespace CrashMonkey

variable {δ : Type}

/-- What a random permuter computes from the draws of its generator. `none` is a
failed assertion, an index out of range or a range with no value to draw. -/
abbrev Rand (α : Type) := StateT (Stream' ℕ) Option α

/-- The loop over `empty_slots`, for `n` elements still missing from
`[res_start, res_end)`. -/
def placeSlots (ep : Epoch δ) : ℕ → List ℕ → List (EpochOp δ) → ℕ →
    Rand (List (EpochOp δ) × ℕ)
  | 0, _, res, resStart => pure (res, resStart)
  | _ + 1, [], res, resStart => pure (res, resStart)
  | n + 1, s :: emptySlots, res, resStart => do
    let shift ← Draw.uniform 0 ((s :: emptySlots).length - 1)
    let slot ← (s :: emptySlots)[shift]?
    let op ← ep.ops[slot]?
    let res ← Buffer.store res resStart op
    placeSlots ep n ((s :: emptySlots).eraseIdx shift) res (resStart + 1)

/-- `slots`: any operation but a barrier can be picked. -/
def slotCount (ep : Epoch δ) : ℕ :=
  if ep.hasBarrier then ep.ops.length - 1 else ep.ops.length

/-- Fills `[resStart, resEnd)`; returns the buffer and the advanced `res_start`. -/
def permuteEpoch (res : List (EpochOp δ)) (resStart resEnd : ℕ) (ep : Epoch δ) :
    Rand (List (EpochOp δ) × ℕ) := do
  guard (resEnd - resStart ≤ ep.ops.length)
  let emptySlots := List.range (slotCount ep)
  let (res, resStart) ← placeSlots ep (resEnd - resStart) emptySlots res resStart
  if resStart = resEnd then return (res, resStart)
  guard (ep.hasBarrier = true)
  let barrier ← ep.ops.getLast?
  let res ← Buffer.store res resStart barrier
  return (res, resStart)

/-- The loop that places a complete epoch in its recorded order. -/
def copyOps : List (EpochOp δ) → List (EpochOp δ) → ℕ → Rand (List (EpochOp δ) × ℕ)
  | [], res, curr => pure (res, curr)
  | op :: ops, res, curr => do
    let res ← Buffer.store res curr op
    copyOps ops res (curr + 1)

def placeEpochs (epochs : List (Epoch δ)) (numEpochs numRequests : ℕ) :
    ℕ → ℕ → List (EpochOp δ) → ℕ → Rand (List (EpochOp δ))
  | 0, _, res, _ => pure res
  | left + 1, i, res, curr => do
    let ep ← epochs[i]?
    if ep.overlaps = true ∨ i = numEpochs - 1 then
      let size := if i ≠ numEpochs - 1 then ep.ops.length else numRequests
      let (res, _) ← permuteEpoch res curr (curr + size) ep
      placeEpochs epochs numEpochs numRequests left (i + 1) res (curr + size)
    else
      let (res, curr) ← copyOps ep.ops res curr
      placeEpochs epochs numEpochs numRequests left (i + 1) res curr

def defaultOp : EpochOp δ := ⟨0, ⟨0, 0, 0, 0⟩, none⟩

def totalOps (epochs : List (Epoch δ)) : ℕ := (epochs.map fun e => e.ops.length).sum

def genOneState (epochs : List (Epoch δ)) (res : List (EpochOp δ)) :
    Rand (Bool × List (EpochOp δ)) := do
  let numEpochs ← Draw.uniform 1 epochs.length
  let last ← epochs[numEpochs - 1]?
  let numRequests ← Draw.uniform 1 last.ops.length
  let totalElements := totalOps (epochs.take (numEpochs - 1)) + numRequests
  let res ← placeEpochs epochs numEpochs numRequests numEpochs 0
    (Buffer.resize defaultOp res totalElements) 0
  return (true, res)

end CrashMonkey
