import Mathlib.Tactic

namespace CrashMonkey

structure DiskWriteOpMeta where
  biFlags : BitVec 64
  biRw : BitVec 64
  writeSector : BitVec 64
  size : BitVec 32
deriving DecidableEq, Inhabited, Repr

def reqWrite : BitVec 64 := .twoPow 64 0
def reqSync : BitVec 64 := .twoPow 64 4
def reqMeta : BitVec 64 := .twoPow 64 5
def reqDiscard : BitVec 64 := .twoPow 64 7
def reqFua : BitVec 64 := .twoPow 64 11
def reqFlush : BitVec 64 := .twoPow 64 12
def reqRahead : BitVec 64 := .twoPow 64 13
def reqSoftbarrier : BitVec 64 := .twoPow 64 16
def reqFlushSeq : BitVec 64 := .twoPow 64 27

/-- C's `rw & flag`, read as a condition. -/
def hasFlag (rw flag : BitVec 64) : Bool := rw &&& flag != 0#64

theorem hasFlag_twoPow (rw : BitVec 64) {i : ℕ} (hi : i < 64) :
    hasFlag rw (.twoPow 64 i) = rw.getLsbD i := by
  unfold hasFlag
  rw [BitVec.and_twoPow]
  cases rw.getLsbD i with
  | false => simp
  | true =>
    have h : BitVec.twoPow 64 i ≠ 0#64 := by
      intro h
      have hb := congrArg (fun x : BitVec 64 => x.getLsbD i) h
      simp [hi] at hb
    simpa using h

theorem hasFlag_set (rw : BitVec 64) {i j : ℕ} (hi : i < 64) (hj : j < 64) :
    hasFlag (rw ||| .twoPow 64 j) (.twoPow 64 i) =
      (hasFlag rw (.twoPow 64 i) || decide (j = i)) := by
  simp only [hasFlag_twoPow _ hi, BitVec.getLsbD_or, BitVec.getLsbD_twoPow, hj, decide_true,
    Bool.true_and]

theorem hasFlag_clear (rw : BitVec 64) {i j : ℕ} (hi : i < 64) (hj : j < 64) :
    hasFlag (rw &&& ~~~.twoPow 64 j) (.twoPow 64 i) =
      (hasFlag rw (.twoPow 64 i) && !decide (j = i)) := by
  simp only [hasFlag_twoPow _ hi, BitVec.getLsbD_and, BitVec.getLsbD_not, BitVec.getLsbD_twoPow,
    hi, hj, decide_true, Bool.true_and]

namespace DiskWriteOpMeta

def cIsAsyncWrite (m : DiskWriteOpMeta) : Bool :=
  !(hasFlag m.biRw reqSync || hasFlag m.biRw reqFua || hasFlag m.biRw reqFlush ||
    hasFlag m.biRw reqFlushSeq || hasFlag m.biRw reqSoftbarrier) && hasFlag m.biRw reqWrite

def cIsBarrierWrite (m : DiskWriteOpMeta) : Bool :=
  (hasFlag m.biRw reqFua || hasFlag m.biRw reqFlush || hasFlag m.biRw reqFlushSeq ||
    hasFlag m.biRw reqSoftbarrier) && hasFlag m.biRw reqWrite

def cIsMeta (m : DiskWriteOpMeta) : Bool := hasFlag m.biRw reqMeta

def cHasWriteFlag (m : DiskWriteOpMeta) : Bool := hasFlag m.biRw reqWrite

def cHasFlushFlag (m : DiskWriteOpMeta) : Bool := hasFlag m.biRw reqFlush

def cHasFlushSeqFlag (m : DiskWriteOpMeta) : Bool := hasFlag m.biRw reqFlushSeq

def cHasFUAFlag (m : DiskWriteOpMeta) : Bool := hasFlag m.biRw reqFua

def cSetFlushFlag (m : DiskWriteOpMeta) : DiskWriteOpMeta :=
  { m with biRw := m.biRw ||| reqFlush }

def cSetFlushSeqFlag (m : DiskWriteOpMeta) : DiskWriteOpMeta :=
  { m with biRw := m.biRw ||| reqFlushSeq }

def cClearFlushFlag (m : DiskWriteOpMeta) : DiskWriteOpMeta :=
  { m with biRw := m.biRw &&& ~~~reqFlush }

def cClearFlushSeqFlag (m : DiskWriteOpMeta) : DiskWriteOpMeta :=
  { m with biRw := m.biRw &&& ~~~reqFlushSeq }

end DiskWriteOpMeta

/-- A logged operation. `data` is the shared pointer to its payload: null, or a
payload that is only copied along until the operation is replayed. -/
structure DiskWrite (δ : Type) where
  metadata : DiskWriteOpMeta
  data : Option δ
deriving DecidableEq, Repr

namespace DiskWrite

variable {δ : Type}

def isAsyncWrite (w : DiskWrite δ) : Bool := w.metadata.cIsAsyncWrite

def isBarrierWrite (w : DiskWrite δ) : Bool := w.metadata.cIsBarrierWrite

def isMeta (w : DiskWrite δ) : Bool := w.metadata.cIsMeta

def hasWriteFlag (w : DiskWrite δ) : Bool := w.metadata.cHasWriteFlag

def hasFlushFlag (w : DiskWrite δ) : Bool := w.metadata.cHasFlushFlag

def hasFlushSeqFlag (w : DiskWrite δ) : Bool := w.metadata.cHasFlushSeqFlag

def hasFUAFlag (w : DiskWrite δ) : Bool := w.metadata.cHasFUAFlag

def setFlushFlag (w : DiskWrite δ) : DiskWrite δ :=
  { w with metadata := w.metadata.cSetFlushFlag }

def setFlushSeqFlag (w : DiskWrite δ) : DiskWrite δ :=
  { w with metadata := w.metadata.cSetFlushSeqFlag }

def clearFlushFlag (w : DiskWrite δ) : DiskWrite δ :=
  { w with metadata := w.metadata.cClearFlushFlag }

def clearFlushSeqFlag (w : DiskWrite δ) : DiskWrite δ :=
  { w with metadata := w.metadata.cClearFlushSeqFlag }

end DiskWrite

end CrashMonkey
