import CrashMonkey.DiskWrite
import CrashMonkey.Lib.Image

namespace CrashMonkey

/-- The bytes from a data pointer on. -/
abbrev Payload := ℕ → UInt8

def memdup (src : Payload) (n : ℕ) : Payload := Image.overlay (fun _ => 0) 0 n src

theorem memdup_apply (src : Payload) {n i : ℕ} (h : i < n) : memdup src n i = src i :=
  Image.overlay_of_mem ⟨Nat.zero_le i, by omega⟩

/-- A `bio_vec`: the memory of its page, and the part of it that is meant. -/
structure Segment where
  bvPage : Payload
  bvLen : ℕ
  bvOffset : ℕ

/-- `segments` are those that `bio_for_each_segment` visits. -/
structure Bio where
  biFlags : BitVec 64
  biRw : BitVec 64
  biSector : ℕ
  biSize : ℕ
  segments : List Segment

def segmentsSize (segments : List Segment) : ℕ := (segments.map Segment.bvLen).sum

/-- The bytes of the segments one after the other. -/
def segmentsData : List Segment → Payload
  | [], _ => 0
  | vec :: vecs, i =>
    if i < vec.bvLen then vec.bvPage (vec.bvOffset + i) else segmentsData vecs (i - vec.bvLen)

/-- Writing the segments one after the other writes their bytes. -/
theorem overlay_segmentsData (img : ℕ → UInt8) (start : ℕ) (vec : Segment) (vecs : List Segment) :
    Image.overlay (Image.overlay img start vec.bvLen fun i => vec.bvPage (vec.bvOffset + i))
        (start + vec.bvLen) (segmentsSize vecs) (segmentsData vecs) =
      Image.overlay img start (segmentsSize (vec :: vecs)) (segmentsData (vec :: vecs)) := by
  have hfirst : Image.overlay img start vec.bvLen (fun i => vec.bvPage (vec.bvOffset + i)) =
      Image.overlay img start vec.bvLen (segmentsData (vec :: vecs)) := by
    apply Image.overlay_inj.mpr
    intro i hi
    exact (if_pos hi).symm
  have hrest : segmentsData vecs = fun i => segmentsData (vec :: vecs) (vec.bvLen + i) := by
    funext i
    rw [segmentsData, if_neg (by omega), Nat.add_sub_cancel_left]
  rw [hfirst, hrest, Image.overlay_overlay]
  rfl

namespace Bio

def endSector (bio : Bio) : ℕ := bio.biSector + bio.biSize / 2 ^ 9

/-- `bio_rw(bio)` is a read, or a read ahead. -/
def isRead (bio : Bio) : Bool :=
  let rw := bio.biRw &&& (reqWrite ||| reqRahead)
  let rw := if rw = reqRahead then 0 else rw
  rw == 0

theorem isRead_of_not_write {bio : Bio} (h : hasFlag bio.biRw reqWrite = false) :
    bio.isRead = true := by
  have hzero : bio.biRw &&& reqWrite = 0#64 := by simpa [hasFlag] using h
  have hrw : bio.biRw &&& (reqWrite ||| reqRahead) = bio.biRw &&& reqRahead := by
    rw [BitVec.and_or_distrib_left, hzero, BitVec.zero_or]
  unfold isRead
  simp only [hrw]
  rw [reqRahead, BitVec.and_twoPow]
  cases bio.biRw.getLsbD 13 <;> decide

theorem isRead_of_write {bio : Bio} (h : hasFlag bio.biRw reqWrite = true) :
    bio.isRead = false := by
  have hbit : bio.biRw.getLsbD 0 = true := by
    rwa [reqWrite, hasFlag_twoPow _ (by decide)] at h
  have hrw : (bio.biRw &&& (reqWrite ||| reqRahead)).getLsbD 0 = true := by
    simp [hbit, reqWrite, reqRahead]
  unfold isRead
  dsimp only
  split_ifs with hahead
  · rw [hahead] at hrw
    exact absurd hrw (by decide)
  · rw [beq_eq_false_iff_ne]
    intro hzero
    rw [hzero] at hrw
    exact absurd hrw (by decide)

end Bio

end CrashMonkey
