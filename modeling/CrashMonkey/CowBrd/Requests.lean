import CrashMonkey.CowBrd.Invariants
import CrashMonkey.CowBrd.ReadLaw

namespace CrashMonkey.CowBrd

variable {parent : Option PageTree} {pages pages' : PageTree}

/-- Byte `b` lies in the second page of one of the segments, behind its end; the first
segment is at `sector`. -/
def BehindSegments : List Segment → ℕ → ℕ → Prop
  | [], _, _ => False
  | bvec :: bvecs, sector, b => BehindSegment sector bvec.bvLen b ∨
      BehindSegments bvecs (sector + bvec.bvLen / 2 ^ sectorShift) b

def parentContent (parent : Option PageTree) (pages : PageTree) (b : ℕ) : UInt8 :=
  parentByte parent pages (b / pageSize) (b % pageSize)

/-- On the pages that the segments reach into, the bytes behind the last segment are
those of the parent. -/
def TailsKept (parent : Option PageTree) (pages : PageTree) (bvecs : List Segment)
    (sector : ℕ) : Prop :=
  ∀ b, sector * 2 ^ sectorShift + segmentsSize bvecs ≤ b → BehindSegments bvecs sector b →
    parentContent parent pages b = content parent pages b

/-- Segments of whole sectors, none longer than a page. -/
def Sectored (bvecs : List Segment) : Prop :=
  ∀ bvec ∈ bvecs, bvec.bvLen ≤ pageSize ∧ 2 ^ sectorShift ∣ bvec.bvLen

theorem BehindSegment.le {sector n b : ℕ} (h : BehindSegment sector n b) :
    sector * 2 ^ sectorShift + n ≤ b := by
  obtain ⟨hs, hk, hi⟩ := h
  have hs : pageSize < pageOffset sector + n := hs
  have hstart := start_eq sector
  have hnext := Nat.add_one_mul (sector / pageSectors) pageSize
  have hdiv := Nat.div_add_mod' b pageSize
  rw [hk] at hdiv
  omega

theorem next_sector {bvec : Segment} (h : 2 ^ sectorShift ∣ bvec.bvLen) (sector : ℕ) :
    (sector + bvec.bvLen / 2 ^ sectorShift) * 2 ^ sectorShift =
      sector * 2 ^ sectorShift + bvec.bvLen := by
  rw [Nat.add_mul, Nat.div_mul_cancel h]

theorem BehindSegments.le {bvecs : List Segment} (hbvecs : Sectored bvecs) {sector b : ℕ}
    (h : BehindSegments bvecs sector b) : sector * 2 ^ sectorShift ≤ b := by
  induction bvecs generalizing sector with
  | nil => cases h
  | cons bvec bvecs ih =>
    obtain ⟨⟨-, hdvd⟩, hrest⟩ := List.forall_mem_cons.mp hbvecs
    rcases h with h | h
    · have := h.le
      omega
    · have := ih hrest h
      rw [next_sector hdvd] at this
      omega

/-- Where the parent has the page, its byte counts whatever the device holds. -/
theorem parentContent_congr {b : ℕ} (h : content parent pages' b = parentContent parent pages b ∨
    content parent pages' b = content parent pages b) :
    parentContent parent pages' b = parentContent parent pages b := by
  unfold parentContent parentByte at *
  cases hq : parent.bind fun t => t.lookup (b / pageSize) with
  | some q => rfl
  | none =>
    rw [hq] at h
    exact h.elim id id

def Env.Plenty (env : Env) : Prop := ∀ i, env.alloc i = (⟨true, true⟩, ⟨true, true⟩)

/-- With memory a write does not stop the kernel. It puts the bytes of its segments into
the content, and bytes of the parent behind them. -/
theorem brdSegments_write {env : Env} (henv : env.Plenty) (hparent : ∀ p ∈ parent, Indexed p)
    {bvecs : List Segment} (hbvecs : Sectored bvecs) (hpages : Indexed pages) (i sector : ℕ)
    (err : Int) :
    ∃ err' pages' out,
      brdSegments env parent false bvecs i pages sector err = .ok (err', pages', out) ∧
      ∀ b, (sector * 2 ^ sectorShift + segmentsSize bvecs ≤ b → BehindSegments bvecs sector b →
          content parent pages' b = parentContent parent pages b) ∧
        (b < sector * 2 ^ sectorShift + segmentsSize bvecs ∨ ¬ BehindSegments bvecs sector b →
          content parent pages' b = Image.overlay (content parent pages)
            (sector * 2 ^ sectorShift) (segmentsSize bvecs) (segmentsData bvecs) b) := by
  induction bvecs generalizing pages i sector err with
  | nil =>
    refine ⟨err, pages, [], rfl, fun b => ⟨fun _ h => h.elim, fun _ => ?_⟩⟩
    exact congrFun (Image.overlay_zero _ _ _).symm b
  | cons bvec bvecs ih =>
    obtain ⟨⟨hlen, hdvd⟩, hrest⟩ := List.forall_mem_cons.mp hbvecs
    obtain ⟨err₁, pages₁, hbvec, h₁, -, hok, -, hcontent⟩ := brdDoBvec_write (env.alloc i) env.beyond
      bvec.bvPage hpages hparent bvec.bvOffset sector hlen
    obtain rfl := hok (henv i)
    obtain ⟨err₂, pages₂, out, hsegs, h₂⟩ := ih hrest h₁ (i + 1)
      (sector + bvec.bvLen / 2 ^ sectorShift) 0
    refine ⟨err₂, pages₂, (bvec.bvPage, true) :: out, ?_, fun b => ?_⟩
    · rw [brdSegments, hbvec]
      simp [hsegs, bind, Except.bind, pure, Except.pure]
    have hsize : segmentsSize (bvec :: bvecs) = bvec.bvLen + segmentsSize bvecs := rfl
    have hfirst : content parent pages₁ b = if BehindSegment sector bvec.bvLen b then
        parentContent parent pages b
      else Image.overlay (content parent pages) (sector * 2 ^ sectorShift) bvec.bvLen
        (fun j => bvec.bvPage (bvec.bvOffset + j)) b := hcontent rfl b
    obtain ⟨hbehind, hother⟩ := h₂ b
    rw [next_sector hdvd] at hbehind hother
    constructor
    · intro hb hany
      have hout : ¬ (sector * 2 ^ sectorShift ≤ b ∧ b < sector * 2 ^ sectorShift + bvec.bvLen) := by
        omega
      rw [Image.overlay_of_not_mem hout] at hfirst
      by_cases hrest₂ : BehindSegments bvecs (sector + bvec.bvLen / 2 ^ sectorShift) b
      · rw [hbehind (by omega) hrest₂]
        apply parentContent_congr
        split_ifs at hfirst
        · exact .inl hfirst
        · exact .inr hfirst
      · rw [hother (.inr hrest₂), Image.overlay_of_not_mem (by omega), hfirst,
          if_pos (hany.resolve_right hrest₂)]
    · intro hb
      rw [hother (hb.imp (by omega) fun h => not_or.mp h |>.2), ← overlay_segmentsData]
      apply Image.overlay_congr
      by_cases hin : sector * 2 ^ sectorShift + bvec.bvLen ≤ b ∧
          b < sector * 2 ^ sectorShift + bvec.bvLen + segmentsSize bvecs
      · exact .inl hin
      · -- the bytes of the first segment are not behind it
        have hnot : ¬ BehindSegment sector bvec.bvLen b := by
          rcases hb with hb | hb
          · intro h
            have := h.le
            omega
          · exact (not_or.mp hb).1
        rw [hfirst, if_neg hnot]
        exact .inr rfl

/-- The content is overlaid with the bytes of the segments exactly when the tails are
kept. -/
theorem content_overlay_segments_iff {bvecs : List Segment} {sector : ℕ}
    (h : ∀ b, (sector * 2 ^ sectorShift + segmentsSize bvecs ≤ b → BehindSegments bvecs sector b →
        content parent pages' b = parentContent parent pages b) ∧
      (b < sector * 2 ^ sectorShift + segmentsSize bvecs ∨ ¬ BehindSegments bvecs sector b →
        content parent pages' b = Image.overlay (content parent pages)
          (sector * 2 ^ sectorShift) (segmentsSize bvecs) (segmentsData bvecs) b)) :
    content parent pages' = Image.overlay (content parent pages) (sector * 2 ^ sectorShift)
        (segmentsSize bvecs) (segmentsData bvecs) ↔ TailsKept parent pages bvecs sector := by
  constructor
  · intro heq b hb hbehind
    rw [← (h b).1 hb hbehind, heq, Image.overlay_of_not_mem (by omega)]
  · intro hkept
    funext b
    by_cases hb : sector * 2 ^ sectorShift + segmentsSize bvecs ≤ b ∧ BehindSegments bvecs sector b
    · rw [(h b).1 hb.1 hb.2, Image.overlay_of_not_mem (by omega), hkept b hb.1 hb.2]
    · rw [not_and_or, not_le] at hb
      exact (h b).2 hb

/-- A read does not stop the kernel and leaves the pages alone. -/
theorem brdSegments_read (env : Env) (hparent : ∀ p ∈ parent, Indexed p) (hpages : Indexed pages)
    (bvecs : List Segment) (i sector : ℕ) (err : Int) :
    ∃ err' out, brdSegments env parent true bvecs i pages sector err = .ok (err', pages, out) := by
  induction bvecs generalizing i sector err with
  | nil => exact ⟨err, [], rfl⟩
  | cons bvec bvecs ih =>
    obtain ⟨err', out, hsegs⟩ := ih (i + 1) (sector + bvec.bvLen / 2 ^ sectorShift) 0
    obtain ⟨r, hread⟩ : ∃ r, copyFromBrd env.beyond (fun j => bvec.bvPage (bvec.bvOffset + j)) parent
        pages sector bvec.bvLen = .ok r := by
      unfold copyFromBrd
      simp only [copyPart_eq env.beyond hpages hparent, bind, Except.bind, pure, Except.pure]
      split_ifs
      · exact ⟨_, rfl⟩
      · exact ⟨_, rfl⟩
    obtain ⟨page, hbvec⟩ : ∃ page, brdDoBvec (env.alloc i) env.beyond parent pages bvec.bvPage
        bvec.bvLen bvec.bvOffset true sector = .ok (0, pages, page, r.2) := by
      unfold brdDoBvec
      simp [hread, bind, Except.bind, pure, Except.pure]
    refine ⟨err', (page, r.2) :: out, ?_⟩
    rw [brdSegments, hbvec]
    simp [hsegs, bind, Except.bind, pure, Except.pure]

/-- What a request needs so that its bytes are all it changes: it is no discard, and a
write keeps its tails. -/
def Keeps (parent : Option PageTree) (pages : PageTree) (bio : Bio) : Prop :=
  if hasFlag bio.biRw reqDiscard then bio.biSize = 0
  else hasFlag bio.biRw reqWrite = true → TailsKept parent pages bio.segments bio.biSector

def written (bio : Bio) (img : ℕ → UInt8) : ℕ → UInt8 :=
  if hasFlag bio.biRw reqWrite && !hasFlag bio.biRw reqDiscard then
    Image.overlay img (bio.biSector * 2 ^ sectorShift) (segmentsSize bio.segments)
      (segmentsData bio.segments)
  else img

/-- A request on a device that is open to writes does what it is for if it is kept, and
if it is no discard only then. -/
theorem brdMakeRequest_write {env : Env} {capacity : ℕ} {brd : BrdDevice} {bio : Bio}
    (henv : env.Plenty) (hparent : ∀ p ∈ parent, Indexed p) (hpages : Indexed brd.brdPages)
    (hw : brd.isWritable = true) (hend : bio.endSector ≤ capacity)
    (hbvecs : Sectored bio.segments) :
    ∃ err pages' out, brdMakeRequest env capacity brd parent bio = .ok (err, pages', out) ∧
      (Keeps parent brd.brdPages bio →
        content parent pages' = written bio (content parent brd.brdPages)) ∧
      (hasFlag bio.biRw reqDiscard = false →
        content parent pages' = written bio (content parent brd.brdPages) →
        Keeps parent brd.brdPages bio) := by
  unfold brdMakeRequest Keeps written
  simp only [not_lt.mpr hend, if_false, hw, Bool.not_true, Bool.and_false, Bool.false_eq_true]
  cases hdiscard : hasFlag bio.biRw reqDiscard with
  | true =>
    obtain ⟨pages₁, hspec, -, -⟩ := discardFromBrd_spec hpages bio.biSector bio.biSize
    refine ⟨0, pages₁, [], by simp [hspec, bind, Except.bind, pure, Except.pure], fun hsize => ?_,
      fun h => nomatch h⟩
    simp only [if_true] at hsize
    rw [hsize, discardFromBrd, if_neg (by decide)] at hspec
    simp only [pure, Except.pure, Except.ok.injEq] at hspec
    simp [hspec]
  | false =>
    cases hwrite : hasFlag bio.biRw reqWrite with
    | true =>
      obtain ⟨err, pages₁, out, hsegs, hcontent⟩ :=
        brdSegments_write henv hparent hbvecs hpages 0 bio.biSector (-eio)
      have hiff := content_overlay_segments_iff hcontent
      rw [Bio.isRead_of_write hwrite]
      refine ⟨err, pages₁, out, by simpa using hsegs, fun h => ?_, fun _ h => ?_⟩
      · simpa using hiff.mpr (by simpa using h)
      · simpa using hiff.mp (by simpa using h)
    | false =>
      obtain ⟨err, out, hsegs⟩ :=
        brdSegments_read env hparent hpages bio.segments 0 bio.biSector (-eio)
      rw [Bio.isRead_of_not_write hwrite]
      exact ⟨err, _, out, by simpa using hsegs, fun _ => by simp, fun _ _ => by simp⟩

/-- The content of a device after a request to it. -/
theorem step_bio {s : System} (hs : WellFormed s) {d : ℕ} {brd : BrdDevice} {bio : Bio} {env : Env}
    (hd : s.devices[d]? = some brd) (hw : brd.isWritable = true) (henv : env.Plenty)
    (hend : bio.endSector ≤ s.capacity) (hbvecs : Sectored bio.segments) :
    ∃ s', Step s (.bio d bio env) s' ∧
      (Keeps (s.parentPages brd) brd.brdPages bio → s'.content d = written bio (s.content d)) ∧
      (hasFlag bio.biRw reqDiscard = false → s'.content d = written bio (s.content d) →
        Keeps (s.parentPages brd) brd.brdPages bio) := by
  obtain ⟨err, pages', out, hreq, hcontent⟩ := brdMakeRequest_write henv (hs.parent_indexed brd)
    (hs.indexed d brd hd) hw hend hbvecs
  refine ⟨{ s with devices := s.devices.set d { brd with brdPages := pages' } }, ?_, ?_⟩
  · unfold Step step
    simp [Event.dev, hd, serve, hreq, bind, Except.bind, pure, Except.pure]
  · rw [hs.content_set hd, content_of_getElem hd]
    exact hcontent

end CrashMonkey.CowBrd
