import CrashMonkey.CowBrd.Pages

namespace CrashMonkey.CowBrd

def enomem : Int := 12

def pageOffset (sector : ℕ) : ℕ := (sector % pageSectors) * 2 ^ sectorShift

/-- `copy_to_brd_setup`; each of the two insertions has its own memory. -/
def copyToBrdSetup (mem : Alloc × Alloc) (parent : Option PageTree) (pages : PageTree)
    (sector n : ℕ) : Except Fault (Int × PageTree) := do
  let offset := pageOffset sector
  let copy := min n (pageSize - offset)
  let (page, pages) ← brdInsertPage mem.1 parent pages sector
  if page.isNone then return (-enomem, pages)
  if copy < n then
    let sector := sector + copy / 2 ^ sectorShift
    let (page, pages) ← brdInsertPage mem.2 parent pages sector
    if page.isNone then return (-enomem, pages)
    return (0, pages)
  return (0, pages)

/-- `discard_from_brd`, for the pages that lie completely in the `n` bytes. -/
def discardFromBrd (pages : PageTree) (sector n : ℕ) : Except Fault PageTree :=
  if pageSize ≤ n then do
    let pages ← brdZeroPage pages sector
    discardFromBrd pages (sector + pageSize / 2 ^ sectorShift) (n - pageSize)
  else return pages
termination_by n
decreasing_by
  have : 0 < pageSize := by decide
  omega

/-- The rest of the second page is copied over from the parent, if that has it. -/
def copyParentTail (parent : Option PageTree) (page : Page) (sector copy : ℕ) :
    Except Fault Page := do
  match parent with
  | none => return page
  | some parent =>
    match ← brdLookupPage parent sector with
    | none => return page
    | some parentPage =>
      if pageSize < copy then throw .overrun
      page.memcpy copy (fun i => parentPage.byte (copy + i)) (pageSize - copy)

def copyToBrd (parent : Option PageTree) (pages : PageTree) (src : ℕ → UInt8) (sector n : ℕ) :
    Except Fault PageTree := do
  let offset := pageOffset sector
  let copy := min n (pageSize - offset)
  match ← brdLookupPage pages sector with
  | none => throw .bugOn
  | some page =>
    let page ← page.memcpy offset src copy
    let pages := pages.insert (sector / pageSectors) page
    if copy < n then
      let sector := sector + copy / 2 ^ sectorShift
      match ← brdLookupPage pages sector with
      | none => throw .bugOn
      | some page =>
        let page ← copyParentTail parent page sector (n - copy)
        let page ← page.memcpy 0 (fun i => src (copy + i)) (n - copy)
        return pages.insert (sector / pageSectors) page
    return pages

/-- `memcpy(dst + pos, page + off, n)`, and whether it stays in the page; `beyond` is
the memory behind it. -/
def Page.load (beyond : ℕ → UInt8) (p : Page) (off n : ℕ) (dst : ℕ → UInt8) (pos : ℕ) :
    (ℕ → UInt8) × Bool :=
  (Image.overlay dst pos n fun i => if off + i < pageSize then p.byte (off + i) else beyond (off + i),
    decide (off + n ≤ pageSize))

def copyPart (beyond : ℕ → UInt8) (parent : Option PageTree) (pages : PageTree)
    (sector ownOff parentOff n : ℕ) (dst : ℕ → UInt8) (pos : ℕ) :
    Except Fault ((ℕ → UInt8) × Bool) := do
  match ← brdLookupPage pages sector with
  | some page => return page.load beyond ownOff n dst pos
  | none =>
    match parent with
    | none => return (Image.overlay dst pos n fun _ => 0, true)
    | some parent =>
      match ← brdLookupPage parent sector with
      | some page => return page.load beyond parentOff n dst pos
      | none => return (Image.overlay dst pos n fun _ => 0, true)

/-- `copy_from_brd`: the memory at `dst` afterwards, and whether all source bytes lay
in their pages. -/
def copyFromBrd (beyond : ℕ → UInt8) (dst : ℕ → UInt8) (parent : Option PageTree)
    (pages : PageTree) (sector n : ℕ) : Except Fault ((ℕ → UInt8) × Bool) := do
  let offset := pageOffset sector
  let copy := min n (pageSize - offset)
  let first ← copyPart beyond parent pages sector offset offset copy dst 0
  if copy < n then
    let second ← copyPart beyond parent pages (sector + copy / 2 ^ sectorShift) 0 offset
      (n - copy) first.1 copy
    return (second.1, first.2 && second.2)
  return first

/-- `brd_do_bvec` on the memory `page` of a segment: the error, the pages of the
device, the memory afterwards and whether all reads stayed in their pages. -/
def brdDoBvec (mem : Alloc × Alloc) (beyond : ℕ → UInt8) (parent : Option PageTree)
    (pages : PageTree) (page : ℕ → UInt8) (len off : ℕ) (read : Bool) (sector : ℕ) :
    Except Fault (Int × PageTree × (ℕ → UInt8) × Bool) := do
  if read then
    let (dst, inside) ← copyFromBrd beyond (fun i => page (off + i)) parent pages sector len
    return (0, pages, fun i => if off ≤ i then dst (i - off) else page i, inside)
  else
    let (err, pages) ← copyToBrdSetup mem parent pages sector len
    if err ≠ 0 then return (err, pages, page, true)
    let pages ← copyToBrd parent pages (fun i => page (off + i)) sector len
    return (0, pages, page, true)

def Straddles (sector n : ℕ) : Prop := pageSize < pageOffset sector + n

instance (sector n : ℕ) : Decidable (Straddles sector n) :=
  inferInstanceAs (Decidable (pageSize < pageOffset sector + n))

theorem pageOffset_lt (sector : ℕ) : pageOffset sector < pageSize := by
  have := Nat.mod_lt sector (show 0 < pageSectors by decide)
  simp only [pageOffset, pageSectors, sectorShift, pageSize] at *
  omega

theorem copy_lt_iff (sector n : ℕ) :
    min n (pageSize - pageOffset sector) < n ↔ Straddles sector n := by
  have := pageOffset_lt sector
  unfold Straddles
  omega

/-- The second page is the next one. -/
theorem second_sector {sector n : ℕ} (h : Straddles sector n) :
    (sector + min n (pageSize - pageOffset sector) / 2 ^ sectorShift) / pageSectors =
      sector / pageSectors + 1 := by
  have := pageOffset_lt sector
  have hmin : min n (pageSize - pageOffset sector) = pageSize - pageOffset sector := by
    unfold Straddles at h
    omega
  rw [hmin]
  simp only [pageOffset, pageSectors, sectorShift, pageSize] at *
  omega

/-- Where byte `b` of the device stands in the pages a segment touches. -/
theorem start_eq (sector : ℕ) :
    sector * 2 ^ sectorShift = sector / pageSectors * pageSize + pageOffset sector := by
  simp only [pageOffset, pageSectors, sectorShift, pageSize]
  omega

end CrashMonkey.CowBrd
