import Mathlib.Data.Finmap
import Mathlib.Tactic
import CrashMonkey.Lib.Image

/-!
# Pages of the copy-on-write device

A device stores the pages that were written to it. What it can be read to hold is
its own page, or else its parent's, or else zeros.
-/

namespace CrashMonkey.CowBrd

def sectorShift : ℕ := 9
def pageSize : ℕ := 4096
def pageSectors : ℕ := 8

structure Page where
  index : ℕ
  bytes : Fin pageSize → UInt8
deriving DecidableEq

/-- `brd_pages`: the radix tree from page indices to pages. -/
abbrev PageTree := Finmap fun _ : ℕ => Page

/-- What the kernel does not survive: a `BUG_ON` that fires, or a copy past the end
of a page. -/
inductive Fault where
  | bugOn
  | overrun
deriving DecidableEq, Repr

/-- The byte at `i`; past the page there is none of it. -/
def Page.byte (p : Page) (i : ℕ) : UInt8 := if h : i < pageSize then p.bytes ⟨i, h⟩ else 0

def Page.zero (index : ℕ) : Page := ⟨index, fun _ => 0⟩

def Page.memcpy (p : Page) (off : ℕ) (src : ℕ → UInt8) (n : ℕ) : Except Fault Page :=
  if off + n ≤ pageSize then .ok ⟨p.index, fun i => Image.overlay p.byte off n src i⟩
  else .error .overrun

@[simp] theorem Page.zero_byte (index i : ℕ) : (Page.zero index).byte i = 0 := by
  unfold Page.byte Page.zero
  split_ifs <;> rfl

theorem Page.byte_of_le {p : Page} {i : ℕ} (h : pageSize ≤ i) : p.byte i = 0 := dif_neg (by omega)

theorem Page.overlay_all (p q : Page) (i : ℕ) :
    Image.overlay p.byte 0 pageSize q.byte i = q.byte i := by
  by_cases h : i < pageSize
  · exact Image.overlay_of_mem ⟨Nat.zero_le i, by omega⟩
  · rw [Image.overlay_of_not_mem (by omega), byte_of_le (not_lt.mp h), byte_of_le (not_lt.mp h)]

theorem Page.memcpy_eq {p : Page} {off n : ℕ} (src : ℕ → UInt8) (h : off + n ≤ pageSize) :
    ∃ q, p.memcpy off src n = .ok q ∧ q.index = p.index ∧
      ∀ i, q.byte i = Image.overlay p.byte off n src i := by
  refine ⟨_, if_pos h, rfl, fun i => ?_⟩
  by_cases hi : i < pageSize
  · exact dif_pos hi
  · have hout : ¬ (off ≤ i ∧ i < off + n) := by omega
    rw [Image.overlay_of_not_mem hout]
    unfold Page.byte
    rw [dif_neg hi, dif_neg hi]

def brdLookupPage (pages : PageTree) (sector : ℕ) : Except Fault (Option Page) :=
  match pages.lookup (sector / pageSectors) with
  | some page => if page.index = sector / pageSectors then .ok (some page) else .error .bugOn
  | none => .ok none

/-- Whether `alloc_page` and `radix_tree_preload` succeed. -/
structure Alloc where
  page : Bool
  preload : Bool
deriving DecidableEq, Repr

/-- `radix_tree_insert`, which refuses an index that is there. -/
def radixTreeInsert (pages : PageTree) (idx : ℕ) (page : Page) : Option PageTree :=
  if idx ∈ pages then none else some (pages.insert idx page)

/-- `brd_insert_page`: the page, if there is memory for one, and the tree. `parent`
are the pages of the parent device. -/
def brdInsertPage (mem : Alloc) (parent : Option PageTree) (pages : PageTree) (sector : ℕ) :
    Except Fault (Option Page × PageTree) := do
  match ← brdLookupPage pages sector with
  | some page => return (some page, pages)
  | none =>
    if mem.page = false ∨ mem.preload = false then return (none, pages)
    let idx := sector / pageSectors
    let (page, pages) ← match radixTreeInsert pages idx (.zero idx) with
      | some pages => pure (Page.zero idx, pages)
      | none =>
        match pages.lookup idx with
        | none => throw .bugOn
        | some page => if page.index = idx then pure (page, pages) else throw .bugOn
    match parent with
    | none => return (some page, pages)
    | some parent =>
      match ← brdLookupPage parent sector with
      | none => return (some page, pages)
      | some parentPage =>
        let page ← page.memcpy 0 parentPage.byte pageSize
        return (some page, pages.insert idx page)

def brdZeroPage (pages : PageTree) (sector : ℕ) : Except Fault PageTree := do
  match ← brdLookupPage pages sector with
  | some page => return pages.insert (sector / pageSectors) (.zero page.index)
  | none => return pages

def Indexed (pages : PageTree) : Prop := ∀ idx page, pages.lookup idx = some page → page.index = idx

/-- Byte `i` of the page that counts at `idx`: the own one, or else the parent's. -/
def pageByte (parent : Option PageTree) (pages : PageTree) (idx i : ℕ) : UInt8 :=
  ((pages.lookup idx).or (parent.bind fun p => p.lookup idx)).elim 0 fun p => p.byte i

def content (parent : Option PageTree) (pages : PageTree) (b : ℕ) : UInt8 :=
  pageByte parent pages (b / pageSize) (b % pageSize)

theorem brdLookupPage_eq {pages : PageTree} (h : Indexed pages) (sector : ℕ) :
    brdLookupPage pages sector = .ok (pages.lookup (sector / pageSectors)) := by
  unfold brdLookupPage
  cases hp : pages.lookup (sector / pageSectors) with
  | none => rfl
  | some page => exact if_pos (h _ page hp)

theorem indexed_empty : Indexed ∅ := by
  intro idx page h
  simp at h

theorem Indexed.insert {pages : PageTree} (h : Indexed pages) {idx : ℕ} {page : Page}
    (hp : page.index = idx) : Indexed (pages.insert idx page) := by
  intro k q hq
  obtain rfl | hne := eq_or_ne k idx
  · rw [Finmap.lookup_insert, Option.some.injEq] at hq
    rw [← hq, hp]
  · rw [Finmap.lookup_insert_of_ne _ hne] at hq
    exact h k q hq

theorem pageByte_of_lookup {pages : PageTree} {idx : ℕ} {page : Page}
    (h : pages.lookup idx = some page) (parent : Option PageTree) (i : ℕ) :
    pageByte parent pages idx i = page.byte i := by
  rw [pageByte, h]
  rfl

theorem pageByte_of_lookup_none {pages : PageTree} {idx : ℕ} (h : pages.lookup idx = none)
    (parent : Option PageTree) (i : ℕ) : pageByte parent pages idx i =
      (parent.bind fun p => p.lookup idx).elim 0 fun p => p.byte i := by
  rw [pageByte, h]
  rfl

theorem content_page (parent : Option PageTree) (pages : PageTree) (k : ℕ) {i : ℕ}
    (hi : i < pageSize) : content parent pages (k * pageSize + i) = pageByte parent pages k i := by
  rw [content, Nat.add_comm, Nat.add_mul_div_right _ _ (by decide), Nat.div_eq_of_lt hi,
    Nat.zero_add, Nat.add_mul_mod_self_right, Nat.mod_eq_of_lt hi]

theorem pageByte_insert (parent : Option PageTree) (pages : PageTree) (idx : ℕ) (page : Page)
    (i : ℕ) : pageByte parent (pages.insert idx page) idx i = page.byte i :=
  pageByte_of_lookup (Finmap.lookup_insert pages) parent i

theorem pageByte_congr {pages pages' : PageTree} {k : ℕ}
    (h : pages'.lookup k = pages.lookup k) (parent : Option PageTree) (i : ℕ) :
    pageByte parent pages' k i = pageByte parent pages k i := by
  rw [pageByte, pageByte, h]

theorem pageByte_insert_of_ne (parent : Option PageTree) (pages : PageTree) {idx k : ℕ}
    (hne : k ≠ idx) (page : Page) (i : ℕ) :
    pageByte parent (pages.insert idx page) k i = pageByte parent pages k i :=
  pageByte_congr (Finmap.lookup_insert_of_ne pages hne) parent i

/-- The outcome of an insertion: it changes no content, only the place of the page. -/
structure Inserted (parent : Option PageTree) (pages : PageTree) (idx : ℕ) (page : Option Page)
    (pages' : PageTree) : Prop where
  indexed : Indexed pages'
  lookup_of_ne : ∀ k, k ≠ idx → pages'.lookup k = pages.lookup k
  lookup_self : ∀ p, pages.lookup idx = some p → pages'.lookup idx = some p
  byte_eq : ∀ k i, pageByte parent pages' k i = pageByte parent pages k i
  found : ∀ p, page = some p → pages'.lookup idx = some p

theorem inserted_new {parent : Option PageTree} {pages : PageTree} (hpages : Indexed pages)
    {idx : ℕ} (hnone : pages.lookup idx = none) {page : Page} (hidx : page.index = idx)
    (hbyte : ∀ i, page.byte i = pageByte parent pages idx i) :
    Inserted parent pages idx (some page) (pages.insert idx page) where
  indexed := hpages.insert hidx
  lookup_of_ne k hne := Finmap.lookup_insert_of_ne pages hne
  lookup_self p hp := by rw [hnone] at hp; cases hp
  byte_eq k i := by
    obtain rfl | hne := eq_or_ne k idx
    · rw [pageByte_insert, hbyte]
    · exact pageByte_insert_of_ne parent pages hne page i
  found p hp := by rw [Finmap.lookup_insert, hp]

theorem inserted_same {parent : Option PageTree} {pages : PageTree} (hpages : Indexed pages)
    {idx : ℕ} {page : Option Page} (hpage : ∀ p, page = some p → pages.lookup idx = some p) :
    Inserted parent pages idx page pages where
  indexed := hpages
  lookup_of_ne _ _ := rfl
  lookup_self _ hp := hp
  byte_eq _ _ := rfl
  found := hpage

theorem brdInsertPage_spec (mem : Alloc) {parent : Option PageTree} {pages : PageTree}
    (hpages : Indexed pages) (hparent : ∀ p ∈ parent, Indexed p) (sector : ℕ) :
    ∃ page pages', brdInsertPage mem parent pages sector = .ok (page, pages') ∧
      Inserted parent pages (sector / pageSectors) page pages' ∧
      (mem.page = true → mem.preload = true → page.isSome = true) := by
  unfold brdInsertPage
  rw [brdLookupPage_eq hpages]
  cases hl : pages.lookup (sector / pageSectors) with
  | some p => exact ⟨some p, pages, rfl, inserted_same hpages fun q hq => hq ▸ hl, fun _ _ => rfl⟩
  | none =>
    by_cases hmem : mem.page = false ∨ mem.preload = false
    · refine ⟨none, pages, ?_, inserted_same hpages (by simp), fun h₁ h₂ => ?_⟩
      · simp [bind, Except.bind, hmem, pure, Except.pure]
      · simp [h₁, h₂] at hmem
    · have hnew : radixTreeInsert pages (sector / pageSectors) (.zero (sector / pageSectors)) =
          some (pages.insert (sector / pageSectors) (.zero (sector / pageSectors))) :=
        if_neg (Finmap.lookup_eq_none.mp hl)
      have hbyte (h : (parent.bind fun p => p.lookup (sector / pageSectors)) = none) (i : ℕ) :
          (Page.zero (sector / pageSectors)).byte i =
            pageByte parent pages (sector / pageSectors) i := by
        rw [Page.zero_byte, pageByte_of_lookup_none hl, h]
        rfl
      simp only [bind, Except.bind, hmem, if_false, hnew, pure, Except.pure]
      cases hp : parent with
      | none =>
        subst hp
        exact ⟨_, _, rfl, inserted_new hpages hl rfl (hbyte rfl), fun _ _ => rfl⟩
      | some parent =>
        subst hp
        simp only [brdLookupPage_eq (hparent parent rfl)]
        cases hq : parent.lookup (sector / pageSectors) with
        | none => exact ⟨_, _, rfl, inserted_new hpages hl rfl (hbyte hq), fun _ _ => rfl⟩
        | some q =>
          -- the new page gets the bytes of the parent's
          obtain ⟨page, hcopy, hindex, hbytes⟩ := Page.memcpy_eq q.byte
            (p := .zero (sector / pageSectors)) (show 0 + pageSize ≤ pageSize by simp)
          have hcopied (i : ℕ) : page.byte i = pageByte (some parent) pages
              (sector / pageSectors) i := by
            rw [hbytes, Page.overlay_all, pageByte_of_lookup_none hl, Option.bind_some, hq]
            rfl
          simp only [hcopy, Finmap.insert_insert]
          exact ⟨_, _, rfl, inserted_new hpages hl hindex hcopied, fun _ _ => rfl⟩

end CrashMonkey.CowBrd
