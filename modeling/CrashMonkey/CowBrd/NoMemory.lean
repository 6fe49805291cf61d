import CrashMonkey.CowBrd.Isolation

namespace CrashMonkey.CowBrd

def AllocFails (mem : Alloc) (pages : PageTree) (idx : ℕ) : Prop :=
  pages.lookup idx = none ∧ (mem.page = false ∨ mem.preload = false)

/-- `copy_to_brd_setup` meets a failure at the first page or at the second. -/
def SetupFails (mem : Alloc × Alloc) (pages : PageTree) (sector n : ℕ) : Prop :=
  AllocFails mem.1 pages (sector / pageSectors) ∨
    (Straddles sector n ∧ AllocFails mem.2 pages (sector / pageSectors + 1))

theorem brdInsertPage_fails {mem : Alloc} {parent : Option PageTree} {pages : PageTree}
    (hpages : Indexed pages) {sector : ℕ} (h : AllocFails mem pages (sector / pageSectors)) :
    brdInsertPage mem parent pages sector = .ok (none, pages) := by
  unfold brdInsertPage
  rw [brdLookupPage_eq hpages, h.1]
  simp [bind, Except.bind, h.2, pure, Except.pure]

theorem copyToBrdSetup_fails {mem : Alloc × Alloc} {parent : Option PageTree} {pages : PageTree}
    (hpages : Indexed pages) (hparent : ∀ p ∈ parent, Indexed p) {sector n : ℕ}
    (h : SetupFails mem pages sector n) :
    ∃ pages', copyToBrdSetup mem parent pages sector n = .ok (-enomem, pages') := by
  unfold copyToBrdSetup
  rcases h with hfirst | ⟨hs, hsecond⟩
  · rw [brdInsertPage_fails hpages hfirst]
    exact ⟨pages, rfl⟩
  · obtain ⟨page, pages₁, hins, h₁, -⟩ := brdInsertPage_spec mem.1 hpages hparent sector
    simp only [hins, bind, Except.bind]
    cases page with
    | none => exact ⟨pages₁, rfl⟩
    | some page =>
      -- the first page is there now, the second one still is not
      have hfail : AllocFails mem.2 pages₁
          ((sector + min n (pageSize - pageOffset sector) / 2 ^ sectorShift) / pageSectors) := by
        rw [second_sector hs]
        exact ⟨(h₁.lookup_of_ne _ (by omega)).trans hsecond.1, hsecond.2⟩
      simp only [Option.isNone_some, Bool.false_eq_true, if_false, copy_lt_iff, hs, if_true,
        brdInsertPage_fails h₁.indexed hfail]
      exact ⟨pages₁, rfl⟩

theorem brdDoBvec_fails {mem : Alloc × Alloc} {parent : Option PageTree} {pages : PageTree}
    (hpages : Indexed pages) (hparent : ∀ p ∈ parent, Indexed p) {sector n : ℕ}
    (h : SetupFails mem pages sector n) (beyond page : ℕ → UInt8) (off : ℕ) :
    ∃ pages', brdDoBvec mem beyond parent pages page n off false sector =
        .ok (-enomem, pages', page, true) ∧
      ∀ k i, pageByte parent pages' k i = pageByte parent pages k i := by
  obtain ⟨pages', hfail⟩ := copyToBrdSetup_fails hpages hparent h
  obtain ⟨err, pages'', heq, hsetup, -⟩ := copyToBrdSetup_spec mem hpages hparent sector n
  rw [hfail, Except.ok.injEq, Prod.mk.injEq] at heq
  obtain ⟨rfl, rfl⟩ := heq
  refine ⟨pages', ?_, hsetup.byte_eq⟩
  unfold brdDoBvec
  simp [hfail, bind, Except.bind, pure, Except.pure, enomem]

/-- A device reads the same through a parent that does. -/
theorem content_parent_congr {parent parent' : PageTree}
    (h : ∀ k i, pageByte none parent' k i = pageByte none parent k i) (pages : PageTree) :
    CowBrd.content (some parent') pages = CowBrd.content (some parent) pages := by
  funext b
  unfold CowBrd.content
  cases hl : pages.lookup (b / pageSize) with
  | some page => rw [pageByte_of_lookup hl, pageByte_of_lookup hl]
  | none =>
    have hbyte := h (b / pageSize) (b % pageSize)
    simp only [pageByte, Option.bind_none, Option.or_none] at hbyte
    rw [pageByte_of_lookup_none hl, pageByte_of_lookup_none hl, Option.bind_some, Option.bind_some,
      hbyte]

def System.setPages (s : System) (d : ℕ) (brd : BrdDevice) (pages : PageTree) : System :=
  { s with devices := s.devices.set d { brd with brdPages := pages } }

/-- New pages that hold what could be read before change no device. -/
theorem WellFormed.content_setPages {s : System} (hs : WellFormed s) {d : ℕ} {brd : BrdDevice}
    (hd : s.devices[d]? = some brd) {pages : PageTree}
    (h : ∀ k i, pageByte (s.parentPages brd) pages k i =
      pageByte (s.parentPages brd) brd.brdPages k i) (d' : ℕ) :
    (s.setPages d brd pages).content d' = s.content d' := by
  obtain rfl | hne := eq_or_ne d' d
  · rw [System.setPages, hs.content_set hd, content_of_getElem hd]
    exact funext fun _ => h _ _
  · have hlt := (List.getElem?_eq_some_iff.mp hd).1
    have hkeep {k : ℕ} (hk : k ≠ d) : (s.setPages d brd pages).devices[k]? = s.devices[k]? :=
      List.getElem?_set_ne hk.symm
    cases hd' : s.devices[d']? with
    | none => rw [System.content, System.content, hkeep hne, hd', Option.elim_none, Option.elim_none]
    | some other =>
      rw [content_of_getElem hd', content_of_getElem ((hkeep hne).trans hd')]
      by_cases hparent : other.parentBrd = some d
      · -- a snapshot of the device, which itself has no parent
        have hdisk : s.parentPages brd = none := by
          obtain ⟨-, p, base, hp, hbase, hbasedisk⟩ :=
            hs.snapshot d' other hd' (hs.isSnapshot_of_parent hd' hparent)
          rw [hparent, Option.some.injEq] at hp
          subst hp
          rw [hd, Option.some.injEq] at hbase
          subst hbase
          rw [System.parentPages, hs.disk _ _ hd hbasedisk]
          rfl
        rw [hdisk] at h
        have hafter : (s.setPages d brd pages).parentPages other = some pages := by
          simp [System.parentPages, hparent, System.setPages, hlt]
        have hbefore : s.parentPages other = some brd.brdPages := by
          simp [System.parentPages, hparent, hd]
        rw [hafter, hbefore, content_parent_congr h]
      · refine congrArg (CowBrd.content · other.brdPages) ?_
        unfold System.parentPages
        cases hp : other.parentBrd with
        | none => rfl
        | some p =>
          rw [Option.bind_some, Option.bind_some,
            hkeep fun heq => hparent (hp.trans (congrArg some heq))]

/-- A segment that fails for want of memory changes no content. -/
theorem failed_segment_keeps_content {s : System} (hs : Reachable s) {d : ℕ} {brd : BrdDevice}
    (hd : s.devices[d]? = some brd) {mem : Alloc × Alloc} {sector n : ℕ}
    (hfail : SetupFails mem brd.brdPages sector n) (beyond page : ℕ → UInt8) (off : ℕ) :
    ∃ pages, brdDoBvec mem beyond (s.parentPages brd) brd.brdPages page n off false sector =
        .ok (-enomem, pages, page, true) ∧
      ∀ d', (s.setPages d brd pages).content d' = s.content d' := by
  obtain ⟨pages, heq, hbyte⟩ := brdDoBvec_fails (hs.wellFormed.indexed d brd hd)
    (hs.wellFormed.parent_indexed brd) hfail beyond page off
  exact ⟨pages, heq, hs.wellFormed.content_setPages hd hbyte⟩

/-- There is no memory for a copy of the parent's page. -/
theorem failed_segment_brdInit : ∃ s brd, Layered s brd ∧
    ∃ pages, brdDoBvec (⟨true, true⟩, ⟨true, false⟩) (fun _ => 0) (s.parentPages brd) brd.brdPages
        (fun _ => 3) 1024 0 false 7 = .ok (-enomem, pages, fun _ => 3, true) ∧
      ∀ d', (s.setPages 1 brd pages).content d' = s.content d' := by
  obtain ⟨s, brd, h⟩ := exists_layered
  exact ⟨s, brd, h, failed_segment_keeps_content h.reachable h.device
    (.inr ⟨by decide, h.missing, .inr rfl⟩) _ _ 0⟩

end CrashMonkey.CowBrd
