import CrashMonkey.CowBrd.Device
import CrashMonkey.CowBrd.WriteLaw

namespace CrashMonkey.CowBrd

/-- A batch of pages of the tree in ascending order is freed without complaint. -/
theorem freePages_spec {batch : List Page} {pos : ℕ} {pages : PageTree}
    (hfound : ∀ p ∈ batch, pages.lookup p.index = some p)
    (hsorted : (batch.map Page.index).Pairwise (· < ·)) (hpos : ∀ p ∈ batch, pos ≤ p.index) :
    ∃ pos' pages', freePages batch pos pages = .ok (pos', pages') ∧
      (∀ k, pages'.lookup k = if k ∈ batch.map Page.index then none else pages.lookup k) ∧
      (batch ≠ [] → pos' ∈ batch.map Page.index) := by
  induction batch generalizing pos pages with
  | nil => exact ⟨pos, pages, rfl, fun k => by simp, fun h => absurd rfl h⟩
  | cons p batch ih =>
    obtain ⟨hp, hbatch⟩ := List.forall_mem_cons.mp hfound
    obtain ⟨hposp, -⟩ := List.forall_mem_cons.mp hpos
    rw [List.map_cons, List.pairwise_cons] at hsorted
    have hlt (q : Page) (hq : q ∈ batch) : p.index < q.index :=
      hsorted.1 _ (List.mem_map_of_mem hq)
    have hrest (q : Page) (hq : q ∈ batch) : (pages.erase p.index).lookup q.index = some q := by
      rw [Finmap.lookup_erase_ne (hlt q hq).ne', hbatch q hq]
    obtain ⟨pos', pages', heq, hlookup, hlast⟩ := ih hrest hsorted.2
      (show ∀ q ∈ batch, p.index ≤ q.index from fun q hq => (hlt q hq).le)
    refine ⟨pos', pages', ?_, fun k => ?_, fun _ => ?_⟩
    · rw [freePages, if_neg (not_lt.mpr hposp), if_pos hp, heq]
    · rw [hlookup]
      by_cases hk : k = p.index
      · rw [hk, Finmap.lookup_erase]
        simp
      · simp [hk, Finmap.lookup_erase_ne hk]
    · cases batch with
      | nil =>
        simp only [freePages, Except.ok.injEq, Prod.mk.injEq] at heq
        simp [heq.1]
      | cons q batch => exact List.mem_cons_of_mem _ (hlast (by simp))

theorem filterMap_lookup_index {pages : PageTree} (hpages : Indexed pages) {ks : List ℕ}
    (hks : ∀ k ∈ ks, k ∈ pages) :
    (ks.filterMap fun k => pages.lookup k).map Page.index = ks ∧
      ∀ p ∈ ks.filterMap fun k => pages.lookup k, pages.lookup p.index = some p := by
  constructor
  · induction ks with
    | nil => rfl
    | cons k ks ih =>
      obtain ⟨hk, hks⟩ := List.forall_mem_cons.mp hks
      obtain ⟨p, hp⟩ := Finmap.mem_iff.mp hk
      rw [List.filterMap_cons, hp]
      exact congrArg₂ List.cons (hpages k p hp) (ih hks)
  · intro p hp
    obtain ⟨k, -, hk⟩ := List.mem_filterMap.mp hp
    rw [hpages k p hk, hk]

/-- What one batch does: its pages are the next ones of the tree, and only they are gone. -/
structure BatchFreed (pages : PageTree) (batch : List Page) (pos' : ℕ) (pages' : PageTree) :
    Prop where
  found : ∀ p ∈ batch, pages.lookup p.index = some p
  sorted : (batch.map Page.index).Pairwise (· < ·)
  lookup_eq : ∀ k, pages'.lookup k = if k ∈ batch.map Page.index then none else pages.lookup k
  lt_of_full : batch.length = freeBatch → ∀ k ∈ pages', pos' < k
  empty_of_short : batch.length ≠ freeBatch → pages' = ∅

theorem BatchFreed.lookup_some {pages pages' : PageTree} {batch : List Page} {pos' : ℕ}
    (h : BatchFreed pages batch pos' pages') {k : ℕ} {p : Page} (hp : pages'.lookup k = some p) :
    k ∉ batch.map Page.index ∧ pages.lookup k = some p := by
  have hk := h.lookup_eq k
  split_ifs at hk with hmem
  · rw [hp] at hk
    cases hk
  · exact ⟨hmem, hk ▸ hp⟩

theorem BatchFreed.indexed {pages pages' : PageTree} {batch : List Page} {pos' : ℕ}
    (h : BatchFreed pages batch pos' pages') (hpages : Indexed pages) : Indexed pages' :=
  fun k p hp => hpages k p (h.lookup_some hp).2

theorem freeBatch_spec {pages : PageTree} (hpages : Indexed pages) {pos : ℕ}
    (hpos : ∀ k ∈ pages, pos ≤ k) :
    ∃ pos' pages', freePages (radixTreeGangLookup pages pos freeBatch) pos pages =
        .ok (pos', pages') ∧
      BatchFreed pages (radixTreeGangLookup pages pos freeBatch) pos' pages' := by
  have hfilter : pages.keys.filter (pos ≤ ·) = pages.keys :=
    Finset.filter_true_of_mem fun k hk => hpos k (Finmap.mem_keys.mp hk)
  have hgang : radixTreeGangLookup pages pos freeBatch =
      ((pages.keys.sort (· ≤ ·)).take freeBatch).filterMap fun k => pages.lookup k := by
    rw [radixTreeGangLookup, hfilter]
  have hmem : ∀ k, k ∈ pages.keys.sort (· ≤ ·) ↔ k ∈ pages := fun k =>
    (Finset.mem_sort _).trans Finmap.mem_keys
  have hsorted := (Finset.sortedLT_sort pages.keys).pairwise
  generalize pages.keys.sort (· ≤ ·) = ks at hgang hmem hsorted
  obtain ⟨hindex, hfound⟩ := filterMap_lookup_index hpages fun k hk =>
    (hmem k).mp (List.mem_of_mem_take (i := freeBatch) hk)
  rw [← hgang] at hindex hfound
  generalize radixTreeGangLookup pages pos freeBatch = batch at hindex hfound ⊢
  have hbatch : (batch.map Page.index).Pairwise (· < ·) := by
    rw [hindex]
    exact hsorted.sublist (List.take_sublist _ _)
  obtain ⟨pos', pages', hfree, hlookup, hlast⟩ := freePages_spec hfound hbatch
    fun p hp => hpos _ (Finmap.mem_iff.mpr ⟨p, hfound p hp⟩)
  have hlen : batch.length = (ks.take freeBatch).length := by rw [← hindex, List.length_map]
  -- what is left lies behind the batch
  have hleft : ∀ k ∈ pages', k ∈ ks.drop freeBatch := by
    intro k hk
    obtain ⟨p, hp⟩ := Finmap.mem_iff.mp hk
    have hk' := hlookup k
    rw [hindex] at hk'
    split_ifs at hk' with htake
    · rw [hp] at hk'
      cases hk'
    · have hks : k ∈ ks := (hmem k).mpr (Finmap.mem_iff.mpr ⟨p, hk' ▸ hp⟩)
      rw [← List.take_append_drop freeBatch ks, List.mem_append] at hks
      exact hks.resolve_left htake
  refine ⟨pos', pages', hfree, hfound, hbatch, hlookup, fun hfull k hk => ?_, fun hshort => ?_⟩
  · have hne : batch ≠ [] := by
      rintro rfl
      simp [freeBatch] at hfull
    rw [← List.take_append_drop freeBatch ks, List.pairwise_append] at hsorted
    exact hsorted.2.2 pos' (hindex ▸ hlast hne) k (hleft k hk)
  · have hall : ks.drop freeBatch = [] := by
      rw [hlen, List.length_take] at hshort
      exact List.drop_eq_nil_of_le (by omega)
    refine Finmap.ext_lookup fun k => ?_
    rw [Finmap.lookup_empty, Finmap.lookup_eq_none]
    intro hk
    have hk' := hleft k hk
    rw [hall] at hk'
    simp at hk'

theorem brdFreePagesFrom_spec {pages : PageTree} (hpages : Indexed pages) {pos : ℕ}
    (hpos : ∀ k ∈ pages, pos ≤ k) : brdFreePagesFrom pages pos = .ok ∅ := by
  induction hcard : pages.keys.card using Nat.strong_induction_on generalizing pages pos with
  | _ card ih =>
    obtain ⟨pos', pages', hfree, hbatch⟩ := freeBatch_spec hpages hpos
    rw [brdFreePagesFrom, hfree]
    dsimp only
    split_ifs with hfull
    · have hcard' := freePages_card hfree
      have hsize : freeBatch = 16 := rfl
      exact ih _ (by omega) (hbatch.indexed hpages) (hbatch.lt_of_full hfull) rfl
    · rw [hbatch.empty_of_short hfull]

/-- Whatever the number of pages, the batches free all of them. -/
theorem brdFreePages_spec {pages : PageTree} (hpages : Indexed pages) :
    brdFreePages pages = .ok ∅ := brdFreePagesFrom_spec hpages fun _ _ => Nat.zero_le _

theorem brdLookupPage_index {pages : PageTree} {sector : ℕ} {page : Page}
    (h : brdLookupPage pages sector = .ok (some page)) : page.index = sector / pageSectors := by
  unfold brdLookupPage at h
  cases hp : pages.lookup (sector / pageSectors) with
  | none => simp [hp] at h
  | some p =>
    simp only [hp] at h
    split_ifs at h with hidx
    simp only [Except.ok.injEq, Option.some.injEq] at h
    rw [← h, hidx]

theorem memcpy_index {p q : Page} {off n : ℕ} {src : ℕ → UInt8}
    (h : p.memcpy off src n = .ok q) : q.index = p.index := by
  unfold Page.memcpy at h
  split_ifs at h
  simp only [Except.ok.injEq] at h
  rw [← h]

theorem copyParentTail_index {parent : Option PageTree} {page page' : Page} {sector copy : ℕ}
    (h : copyParentTail parent page sector copy = .ok page') : page'.index = page.index := by
  unfold copyParentTail at h
  cases parent with
  | none =>
    simp only [pure, Except.pure, Except.ok.injEq] at h
    rw [h]
  | some parent =>
    obtain ⟨found, -, h⟩ := Transition.bind_eq_ok.mp h
    cases found with
    | none =>
      simp only [pure, Except.pure, Except.ok.injEq] at h
      rw [h]
    | some q =>
      dsimp only at h
      split_ifs at h
      · simp [throw, throwThe, MonadExceptOf.throw, bind, Except.bind] at h
      · exact memcpy_index h

theorem copyToBrd_indexed {parent : Option PageTree} {pages pages' : PageTree}
    {src : ℕ → UInt8} {sector n : ℕ} (hpages : Indexed pages)
    (h : copyToBrd parent pages src sector n = .ok pages') : Indexed pages' := by
  unfold copyToBrd at h
  obtain ⟨found, hfound, h⟩ := Transition.bind_eq_ok.mp h
  cases found with
  | none => cases h
  | some page =>
    obtain ⟨page₁, hcopy, h⟩ := Transition.bind_eq_ok.mp h
    have h₁ := hpages.insert ((memcpy_index hcopy).trans (brdLookupPage_index hfound))
    dsimp only at h
    split_ifs at h with hlt
    · obtain ⟨found₂, hfound₂, h⟩ := Transition.bind_eq_ok.mp h
      cases found₂ with
      | none => cases h
      | some page₂ =>
        obtain ⟨page₃, htail, h⟩ := Transition.bind_eq_ok.mp h
        obtain ⟨page₄, hcopy₂, h⟩ := Transition.bind_eq_ok.mp h
        simp only [pure, Except.pure, Except.ok.injEq] at h
        rw [← h]
        apply h₁.insert
        rw [memcpy_index hcopy₂, copyParentTail_index htail, brdLookupPage_index hfound₂]
    · simp only [pure, Except.pure, Except.ok.injEq] at h
      rw [← h]
      exact h₁

theorem brdDoBvec_indexed {mem : Alloc × Alloc} {beyond page page' : ℕ → UInt8}
    {parent : Option PageTree} {pages pages' : PageTree} {len off sector : ℕ} {read inside : Bool}
    {err : Int} (hpages : Indexed pages) (hparent : ∀ p ∈ parent, Indexed p)
    (h : brdDoBvec mem beyond parent pages page len off read sector =
      .ok (err, pages', page', inside)) :
    Indexed pages' ∧ (read = true → pages' = pages) := by
  unfold brdDoBvec at h
  cases read with
  | true =>
    obtain ⟨r, -, h⟩ := Transition.bind_eq_ok.mp h
    simp only [pure, Except.pure, Except.ok.injEq, Prod.mk.injEq] at h
    rw [← h.2.1]
    exact ⟨hpages, fun _ => rfl⟩
  | false =>
    obtain ⟨err₁, pages₁, hsetup, h₁, -⟩ := copyToBrdSetup_spec mem hpages hparent sector len
    simp only [Bool.false_eq_true, if_false, hsetup] at h
    dsimp only [bind, Except.bind] at h
    refine ⟨?_, fun hr => by simp at hr⟩
    split_ifs at h with herr
    · simp only [pure, Except.pure, Except.ok.injEq, Prod.mk.injEq] at h
      rw [← h.2.1]
      exact h₁.indexed
    · cases hcopy : copyToBrd parent pages₁ (fun i => page (off + i)) sector len with
      | error fault => simp [hcopy] at h
      | ok pages₂ =>
        simp only [hcopy, pure, Except.pure, Except.ok.injEq, Prod.mk.injEq] at h
        rw [← h.2.1]
        exact copyToBrd_indexed h₁.indexed hcopy

theorem brdSegments_indexed {env : Env} {parent : Option PageTree} {read : Bool}
    (hparent : ∀ p ∈ parent, Indexed p) (bvecs : List Segment) {i sector : ℕ}
    {pages pages' : PageTree} {err err' : Int} {out : List ((ℕ → UInt8) × Bool)}
    (hpages : Indexed pages)
    (h : brdSegments env parent read bvecs i pages sector err = .ok (err', pages', out)) :
    Indexed pages' ∧ (read = true → pages' = pages) := by
  induction bvecs generalizing i sector pages pages' err err' out with
  | nil =>
    simp only [brdSegments, pure, Except.pure, Except.ok.injEq, Prod.mk.injEq] at h
    rw [← h.2.1]
    exact ⟨hpages, fun _ => rfl⟩
  | cons bvec bvecs ih =>
    simp only [brdSegments] at h
    obtain ⟨⟨err₁, pages₁, page₁, inside⟩, hbvec, h⟩ := Transition.bind_eq_ok.mp h
    obtain ⟨h₁, hread⟩ := brdDoBvec_indexed hpages hparent hbvec
    dsimp only at h
    split_ifs at h with herr
    · simp only [pure, Except.pure, Except.ok.injEq, Prod.mk.injEq] at h
      rw [← h.2.1]
      exact ⟨h₁, hread⟩
    · obtain ⟨⟨err₂, pages₂, rest⟩, hrest, h⟩ := Transition.bind_eq_ok.mp h
      obtain ⟨h₂, hread₂⟩ := ih h₁ hrest
      simp only [pure, Except.pure, Except.ok.injEq, Prod.mk.injEq] at h
      rw [← h.2.1]
      exact ⟨h₂, fun hr => (hread₂ hr).trans (hread hr)⟩

theorem brdZeroPage_spec {pages : PageTree} (hpages : Indexed pages) (sector : ℕ) :
    ∃ pages', brdZeroPage pages sector = .ok pages' ∧ Indexed pages' ∧ ∀ k, pages'.lookup k =
      if k = sector / pageSectors then (pages.lookup k).map fun p => .zero p.index
      else pages.lookup k := by
  unfold brdZeroPage
  rw [brdLookupPage_eq hpages]
  cases hp : pages.lookup (sector / pageSectors) with
  | none =>
    refine ⟨pages, by simp [bind, Except.bind, pure, Except.pure], hpages, fun k => ?_⟩
    split_ifs with hk
    · rw [hk, hp]
      rfl
    · rfl
  | some p =>
    refine ⟨pages.insert (sector / pageSectors) (.zero p.index), ?_, ?_, fun k => ?_⟩
    · simp only [bind, Except.bind, pure, Except.pure]
    · exact hpages.insert (hpages _ p hp)
    · split_ifs with hk
      · rw [hk, Finmap.lookup_insert, hp]
        rfl
      · exact Finmap.lookup_insert_of_ne pages hk

/-- The loop has one turn for each `PAGE_SIZE` bytes. -/
theorem discardFromBrd_spec {pages : PageTree} (hpages : Indexed pages) (sector n : ℕ) :
    ∃ pages', discardFromBrd pages sector n = .ok pages' ∧ Indexed pages' ∧ ∀ k, pages'.lookup k =
      if sector / pageSectors ≤ k ∧ k < sector / pageSectors + n / pageSize then
        (pages.lookup k).map fun p => .zero p.index
      else pages.lookup k := by
  induction n using Nat.strong_induction_on generalizing pages sector with
  | _ n ih =>
    rw [discardFromBrd]
    have hpos : 0 < pageSize := by decide
    split_ifs with hle
    · obtain ⟨pages₁, hzero, h₁, hlookup₁⟩ := brdZeroPage_spec hpages sector
      obtain ⟨pages₂, hrest, h₂, hlookup₂⟩ := ih (n - pageSize) (by omega) h₁
        (sector + pageSize / 2 ^ sectorShift)
      refine ⟨pages₂, Transition.bind_eq_ok.mpr ⟨pages₁, hzero, hrest⟩, h₂, fun k => ?_⟩
      have hnext : (sector + pageSize / 2 ^ sectorShift) / pageSectors =
          sector / pageSectors + 1 := Nat.add_div_right sector (by decide)
      have hturns : n / pageSize = (n - pageSize) / pageSize + 1 :=
        Nat.div_eq_sub_div hpos hle
      rw [hlookup₂, hlookup₁, hnext, hturns]
      generalize (n - pageSize) / pageSize = turns
      by_cases hk : k = sector / pageSectors
      · rw [if_neg (by omega), if_pos hk, if_pos (by omega)]
      · rw [if_neg hk]
        exact if_congr (by omega) rfl rfl
    · refine ⟨pages, rfl, hpages, fun k => ?_⟩
      rw [Nat.div_eq_of_lt (not_le.mp hle), if_neg (by omega)]

/-- A request keeps the index of the pages, and on a device that is not writable the
pages themselves. -/
theorem brdMakeRequest_spec {env : Env} {capacity : ℕ} {brd : BrdDevice}
    {parent : Option PageTree} {bio : Bio} {err : Int} {pages' : PageTree}
    {out : List ((ℕ → UInt8) × Bool)} (hpages : Indexed brd.brdPages)
    (hparent : ∀ p ∈ parent, Indexed p)
    (h : brdMakeRequest env capacity brd parent bio = .ok (err, pages', out)) :
    Indexed pages' ∧ (brd.isWritable = false → pages' = brd.brdPages) := by
  unfold brdMakeRequest at h
  split_ifs at h with hend hguard hdiscard
  · simp only [pure, Except.pure, Except.ok.injEq, Prod.mk.injEq] at h
    exact ⟨h.2.1 ▸ hpages, fun _ => h.2.1.symm⟩
  · simp only [pure, Except.pure, Except.ok.injEq, Prod.mk.injEq] at h
    exact ⟨h.2.1 ▸ hpages, fun _ => h.2.1.symm⟩
  · obtain ⟨pages₁, hspec, h₁, -⟩ := discardFromBrd_spec hpages bio.biSector bio.biSize
    rw [hspec] at h
    simp only [bind, Except.bind, pure, Except.pure, Except.ok.injEq, Prod.mk.injEq] at h
    refine ⟨h.2.1 ▸ h₁, fun hw => ?_⟩
    simp [hw, hdiscard] at hguard
  · obtain ⟨h₁, hread⟩ := brdSegments_indexed hparent bio.segments hpages h
    refine ⟨h₁, fun hw => hread ?_⟩
    -- without the write flag the request is a read
    have hnowrite : hasFlag bio.biRw reqWrite = false := by
      by_contra hwrite
      simp [hw, hwrite] at hguard
    exact Bio.isRead_of_not_write hnowrite

/-- The event opens the frozen disk `p` to writes again, or wipes it. -/
def Event.Thaws (p : ℕ) (e : Event) : Prop := e = .ioctl p .unsnapshot ∨ e = .ioctl p .wipe

structure Served (e : Event) (brd brd' : BrdDevice) : Prop where
  parentBrd : brd'.parentBrd = brd.parentBrd
  isSnapshot : brd'.isSnapshot = brd.isSnapshot
  indexed : Indexed brd'.brdPages
  writable : brd.isSnapshot = true → brd'.isWritable = brd.isWritable
  frozen : brd.isSnapshot = false → brd.isWritable = false → ¬ e.Thaws e.dev →
    brd'.isWritable = false ∧ brd'.brdPages = brd.brdPages

theorem brdIoctl_served {dev : ℕ} {cmd : Cmd} {brd brd' : BrdDevice} {err : Int}
    (hpages : Indexed brd.brdPages) (h : brdIoctl brd cmd = .ok (err, brd')) :
    Served (.ioctl dev cmd) brd brd' := by
  have hsame : Served (.ioctl dev cmd) brd brd :=
    ⟨rfl, rfl, hpages, fun _ => rfl, fun _ hw _ => ⟨hw, rfl⟩⟩
  cases cmd with
  | snapshot =>
    simp only [brdIoctl, pure, Except.pure] at h
    split_ifs at h with hsnap
    · simp only [Except.ok.injEq, Prod.mk.injEq] at h
      exact h.2 ▸ hsame
    · simp only [Except.ok.injEq, Prod.mk.injEq] at h
      rw [← h.2]
      exact ⟨rfl, rfl, hpages, fun hs => absurd hs hsnap, fun _ _ _ => ⟨rfl, rfl⟩⟩
  | unsnapshot =>
    simp only [brdIoctl, pure, Except.pure] at h
    split_ifs at h with hsnap
    · simp only [Except.ok.injEq, Prod.mk.injEq] at h
      exact h.2 ▸ hsame
    · simp only [Except.ok.injEq, Prod.mk.injEq] at h
      rw [← h.2]
      exact ⟨rfl, rfl, hpages, fun hs => absurd hs hsnap, fun _ _ ht => absurd (.inl rfl) ht⟩
  | restoreSnapshot =>
    simp only [brdIoctl, brdFreePages_spec hpages, pure, Except.pure, bind, Except.bind] at h
    split_ifs at h with hsnap
    · simp only [Except.ok.injEq, Prod.mk.injEq] at h
      exact h.2 ▸ hsame
    · simp only [Except.ok.injEq, Prod.mk.injEq] at h
      rw [← h.2]
      exact ⟨rfl, rfl, indexed_empty, fun _ => rfl, fun hs => absurd (by simp [hs]) hsnap⟩
  | wipe =>
    simp only [brdIoctl, brdFreePages_spec hpages, pure, Except.pure, bind, Except.bind] at h
    split_ifs at h with hsnap
    · simp only [Except.ok.injEq, Prod.mk.injEq] at h
      exact h.2 ▸ hsame
    · simp only [Except.ok.injEq, Prod.mk.injEq] at h
      rw [← h.2]
      exact ⟨rfl, rfl, indexed_empty, fun hs => absurd hs hsnap, fun _ _ ht => absurd (.inr rfl) ht⟩
  | other =>
    simp only [brdIoctl, pure, Except.pure, Except.ok.injEq, Prod.mk.injEq] at h
    exact h.2 ▸ hsame

theorem serve_served {s : System} {e : Event} {brd brd' : BrdDevice}
    (hpages : Indexed brd.brdPages) (hparent : ∀ p ∈ s.parentPages brd, Indexed p)
    (h : serve s brd e = .ok brd') : Served e brd brd' := by
  cases e with
  | bio dev bio env =>
    obtain ⟨⟨err, pages, out⟩, hreq, h⟩ := Transition.bind_eq_ok.mp h
    simp only [pure, Except.pure, Except.ok.injEq] at h
    obtain ⟨hindexed, hkeep⟩ := brdMakeRequest_spec hpages hparent hreq
    rw [← h]
    exact ⟨rfl, rfl, hindexed, fun _ => rfl, fun _ hw _ => ⟨hw, hkeep hw⟩⟩
  | ioctl dev cmd =>
    obtain ⟨⟨err, brd₁⟩, hioctl, h⟩ := Transition.bind_eq_ok.mp h
    simp only [pure, Except.pure, Except.ok.injEq] at h
    exact h ▸ brdIoctl_served hpages hioctl

/-- All that a step can do. -/
theorem step_cases {s s' : System} {e : Event} (h : Step s e s') :
    (s.devices[e.dev]? = none ∧ s' = s) ∨
    ∃ brd brd', s.devices[e.dev]? = some brd ∧ serve s brd e = .ok brd' ∧
      s' = { s with devices := s.devices.set e.dev brd' } := by
  unfold Step step at h
  cases hbrd : s.devices[e.dev]? with
  | none =>
    simp only [hbrd, pure, Except.pure, Except.ok.injEq] at h
    exact .inl ⟨rfl, h.symm⟩
  | some brd =>
    simp only [hbrd] at h
    obtain ⟨brd', hserve, h⟩ := Transition.bind_eq_ok.mp h
    simp only [pure, Except.pure, Except.ok.injEq] at h
    exact .inr ⟨brd, brd', rfl, hserve, h.symm⟩

/-- The pages know their index; disks have no parent, and snapshots have a disk for
parent and are open to writes. -/
structure WellFormed (s : System) : Prop where
  indexed : ∀ (d : ℕ) (brd : BrdDevice), s.devices[d]? = some brd → Indexed brd.brdPages
  disk : ∀ (d : ℕ) (brd : BrdDevice), s.devices[d]? = some brd → brd.isSnapshot = false →
    brd.parentBrd = none
  snapshot : ∀ (d : ℕ) (brd : BrdDevice), s.devices[d]? = some brd → brd.isSnapshot = true →
    brd.isWritable = true ∧ ∃ (p : ℕ) (base : BrdDevice), brd.parentBrd = some p ∧
      s.devices[p]? = some base ∧ base.isSnapshot = false

theorem WellFormed.parent_indexed {s : System} (h : WellFormed s) (brd : BrdDevice) :
    ∀ p ∈ s.parentPages brd, Indexed p := by
  intro pages hpages
  obtain ⟨p, -, hp⟩ := Option.bind_eq_some_iff.mp hpages
  obtain ⟨base, hbase, rfl⟩ := Option.map_eq_some_iff.mp hp
  exact h.indexed p base hbase

/-- No device is its own parent. -/
theorem WellFormed.parent_ne {s : System} (h : WellFormed s) {d p : ℕ} {brd : BrdDevice}
    (hd : s.devices[d]? = some brd) (hp : brd.parentBrd = some p) : p ≠ d := by
  rintro rfl
  cases hsnap : brd.isSnapshot with
  | false => simp [h.disk p brd hd hsnap] at hp
  | true =>
    obtain ⟨-, q, base, hq, hbase, hdisk⟩ := h.snapshot p brd hd hsnap
    rw [hp, Option.some.injEq] at hq
    subst hq
    rw [hd, Option.some.injEq] at hbase
    rw [hbase, hdisk] at hsnap
    cases hsnap

/-- A device with a parent is a snapshot. -/
theorem WellFormed.isSnapshot_of_parent {s : System} (h : WellFormed s) {d p : ℕ}
    {brd : BrdDevice} (hd : s.devices[d]? = some brd) (hp : brd.parentBrd = some p) :
    brd.isSnapshot = true := by
  cases hsnap : brd.isSnapshot with
  | true => rfl
  | false => simp [h.disk d brd hd hsnap] at hp

theorem content_of_getElem {s : System} {d : ℕ} {brd : BrdDevice} (hd : s.devices[d]? = some brd) :
    s.content d = CowBrd.content (s.parentPages brd) brd.brdPages := by
  rw [System.content, hd, Option.elim_some]

/-- A device with new pages still has the parent's pages behind them. -/
theorem WellFormed.content_set {s : System} (h : WellFormed s) {d : ℕ} {brd : BrdDevice}
    (hd : s.devices[d]? = some brd) (pages : PageTree) :
    System.content { s with devices := s.devices.set d { brd with brdPages := pages } } d =
      CowBrd.content (s.parentPages brd) pages := by
  have hlt := (List.getElem?_eq_some_iff.mp hd).1
  rw [content_of_getElem (List.getElem?_set_self hlt)]
  refine congrArg (CowBrd.content · pages) ?_
  unfold System.parentPages
  cases hp : brd.parentBrd with
  | none => rfl
  | some p =>
    simp only [Option.bind_some]
    rw [List.getElem?_set_ne (h.parent_ne hd hp).symm]

theorem WellFormed.served {s : System} {e : Event} {brd brd' : BrdDevice} (h : WellFormed s)
    (hbrd : s.devices[e.dev]? = some brd) (hserve : serve s brd e = .ok brd') :
    Served e brd brd' := serve_served (h.indexed _ _ hbrd) (h.parent_indexed brd) hserve

/-- A step leaves each device either as it was or served. -/
theorem WellFormed.step_device {s s' : System} {e : Event} (h : WellFormed s) (hs : Step s e s')
    (d : ℕ) : s'.devices[d]? = s.devices[d]? ∨
      d = e.dev ∧ ∃ brd brd', s.devices[d]? = some brd ∧ s'.devices[d]? = some brd' ∧
        Served e brd brd' := by
  rcases step_cases hs with ⟨-, rfl⟩ | ⟨brd, brd', hbrd, hserve, rfl⟩
  · exact .inl rfl
  · obtain rfl | hne := eq_or_ne d e.dev
    · have hlt := (List.getElem?_eq_some_iff.mp hbrd).1
      exact .inr ⟨rfl, brd, brd', hbrd, List.getElem?_set_self hlt, h.served hbrd hserve⟩
    · exact .inl (List.getElem?_set_ne hne.symm)

theorem WellFormed.step {s s' : System} {e : Event} (h : WellFormed s) (hs : Step s e s') :
    WellFormed s' where
  indexed d brd hbrd := by
    rcases h.step_device hs d with hd | ⟨-, old, new, -, hnew, hserved⟩
    · exact h.indexed d brd (hd ▸ hbrd)
    · rw [hnew, Option.some.injEq] at hbrd
      exact hbrd ▸ hserved.indexed
  disk d brd hbrd hsnap := by
    rcases h.step_device hs d with hd | ⟨-, old, new, hold, hnew, hserved⟩
    · exact h.disk d brd (hd ▸ hbrd) hsnap
    · rw [hnew, Option.some.injEq] at hbrd
      subst hbrd
      rw [hserved.parentBrd]
      exact h.disk d old hold (hserved.isSnapshot ▸ hsnap)
  snapshot d brd hbrd hsnap := by
    have hbase {p : ℕ} {base : BrdDevice} (hp : s.devices[p]? = some base)
        (hb : base.isSnapshot = false) :
        ∃ base', s'.devices[p]? = some base' ∧ base'.isSnapshot = false := by
      rcases h.step_device hs p with hd | ⟨-, old, new, hold, hnew, hserved⟩
      · exact ⟨base, hd ▸ hp, hb⟩
      · rw [hold, Option.some.injEq] at hp
        exact ⟨new, hnew, hserved.isSnapshot.trans (hp ▸ hb)⟩
    rcases h.step_device hs d with hd | ⟨-, old, new, hold, hnew, hserved⟩
    · obtain ⟨hw, p, base, hparent, hp, hb⟩ := h.snapshot d brd (hd ▸ hbrd) hsnap
      obtain ⟨base', hp', hb'⟩ := hbase hp hb
      exact ⟨hw, p, base', hparent, hp', hb'⟩
    · rw [hnew, Option.some.injEq] at hbrd
      subst hbrd
      have hsnap' := hserved.isSnapshot ▸ hsnap
      obtain ⟨hw, p, base, hparent, hp, hb⟩ := h.snapshot d old hold hsnap'
      obtain ⟨base', hp', hb'⟩ := hbase hp hb
      exact ⟨(hserved.writable hsnap').trans hw, p, base', hserved.parentBrd.trans hparent, hp', hb'⟩

def initDevice (numDisks i : ℕ) : BrdDevice :=
  { brdAlloc numDisks i with parentBrd := if numDisks ≤ i then some (i % numDisks) else none }

theorem brdInitLoop_eq {numDisks : ℕ} (hpos : 0 < numDisks) (left i : ℕ) :
    brdInitLoop numDisks left i ((List.range i).map (initDevice numDisks)) =
      (List.range (i + left)).map (initDevice numDisks) := by
  induction left generalizing i with
  | zero => rfl
  | succ left ih =>
    rw [brdInitLoop]
    have hfind (h : numDisks ≤ i) :
        ((List.range i).map (initDevice numDisks) ++ [brdAlloc numDisks i]).findIdx?
          (fun d => d.brdNumber == i % numDisks) = some (i % numDisks) := by
      have hmod : i % numDisks < i := (Nat.mod_lt i hpos).trans_le h
      rw [List.findIdx?_eq_some_iff_getElem]
      refine ⟨by simp; omega, ?_, fun j hj => ?_⟩
      · rw [List.getElem_append_left (by simpa using hmod)]
        simp [initDevice, brdAlloc]
      · rw [List.getElem_append_left (by simpa using hj.trans hmod)]
        simp [initDevice, brdAlloc, hj.ne]
    have hparent : (if numDisks ≤ i then
        ((List.range i).map (initDevice numDisks) ++ [brdAlloc numDisks i]).findIdx?
          (fun d => d.brdNumber == i % numDisks) else none) =
        if numDisks ≤ i then some (i % numDisks) else none := by
      split_ifs with h
      · exact hfind h
      · rfl
    simp only [hparent]
    change brdInitLoop numDisks left (i + 1) (_ ++ [initDevice numDisks i]) = _
    have hsnoc : (List.range i).map (initDevice numDisks) ++ [initDevice numDisks i] =
        (List.range (i + 1)).map (initDevice numDisks) := by
      rw [List.range_succ, List.map_append, List.map_singleton]
    rw [hsnoc, ih]
    congr 2
    omega

theorem brdInit_devices (numDisks numSnapshots diskSize : ℕ) :
    (brdInit numDisks numSnapshots diskSize).devices =
      (List.range (numDisks * (1 + numSnapshots))).map (initDevice numDisks) := by
  rcases Nat.eq_zero_or_pos numDisks with rfl | hpos
  · simp [brdInit, brdInitLoop]
  · simpa [brdInit] using brdInitLoop_eq hpos (numDisks * (1 + numSnapshots)) 0

theorem wellFormed_brdInit (numDisks numSnapshots diskSize : ℕ) :
    WellFormed (brdInit numDisks numSnapshots diskSize) := by
  have hdevice {d : ℕ} {brd : BrdDevice}
      (h : (brdInit numDisks numSnapshots diskSize).devices[d]? = some brd) :
      d < numDisks * (1 + numSnapshots) ∧ brd = initDevice numDisks d := by
    rw [brdInit_devices, List.getElem?_map, Option.map_eq_some_iff] at h
    obtain ⟨i, hi, rfl⟩ := h
    obtain ⟨hlt, rfl⟩ := List.getElem?_eq_some_iff.mp hi
    simpa using hlt
  constructor
  · intro d brd h
    rw [(hdevice h).2]
    exact indexed_empty
  · intro d brd h hsnap
    rw [(hdevice h).2] at hsnap ⊢
    exact if_neg (of_decide_eq_false hsnap)
  · intro d brd h hsnap
    obtain ⟨hlt, rfl⟩ := hdevice h
    have hle : numDisks ≤ d := of_decide_eq_true hsnap
    have hpos : 0 < numDisks := Nat.pos_of_mul_pos_right (Nat.zero_lt_of_lt hlt)
    have hmod := Nat.mod_lt d hpos
    refine ⟨rfl, d % numDisks, initDevice numDisks (d % numDisks), if_pos hle, ?_,
      decide_eq_false (by omega)⟩
    rw [brdInit_devices, List.getElem?_map, List.getElem?_range (by omega)]
    rfl

theorem Reachable.wellFormed {s : System} (h : Reachable s) : WellFormed s := by
  obtain ⟨numDisks, numSnapshots, diskSize, es, -, hrun⟩ := h
  exact hrun.invariant (C := fun _ => True) (fun _ _ _ hw _ hs => hw.step hs) (by simp)
    (wellFormed_brdInit numDisks numSnapshots diskSize)

theorem step_capacity {s s' : System} {e : Event} (h : Step s e s') : s'.capacity = s.capacity := by
  rcases step_cases h with ⟨-, rfl⟩ | ⟨brd, brd', -, -, rfl⟩ <;> rfl

theorem Reachable.capacity_lt {s : System} (h : Reachable s) : s.capacity < 2 ^ 31 := by
  obtain ⟨numDisks, numSnapshots, diskSize, es, hsize, hrun⟩ := h
  exact hrun.invariant (I := fun s => s.capacity < 2 ^ 31) (C := fun _ => True)
    (fun _ _ _ hs _ hstep => (step_capacity hstep).trans_lt hs) (by simp) hsize

end CrashMonkey.CowBrd
