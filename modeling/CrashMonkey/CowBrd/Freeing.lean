import CrashMonkey.CowBrd.Invariants

namespace CrashMonkey.CowBrd

def freeEach : List Page → ℕ → PageTree → Except Fault (ℕ × PageTree × List Page)
  | [], pos, pages => .ok (pos, pages, [])
  | page :: batch, pos, pages =>
    if page.index < pos then .error .bugOn
    else if pages.lookup page.index = some page then do
      let (pos, pages, freed) ← freeEach batch page.index (pages.erase page.index)
      return (pos, pages, page :: freed)
    else .error .bugOn

theorem freeEach_eq (batch : List Page) (pos : ℕ) (pages : PageTree) :
    freeEach batch pos pages =
      (freePages batch pos pages).map fun r => (r.1, r.2, batch) := by
  induction batch generalizing pos pages with
  | nil => rfl
  | cons page batch ih =>
    rw [freeEach, freePages, ih]
    split_ifs with hpos hpage
    · rfl
    · cases freePages batch page.index (pages.erase page.index) <;> rfl
    · rfl

theorem freeEach_ok {batch freed : List Page} {pos pos' : ℕ} {pages pages' : PageTree} :
    freeEach batch pos pages = .ok (pos', pages', freed) ↔
      freePages batch pos pages = .ok (pos', pages') ∧ batch = freed := by
  rw [freeEach_eq]
  cases freePages batch pos pages with
  | error fault => simp [Except.map]
  | ok r => simp [Except.map, Prod.ext_iff, and_assoc]

/-- The loop of `brd_free_pages` together with the pages freed; `pos++` wraps. -/
def brdFreeEachFrom (pages : PageTree) (pos : ℕ) : Except Fault (PageTree × List Page) :=
  match _h : freeEach (radixTreeGangLookup pages pos freeBatch) pos pages with
  | .error fault => .error fault
  | .ok (pos', pages', freed) =>
    if _hfull : (radixTreeGangLookup pages pos freeBatch).length = freeBatch then do
      let (pages, rest) ← brdFreeEachFrom pages' ((pos' + 1) % 2 ^ 64)
      return (pages, freed ++ rest)
    else .ok (pages', freed)
termination_by pages.keys.card
decreasing_by
  have hcard := freePages_card (freeEach_ok.mp _h).1
  have : freeBatch = 16 := rfl
  omega

def brdFreeEach (pages : PageTree) : Except Fault (PageTree × List Page) := brdFreeEachFrom pages 0

/-- Each page of the tree is in the list once, and nothing else is. -/
def EachOnce (pages : PageTree) (freed : List Page) : Prop :=
  freed.Nodup ∧ ∀ p, p ∈ freed ↔ pages.lookup p.index = some p

theorem eachOnce_empty : EachOnce ∅ [] := ⟨List.nodup_nil, fun p => by simp⟩

/-- The pages of a batch are all those that the tree has lost. -/
theorem BatchFreed.mem_iff {pages pages' : PageTree} {batch : List Page} {pos' : ℕ}
    (h : BatchFreed pages batch pos' pages') (p : Page) :
    pages.lookup p.index = some p ↔ p ∈ batch ∨ pages'.lookup p.index = some p := by
  rw [h.lookup_eq]
  split_ifs with hmem
  · obtain ⟨q, hq, hqp⟩ := List.mem_map.mp hmem
    have hlookup := h.found q hq
    rw [hqp] at hlookup
    refine ⟨fun hp => Or.inl ?_, fun hp => hp.elim (h.found p) nofun⟩
    rw [hlookup, Option.some.injEq] at hp
    exact hp ▸ hq
  · have hnot : p ∉ batch := fun hp => hmem (List.mem_map_of_mem hp)
    simp [hnot]

theorem BatchFreed.eachOnce {pages pages' : PageTree} {batch rest : List Page} {pos' : ℕ}
    (h : BatchFreed pages batch pos' pages') (hrest : EachOnce pages' rest) :
    EachOnce pages (batch ++ rest) := by
  have hindex : (batch.map Page.index).Nodup := h.sorted.imp ne_of_lt
  have hnodup : batch.Nodup := hindex.of_map
  refine ⟨List.nodup_append'.mpr ⟨hnodup, hrest.1, ?_⟩, fun p => ?_⟩
  · intro p hp hp'
    exact (h.lookup_some ((hrest.2 p).mp hp')).1 (List.mem_map_of_mem hp)
  · rw [List.mem_append, hrest.2, h.mem_iff]

theorem brdFreeEachFrom_spec {pages : PageTree} (hpages : Indexed pages) {pos : ℕ}
    (hpos : ∀ k ∈ pages, pos ≤ k) :
    ∃ freed, brdFreeEachFrom pages pos = .ok (∅, freed) ∧ EachOnce pages freed := by
  induction hcard : pages.keys.card using Nat.strong_induction_on generalizing pages pos with
  | _ card ih =>
    obtain ⟨pos', pages', hfree, hbatch⟩ := freeBatch_spec hpages hpos
    have heach := freeEach_ok.mpr ⟨hfree, rfl⟩
    rw [brdFreeEachFrom, heach]
    dsimp only
    split_ifs with hfull
    · have hcard' := freePages_card hfree
      have hsize : freeBatch = 16 := rfl
      -- also a `pos` that wraps leaves no page behind
      have hpos' (k : ℕ) (hk : k ∈ pages') : (pos' + 1) % 2 ^ 64 ≤ k :=
        (Nat.mod_le _ _).trans (hbatch.lt_of_full hfull k hk)
      obtain ⟨rest, hrest, honce⟩ := ih _ (by omega) (hbatch.indexed hpages) hpos' rfl
      rw [hrest]
      exact ⟨_, rfl, hbatch.eachOnce honce⟩
    · obtain rfl := hbatch.empty_of_short hfull
      refine ⟨_, rfl, ?_⟩
      rw [← List.append_nil (radixTreeGangLookup pages pos freeBatch)]
      exact hbatch.eachOnce eachOnce_empty

/-- All pages are freed, whatever their number and the gaps between them; the loop that the
devices use leaves the same tree. -/
theorem brdFreeEach_spec {pages : PageTree} (hpages : Indexed pages) :
    ∃ freed, brdFreeEach pages = .ok (∅, freed) ∧ brdFreePages pages = .ok ∅ ∧
      EachOnce pages freed := by
  obtain ⟨freed, hfreed, honce⟩ := brdFreeEachFrom_spec hpages fun _ _ => Nat.zero_le _
  exact ⟨freed, hfreed, brdFreePages_spec hpages, honce⟩

def everyThird : ℕ → PageTree
  | 0 => ∅
  | n + 1 => (everyThird n).insert (3 * n) (.zero (3 * n))

theorem indexed_everyThird : ∀ n, Indexed (everyThird n)
  | 0 => indexed_empty
  | n + 1 => (indexed_everyThird n).insert rfl

/-- More than one batch. -/
theorem brdFreeEach_insert : ∃ freed, brdFreeEach (everyThird 20) = .ok (∅, freed) ∧
    brdFreePages (everyThird 20) = .ok ∅ ∧ EachOnce (everyThird 20) freed :=
  brdFreeEach_spec (indexed_everyThird 20)

end CrashMonkey.CowBrd
