import CrashMonkey.CowBrd.Copy

namespace CrashMonkey.CowBrd

variable {parent : Option PageTree} {pages : PageTree}

def partSource (beyond : ℕ → UInt8) (parent : Option PageTree) (pages : PageTree)
    (idx ownOff parentOff n : ℕ) : (ℕ → UInt8) × Bool :=
  let load (p : Page) (off : ℕ) : (ℕ → UInt8) × Bool :=
    (fun i => if off + i < pageSize then p.byte (off + i) else beyond (off + i),
      decide (off + n ≤ pageSize))
  match pages.lookup idx, parent.bind fun p => p.lookup idx with
  | some p, _ => load p ownOff
  | none, some q => load q parentOff
  | none, none => (fun _ => 0, true)

theorem copyPart_eq (beyond : ℕ → UInt8) (hpages : Indexed pages)
    (hparent : ∀ p ∈ parent, Indexed p) (sector ownOff parentOff n : ℕ) (dst : ℕ → UInt8)
    (pos : ℕ) : copyPart beyond parent pages sector ownOff parentOff n dst pos =
      .ok (Image.overlay dst pos n
          (partSource beyond parent pages (sector / pageSectors) ownOff parentOff n).1,
        (partSource beyond parent pages (sector / pageSectors) ownOff parentOff n).2) := by
  unfold copyPart partSource
  simp only [brdLookupPage_eq hpages, bind, Except.bind]
  cases pages.lookup (sector / pageSectors) with
  | some p => rfl
  | none =>
    cases parent with
    | none => rfl
    | some parent =>
      simp only [brdLookupPage_eq (hparent parent rfl), Option.bind_some]
      cases parent.lookup (sector / pageSectors) <;> rfl

/-- From one place in both pages, a part that stays inside gets the bytes that count. -/
theorem partSource_same (beyond : ℕ → UInt8) (parent : Option PageTree) (pages : PageTree)
    (idx : ℕ) {off n : ℕ} (h : off + n ≤ pageSize) :
    (partSource beyond parent pages idx off off n).2 = true ∧
      ∀ i, i < n → (partSource beyond parent pages idx off off n).1 i =
        pageByte parent pages idx (off + i) := by
  have hlt {i : ℕ} (hi : i < n) : off + i < pageSize := by omega
  unfold partSource pageByte
  cases pages.lookup idx with
  | some p => exact ⟨decide_eq_true h, fun i hi => if_pos (hlt hi)⟩
  | none =>
    cases parent.bind fun p => p.lookup idx with
    | some q => exact ⟨decide_eq_true h, fun i hi => if_pos (hlt hi)⟩
    | none => exact ⟨rfl, fun i hi => rfl⟩

/-- If the second page is the parent's, reading it `pageOffset` too far makes no
difference and stays in the page. -/
def SecondAligned (parent : Option PageTree) (pages : PageTree) (sector n : ℕ) : Prop :=
  Straddles sector n → pages.lookup (sector / pageSectors + 1) = none →
    ∀ q, (parent.bind fun t => t.lookup (sector / pageSectors + 1)) = some q →
      pageOffset sector + (pageOffset sector + n - pageSize) ≤ pageSize ∧
      ∀ i, i < pageOffset sector + n - pageSize → q.byte (pageOffset sector + i) = q.byte i

theorem partSource_second (beyond : ℕ → UInt8) (parent : Option PageTree) (pages : PageTree)
    {sector n m : ℕ} (hs : Straddles sector n) (hm : m = pageOffset sector + n - pageSize)
    (hle : m ≤ pageSize) :
    ((partSource beyond parent pages (sector / pageSectors + 1) 0 (pageOffset sector) m).2 = true ∧
      ∀ i, i < m → (partSource beyond parent pages (sector / pageSectors + 1) 0
          (pageOffset sector) m).1 i = pageByte parent pages (sector / pageSectors + 1) i) ↔
      SecondAligned parent pages sector n := by
  unfold SecondAligned partSource pageByte
  rw [← hm]
  cases hp : pages.lookup (sector / pageSectors + 1) with
  | some p =>
    refine iff_of_true ⟨by simpa using hle, fun i hi => ?_⟩ fun _ h => by simp at h
    simp only [Nat.zero_add]
    exact if_pos (by omega)
  | none =>
    cases hq : parent.bind fun p => p.lookup (sector / pageSectors + 1) with
    | none => exact iff_of_true ⟨rfl, fun _ _ => rfl⟩ fun _ _ q h => by simp at h
    | some q =>
      simp only [decide_eq_true_eq, Option.none_or, Option.elim_some, Option.some.injEq, forall_eq',
        hs, forall_const]
      refine and_congr_right fun hin => forall_congr' fun i => forall_congr' fun hi => ?_
      rw [if_pos (by omega)]

/-- The read law, and exactly when it holds. -/
theorem copyFromBrd_iff (beyond dst : ℕ → UInt8) (hpages : Indexed pages)
    (hparent : ∀ p ∈ parent, Indexed p) (sector : ℕ) {n : ℕ} (hn : n ≤ pageSize) :
    copyFromBrd beyond dst parent pages sector n = .ok (Image.overlay dst 0 n
        (fun i => content parent pages (sector * 2 ^ sectorShift + i)), true) ↔
      SecondAligned parent pages sector n := by
  have hoff := pageOffset_lt sector
  have hstart := start_eq sector
  have hcontent {k i : ℕ} (hi : i < pageSize) := content_page parent pages k hi
  obtain ⟨hin₁, hfirst⟩ := partSource_same beyond parent pages (sector / pageSectors)
    (show pageOffset sector + min n (pageSize - pageOffset sector) ≤ pageSize by omega)
  unfold copyFromBrd
  simp only [copyPart_eq beyond hpages hparent, bind, Except.bind, copy_lt_iff, hin₁,
    Bool.true_and]
  by_cases hs : Straddles sector n
  · have hlt : pageSize < pageOffset sector + n := hs
    have hmin : min n (pageSize - pageOffset sector) = pageSize - pageOffset sector := by omega
    have hsecond := partSource_second beyond parent pages hs
      (show n - (pageSize - pageOffset sector) = pageOffset sector + n - pageSize by omega)
      (by omega)
    have hidx := second_sector hs
    rw [hmin] at hfirst hidx ⊢
    rw [hidx]
    -- both parts as one write of the bytes that should be read
    have hjoin : Image.overlay dst 0 n
        (fun i => content parent pages (sector * 2 ^ sectorShift + i)) =
        Image.overlay (Image.overlay dst 0 (pageSize - pageOffset sector)
          (partSource beyond parent pages (sector / pageSectors) (pageOffset sector)
            (pageOffset sector) (pageSize - pageOffset sector)).1)
          (pageSize - pageOffset sector) (n - (pageSize - pageOffset sector))
          (fun i => pageByte parent pages (sector / pageSectors + 1) i) := by
      have hnext := Nat.add_one_mul (sector / pageSectors) pageSize
      have hwhole := Image.overlay_overlay dst 0 (pageSize - pageOffset sector)
        (n - (pageSize - pageOffset sector))
        (fun i => content parent pages (sector * 2 ^ sectorShift + i))
      rw [Nat.zero_add, show pageSize - pageOffset sector + (n - (pageSize - pageOffset sector)) = n
        by omega] at hwhole
      have hpart : Image.overlay dst 0 (pageSize - pageOffset sector)
          (fun i => content parent pages (sector * 2 ^ sectorShift + i)) =
          Image.overlay dst 0 (pageSize - pageOffset sector) (partSource beyond parent pages
            (sector / pageSectors) (pageOffset sector) (pageOffset sector)
            (pageSize - pageOffset sector)).1 := by
        apply Image.overlay_inj.mpr
        intro i hi
        rw [hfirst i hi, hstart, Nat.add_assoc, hcontent (by omega)]
      rw [← hwhole, hpart]
      apply Image.overlay_inj.mpr
      intro i hi
      rw [← hcontent (show i < pageSize by omega), hnext, hstart]
      exact congrArg (content parent pages) (by omega)
    simp only [hs, if_true, pure, Except.pure, Except.ok.injEq, Prod.mk.injEq]
    rw [hjoin, Image.overlay_inj, ← hsecond, and_comm]
  · have hmin : min n (pageSize - pageOffset sector) = n := by
      have : ¬ pageSize < pageOffset sector + n := hs
      omega
    rw [hmin] at hfirst ⊢
    simp only [hs, if_false, pure, Except.pure, Except.ok.injEq, Prod.mk.injEq, and_true]
    refine iff_of_true (Image.overlay_inj.mpr fun i hi => ?_) fun h => absurd h hs
    have : ¬ pageSize < pageOffset sector + n := hs
    rw [hfirst i hi, hstart, Nat.add_assoc, hcontent (by omega)]

end CrashMonkey.CowBrd
