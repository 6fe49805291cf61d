import CrashMonkey.CowBrd.Laws

namespace CrashMonkey.CowBrd

def WholePage (sector n k : ℕ) : Prop :=
  sector * 2 ^ sectorShift ≤ k * pageSize ∧ (k + 1) * pageSize ≤ sector * 2 ^ sectorShift + n

/-- A discard does not stop the kernel. The whole pages of its range read as zeros
afterwards, and all bytes outside of the range as before. -/
def DiscardLaw (s : System) (d : ℕ) (bio : Bio) : Prop :=
  ∀ env, ∃ s', Step s (.bio d bio env) s' ∧
    (∀ k, WholePage bio.biSector bio.biSize k →
      ∀ i < pageSize, s'.content d (k * pageSize + i) = 0) ∧
    ∀ b, b < bio.biSector * 2 ^ sectorShift ∨ bio.biSector * 2 ^ sectorShift + bio.biSize ≤ b →
      s'.content d b = s.content d b

/-- What the pages must be for a discard to do what it is for: there is nothing to lose in
front of the range, and nothing to clear in the whole pages that the loop leaves alone,
those that only the parent has and the one behind the last turn. -/
structure DiscardFits (parent : Option PageTree) (pages : PageTree) (sector n : ℕ) : Prop where
  head : pageSize ≤ n → ∀ p, pages.lookup (sector / pageSectors) = some p →
    ∀ i < pageOffset sector, p.byte i = 0
  inherited : ∀ k, WholePage sector n k → pages.lookup k = none →
    ∀ i < pageSize, pageByte parent pages k i = 0
  last : WholePage sector n (sector / pageSectors + n / pageSize) →
    ∀ i < pageSize, pageByte parent pages (sector / pageSectors + n / pageSize) i = 0

def discardBio (sector n : ℕ) : Bio := ⟨0, reqWrite ||| reqDiscard, sector, n, []⟩

/-- What a discard makes of the bytes of page `k`. -/
theorem pageByte_discard {parent : Option PageTree} {pages pages' : PageTree} {k : ℕ}
    {c : Prop} [Decidable c] (h : pages'.lookup k =
      if c then (pages.lookup k).map fun p => .zero p.index else pages.lookup k) (i : ℕ) :
    pageByte parent pages' k i =
      if c ∧ pages.lookup k ≠ none then 0 else pageByte parent pages k i := by
  by_cases hc : c
  · rw [if_pos hc] at h
    cases hp : pages.lookup k with
    | none =>
      rw [if_neg (by simp)]
      exact pageByte_congr (h.trans (by rw [hp]; rfl)) parent i
    | some p =>
      rw [if_pos (by simp [hc]), pageByte_of_lookup (h.trans (congrArg _ hp)), Page.zero_byte]
  · rw [if_neg hc] at h
    rw [if_neg (by simp [hc])]
    exact pageByte_congr h parent i

def Discarded (sector n k : ℕ) : Prop :=
  sector / pageSectors ≤ k ∧ k < sector / pageSectors + n / pageSize

instance (sector n k : ℕ) : Decidable (Discarded sector n k) :=
  inferInstanceAs (Decidable (_ ∧ _))

/-- From a start inside of a page the range may reach over one more whole page than the
loop has turns. -/
theorem WholePage.discarded_or {sector n k : ℕ} (h : WholePage sector n k) :
    Discarded sector n k ∨ k = sector / pageSectors + n / pageSize := by
  unfold WholePage at h
  simp only [Discarded, pageSectors, sectorShift, pageSize] at *
  omega

/-- Outside of the range the loop clears bytes only in front of it. -/
theorem Discarded.head {sector n b : ℕ} (h : Discarded sector n (b / pageSize))
    (hb : b < sector * 2 ^ sectorShift ∨ sector * 2 ^ sectorShift + n ≤ b) :
    pageSize ≤ n ∧ b / pageSize = sector / pageSectors ∧ b % pageSize < pageOffset sector := by
  unfold Discarded at h
  simp only [pageOffset, pageSectors, sectorShift, pageSize] at *
  omega

/-- What the law asks of the content `new` after a discard. -/
theorem discardFits_iff {parent : Option PageTree} {pages : PageTree} {sector n : ℕ}
    {new : ℕ → UInt8} (hnew : ∀ b, new b =
      if Discarded sector n (b / pageSize) ∧ pages.lookup (b / pageSize) ≠ none then 0
      else content parent pages b) :
    ((∀ k, WholePage sector n k → ∀ i < pageSize, new (k * pageSize + i) = 0) ∧
      ∀ b, b < sector * 2 ^ sectorShift ∨ sector * 2 ^ sectorShift + n ≤ b →
        new b = content parent pages b) ↔ DiscardFits parent pages sector n := by
  have hpage (k i : ℕ) (hi : i < pageSize) : new (k * pageSize + i) =
      if Discarded sector n k ∧ pages.lookup k ≠ none then 0 else pageByte parent pages k i := by
    have hk : (k * pageSize + i) / pageSize = k := by
      rw [Nat.add_comm, Nat.add_mul_div_right _ _ (by decide), Nat.div_eq_of_lt hi, Nat.zero_add]
    rw [hnew, hk, content_page parent pages k hi]
  constructor
  · intro ⟨hwhole, hout⟩
    refine ⟨fun hn p hp i hi => ?_, fun k hk hnone i hi => ?_, fun hk i hi => ?_⟩
    · have hlt := hi.trans (pageOffset_lt sector)
      have hturn : Discarded sector n (sector / pageSectors) :=
        ⟨le_rfl, Nat.lt_add_of_pos_right (Nat.div_pos hn (by decide))⟩
      have hkept := hout (sector / pageSectors * pageSize + i) (.inl (by rw [start_eq]; omega))
      rw [hpage _ i hlt, if_pos ⟨hturn, by simp [hp]⟩, content_page parent pages _ hlt,
        pageByte_of_lookup hp] at hkept
      exact hkept.symm
    · rw [← hwhole k hk i hi, hpage k i hi, if_neg fun h => h.2 hnone]
    · have hturn : ¬ Discarded sector n (sector / pageSectors + n / pageSize) :=
        fun h => lt_irrefl _ h.2
      rw [← hwhole _ hk i hi, hpage _ i hi, if_neg fun h => hturn h.1]
  · intro ⟨hhead, hinherited, hlast⟩
    refine ⟨fun k hk i hi => ?_, fun b hb => ?_⟩
    · rw [hpage k i hi]
      split_ifs with hturn
      · rfl
      · rcases hk.discarded_or with h | rfl
        · exact hinherited k hk (not_not.mp fun hne => hturn ⟨h, hne⟩) i hi
        · exact hlast hk i hi
    · rw [hnew]
      split_ifs with hturn
      · obtain ⟨hn, hk, hi⟩ := hturn.1.head hb
        obtain ⟨p, hp⟩ := Option.ne_none_iff_exists'.mp hturn.2
        rw [content, pageByte_of_lookup hp, hhead hn p (hk ▸ hp) _ hi]
      · rfl

theorem step_discard {s : System} (hs : WellFormed s) {d : ℕ} {brd : BrdDevice} {bio : Bio}
    (hd : s.devices[d]? = some brd) (hw : brd.isWritable = true)
    (hdiscard : hasFlag bio.biRw reqDiscard = true) (hend : bio.endSector ≤ s.capacity) (env : Env) :
    ∃ s', Step s (.bio d bio env) s' ∧ ∀ b, s'.content d b =
      if Discarded bio.biSector bio.biSize (b / pageSize) ∧ brd.brdPages.lookup (b / pageSize) ≠ none
      then 0 else CowBrd.content (s.parentPages brd) brd.brdPages b := by
  obtain ⟨pages', hspec, -, hlookup⟩ :=
    discardFromBrd_spec (hs.indexed d brd hd) bio.biSector bio.biSize
  refine ⟨{ s with devices := s.devices.set d { brd with brdPages := pages' } }, ?_, fun b => ?_⟩
  · unfold Step step
    simp [Event.dev, hd, serve, brdMakeRequest, not_lt.mpr hend, hw, hdiscard, hspec, bind,
      Except.bind, pure, Except.pure]
  · rw [hs.content_set hd]
    exact pageByte_discard (c := Discarded bio.biSector bio.biSize (b / pageSize)) (hlookup _) _

theorem discardLaw_iff {s : System} (hs : Reachable s) {d : ℕ} {brd : BrdDevice} {bio : Bio}
    (hd : s.devices[d]? = some brd) (hw : brd.isWritable = true)
    (hdiscard : hasFlag bio.biRw reqDiscard = true) (hend : bio.endSector ≤ s.capacity) :
    DiscardLaw s d bio ↔
      DiscardFits (s.parentPages brd) brd.brdPages bio.biSector bio.biSize := by
  have hold := content_of_getElem hd
  constructor
  · intro h
    obtain ⟨s', hstep, hlaw⟩ := h plenty
    obtain ⟨s'', hstep', hnew⟩ := step_discard hs.wellFormed hd hw hdiscard hend plenty
    obtain rfl : s' = s'' := Except.ok.inj (hstep.symm.trans hstep')
    rw [hold] at hlaw
    exact (discardFits_iff hnew).mp hlaw
  · intro h env
    obtain ⟨s', hstep, hnew⟩ := step_discard hs.wellFormed hd hw hdiscard hend env
    refine ⟨s', hstep, ?_⟩
    rw [hold]
    exact (discardFits_iff hnew).mpr h

/-- The page that the snapshot has of its own is discarded. -/
theorem discardLaw_brdInit : ∃ s brd, Layered s brd ∧ DiscardLaw s 1 (discardBio 0 4096) := by
  obtain ⟨s, brd, h⟩ := exists_layered
  refine ⟨s, brd, h, (discardLaw_iff h.reachable h.device h.isWritable (by decide)
    (Nat.le_trans (by decide) h.capacity)).mpr ⟨?_, ?_, ?_⟩⟩
  · intro _ p _ i hi
    exact absurd hi (Nat.not_lt_zero i)
  · intro k hk hnone
    obtain ⟨p, hp, -⟩ := h.own
    have hzero : k = 0 := by
      have hend : (k + 1) * 4096 ≤ 4096 := hk.2
      omega
    rw [hzero, hp] at hnone
    exact absurd hnone nofun
  · exact fun hk => absurd hk (by unfold WholePage; decide)

def filledEvents : List Event := [.bio 0 (fillBio 8 4096 1) plenty, .ioctl 0 .snapshot]

def readsParent (s : System) : Bool :=
  s.devices[1]?.any fun brd => brd.isWritable && decide (16 ≤ s.capacity) &&
    (brd.brdPages.lookup 1).isNone && content (s.parentPages brd) brd.brdPages 4096 == 1

theorem not_discardLaw_inherited : ¬ ∀ (s : System) (d : ℕ) (brd : BrdDevice) (bio : Bio),
    Reachable s → s.devices[d]? = some brd → brd.isWritable = true →
    hasFlag bio.biRw reqDiscard = true → bio.endSector ≤ s.capacity → DiscardLaw s d bio := by
  intro h
  obtain ⟨s, hrun, hs⟩ := Transition.exists_run_of_foldlM (f := step) (s := brdInit 1 1 8)
    filledEvents readsParent (by rfl)
  obtain ⟨brd, hbrd, hs⟩ := (Option.any_eq_true _ _).mp hs
  simp only [Bool.and_eq_true, decide_eq_true_eq, Option.isNone_iff_eq_none, beq_iff_eq] at hs
  obtain ⟨⟨⟨hw, hcap⟩, hnone⟩, hparent⟩ := hs
  have hreach : Reachable s := ⟨1, 1, 8, filledEvents, by decide, hrun⟩
  obtain ⟨s', hstep, hwhole, -⟩ := h s 1 brd (discardBio 8 4096) hreach hbrd hw (by decide)
    hcap plenty
  have hdiscard : hasFlag (discardBio 8 4096).biRw reqDiscard = true := by decide
  obtain ⟨s'', hstep', hnew⟩ := step_discard hreach.wellFormed hbrd hw hdiscard hcap plenty
  obtain rfl : s' = s'' := Except.ok.inj (hstep.symm.trans hstep')
  -- the discard of the page clears nothing
  have hkept : s'.content 1 4096 = 1 := by
    rw [hnew, if_neg fun hturn => hturn.2 hnone, hparent]
  have hzero : s'.content 1 4096 = 0 := hwhole 1 (by unfold WholePage; decide) 0 (by decide)
  exact absurd (hkept.symm.trans hzero) (by decide)

end CrashMonkey.CowBrd
