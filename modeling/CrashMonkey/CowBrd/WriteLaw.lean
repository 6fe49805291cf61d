import CrashMonkey.CowBrd.Copy

namespace CrashMonkey.CowBrd

variable {parent : Option PageTree} {pages : PageTree}

structure SetUp (parent : Option PageTree) (pages : PageTree) (sector n : ℕ) (err : Int)
    (pages' : PageTree) : Prop where
  indexed : Indexed pages'
  byte_eq : ∀ k i, pageByte parent pages' k i = pageByte parent pages k i
  lookup_some : ∀ k p, pages.lookup k = some p → pages'.lookup k = some p
  err_eq : err = 0 ∨ err = -enomem
  first : err = 0 → ∃ p, pages'.lookup (sector / pageSectors) = some p
  second : err = 0 → Straddles sector n → ∃ p, pages'.lookup (sector / pageSectors + 1) = some p

theorem Inserted.lookup_some {idx : ℕ} {page : Option Page} {pages' : PageTree}
    (h : Inserted parent pages idx page pages') (k : ℕ) (p : Page)
    (hp : pages.lookup k = some p) : pages'.lookup k = some p := by
  obtain rfl | hne := eq_or_ne k idx
  · exact h.lookup_self p hp
  · rw [h.lookup_of_ne k hne, hp]

theorem copyToBrdSetup_spec (mem : Alloc × Alloc) (hpages : Indexed pages)
    (hparent : ∀ p ∈ parent, Indexed p) (sector n : ℕ) :
    ∃ err pages', copyToBrdSetup mem parent pages sector n = .ok (err, pages') ∧
      SetUp parent pages sector n err pages' ∧
      (mem = (⟨true, true⟩, ⟨true, true⟩) → err = 0) := by
  obtain ⟨page, pages₁, hins, h₁, hmem₁⟩ := brdInsertPage_spec mem.1 hpages hparent sector
  unfold copyToBrdSetup
  simp only [hins, bind, Except.bind]
  cases page with
  | none =>
    refine ⟨_, pages₁, rfl, ⟨h₁.indexed, h₁.byte_eq, h₁.lookup_some, .inr rfl, ?_, ?_⟩, ?_⟩
    · exact fun h => absurd h (by decide)
    · exact fun h => absurd h (by decide)
    · rintro rfl
      simp at hmem₁
  | some p₁ =>
    have hfirst := h₁.found p₁ rfl
    by_cases hs : Straddles sector n
    · obtain ⟨page₂, pages₂, hins₂, h₂, hmem₂⟩ := brdInsertPage_spec mem.2 h₁.indexed hparent
        (sector + min n (pageSize - pageOffset sector) / 2 ^ sectorShift)
      rw [second_sector hs] at h₂
      have hbyte (k i : ℕ) : pageByte parent pages₂ k i = pageByte parent pages k i :=
        (h₂.byte_eq k i).trans (h₁.byte_eq k i)
      have hkeep (k : ℕ) (p : Page) (hp : pages.lookup k = some p) : pages₂.lookup k = some p :=
        h₂.lookup_some k p (h₁.lookup_some k p hp)
      simp only [Option.isNone_some, Bool.false_eq_true, if_false, copy_lt_iff, hs, if_true, hins₂]
      cases page₂ with
      | none =>
        refine ⟨_, pages₂, rfl, ⟨h₂.indexed, hbyte, hkeep, .inr rfl, ?_, ?_⟩, ?_⟩
        · exact fun h => absurd h (by decide)
        · exact fun h => absurd h (by decide)
        · rintro rfl
          simp at hmem₂
      | some p₂ =>
        exact ⟨_, pages₂, rfl, ⟨h₂.indexed, hbyte, hkeep, .inl rfl,
          fun _ => ⟨p₁, h₂.lookup_some _ _ hfirst⟩, fun _ _ => ⟨p₂, h₂.found p₂ rfl⟩⟩, fun _ => rfl⟩
    · simp only [Option.isNone_some, Bool.false_eq_true, if_false, copy_lt_iff, hs]
      exact ⟨_, pages₁, rfl, ⟨h₁.indexed, h₁.byte_eq, h₁.lookup_some, .inl rfl,
        fun _ => ⟨p₁, hfirst⟩, fun _ h => absurd h hs⟩, fun _ => rfl⟩

def parentByte (parent : Option PageTree) (pages : PageTree) (idx i : ℕ) : UInt8 :=
  (parent.bind fun p => p.lookup idx).elim (pageByte parent pages idx i) fun p => p.byte i

theorem copyParentTail_spec (hparent : ∀ p ∈ parent, Indexed p) (page : Page) (sector : ℕ)
    {copy : ℕ} (hcopy : copy ≤ pageSize) :
    ∃ page', copyParentTail parent page sector copy = .ok page' ∧ page'.index = page.index ∧
      ∀ i, copy ≤ i → page'.byte i = ((parent.bind fun p => p.lookup (sector / pageSectors)).elim
        (page.byte i) fun p => p.byte i) := by
  unfold copyParentTail
  cases parent with
  | none => exact ⟨page, rfl, rfl, fun _ _ => rfl⟩
  | some parent =>
    simp only [brdLookupPage_eq (hparent parent rfl), bind, Except.bind, Option.bind_some]
    cases hq : parent.lookup (sector / pageSectors) with
    | none => exact ⟨page, rfl, rfl, fun _ _ => rfl⟩
    | some q =>
      obtain ⟨page', heq, hidx, hbyte⟩ := Page.memcpy_eq (p := page)
        (fun i => q.byte (copy + i)) (show copy + (pageSize - copy) ≤ pageSize by omega)
      refine ⟨page', ?_, hidx, fun i hi => ?_⟩
      · simp only [not_lt.mpr hcopy, if_false]
        exact heq
      · rw [hbyte]
        by_cases hlt : i < pageSize
        · rw [Image.overlay_of_mem (by omega), Nat.add_sub_cancel' hi]
          rfl
        · rw [Image.overlay_of_not_mem (by omega), Page.byte_of_le (not_lt.mp hlt)]
          exact (Page.byte_of_le (not_lt.mp hlt)).symm

structure Copied (parent : Option PageTree) (pages : PageTree) (src : ℕ → UInt8) (sector n : ℕ)
    (pages' : PageTree) : Prop where
  indexed : Indexed pages'
  first : ∀ i, pageByte parent pages' (sector / pageSectors) i =
    Image.overlay (pageByte parent pages (sector / pageSectors)) (pageOffset sector)
      (min n (pageSize - pageOffset sector)) src i
  second : Straddles sector n → ∀ i, pageByte parent pages' (sector / pageSectors + 1) i =
    Image.overlay (parentByte parent pages (sector / pageSectors + 1)) 0
      (n - min n (pageSize - pageOffset sector))
      (fun i => src (min n (pageSize - pageOffset sector) + i)) i
  other : ∀ k, k ≠ sector / pageSectors → (Straddles sector n → k ≠ sector / pageSectors + 1) →
    ∀ i, pageByte parent pages' k i = pageByte parent pages k i

theorem copyToBrd_spec (hpages : Indexed pages) (hparent : ∀ p ∈ parent, Indexed p)
    (src : ℕ → UInt8) {sector n : ℕ} (hn : n ≤ pageSize)
    (hfirst : ∃ p, pages.lookup (sector / pageSectors) = some p)
    (hsecond : Straddles sector n → ∃ p, pages.lookup (sector / pageSectors + 1) = some p) :
    ∃ pages', copyToBrd parent pages src sector n = .ok pages' ∧
      Copied parent pages src sector n pages' := by
  have hoff := pageOffset_lt sector
  obtain ⟨p₁, hp₁⟩ := hfirst
  obtain ⟨q₁, hcopy₁, hidx₁, hbyte₁⟩ := Page.memcpy_eq (p := p₁) src
    (show pageOffset sector + min n (pageSize - pageOffset sector) ≤ pageSize by omega)
  have hq₁ : q₁.index = sector / pageSectors := hidx₁.trans (hpages _ _ hp₁)
  have hindexed₁ := hpages.insert hq₁
  have hpage₁ (i : ℕ) : q₁.byte i = Image.overlay (pageByte parent pages (sector / pageSectors))
      (pageOffset sector) (min n (pageSize - pageOffset sector)) src i := by
    rw [hbyte₁]
    exact congrArg (fun f => Image.overlay f _ _ _ i)
      (funext fun i => (pageByte_of_lookup hp₁ parent i).symm)
  unfold copyToBrd
  simp only [brdLookupPage_eq hpages, hp₁, bind, Except.bind, hcopy₁]
  by_cases hs : Straddles sector n
  · obtain ⟨p₂, hp₂⟩ := hsecond hs
    have hne : sector / pageSectors + 1 ≠ sector / pageSectors := Nat.succ_ne_self _
    have hlookup₂ (k : ℕ) (hk : k = sector / pageSectors + 1) :
        (pages.insert (sector / pageSectors) q₁).lookup k = some p₂ := by
      rw [hk, Finmap.lookup_insert_of_ne _ hne, hp₂]
    have hcopy₂ : n - min n (pageSize - pageOffset sector) ≤ pageSize := by omega
    obtain ⟨t, htail, hidxt, hbytet⟩ := copyParentTail_spec hparent p₂
      (sector + min n (pageSize - pageOffset sector) / 2 ^ sectorShift) hcopy₂
    obtain ⟨q₂, hmem₂, hidx₂, hbyte₂⟩ := Page.memcpy_eq (p := t)
      (fun i => src (min n (pageSize - pageOffset sector) + i))
      (show 0 + (n - min n (pageSize - pageOffset sector)) ≤ pageSize by omega)
    have hq₂ : q₂.index = sector / pageSectors + 1 :=
      (hidx₂.trans hidxt).trans (hpages _ _ hp₂)
    rw [second_sector hs] at hbytet
    simp only [copy_lt_iff, hs, if_true, brdLookupPage_eq hindexed₁,
      hlookup₂ _ (second_sector hs), htail, hmem₂, second_sector hs]
    refine ⟨_, rfl, hindexed₁.insert hq₂, fun i => ?_, fun _ i => ?_, fun k hk hk' i => ?_⟩
    · rw [pageByte_insert_of_ne _ _ hne.symm, pageByte_insert, hpage₁]
    · rw [pageByte_insert, hbyte₂]
      by_cases hi : i < n - min n (pageSize - pageOffset sector)
      · rw [Image.overlay_of_mem (by omega), Image.overlay_of_mem (by omega)]
      · rw [Image.overlay_of_not_mem (by omega), Image.overlay_of_not_mem (by omega),
          hbytet i (not_lt.mp hi), parentByte, pageByte_of_lookup hp₂]
    · rw [pageByte_insert_of_ne _ _ (hk' hs), pageByte_insert_of_ne _ _ hk]
  · simp only [copy_lt_iff, hs, if_false]
    refine ⟨_, rfl, hindexed₁, fun i => ?_, fun h => absurd h hs, fun k hk _ i => ?_⟩
    · rw [pageByte_insert, hpage₁]
    · exact pageByte_insert_of_ne parent pages hk q₁ i

/-- Byte `b` lies in the second page of the segment, behind its end. -/
def BehindSegment (sector n b : ℕ) : Prop :=
  Straddles sector n ∧ b / pageSize = sector / pageSectors + 1 ∧
    pageOffset sector + n - pageSize ≤ b % pageSize

instance (sector n b : ℕ) : Decidable (BehindSegment sector n b) :=
  inferInstanceAs (Decidable (_ ∧ _ ∧ _))

/-- The written bytes stand in the content, and behind them those of the parent. -/
theorem Copied.content_eq {src : ℕ → UInt8} {sector n : ℕ} {pages' : PageTree}
    (h : Copied parent pages src sector n pages') (hn : n ≤ pageSize) (b : ℕ) :
    content parent pages' b = if BehindSegment sector n b then
        parentByte parent pages (b / pageSize) (b % pageSize)
      else Image.overlay (content parent pages) (sector * 2 ^ sectorShift) n src b := by
  have hoff := pageOffset_lt sector
  have hstart := start_eq sector
  have hb := Nat.div_add_mod' b pageSize
  have hmod := Nat.mod_lt b (show 0 < pageSize by decide)
  generalize hk : b / pageSize = k at *
  generalize hi : b % pageSize = i at *
  have hnext := Nat.add_one_mul (sector / pageSectors) pageSize
  rw [content, hk, hi]
  obtain rfl | h₁ := eq_or_ne k (sector / pageSectors)
  · have hbehind : ¬ BehindSegment sector n b := by
      rintro ⟨-, h₂, -⟩
      omega
    rw [if_neg hbehind, h.first]
    by_cases hin : pageOffset sector ≤ i ∧ i < pageOffset sector + min n (pageSize - pageOffset sector)
    · rw [Image.overlay_of_mem hin, Image.overlay_of_mem (by omega)]
      congr 1
      omega
    · rw [Image.overlay_of_not_mem hin, Image.overlay_of_not_mem (by omega), content, hk, hi]
  · obtain ⟨hs, rfl⟩ | h₂ : (Straddles sector n ∧ k = sector / pageSectors + 1) ∨
        ¬ (Straddles sector n ∧ k = sector / pageSectors + 1) := em _
    · rw [h.second hs]
      by_cases hin : i < n - min n (pageSize - pageOffset sector)
      · have hbehind : ¬ BehindSegment sector n b := by
          rintro ⟨-, -, h₃⟩
          omega
        rw [if_neg hbehind, Image.overlay_of_mem (by omega), Image.overlay_of_mem (by omega)]
        congr 1
        omega
      · have hbehind : BehindSegment sector n b := ⟨hs, hk, by omega⟩
        rw [if_pos hbehind, Image.overlay_of_not_mem (by omega)]
    · have hbehind : ¬ BehindSegment sector n b := fun hb => h₂ ⟨hb.1, hk ▸ hb.2.1⟩
      -- the pages before and behind hold no byte of the segment
      have hout : ¬ (sector * 2 ^ sectorShift ≤ b ∧ b < sector * 2 ^ sectorShift + n) := by
        obtain hlt | hgt := h₁.lt_or_gt
        · have := Nat.mul_le_mul_right pageSize (show k + 1 ≤ sector / pageSectors from hlt)
          rw [Nat.add_one_mul] at this
          omega
        · have := Nat.mul_le_mul_right pageSize (show sector / pageSectors + 1 ≤ k from hgt)
          by_cases hs : Straddles sector n
          · have hgt' : sector / pageSectors + 2 ≤ k := by
              by_contra hle
              exact h₂ ⟨hs, by omega⟩
            have := Nat.mul_le_mul_right pageSize hgt'
            rw [Nat.add_mul] at this
            omega
          · have hle : pageOffset sector + n ≤ pageSize := not_lt.mp hs
            omega
      rw [if_neg hbehind, h.other k h₁ (fun hs hk' => h₂ ⟨hs, hk'⟩), Image.overlay_of_not_mem hout,
        content, hk, hi]

/-- What a write of a segment does to pages and content. -/
theorem brdDoBvec_write (mem : Alloc × Alloc) (beyond page : ℕ → UInt8) (hpages : Indexed pages)
    (hparent : ∀ p ∈ parent, Indexed p) (off sector : ℕ) {n : ℕ} (hn : n ≤ pageSize) :
    ∃ err pages', brdDoBvec mem beyond parent pages page n off false sector =
        .ok (err, pages', page, true) ∧ Indexed pages' ∧
      (err = 0 ∨ err = -enomem) ∧ (mem = (⟨true, true⟩, ⟨true, true⟩) → err = 0) ∧
      (err ≠ 0 → content parent pages' = content parent pages) ∧
      (err = 0 → ∀ b, content parent pages' b = if BehindSegment sector n b then
          parentByte parent pages (b / pageSize) (b % pageSize)
        else Image.overlay (content parent pages) (sector * 2 ^ sectorShift) n
          (fun i => page (off + i)) b) := by
  obtain ⟨err, pages₁, hsetup, h₁, hmem⟩ := copyToBrdSetup_spec mem hpages hparent sector n
  have hcontent : content parent pages₁ = content parent pages := funext fun _ => h₁.byte_eq _ _
  have htail (k i : ℕ) : parentByte parent pages₁ k i = parentByte parent pages k i := by
    rw [parentByte, parentByte, h₁.byte_eq]
  unfold brdDoBvec
  simp only [Bool.false_eq_true, if_false, hsetup, bind, Except.bind]
  by_cases herr : err = 0
  · obtain ⟨pages₂, hcopy, h₂⟩ := copyToBrd_spec h₁.indexed hparent (fun i => page (off + i)) hn
      (h₁.first herr) (h₁.second herr)
    refine ⟨0, pages₂, ?_, h₂.indexed, .inl rfl, fun _ => rfl, fun h => absurd rfl h, fun _ b => ?_⟩
    · simp [herr, hcopy, pure, Except.pure]
    · rw [h₂.content_eq hn, hcontent, htail]
  · refine ⟨err, pages₁, ?_, h₁.indexed, h₁.err_eq, hmem, fun _ => hcontent, fun h => absurd h herr⟩
    simp [herr, pure, Except.pure]

/-- On the second page the own bytes behind the segment are those of the parent, if
both have that page. -/
def TailKept (parent : Option PageTree) (pages : PageTree) (sector n : ℕ) : Prop :=
  Straddles sector n → ∀ p q, pages.lookup (sector / pageSectors + 1) = some p →
    (parent.bind fun t => t.lookup (sector / pageSectors + 1)) = some q →
    ∀ i, pageOffset sector + n - pageSize ≤ i → i < pageSize → p.byte i = q.byte i

/-- The content is overlaid with the segment exactly when the bytes behind it are kept. -/
theorem content_overlay_iff {pages' : PageTree} {sector n : ℕ} {src : ℕ → UInt8}
    (h : ∀ b, content parent pages' b = if BehindSegment sector n b then
        parentByte parent pages (b / pageSize) (b % pageSize)
      else Image.overlay (content parent pages) (sector * 2 ^ sectorShift) n src b) :
    content parent pages' =
        Image.overlay (content parent pages) (sector * 2 ^ sectorShift) n src ↔
      TailKept parent pages sector n := by
  have hoff := pageOffset_lt sector
  have hstart := start_eq sector
  have hpos : 0 < pageSize := by decide
  have hnext := Nat.add_one_mul (sector / pageSectors) pageSize
  have hout {b : ℕ} (hb : BehindSegment sector n b) :
      Image.overlay (content parent pages) (sector * 2 ^ sectorShift) n src b =
        content parent pages b := by
    obtain ⟨hs, hk, hi⟩ := hb
    have hs : pageSize < pageOffset sector + n := hs
    have hdiv := Nat.div_add_mod' b pageSize
    rw [hk] at hdiv
    exact Image.overlay_of_not_mem (by omega)
  constructor
  · intro heq hs p q hp hq i hi hlt
    have hdiv : ((sector / pageSectors + 1) * pageSize + i) / pageSize = sector / pageSectors + 1 := by
      rw [Nat.add_comm, Nat.add_mul_div_right _ _ hpos, Nat.div_eq_of_lt hlt, Nat.zero_add]
    have hmod : ((sector / pageSectors + 1) * pageSize + i) % pageSize = i := by
      rw [Nat.add_comm, Nat.add_mul_mod_self_right, Nat.mod_eq_of_lt hlt]
    have hbehind : BehindSegment sector n ((sector / pageSectors + 1) * pageSize + i) :=
      ⟨hs, hdiv, hi.trans_eq hmod.symm⟩
    have hb := h ((sector / pageSectors + 1) * pageSize + i)
    rw [if_pos hbehind, heq, hout hbehind, content, hdiv, hmod, pageByte_of_lookup hp, parentByte,
      hq] at hb
    exact hb
  · intro hkept
    funext b
    rw [h b]
    split_ifs with hbehind
    · rw [hout hbehind, content, parentByte]
      obtain ⟨hs, hk, hi⟩ := hbehind
      rw [hk]
      cases hq : parent.bind fun t => t.lookup (sector / pageSectors + 1) with
      | none => rfl
      | some q =>
        cases hp : pages.lookup (sector / pageSectors + 1) with
        | none =>
          rw [pageByte_of_lookup_none hp, hq]
          rfl
        | some p =>
          rw [pageByte_of_lookup hp]
          exact (hkept hs p q hp hq _ hi (Nat.mod_lt b hpos)).symm
    · rfl

end CrashMonkey.CowBrd
