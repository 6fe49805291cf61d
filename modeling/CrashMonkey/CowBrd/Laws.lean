import CrashMonkey.CowBrd.Invariants
import CrashMonkey.CowBrd.ReadLaw

namespace CrashMonkey.CowBrd

/-- A write of `n` bytes from `page + off` does not stop the kernel, and if it succeeds
puts the bytes at `sector` and keeps all others. -/
def WriteLaw (s : System) (brd : BrdDevice) (sector n off : ℕ) (page : ℕ → UInt8) : Prop :=
  ∀ mem beyond, ∃ err pages',
    brdDoBvec mem beyond (s.parentPages brd) brd.brdPages page n off false sector =
      .ok (err, pages', page, true) ∧
    (err = 0 → content (s.parentPages brd) pages' = Image.overlay
      (content (s.parentPages brd) brd.brdPages) (sector * 512) n fun i => page (off + i))

/-- A read of `n` bytes gives those at `sector`, all from inside of the pages. -/
def ReadLaw (s : System) (brd : BrdDevice) (sector n : ℕ) : Prop :=
  ∀ beyond dst, copyFromBrd beyond dst (s.parentPages brd) brd.brdPages sector n =
    .ok (Image.overlay dst 0 n fun i =>
      content (s.parentPages brd) brd.brdPages (sector * 512 + i), true)

def fillBio (sector n : ℕ) (v : UInt8) : Bio := ⟨0, reqWrite, sector, n, [⟨fun _ => v, n, 0⟩]⟩

def plenty : Env := ⟨fun _ => (⟨true, true⟩, ⟨true, true⟩), fun _ => 0⟩

theorem writeLaw_iff {s : System} (hs : Reachable s) {d : ℕ} {brd : BrdDevice}
    (hbrd : s.devices[d]? = some brd) (sector : ℕ) {n : ℕ} (hn : n ≤ pageSize) (off : ℕ)
    (page : ℕ → UInt8) :
    WriteLaw s brd sector n off page ↔ TailKept (s.parentPages brd) brd.brdPages sector n := by
  have hpages := hs.wellFormed.indexed d brd hbrd
  have hparent := hs.wellFormed.parent_indexed brd
  constructor
  · intro h
    -- with memory the write succeeds
    obtain ⟨err, pages', heq, hlaw⟩ := h (⟨true, true⟩, ⟨true, true⟩) (fun _ => 0)
    obtain ⟨err', pages'', heq', -, -, hok, -, hcontent⟩ := brdDoBvec_write
      (⟨true, true⟩, ⟨true, true⟩) (fun _ => 0) page hpages hparent off sector hn
    rw [heq, Except.ok.injEq, Prod.mk.injEq, Prod.mk.injEq] at heq'
    obtain ⟨rfl, rfl, -⟩ := heq'
    exact (content_overlay_iff (hcontent (hok rfl))).mp (hlaw (hok rfl))
  · intro hkept mem beyond
    obtain ⟨err, pages', heq, -, -, -, -, hcontent⟩ :=
      brdDoBvec_write mem beyond page hpages hparent off sector hn
    exact ⟨err, pages', heq, fun herr => (content_overlay_iff (hcontent herr)).mpr hkept⟩

/-- The snapshot has page 0, and only its parent has page 1. -/
structure Layered (s : System) (brd : BrdDevice) : Prop where
  reachable : Reachable s
  device : s.devices[1]? = some brd
  isWritable : brd.isWritable = true
  capacity : 16 ≤ s.capacity
  own : ∃ p, brd.brdPages.lookup 0 = some p ∧ p.byte 0 = 2
  missing : brd.brdPages.lookup 1 = none
  inherited : ∃ q, (s.parentPages brd).bind (fun t => t.lookup 1) = some q ∧
    ∀ i < 512, q.byte i = 1 ∧ q.byte (3584 + i) = 1

def layeredEvents : List Event :=
  [.bio 0 (fillBio 8 4096 1) plenty, .ioctl 0 .snapshot, .bio 1 (fillBio 0 512 2) plenty]

def isLayered (s : System) : Bool :=
  decide (16 ≤ s.capacity) && s.devices[1]?.any fun brd => brd.isWritable &&
    (brd.brdPages.lookup 0).any (fun p => p.byte 0 == 2) && (brd.brdPages.lookup 1).isNone &&
    ((s.parentPages brd).bind fun t => t.lookup 1).any fun q =>
      (List.range 512).all fun i => q.byte i == 1 && q.byte (3584 + i) == 1

theorem exists_layered : ∃ s brd, Layered s brd := by
  obtain ⟨s, hrun, hs⟩ := Transition.exists_run_of_foldlM (f := step) (s := brdInit 1 1 8)
    layeredEvents isLayered (by decide +kernel)
  obtain ⟨hcap, hs⟩ := Bool.and_eq_true_iff.mp hs
  obtain ⟨brd, hbrd, hs⟩ := (Option.any_eq_true _ _).mp hs
  simp only [Bool.and_eq_true, Option.isNone_iff_eq_none, Option.any_eq_true, List.all_eq_true,
    List.mem_range, beq_iff_eq] at hs
  obtain ⟨⟨⟨hw, hown⟩, hmissing⟩, hinherited⟩ := hs
  exact ⟨s, brd, ⟨1, 1, 8, layeredEvents, by decide, hrun⟩, hbrd, hw, of_decide_eq_true hcap,
    hown, hmissing, hinherited⟩

/-- A write to the page of the snapshot and to the one of the parent. -/
theorem writeLaw_brdInit : ∃ s brd, Layered s brd ∧ WriteLaw s brd 7 1024 0 fun _ => 3 := by
  obtain ⟨s, brd, h⟩ := exists_layered
  refine ⟨s, brd, h, (writeLaw_iff h.reachable h.device 7 (by decide) 0 _).mpr ?_⟩
  intro _ p q hp
  exact absurd (h.missing.symm.trans hp) nofun

/-- Page 1 of a disk is filled; the disk is frozen, and the last sector of the page is
written on the snapshot. -/
def tailEvents : List Event :=
  [.bio 0 (fillBio 8 4096 1) plenty, .ioctl 0 .snapshot, .bio 1 (fillBio 15 512 2) plenty]

def losesSector (s : System) : Bool :=
  s.devices[1]?.any fun brd => brd.isWritable &&
    content (s.parentPages brd) brd.brdPages 7680 == 2 &&
    (brdDoBvec (⟨true, true⟩, ⟨true, true⟩) (fun _ => 0) (s.parentPages brd) brd.brdPages
      (fun _ => 3) 1024 0 false 7).toOption.any fun r =>
        r.1 == 0 && content (s.parentPages brd) r.2.1 7680 == 1

theorem not_writeLaw_straddling : ¬ ∀ (s : System) (d : ℕ) (brd : BrdDevice), Reachable s →
    s.devices[d]? = some brd → brd.isWritable = true → ∀ sector n off page, 1 ≤ n → n ≤ pageSize →
    WriteLaw s brd sector n off page := by
  intro h
  obtain ⟨s, hrun, hs⟩ := Transition.exists_run_of_foldlM (f := step) (s := brdInit 1 1 8)
    tailEvents losesSector (by rfl)
  obtain ⟨brd, hbrd, hs⟩ := (Option.any_eq_true _ _).mp hs
  simp only [Bool.and_eq_true, beq_iff_eq] at hs
  obtain ⟨⟨hw, hbefore⟩, hafter⟩ := hs
  obtain ⟨err, pages', heq, hlaw⟩ := h s 1 brd ⟨1, 1, 8, tailEvents, by decide, hrun⟩ hbrd hw 7 1024 0
    (fun _ => 3) (by decide) (by decide) (⟨true, true⟩, ⟨true, true⟩) fun _ => 0
  rw [heq] at hafter
  simp only [Except.toOption, Option.any_some, Bool.and_eq_true, beq_iff_eq] at hafter
  have hkept := congrFun (hlaw hafter.1) 7680
  rw [Image.overlay_of_not_mem (by decide), hbefore, hafter.2] at hkept
  exact absurd hkept (by decide)

theorem readLaw_iff {s : System} (hs : Reachable s) {d : ℕ} {brd : BrdDevice}
    (hbrd : s.devices[d]? = some brd) (sector : ℕ) {n : ℕ} (hn : n ≤ pageSize) :
    ReadLaw s brd sector n ↔ SecondAligned (s.parentPages brd) brd.brdPages sector n := by
  have hpages := hs.wellFormed.indexed d brd hbrd
  have hparent := hs.wellFormed.parent_indexed brd
  constructor
  · exact fun h => (copyFromBrd_iff (fun _ => 0) (fun _ => 0) hpages hparent sector hn).mp
      (h (fun _ => 0) fun _ => 0)
  · exact fun h beyond dst => (copyFromBrd_iff beyond dst hpages hparent sector hn).mpr h

/-- A read from both levels: behind the page of the snapshot the one of the parent. -/
theorem readLaw_brdInit : ∃ s brd, Layered s brd ∧ ReadLaw s brd 7 1024 := by
  obtain ⟨s, brd, h⟩ := exists_layered
  refine ⟨s, brd, h, (readLaw_iff h.reachable h.device 7 (by decide)).mpr ?_⟩
  intro _ _ q hq
  obtain ⟨q', hq', hones⟩ := h.inherited
  obtain rfl : q' = q := Option.some.inj (hq'.symm.trans hq)
  refine ⟨by decide, fun i hi => ?_⟩
  have hlt : i < 512 := hi
  exact (hones i hlt).2.trans (hones i hlt).1.symm

def headEvents : List Event := [.bio 0 (fillBio 8 512 1) plenty, .ioctl 0 .snapshot]

/-- From sector 7 on a page is read from the snapshot: its second sector is wrong, and
the last ones lie behind the parent's page. -/
def readsBeyond (s : System) : Bool :=
  s.devices[1]?.any fun brd => content (s.parentPages brd) brd.brdPages 4096 == 1 &&
    (copyFromBrd (fun _ => 0) (fun _ => 0) (s.parentPages brd) brd.brdPages 7
      4096).toOption.any fun r => r.1 512 == 0 && !r.2

theorem not_readLaw_straddling : ¬ ∀ (s : System) (d : ℕ) (brd : BrdDevice), Reachable s →
    s.devices[d]? = some brd → ∀ sector n, 1 ≤ n → n ≤ pageSize → ReadLaw s brd sector n := by
  intro h
  obtain ⟨s, hrun, hs⟩ := Transition.exists_run_of_foldlM (f := step) (s := brdInit 1 1 8)
    headEvents readsBeyond (by rfl)
  obtain ⟨brd, hbrd, hs⟩ := (Option.any_eq_true _ _).mp hs
  rw [h s 1 brd ⟨1, 1, 8, headEvents, by decide, hrun⟩ hbrd 7 4096 (by decide) (by decide)] at hs
  simp [Except.toOption] at hs

end CrashMonkey.CowBrd
