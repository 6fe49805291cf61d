import Mathlib.Logic.Function.Basic
import CrashMonkey.CowBrd.NoMemory
import CrashMonkey.CowBrd.Requests

namespace CrashMonkey.CowBrd

/-- The error of a request, and the memory of the segments that it has reached, each with
whether all its bytes came from inside of the pages. -/
abbrev Reply := Int × List ((ℕ → UInt8) × Bool)

def readParts (img : ℕ → UInt8) : List Segment → ℕ → List (ℕ → UInt8)
  | [], _ => []
  | vec :: vecs, b =>
    Image.overlay vec.bvPage vec.bvOffset vec.bvLen (fun i => img (b + i)) ::
      readParts img vecs (b + vec.bvLen)

/-- A request to a disk with this content. A write may run out of memory behind any of its
segments; one without segments ends with the error that it began with. -/
def PlainBio (capacity : ℕ) (writable : Bool) (img : ℕ → UInt8) (bio : Bio) (env : Env)
    (reply : Reply) (img' : ℕ → UInt8) : Prop :=
  if capacity < bio.endSector ∨ (hasFlag bio.biRw reqWrite = true ∧ writable = false) then
    reply = (-eio, []) ∧ img' = img
  else if hasFlag bio.biRw reqWrite = true then
    ∃ j ≤ bio.segments.length, (env.Plenty → j = bio.segments.length) ∧
      img' = Image.overlay img (bio.biSector * 2 ^ sectorShift)
        (segmentsSize (bio.segments.take j)) (segmentsData (bio.segments.take j)) ∧
      reply = (if j < bio.segments.length then -enomem
        else if bio.segments = [] then -eio else 0,
        (bio.segments.take (j + 1)).map fun vec => (vec.bvPage, true))
  else reply = (if bio.segments = [] then -eio else 0,
      (readParts img bio.segments (bio.biSector * 2 ^ sectorShift)).map (·, true)) ∧ img' = img

/-- A step of the disk `p`, which is not writable, and its snapshots. -/
def PlainStep (capacity p : ℕ) (imgs : ℕ → ℕ → UInt8) (l : Event × Reply)
    (imgs' : ℕ → ℕ → UInt8) : Prop :=
  match l.1 with
  | .bio d bio env => ∃ img', PlainBio capacity (d != p) (imgs d) bio env l.2 img' ∧
      imgs' = Function.update imgs d img'
  | .ioctl d .restoreSnapshot =>
    if d = p then l.2 = (-enotty, []) ∧ imgs' = imgs
    else l.2 = (0, []) ∧ imgs' = Function.update imgs d (imgs p)
  | .ioctl d .snapshot => l.2 = (if d = p then 0 else -enotty, []) ∧ imgs' = imgs
  | .ioctl _ _ => l.2 = (-enotty, []) ∧ imgs' = imgs

theorem plainStep_restoreSnapshot {capacity p d : ℕ} {imgs imgs' : ℕ → ℕ → UInt8} {reply : Reply} :
    PlainStep capacity p imgs (.ioctl d .restoreSnapshot, reply) imgs' ↔
      if d = p then reply = (-enotty, []) ∧ imgs' = imgs
      else reply = (0, []) ∧ imgs' = Function.update imgs d (imgs p) := Iff.rfl

theorem plainStep_snapshot {capacity p d : ℕ} {imgs imgs' : ℕ → ℕ → UInt8} {reply : Reply} :
    PlainStep capacity p imgs (.ioctl d .snapshot, reply) imgs' ↔
      reply = (if d = p then 0 else -enotty, []) ∧ imgs' = imgs := Iff.rfl

def Answers (s : System) (l : Event × Reply) (s' : System) : Prop :=
  ∃ brd, s.devices[l.1.dev]? = some brd ∧
    match l.1 with
    | .bio d bio env => ∃ pages, brdMakeRequest env s.capacity brd (s.parentPages brd) bio =
        .ok (l.2.1, pages, l.2.2) ∧ s' = s.setPages d brd pages
    | .ioctl d cmd => ∃ brd', brdIoctl brd cmd = .ok (l.2.1, brd') ∧ l.2.2 = [] ∧
        s' = { s with devices := s.devices.set d brd' }

theorem Answers.step {s s' : System} {l : Event × Reply} (h : Answers s l s') : Step s l.1 s' := by
  obtain ⟨⟨d, bio, env⟩ | ⟨d, cmd⟩, reply⟩ := l
  · obtain ⟨brd, hbrd, pages, hreq, rfl⟩ := h
    unfold Step CowBrd.step
    simp only [hbrd, serve, hreq, bind, Except.bind, pure, Except.pure, System.setPages]
    rfl
  · obtain ⟨brd, hbrd, brd', hioctl, -, rfl⟩ := h
    unfold Step CowBrd.step
    simp only [hbrd, serve, hioctl, bind, Except.bind, pure, Except.pure]
    rfl

/-- Segments of whole sectors that stay inside of one page each. -/
def PageWise : List Segment → ℕ → Prop
  | [], _ => True
  | vec :: vecs, sector => pageOffset sector + vec.bvLen ≤ pageSize ∧
      2 ^ sectorShift ∣ vec.bvLen ∧ PageWise vecs (sector + vec.bvLen / 2 ^ sectorShift)

def OfFamily (p : ℕ) (s : System) (d : ℕ) : Prop :=
  ∃ brd, s.devices[d]? = some brd ∧ (d = p ∨ brd.parentBrd = some p)

/-- An event on the family of `p` that leaves the disk frozen. -/
def Plain (p : ℕ) (s : System) (e : Event) : Prop :=
  OfFamily p s e.dev ∧ ¬ e.Thaws p ∧
    ∀ d bio env, e = .bio d bio env →
      hasFlag bio.biRw reqDiscard = false ∧ PageWise bio.segments bio.biSector

section Segments

variable {parent : Option PageTree} {pages : PageTree}

theorem brdDoBvec_write_inside (mem : Alloc × Alloc) (beyond page : ℕ → UInt8)
    (hpages : Indexed pages) (hparent : ∀ p ∈ parent, Indexed p) (off : ℕ) {sector n : ℕ}
    (hin : pageOffset sector + n ≤ pageSize) :
    ∃ err pages', brdDoBvec mem beyond parent pages page n off false sector =
        .ok (err, pages', page, true) ∧ Indexed pages' ∧
      ((err = 0 ∧ content parent pages' = Image.overlay (content parent pages)
          (sector * 2 ^ sectorShift) n fun i => page (off + i)) ∨
        (err = -enomem ∧ mem ≠ (⟨true, true⟩, ⟨true, true⟩) ∧
          content parent pages' = content parent pages)) := by
  obtain ⟨err, pages', hrun, hindexed, herr, hplenty, hfail, hok⟩ :=
    brdDoBvec_write mem beyond page hpages hparent off sector (n := n) (by omega)
  refine ⟨err, pages', hrun, hindexed, ?_⟩
  rcases herr with rfl | rfl
  · left
    refine ⟨rfl, ?_⟩
    funext b
    have hbehind : ¬ BehindSegment sector n b := by
      rintro ⟨hs, -⟩
      unfold Straddles at hs
      omega
    rw [hok rfl b, if_neg hbehind]
  · right
    refine ⟨rfl, fun hmem => ?_, hfail (by decide)⟩
    exact absurd (hplenty hmem) (by decide)

theorem brdDoBvec_read_inside (mem : Alloc × Alloc) (beyond page : ℕ → UInt8)
    (hpages : Indexed pages) (hparent : ∀ p ∈ parent, Indexed p) (off : ℕ) {sector n : ℕ}
    (hin : pageOffset sector + n ≤ pageSize) :
    brdDoBvec mem beyond parent pages page n off true sector =
      .ok (0, pages, Image.overlay page off n
        (fun i => content parent pages (sector * 2 ^ sectorShift + i)), true) := by
  have haligned : SecondAligned parent pages sector n := by
    intro hs
    unfold Straddles at hs
    omega
  have hcopy := (copyFromBrd_iff beyond (fun i => page (off + i)) hpages hparent sector
    (n := n) (by omega)).mpr haligned
  have hmemory : (fun i => if off ≤ i then
      Image.overlay (fun j => page (off + j)) 0 n
        (fun j => content parent pages (sector * 2 ^ sectorShift + j)) (i - off) else page i) =
      Image.overlay page off n
        fun i => content parent pages (sector * 2 ^ sectorShift + i) := by
    funext i
    unfold Image.overlay
    by_cases hi : off ≤ i
    · have hback : off + (i - off) = i := by omega
      have hiff : (0 ≤ i - off ∧ i - off < 0 + n) ↔ off ≤ i ∧ i < off + n := by omega
      simp only [hi, if_true, hback, hiff, Nat.sub_zero]
    · have hout : ¬ (off ≤ i ∧ i < off + n) := by omega
      rw [if_neg hi, if_neg hout]
  unfold brdDoBvec
  simp only [if_true, hcopy, bind, Except.bind, pure, Except.pure, hmemory]

/-- Segments are written up to the first one for which there is no memory. -/
theorem brdSegments_write_pageWise (env : Env) (hparent : ∀ p ∈ parent, Indexed p)
    {vecs : List Segment} (hpages : Indexed pages) {sector : ℕ} (hvecs : PageWise vecs sector)
    (i : ℕ) (err : Int) :
    ∃ j pages', j ≤ vecs.length ∧ (env.Plenty → j = vecs.length) ∧ Indexed pages' ∧
      brdSegments env parent false vecs i pages sector err =
        .ok (if j < vecs.length then -enomem else if vecs = [] then err else 0, pages',
          (vecs.take (j + 1)).map fun vec => (vec.bvPage, true)) ∧
      content parent pages' = Image.overlay (content parent pages) (sector * 2 ^ sectorShift)
        (segmentsSize (vecs.take j)) (segmentsData (vecs.take j)) := by
  induction vecs generalizing pages sector i err with
  | nil => exact ⟨0, pages, le_rfl, fun _ => rfl, hpages, rfl, (Image.overlay_zero _ _ _).symm⟩
  | cons vec vecs ih =>
    obtain ⟨hin, hdvd, hrest⟩ := hvecs
    obtain ⟨err₁, pages₁, hrun, hindexed, ⟨rfl, hcontent⟩ | ⟨rfl, hmem, hcontent⟩⟩ :=
      brdDoBvec_write_inside (env.alloc i) env.beyond vec.bvPage hpages hparent vec.bvOffset hin
    · obtain ⟨j, pages₂, hj, hplenty, hindexed₂, hsegs, hcontent₂⟩ := ih hindexed hrest (i + 1) 0
      refine ⟨j + 1, pages₂, Nat.succ_le_succ hj, fun h => congrArg (· + 1) (hplenty h), hindexed₂,
        ?_, ?_⟩
      · rw [brdSegments, hrun]
        simp only [bind, Except.bind, ne_eq, not_true_eq_false, if_false, hsegs, pure, Except.pure,
          List.length_cons, Nat.add_lt_add_iff_right, List.take_succ_cons, List.map_cons,
          reduceCtorEq]
        split_ifs <;> rfl
      · rw [hcontent₂, hcontent, next_sector hdvd, List.take_succ_cons, ← overlay_segmentsData]
    · refine ⟨0, pages₁, Nat.zero_le _, fun h => absurd (h i) hmem, hindexed, ?_, ?_⟩
      · rw [brdSegments, hrun]
        simp [bind, Except.bind, pure, Except.pure, enomem]
      · rw [hcontent]
        exact (Image.overlay_zero _ _ _).symm

theorem brdSegments_read_pageWise (env : Env) (hparent : ∀ p ∈ parent, Indexed p)
    {vecs : List Segment} (hpages : Indexed pages) {sector : ℕ} (hvecs : PageWise vecs sector)
    (i : ℕ) (err : Int) :
    brdSegments env parent true vecs i pages sector err =
      .ok (if vecs = [] then err else 0, pages,
        (readParts (content parent pages) vecs (sector * 2 ^ sectorShift)).map (·, true)) := by
  induction vecs generalizing sector i err with
  | nil => rfl
  | cons vec vecs ih =>
    obtain ⟨hin, hdvd, hrest⟩ := hvecs
    have hrun := brdDoBvec_read_inside (env.alloc i) env.beyond vec.bvPage hpages hparent
      vec.bvOffset hin
    rw [brdSegments, hrun]
    simp only [bind, Except.bind, ne_eq, not_true_eq_false, if_false, ih hrest, pure, Except.pure,
      readParts, List.map_cons, next_sector hdvd, reduceCtorEq]
    split_ifs <;> rfl

end Segments

theorem plainBio_of_request (env : Env) (capacity : ℕ) {brd : BrdDevice}
    {parent : Option PageTree} {bio : Bio} (hpages : Indexed brd.brdPages)
    (hparent : ∀ p ∈ parent, Indexed p)
    (hdiscard : hasFlag bio.biRw reqDiscard = false) (hpage : PageWise bio.segments bio.biSector) :
    ∃ err pages' out, brdMakeRequest env capacity brd parent bio = .ok (err, pages', out) ∧
      PlainBio capacity brd.isWritable (content parent brd.brdPages) bio env (err, out)
        (content parent pages') := by
  unfold brdMakeRequest PlainBio
  rw [hdiscard, Bool.or_false]
  by_cases hend : capacity < bio.endSector
  · simp only [hend, if_true, true_or]
    exact ⟨_, _, _, rfl, rfl, rfl⟩
  · cases hwrite : hasFlag bio.biRw reqWrite with
    | false =>
      have hread := brdSegments_read_pageWise env hparent hpages hpage 0 (-eio)
      rw [Bio.isRead_of_not_write hwrite]
      simp only [hend, Bool.false_and, Bool.false_eq_true, if_false, false_and, or_false, hread]
      exact ⟨_, _, _, rfl, rfl, rfl⟩
    | true =>
      cases hw : brd.isWritable with
      | false =>
        simp only [hend, Bool.not_false, Bool.and_self, if_true, if_false, and_self, or_true]
        exact ⟨_, _, _, rfl, rfl, rfl⟩
      | true =>
        obtain ⟨j, pages', hj, hplenty, -, hsegs, hcontent⟩ :=
          brdSegments_write_pageWise env hparent hpages hpage 0 (-eio)
        rw [Bio.isRead_of_write hwrite]
        simp only [hend, Bool.not_true, Bool.and_false, Bool.false_eq_true, Bool.true_eq_false,
          if_false, if_true, and_false, or_false, hsegs]
        exact ⟨_, _, _, rfl, j, hj, hplenty, hcontent, rfl⟩

theorem set_self {α : Type*} {l : List α} {i : ℕ} {a : α} (h : l[i]? = some a) : l.set i a = l := by
  obtain ⟨hlt, rfl⟩ := List.getElem?_eq_some_iff.mp h
  exact List.set_getElem_self hlt

/-- What a run of plain events keeps of the first state `s₀`: the disk `p` is frozen, and the
devices have the parents they had. -/
structure Kept (p : ℕ) (pages : PageTree) (s₀ s : System) : Prop where
  wellFormed : WellFormed s
  frozen : Frozen p pages s
  capacity : s.capacity = s₀.capacity
  parents : ∀ d : ℕ, s.devices[d]?.map BrdDevice.parentBrd = s₀.devices[d]?.map BrdDevice.parentBrd

variable {p : ℕ} {pages : PageTree} {s₀ s s' : System} {l : Event × Reply}

theorem Kept.step (h : Kept p pages s₀ s) {e : Event} (he : ¬ e.Thaws p) (hstep : Step s e s') :
    Kept p pages s₀ s' where
  wellFormed := h.wellFormed.step hstep
  frozen := h.frozen.step h.wellFormed he hstep
  capacity := (step_capacity hstep).trans h.capacity
  parents d := by
    rw [← h.parents d]
    rcases h.wellFormed.step_device hstep d with heq | ⟨-, brd, brd', hd, hd', hserved⟩
    · rw [heq]
    · rw [hd, hd', Option.map_some, Option.map_some, hserved.parentBrd]

/-- A device of the family is the frozen disk, or one of its snapshots. -/
theorem Kept.family (h : Kept p pages s₀ s) {d : ℕ} (hd : OfFamily p s₀ d) :
    ∃ brd, s.devices[d]? = some brd ∧
      ((d = p ∧ brd.isSnapshot = false ∧ brd.isWritable = false) ∨
        (d ≠ p ∧ brd.isSnapshot = true ∧ brd.isWritable = true ∧ brd.parentBrd = some p)) := by
  obtain ⟨brd₀, hd₀, hfamily⟩ := hd
  have hparents := h.parents d
  rw [hd₀, Option.map_some] at hparents
  obtain ⟨brd, hbrd, hparent⟩ := Option.map_eq_some_iff.mp hparents
  refine ⟨brd, hbrd, ?_⟩
  by_cases hp : d = p
  · subst hp
    obtain ⟨base, hbase, hsnapshot, hwritable, -⟩ := h.frozen
    obtain rfl : base = brd := Option.some.inj (hbase.symm.trans hbrd)
    exact .inl ⟨rfl, hsnapshot, hwritable⟩
  · have hparent' : brd.parentBrd = some p := hparent.trans (hfamily.resolve_left hp)
    have hsnapshot := h.wellFormed.isSnapshot_of_parent hbrd hparent'
    exact .inr ⟨hp, hsnapshot, (h.wellFormed.snapshot d brd hbrd hsnapshot).1, hparent'⟩

/-- The contents after a step are those before it, but for the device of the event. -/
theorem Kept.content_update (h : Kept p pages s₀ s) {e : Event} (he : ¬ e.Thaws p)
    (hd : OfFamily p s₀ e.dev) (hstep : Step s e s') :
    s'.content = Function.update s.content e.dev (s'.content e.dev) := by
  funext d
  by_cases hne : d = e.dev
  · subst hne
    rw [Function.update_self]
  · rw [Function.update_of_ne hne]
    obtain ⟨brd, hbrd, ⟨hp, hsnapshot, -⟩ | ⟨hp, hsnapshot, -⟩⟩ := h.family hd
    · -- the frozen disk keeps its pages, so nobody sees a change
      have hframe (d' : ℕ) : s'.devices[d']? = s.devices[d']? ∨
          (d' = e.dev ∧ s'.devices[d']?.map BrdDevice.brdPages =
            s.devices[d']?.map BrdDevice.brdPages) := by
        rcases h.wellFormed.step_device hstep d' with heq | ⟨heq, -⟩
        · exact .inl heq
        · right
          obtain ⟨base, hbase, -, -, hpages⟩ := h.frozen
          obtain ⟨base', hbase', -, -, hpages'⟩ := h.frozen.step h.wellFormed he hstep
          refine ⟨heq, ?_⟩
          rw [heq, hp, hbase, hbase', Option.map_some, Option.map_some, hpages, hpages']
      apply content_congr
      · exact (hframe d).resolve_right fun hright => hne hright.1
      · intro brd' q _ _
        rcases hframe q with heq | ⟨-, heq⟩
        · rw [heq]
        · exact heq
    · exact content_of_ne h.wellFormed hstep hbrd hsnapshot hne

theorem Kept.parentPages (h : Kept p pages s₀ s) {brd : BrdDevice} (hp : brd.parentBrd = some p) :
    s.parentPages brd = some pages := by
  obtain ⟨base, hbase, -, -, rfl⟩ := h.frozen
  rw [System.parentPages, hp, Option.bind_some, hbase, Option.map_some]

theorem Kept.content_base (h : Kept p pages s₀ s) : s.content p = CowBrd.content none pages := by
  obtain ⟨base, hbase, hsnapshot, -, rfl⟩ := h.frozen
  exact content_disk h.wellFormed hbase hsnapshot

structure Answered (c p : ℕ) (s : System) (e : Event) : Prop where
  served : ∃ reply s', Answers s (e, reply) s'
  plain : ∀ reply s', Answers s (e, reply) s' → PlainStep c p s.content (e, reply) s'.content

theorem Kept.answered_bio (h : Kept p pages s₀ s) {d : ℕ} {bio : Bio} {env : Env}
    (he : Plain p s₀ (.bio d bio env)) : Answered s₀.capacity p s (.bio d bio env) := by
  obtain ⟨hfamily, hthaws, hbio⟩ := he
  obtain ⟨brd, hbrd, hcase⟩ := h.family hfamily
  obtain ⟨hdiscard, hpage⟩ := hbio d bio env rfl
  obtain ⟨err, pages', out, hreq, hplain⟩ := plainBio_of_request env s.capacity
    (h.wellFormed.indexed _ _ hbrd) (h.wellFormed.parent_indexed brd) hdiscard hpage
  have hanswer : Answers s (.bio d bio env, (err, out)) (s.setPages d brd pages') :=
    ⟨brd, hbrd, pages', hreq, rfl⟩
  have hdev : s.devices[d]? = some brd := hbrd
  refine ⟨⟨(err, out), _, hanswer⟩, fun reply s' hs' => ?_⟩
  obtain ⟨brd₁, hbrd₁, pages₁, hreq₁, rfl⟩ := hs'
  obtain rfl : brd = brd₁ := Option.some.inj (hbrd.symm.trans hbrd₁)
  rw [hreq] at hreq₁
  simp only [Except.ok.injEq, Prod.mk.injEq] at hreq₁
  obtain ⟨herr, rfl, hout⟩ := hreq₁
  have hreply : reply = (err, out) := Prod.ext herr.symm hout.symm
  subst hreply
  refine ⟨(s.setPages d brd pages').content d, ?_, h.content_update hthaws hfamily hanswer.step⟩
  have hwritable : (d != p) = brd.isWritable := by
    rcases hcase with ⟨rfl, -, hw⟩ | ⟨hne, -, hw, -⟩
    · rw [hw]
      exact bne_self_eq_false _
    · rw [hw]
      exact bne_iff_ne.mpr hne
  rw [hwritable, ← h.capacity, content_of_getElem hdev, System.setPages,
    h.wellFormed.content_set hdev]
  exact hplain

/-- What an ioctl returns decides what is answered, and where the device is kept. -/
theorem answers_ioctl {d : ℕ} {brd brd' : BrdDevice} {cmd : Cmd} {err : Int}
    (hdev : s.devices[d]? = some brd) (hioctl : brdIoctl brd cmd = .ok (err, brd')) {reply : Reply}
    {s' : System} : Answers s (.ioctl d cmd, reply) s' ↔
      reply = (err, []) ∧ s' = { s with devices := s.devices.set d brd' } := by
  constructor
  · rintro ⟨brd₁, hbrd₁, brd₂, hioctl₁, hout, rfl⟩
    obtain rfl : brd = brd₁ := Option.some.inj (hdev.symm.trans hbrd₁)
    rw [hioctl] at hioctl₁
    simp only [Except.ok.injEq, Prod.mk.injEq] at hioctl₁
    obtain ⟨herr, rfl⟩ := hioctl₁
    exact ⟨Prod.ext herr.symm hout, rfl⟩
  · rintro ⟨rfl, rfl⟩
    exact ⟨brd, hdev, brd', hioctl, rfl, rfl⟩

/-- An ioctl that leaves the device as it is. -/
theorem answered_of_same {c d : ℕ} {brd : BrdDevice} {cmd : Cmd} {err : Int}
    (hdev : s.devices[d]? = some brd) (hioctl : brdIoctl brd cmd = .ok (err, brd))
    (hplain : PlainStep c p s.content (.ioctl d cmd, (err, [])) s.content) :
    Answered c p s (.ioctl d cmd) where
  served := ⟨_, _, (answers_ioctl hdev hioctl).mpr ⟨rfl, rfl⟩⟩
  plain := by
    intro reply s' hs'
    obtain ⟨rfl, rfl⟩ := (answers_ioctl hdev hioctl).mp hs'
    have hset : ({ s with devices := s.devices.set d brd } : System) = s := by rw [set_self hdev]
    rw [hset]
    exact hplain

/-- The frozen disk stays frozen, and has no snapshot that it could restore. -/
theorem Kept.answered_disk (h : Kept p pages s₀ s) {cmd : Cmd}
    (hthaws : ¬ (Event.ioctl p cmd).Thaws p) : Answered s₀.capacity p s (.ioctl p cmd) := by
  obtain ⟨brd, hdev, hsnapshot, hw, -⟩ := h.frozen
  cases cmd with
  | unsnapshot => exact absurd (.inl rfl) hthaws
  | wipe => exact absurd (.inr rfl) hthaws
  | snapshot =>
    have hfrozen : ({ brd with isWritable := false } : BrdDevice) = brd := by rw [← hw]
    have hioctl : brdIoctl brd .snapshot = .ok (0, brd) := by
      rw [brdIoctl, if_neg (Bool.eq_false_iff.mp hsnapshot), hfrozen]
      rfl
    apply answered_of_same hdev hioctl
    rw [plainStep_snapshot, if_pos rfl]
    exact ⟨rfl, rfl⟩
  | restoreSnapshot =>
    have hioctl : brdIoctl brd .restoreSnapshot = .ok (-enotty, brd) := by
      simp [brdIoctl, hsnapshot, pure, Except.pure]
    apply answered_of_same hdev hioctl
    rw [plainStep_restoreSnapshot, if_pos rfl]
    exact ⟨rfl, rfl⟩
  | other => exact answered_of_same hdev rfl ⟨rfl, rfl⟩

/-- A snapshot takes no ioctl but the one that restores it. -/
theorem Kept.answered_snapshot (h : Kept p pages s₀ s) {d : ℕ} {cmd : Cmd}
    (he : Plain p s₀ (.ioctl d cmd)) (hne : d ≠ p) : Answered s₀.capacity p s (.ioctl d cmd) := by
  obtain ⟨hfamily, hthaws, -⟩ := he
  obtain ⟨brd, hdev, ⟨hp, -⟩ | ⟨-, hsnapshot, -, hparent⟩⟩ := h.family hfamily
  · exact absurd hp hne
  replace hdev : s.devices[d]? = some brd := hdev
  have hrefused (hcmd : cmd ≠ .restoreSnapshot) : brdIoctl brd cmd = .ok (-enotty, brd) := by
    cases cmd <;> simp_all [brdIoctl, pure, Except.pure]
  cases cmd with
  | unsnapshot => exact answered_of_same hdev (hrefused (by decide)) ⟨rfl, rfl⟩
  | wipe => exact answered_of_same hdev (hrefused (by decide)) ⟨rfl, rfl⟩
  | other => exact answered_of_same hdev (hrefused (by decide)) ⟨rfl, rfl⟩
  | snapshot =>
    apply answered_of_same hdev (hrefused (by decide))
    rw [plainStep_snapshot, if_neg hne]
    exact ⟨rfl, rfl⟩
  | restoreSnapshot =>
    have hioctl : brdIoctl brd .restoreSnapshot = .ok (0, { brd with brdPages := ∅ }) := by
      simp [brdIoctl, hsnapshot, brdFreePages_spec (h.wellFormed.indexed _ _ hdev), bind,
        Except.bind, pure, Except.pure]
    have hanswer : Answers s (.ioctl d .restoreSnapshot, (0, [])) (s.setPages d brd ∅) :=
      (answers_ioctl hdev hioctl).mpr ⟨rfl, rfl⟩
    refine ⟨⟨_, _, hanswer⟩, fun reply s' hs' => ?_⟩
    obtain ⟨rfl, rfl⟩ := (answers_ioctl hdev hioctl).mp hs'
    rw [plainStep_restoreSnapshot, if_neg hne]
    have hcontent : (s.setPages d brd ∅).content d = s.content p := by
      rw [System.setPages, h.wellFormed.content_set hdev, h.parentPages hparent, content_empty,
        h.content_base]
    rw [← hcontent]
    exact ⟨rfl, h.content_update hthaws hfamily hanswer.step⟩

theorem Kept.answered (h : Kept p pages s₀ s) {e : Event} (he : Plain p s₀ e) :
    Answered s₀.capacity p s e := by
  cases e with
  | bio d bio env => exact h.answered_bio he
  | ioctl d cmd =>
    by_cases hp : d = p
    · subst hp
      exact h.answered_disk he.2.1
    · exact h.answered_snapshot he hp

/-- Whatever the devices were used for before the disk was frozen: a run of plain events on
the disk and its snapshots is, with all of its replies, one of plain disks. The next plain
event is served as well. -/
theorem plainRun_of_run {base : BrdDevice} (h₀ : Reachable s₀) (hp : s₀.devices[p]? = some base)
    (hbase : base.isSnapshot = false) (hfrozen : base.isWritable = false)
    {ls : List (Event × Reply)} (hls : ∀ l ∈ ls, Plain p s₀ l.1)
    (hrun : Transition.Run Answers s₀ ls s) :
    Transition.Run (PlainStep s₀.capacity p) s₀.content ls s.content ∧
      ∀ e, Plain p s₀ e → ∃ reply s', Answers s (e, reply) s' := by
  have hkept : Kept p base.brdPages s₀ s₀ :=
    ⟨h₀.wellFormed, ⟨base, hp, hbase, hfrozen, rfl⟩, rfl, fun _ => rfl⟩
  obtain ⟨imgs, hplain, hkept', rfl⟩ :
      ∃ imgs, Transition.Run (PlainStep s₀.capacity p) s₀.content ls imgs ∧
        Kept p base.brdPages s₀ s ∧ imgs = s.content := by
    apply hrun.simulate (R := fun s imgs => Kept p base.brdPages s₀ s ∧ imgs = s.content)
      (C := fun l => Plain p s₀ l.1) _ hls ⟨hkept, rfl⟩
    rintro s l t imgs ⟨hs, rfl⟩ hl hstep
    exact ⟨t.content, (hs.answered hl).plain l.2 t hstep, hs.step hl.2.1 hstep.step, rfl⟩
  exact ⟨hplain, fun e he => (hkept'.answered he).served⟩

def frozenDisk : System := ⟨16, [⟨0, none, false, false, ∅⟩, ⟨1, some 0, true, true, ∅⟩]⟩

theorem frozenDisk_reachable : Reachable frozenDisk :=
  ⟨1, 1, 8, [.ioctl 0 .snapshot], by decide, .cons rfl (.nil _)⟩

/-- A write to the snapshot that stays inside of a page. -/
theorem frozenDisk_plain {sector n : ℕ} {v : UInt8} (hin : pageOffset sector + n ≤ pageSize)
    (hn : 2 ^ sectorShift ∣ n) : Plain 0 frozenDisk (.bio 1 (fillBio sector n v) plenty) := by
  refine ⟨⟨_, rfl, .inr rfl⟩, ?_, ?_⟩
  · rintro (h | h) <;> cases h
  · rintro d bio env h
    cases h
    exact ⟨show hasFlag reqWrite reqDiscard = false by decide, hin, hn, trivial⟩

/-- Two sectors of the snapshot are written, and then the second one again. -/
theorem plainRun_frozenDisk : ∃ reply reply' s s',
    Answers frozenDisk (.bio 1 (fillBio 0 1024 7) plenty, reply) s ∧
    Answers s (.bio 1 (fillBio 1 512 9) plenty, reply') s' ∧
    Transition.Run (PlainStep 16 0) frozenDisk.content
      [(.bio 1 (fillBio 0 1024 7) plenty, reply), (.bio 1 (fillBio 1 512 9) plenty, reply')]
      s'.content := by
  have hfirst : Plain 0 frozenDisk (.bio 1 (fillBio 0 1024 7) plenty) :=
    frozenDisk_plain (by decide) ⟨2, rfl⟩
  have hsecond : Plain 0 frozenDisk (.bio 1 (fillBio 1 512 9) plenty) :=
    frozenDisk_plain (by decide) ⟨1, rfl⟩
  obtain ⟨reply, s, hanswer⟩ := (plainRun_of_run frozenDisk_reachable (p := 0) rfl rfl rfl
    (List.forall_mem_nil _) (.nil _)).2 _ hfirst
  obtain ⟨reply', s', hanswer'⟩ := (plainRun_of_run frozenDisk_reachable (p := 0) rfl rfl rfl
    (List.forall_mem_singleton.mpr hfirst) (.cons hanswer (.nil _))).2 _ hsecond
  refine ⟨reply, reply', s, s', hanswer, hanswer', ?_⟩
  exact (plainRun_of_run frozenDisk_reachable (p := 0) rfl rfl rfl
    (List.forall_mem_cons.mpr ⟨hfirst, List.forall_mem_singleton.mpr hsecond⟩)
    (.cons hanswer (.cons hanswer' (.nil _)))).1

end CrashMonkey.CowBrd
