import CrashMonkey.CowBrd.Laws

namespace CrashMonkey.CowBrd

def Frozen (p : ℕ) (pages : PageTree) (s : System) : Prop :=
  ∃ base, s.devices[p]? = some base ∧ base.isSnapshot = false ∧ base.isWritable = false ∧
    base.brdPages = pages

theorem Frozen.step {p : ℕ} {pages : PageTree} {s s' : System} {e : Event} (hs : WellFormed s)
    (h : Frozen p pages s) (he : ¬ e.Thaws p) (hstep : Step s e s') : Frozen p pages s' := by
  obtain ⟨base, hp, hsnap, hw, hpages⟩ := h
  rcases hs.step_device hstep p with hd | ⟨rfl, old, new, hold, hnew, hserved⟩
  · exact ⟨base, hd ▸ hp, hsnap, hw, hpages⟩
  · rw [hold, Option.some.injEq] at hp
    subst hp
    obtain ⟨hw', hpages'⟩ := hserved.frozen hsnap hw he
    exact ⟨new, hnew, hserved.isSnapshot.trans hsnap, hw', hpages'.trans hpages⟩

theorem Frozen.run {p : ℕ} {pages : PageTree} {s s' : System} {es : List Event}
    (hs : WellFormed s) (h : Frozen p pages s) (hes : ∀ e ∈ es, ¬ e.Thaws p)
    (hrun : Transition.Run Step s es s') : WellFormed s' ∧ Frozen p pages s' :=
  hrun.invariant (I := fun s => WellFormed s ∧ Frozen p pages s) (C := fun e => ¬ e.Thaws p)
    (fun _ _ _ hI he hstep => ⟨hI.1.step hstep, hI.2.step hI.1 he hstep⟩) hes ⟨hs, h⟩

/-- The ioctl that freezes a disk. -/
theorem frozen_snapshot {s s' : System} {p : ℕ} {base : BrdDevice} (hp : s.devices[p]? = some base)
    (hbase : base.isSnapshot = false) (h : Step s (.ioctl p .snapshot) s') :
    Frozen p base.brdPages s' := by
  rcases step_cases h with ⟨hnone, -⟩ | ⟨brd, brd', hbrd, hserve, rfl⟩
  · rw [Event.dev, hp] at hnone
    cases hnone
  · rw [Event.dev, hp, Option.some.injEq] at hbrd
    subst hbrd
    simp only [serve, brdIoctl, hbase, Bool.false_eq_true, if_false, bind, Except.bind, pure,
      Except.pure, Except.ok.injEq] at hserve
    rw [← hserve]
    have hlt := (List.getElem?_eq_some_iff.mp hp).1
    exact ⟨_, List.getElem?_set_self hlt, rfl, rfl, rfl⟩

/-- The content of a device depends on its own pages and those of its parent only. -/
theorem content_congr {s s' : System} {d : ℕ}
    (hd : s'.devices[d]? = s.devices[d]?)
    (hparent : ∀ brd p, s.devices[d]? = some brd → brd.parentBrd = some p →
      s'.devices[p]?.map BrdDevice.brdPages = s.devices[p]?.map BrdDevice.brdPages) :
    s'.content d = s.content d := by
  unfold System.content
  rw [hd]
  cases hbrd : s.devices[d]? with
  | none => rfl
  | some brd =>
    have hpages : s'.parentPages brd = s.parentPages brd := by
      unfold System.parentPages
      cases hp : brd.parentBrd with
      | none => rfl
      | some p => exact hparent brd p hbrd hp
    rw [Option.elim_some, Option.elim_some, hpages]

/-- An event on a snapshot changes the content of no other device. -/
theorem content_of_ne {s s' : System} {e : Event} {d : ℕ} {snap : BrdDevice} (hs : WellFormed s)
    (hstep : Step s e s') (hdev : s.devices[e.dev]? = some snap) (hsnap : snap.isSnapshot = true)
    (hne : d ≠ e.dev) : s'.content d = s.content d := by
  have hkeep {k : ℕ} (hk : k ≠ e.dev) : s'.devices[k]? = s.devices[k]? := by
    rcases hs.step_device hstep k with h | ⟨h, -⟩
    · exact h
    · exact absurd h hk
  apply content_congr (hkeep hne)
  intro brd p hbrd hp
  -- a parent is a disk, not the snapshot
  have hpne : p ≠ e.dev := by
    rintro rfl
    obtain ⟨-, q, base, hq, hbase, hdisk⟩ := hs.snapshot d brd hbrd (hs.isSnapshot_of_parent hbrd hp)
    rw [hp, Option.some.injEq] at hq
    subst hq
    rw [hdev, Option.some.injEq] at hbase
    rw [hbase, hdisk] at hsnap
    cases hsnap
  rw [hkeep hpne]

/-- A disk holds what is on its pages. -/
theorem content_disk {s : System} (hs : WellFormed s) {p : ℕ} {base : BrdDevice}
    (hp : s.devices[p]? = some base) (hbase : base.isSnapshot = false) :
    s.content p = CowBrd.content none base.brdPages := by
  rw [content_of_getElem hp, System.parentPages, hs.disk p base hp hbase]
  rfl

/-- A device without pages holds what its parent holds. -/
theorem content_empty (pages : PageTree) : CowBrd.content (some pages) ∅ = CowBrd.content none pages := by
  funext b
  unfold CowBrd.content pageByte
  rw [Finmap.lookup_empty, Option.none_or, Option.bind_some, Option.bind_none, Option.or_none]

theorem content_none_empty : CowBrd.content none ∅ = fun _ => 0 := by
  funext b
  unfold CowBrd.content pageByte
  rw [Finmap.lookup_empty]
  rfl

/-- New devices read as zeros. -/
theorem content_brdInit (numDisks numSnapshots diskSize d : ℕ) :
    (brdInit numDisks numSnapshots diskSize).content d = fun _ => 0 := by
  have hpages {i : ℕ} {brd : BrdDevice}
      (h : (brdInit numDisks numSnapshots diskSize).devices[i]? = some brd) : brd.brdPages = ∅ := by
    rw [brdInit_devices, List.getElem?_map, Option.map_eq_some_iff] at h
    obtain ⟨j, -, rfl⟩ := h
    rfl
  unfold System.content
  cases hd : (brdInit numDisks numSnapshots diskSize).devices[d]? with
  | none => rfl
  | some brd =>
    rw [Option.elim_some, hpages hd]
    cases hparent : (brdInit numDisks numSnapshots diskSize).parentPages brd with
    | none => exact content_none_empty
    | some pages =>
      unfold System.parentPages at hparent
      obtain ⟨p, -, hp⟩ := Option.bind_eq_some_iff.mp hparent
      obtain ⟨base, hbase, rfl⟩ := Option.map_eq_some_iff.mp hp
      rw [hpages hbase, content_empty, content_none_empty]

/-- Restoring a snapshot succeeds and leaves the content of its frozen disk. -/
theorem restore_spec {s : System} (hs : WellFormed s) {d p : ℕ} {snap : BrdDevice}
    {pages : PageTree} (hd : s.devices[d]? = some snap) (hparent : snap.parentBrd = some p)
    (hp : Frozen p pages s) :
    ∃ s', Step s (.ioctl d .restoreSnapshot) s' ∧ s'.content d = CowBrd.content none pages := by
  have hsnap := hs.isSnapshot_of_parent hd hparent
  obtain ⟨base, hbase, -, -, rfl⟩ := hp
  refine ⟨{ s with devices := s.devices.set d { snap with brdPages := ∅ } }, ?_, ?_⟩
  · unfold Step step
    simp [Event.dev, hd, serve, brdIoctl, hsnap, brdFreePages_spec (hs.indexed d snap hd), bind,
      Except.bind, pure, Except.pure]
  · rw [hs.content_set hd, System.parentPages, hparent, Option.bind_some, hbase]
    exact content_empty _

/-- How `s` is related to the state `s₀` in which the disk `p` was frozen. -/
structure Isolated (p : ℕ) (s₀ s : System) : Prop where
  pages_eq : s.devices[p]?.map BrdDevice.brdPages = s₀.devices[p]?.map BrdDevice.brdPages
  content_eq : ∀ (e : Event) (s' : System) (snap : BrdDevice), Step s e s' →
    s.devices[e.dev]? = some snap → snap.isSnapshot = true →
    ∀ d, d ≠ e.dev → s'.content d = s.content d
  restored : ∀ (d : ℕ) (snap : BrdDevice), s.devices[d]? = some snap → snap.parentBrd = some p →
    ∃ s', Step s (.ioctl d .restoreSnapshot) s' ∧ s'.content d = s₀.content p

/-- Until the disk is thawed, whatever is requested of the devices. -/
theorem isolated_of_run {s₀ s₁ s : System} {p : ℕ} {base : BrdDevice} {es : List Event}
    (h₀ : Reachable s₀) (hp : s₀.devices[p]? = some base) (hbase : base.isSnapshot = false)
    (hfreeze : Step s₀ (.ioctl p .snapshot) s₁) (hrun : Transition.Run Step s₁ es s)
    (hes : ∀ e ∈ es, ¬ e.Thaws p) : Isolated p s₀ s := by
  have hw₀ := h₀.wellFormed
  obtain ⟨hw, hfrozen⟩ := (frozen_snapshot hp hbase hfreeze).run (hw₀.step hfreeze) hes hrun
  constructor
  · obtain ⟨base', hp', -, -, hpages⟩ := hfrozen
    rw [hp, hp', Option.map_some, Option.map_some, hpages]
  · intro e s' snap hstep hdev hsnap d hne
    exact content_of_ne hw hstep hdev hsnap hne
  · intro d snap hd hparent
    rw [content_disk hw₀ hp hbase]
    exact restore_spec hw hd hparent hfrozen

/-- A write to the snapshot of a new disk, after the disk was frozen. -/
theorem isolated_brdInit : ∃ s₁ s, Step (brdInit 1 1 8) (.ioctl 0 .snapshot) s₁ ∧
    Transition.Run Step s₁ [.bio 1 (fillBio 0 512 7) plenty] s ∧ s.content 1 3 = 7 ∧
    Isolated 0 (brdInit 1 1 8) s := by
  obtain ⟨s, hrun, hs⟩ := Transition.exists_run_of_foldlM (f := step) (s := brdInit 1 1 8)
    [.ioctl 0 .snapshot, .bio 1 (fillBio 0 512 7) plenty] (fun s => s.content 1 3 == 7) (by rfl)
  cases hrun with
  | cons hfreeze hrun =>
    refine ⟨_, s, hfreeze, hrun, eq_of_beq hs, ?_⟩
    apply isolated_of_run ⟨1, 1, 8, [], by decide, .nil _⟩ (p := 0) rfl rfl hfreeze hrun
    simp [Event.Thaws]

end CrashMonkey.CowBrd
