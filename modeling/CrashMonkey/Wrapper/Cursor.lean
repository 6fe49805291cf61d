import CrashMonkey.Wrapper.Queue

/-!
# What the reader sees of the log

Bios and ioctls come in any order. Beside the wrapper the entries logged and the
entries stepped over since the last clear are kept.
-/

namespace CrashMonkey.Wrapper

/-- A bio, with the address of its node and the memory for its data, or an ioctl. -/
inductive Event where
  | bio (bio : Bio) (write : Addr) (data : Payload)
  | ioctl (cmd : Cmd)

structure Traced where
  dev : HwmDevice
  stepped : List (DiskWrite Payload)
  logged : List (DiskWrite Payload)

def Traced.init : Traced := ⟨.init, [], []⟩

/-- The bio with the bytes of its segments one after the other; `data` is the memory
they are copied to. -/
def bioEntry (bio : Bio) (data : Payload) : Except Fault (DiskWrite Payload) := do
  let data ← copySegments (bioMeta bio).size.toNat bio.segments 0 data
  return ⟨bioMeta bio, some data⟩

def step (t : Traced) : Event → Except Fault Traced
  | .bio bio write data => do
    let (dev, _) ← diskWrapperBio ⟨some write, some data⟩ t.dev bio
    if t.dev.logOn && isLogged bio then
      let entry ← bioEntry bio data
      return ⟨dev, t.stepped, t.logged ++ [entry]⟩
    else return ⟨dev, t.stepped, t.logged⟩
  | .ioctl .clrLog => do
    let dev ← diskWrapperIoctl t.dev .clrLog
    return ⟨dev, [], []⟩
  | .ioctl .nextEnt => do
    let node ← currentNode t.dev
    let dev ← diskWrapperIoctl t.dev .nextEnt
    return ⟨dev, t.stepped ++ (node.map DiskWriteOp.entry).toList, t.logged⟩
  | .ioctl cmd => do
    let dev ← diskWrapperIoctl t.dev cmd
    return ⟨dev, t.stepped, t.logged⟩

def Event.Fresh (dev : HwmDevice) : Event → Prop
  | .bio _ write _ => write ∉ dev.heap
  | .ioctl _ => True

def Step (t : Traced) (e : Event) (t' : Traced) : Prop := e.Fresh t.dev ∧ step t e = .ok t'

/-- The entries stepped over and those still reachable are the logged ones, in order. -/
def Complete (t : Traced) : Prop :=
  ∃ nodes, Chain.Linked DiskWriteOp.next t.dev.heap t.dev.currentLogWrite nodes ∧
    t.stepped ++ Nodes.entries nodes = t.logged

/-- A bio is logged although the reader has stepped over all entries before it. -/
def LogsDrained (dev : HwmDevice) : Event → Prop
  | .bio bio _ _ => dev.logOn = true ∧ isLogged bio = true ∧ Drained dev
  | .ioctl _ => False

def Tracks (t : Traced) : Prop :=
  ∃ passed left, Queue t.dev passed left ∧ t.stepped = Nodes.entries passed ∧
    t.logged = Nodes.entries passed ++ Nodes.entries left

theorem Tracks.complete {t : Traced} (h : Tracks t) : Complete t := by
  obtain ⟨passed, left, hqueue, hstepped, hlogged⟩ := h
  exact ⟨left, hqueue.linked, by rw [hstepped, hlogged]⟩

/-- What a logged bio does: its node is linked, and then filled. -/
theorem diskWrapperBio_logged {dev dev' : HwmDevice} {bio bio' : Bio} {write : Addr}
    {data : Payload} (hlog : (dev.logOn && isLogged bio) = true)
    (h : diskWrapperBio ⟨some write, some data⟩ dev bio = .ok (dev', bio')) :
    ∃ dev₁ entry, linkWrite dev write ⟨bioMeta bio, none, none⟩ = .ok dev₁ ∧
      bioEntry bio data = .ok entry ∧
      dev' = { dev₁ with heap := dev₁.heap.insert write ⟨entry.metadata, entry.data, none⟩ } := by
  simp only [diskWrapperBio, hlog, if_true] at h
  obtain ⟨dev₁, hlink, h⟩ := Transition.bind_eq_ok.mp h
  obtain ⟨copied, hcopy, h⟩ := Transition.bind_eq_ok.mp h
  simp only [pure, Except.pure, Except.ok.injEq, Prod.mk.injEq] at h
  refine ⟨dev₁, ⟨bioMeta bio, some copied⟩, hlink, ?_, h.1.symm⟩
  exact Transition.bind_eq_ok.mpr ⟨copied, hcopy, rfl⟩

theorem step_bio_logged {t t' : Traced} {bio : Bio} {write : Addr} {data : Payload}
    (hlog : (t.dev.logOn && isLogged bio) = true) (h : step t (.bio bio write data) = .ok t') :
    ∃ dev₁ entry, linkWrite t.dev write ⟨bioMeta bio, none, none⟩ = .ok dev₁ ∧
      t' = ⟨{ dev₁ with heap := dev₁.heap.insert write ⟨entry.metadata, entry.data, none⟩ },
        t.stepped, t.logged ++ [entry]⟩ := by
  simp only [step] at h
  obtain ⟨⟨dev', bio'⟩, hbio, h⟩ := Transition.bind_eq_ok.mp h
  obtain ⟨dev₁, entry, hlink, hentry, rfl⟩ := diskWrapperBio_logged hlog hbio
  simp only [hlog, if_true, hentry, bind, Except.bind, pure, Except.pure, Except.ok.injEq] at h
  exact ⟨dev₁, entry, hlink, h.symm⟩

theorem step_bio_not_logged {t t' : Traced} {bio : Bio} {write : Addr} {data : Payload}
    (hlog : (t.dev.logOn && isLogged bio) = false) (h : step t (.bio bio write data) = .ok t') :
    t' = t := by
  simp only [step, diskWrapperBio_not_logged hlog, hlog, bind, Except.bind, Bool.false_eq_true,
    if_false, pure, Except.pure, Except.ok.injEq] at h
  exact h.symm

theorem Tracks.bio {t t' : Traced} {bio : Bio} {write : Addr} {data : Payload} (h : Tracks t)
    (hfresh : write ∉ t.dev.heap) (hdrained : ¬ LogsDrained t.dev (.bio bio write data))
    (hstep : step t (.bio bio write data) = .ok t') : Tracks t' := by
  obtain ⟨passed, left, hqueue, hstepped, hlogged⟩ := h
  cases hlog : t.dev.logOn && isLogged bio with
  | false =>
    rw [step_bio_not_logged hlog hstep]
    exact ⟨passed, left, hqueue, hstepped, hlogged⟩
  | true =>
    obtain ⟨dev₁, entry, hlink, rfl⟩ := step_bio_logged hlog hstep
    rw [Bool.and_eq_true] at hlog
    have hnot : ¬ Drained t.dev := fun hd => hdrained ⟨hlog.1, hlog.2, hd⟩
    obtain ⟨dev₂, left', hlink₂, -, hqueue', hentries, -⟩ := linkWrite_queue hqueue hnot hfresh
      ⟨bioMeta bio, none, none⟩ ⟨entry.metadata, entry.data, none⟩ rfl
    rw [hlink, Except.ok.injEq] at hlink₂
    subst hlink₂
    refine ⟨passed, left', hqueue', hstepped, ?_⟩
    rw [hentries, hlogged, List.append_assoc]
    rfl

/-- Other ioctls switch logging at most. -/
theorem ioctl_eq {dev dev' : HwmDevice} {cmd : Cmd} (hclr : cmd ≠ .clrLog)
    (hnext : cmd ≠ .nextEnt) (hdev : diskWrapperIoctl dev cmd = .ok dev') :
    ∃ on, dev' = { dev with logOn := on } := by
  cases cmd with
  | clrLog => exact absurd rfl hclr
  | nextEnt => exact absurd rfl hnext
  | logOff =>
    cases hdev
    exact ⟨false, rfl⟩
  | logOn =>
    cases hdev
    exact ⟨true, rfl⟩
  | getLogMeta accessOk =>
    obtain ⟨_, -, hdev⟩ := Transition.bind_eq_ok.mp hdev
    cases hdev
    exact ⟨dev.logOn, rfl⟩
  | getLogData accessOk =>
    obtain ⟨_, -, hdev⟩ := Transition.bind_eq_ok.mp hdev
    cases hdev
    exact ⟨dev.logOn, rfl⟩
  | other =>
    cases hdev
    exact ⟨dev.logOn, rfl⟩

theorem Tracks.ioctl {t t' : Traced} {cmd : Cmd} (h : Tracks t)
    (hstep : step t (.ioctl cmd) = .ok t') : Tracks t' := by
  obtain ⟨passed, left, hqueue, hstepped, hlogged⟩ := h
  cases cmd with
  | clrLog =>
    obtain ⟨dev', hfree, hempty⟩ := hqueue.freeLogs_eq
    obtain ⟨dev₁, hdev, hstep⟩ := Transition.bind_eq_ok.mp hstep
    obtain rfl : dev' = dev₁ := Except.ok.inj (hfree.symm.trans hdev)
    cases hstep
    exact ⟨[], [], hempty, rfl, rfl⟩
  | nextEnt =>
    cases left with
    | nil =>
      simp only [step, diskWrapperIoctl, hqueue.currentNode_eq, hqueue.nextEnt_nil, bind,
        Except.bind, pure, Except.pure, Except.ok.injEq] at hstep
      rw [← hstep]
      exact ⟨passed, [], hqueue, by simpa using hstepped, hlogged⟩
    | cons n left =>
      obtain ⟨dev', hnext, -, hqueue'⟩ := hqueue.nextEnt_eq
      simp only [step, diskWrapperIoctl, hqueue.currentNode_eq, hnext, bind, Except.bind, pure,
        Except.pure, Except.ok.injEq] at hstep
      rw [← hstep]
      refine ⟨passed ++ [n], left, hqueue', ?_, ?_⟩
      · simp [hstepped, Nodes.entries]
      · simp [hlogged, Nodes.entries]
  | _ =>
    -- the entries are kept
    obtain ⟨dev', hdev, hstep⟩ := Transition.bind_eq_ok.mp hstep
    cases hstep
    obtain ⟨on, rfl⟩ := ioctl_eq (by simp) (by simp) hdev
    exact ⟨passed, left, hqueue.congr rfl rfl rfl rfl, hstepped, hlogged⟩

theorem Tracks.step {t t' : Traced} {e : Event} (h : Tracks t) (he : ¬ LogsDrained t.dev e)
    (hstep : Step t e t') : Tracks t' := by
  obtain ⟨hfresh, hstep⟩ := hstep
  cases e with
  | bio bio write data => exact h.bio hfresh he hstep
  | ioctl cmd => exact h.ioctl hstep

/-- An entry that is logged on a drained queue is not seen. -/
theorem not_complete_of_drained {t t' : Traced} {e : Event} (h : Complete t)
    (he : LogsDrained t.dev e) (hstep : Step t e t') : ¬ Complete t' := by
  cases e with
  | ioctl cmd => cases he
  | bio bio write data =>
    obtain ⟨hon, hlogged, hcurrent, hcursor⟩ := he
    obtain ⟨dev₁, entry, hlink, rfl⟩ := step_bio_logged (by rw [hon, hlogged]; rfl) hstep.2
    have hcursor₁ : dev₁.currentLogWrite = none := by
      obtain ⟨last, hlast⟩ := Option.ne_none_iff_exists'.mp hcurrent
      rw [linkWrite, hlast] at hlink
      dsimp only at hlink
      split at hlink
      · cases hlink
      · rw [Except.ok.injEq] at hlink
        rw [← hlink, hcursor]
    obtain ⟨nodes, hnodes, hall⟩ := h
    rw [hcursor] at hnodes
    cases hnodes
    rintro ⟨nodes', hnodes', hall'⟩
    simp only [hcursor₁] at hnodes'
    cases hnodes'
    rw [← hall] at hall'
    simp at hall'

/-- In a run that logs nothing on a drained queue the reader sees all entries, and the
next step keeps it so exactly if it does not either. -/
theorem complete_of_run {t : Traced} {es : List Event}
    (hrun : Transition.Run (fun t e t' => Step t e t' ∧ ¬ LogsDrained t.dev e) .init es t) :
    Complete t ∧ ∀ e t', Step t e t' → (Complete t' ↔ ¬ LogsDrained t.dev e) := by
  have htracks : Tracks t := by
    have hinit : Tracks .init := ⟨[], [], queue_init, rfl, rfl⟩
    refine hrun.invariant (I := Tracks) (C := fun _ => True) ?_ (by simp) hinit
    exact fun _ _ _ h _ hstep => h.step hstep.2 hstep.1
  refine ⟨htracks.complete, fun e t' hstep => ⟨fun h hdrained => ?_, fun h => ?_⟩⟩
  · exact not_complete_of_drained htracks.complete hdrained hstep h
  · exact (htracks.step h hstep).complete

theorem Intact.step {t t' : Traced} {e : Event} (h : Intact t.dev) (hstep : Step t e t') :
    Intact t'.dev := by
  obtain ⟨hfresh, hstep⟩ := hstep
  cases e with
  | bio bio write data =>
    cases hlog : t.dev.logOn && isLogged bio with
    | false => rwa [step_bio_not_logged hlog hstep]
    | true =>
      obtain ⟨dev₁, entry, hlink, rfl⟩ := step_bio_logged hlog hstep
      exact h.linkWrite hfresh rfl hlink
  | ioctl cmd =>
    cases cmd with
    | clrLog =>
      obtain ⟨dev₁, hfree, hempty⟩ := h.freeLogs_eq
      obtain ⟨dev₂, hdev, hstep⟩ := Transition.bind_eq_ok.mp hstep
      obtain rfl : dev₁ = dev₂ := Except.ok.inj (hfree.symm.trans hdev)
      cases hstep
      exact hempty.intact
    | nextEnt =>
      -- only the cursor moves
      obtain ⟨node, hnode, hstep⟩ := Transition.bind_eq_ok.mp hstep
      cases node <;>
        simp only [diskWrapperIoctl, nextEnt, hnode, bind, Except.bind, pure, Except.pure,
          Except.ok.injEq] at hstep
      · rwa [← hstep]
      · rw [← hstep]
        exact h
    | _ =>
      obtain ⟨dev₁, hdev, hstep⟩ := Transition.bind_eq_ok.mp hstep
      cases hstep
      obtain ⟨on, rfl⟩ := ioctl_eq (by simp) (by simp) hdev
      obtain ⟨nodes, hqueue⟩ := h
      exact ⟨nodes, hqueue.congr rfl rfl rfl rfl⟩

/-- The nodes are intact whatever was logged, stepped over and cleared. -/
theorem intact_of_run {t : Traced} {es : List Event}
    (hrun : Transition.Run Step .init es t) : Intact t.dev :=
  hrun.invariant (I := fun t => Intact t.dev) (C := fun _ => True)
    (fun _ _ _ h _ hstep => h.step hstep) (by simp) queue_init.intact

def flushAt (write : Addr) : Event := .bio ⟨0, reqFlush, 0, 0, []⟩ write fun _ => 0

theorem complete_steppedOver : ∃ t, Transition.Run (fun t e t' => Step t e t' ∧ ¬ LogsDrained t.dev e)
    .init [.ioctl .logOn, flushAt 1, .ioctl .nextEnt] t ∧ t.stepped.length = 1 ∧ Complete t := by
  obtain ⟨t, hrun, hlen⟩ : ∃ t, Transition.Run (fun t e t' => Step t e t' ∧ ¬ LogsDrained t.dev e)
      .init [.ioctl .logOn, flushAt 1, .ioctl .nextEnt] t ∧ t.stepped.length = 1 := by
    refine ⟨_, .cons ⟨⟨trivial, rfl⟩, id⟩ (.cons ⟨⟨?_, rfl⟩, ?_⟩
      (.cons ⟨⟨trivial, rfl⟩, id⟩ (.nil _))), rfl⟩
    · exact Finmap.notMem_empty
    · exact fun h => h.2.2.1 rfl
  exact ⟨t, hrun, hlen, (complete_of_run hrun).1⟩

/-- One flush is stepped over before the other is logged. -/
theorem not_complete_drained : ¬ ∀ (t : Traced) (es : List Event),
    Transition.Run Step .init es t → Complete t := by
  intro h
  obtain ⟨t, u, hrun, hstep, hdrained⟩ : ∃ t u,
      Transition.Run Step .init [.ioctl .logOn, flushAt 1, .ioctl .nextEnt] t ∧
      Step t (flushAt 2) u ∧ LogsDrained t.dev (flushAt 2) := by
    refine ⟨_, _, .cons ⟨trivial, rfl⟩ (.cons ⟨?_, rfl⟩ (.cons ⟨trivial, rfl⟩ (.nil _))), ⟨?_, rfl⟩, ?_⟩
    · exact Finmap.notMem_empty
    · simp [Event.Fresh, flushAt, Traced.init, HwmDevice.init, Finmap.notMem_empty]
    · exact ⟨rfl, rfl, by simp, rfl⟩
  exact not_complete_of_drained (h t _ hrun) hdrained hstep
    (h u _ (hrun.append (.cons hstep (.nil u))))
end CrashMonkey.Wrapper
