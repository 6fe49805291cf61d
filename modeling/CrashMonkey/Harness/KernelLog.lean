import CrashMonkey.Harness.WrapperLog
import CrashMonkey.Wrapper.Cursor

namespace CrashMonkey

open Wrapper

def serve (dev : HwmDevice) : Wrapper.Event → Except Fault HwmDevice
  | .bio bio write data => do
    let (dev, _) ← diskWrapperBio ⟨some write, some data⟩ dev bio
    return dev
  | .ioctl cmd => diskWrapperIoctl dev cmd

def serveAll : HwmDevice → List Wrapper.Event → Except Fault HwmDevice
  | dev, [] => .ok dev
  | dev, e :: es => do
    let dev ← serve dev e
    serveAll dev es

/-- Each node is made in memory that is not in use then. -/
def FreshRun : HwmDevice → List Wrapper.Event → Prop
  | _, [] => True
  | dev, e :: es => e.Fresh dev ∧ ∀ dev', serve dev e = .ok dev' → FreshRun dev' es

/-- A bio whose segments have `BI_SIZE` bytes (an `unsigned int`), or a switch. -/
def Recording : Wrapper.Event → Prop
  | .bio bio _ _ => segmentsSize bio.segments = bio.biSize ∧ bio.biSize < 2 ^ 32
  | .ioctl cmd => cmd = .logOn ∨ cmd = .logOff

def changesDisk (bio : Bio) : Bool :=
  [reqWrite, reqFua, reqFlush, reqFlushSeq, reqDiscard].any (hasFlag bio.biRw)

/-- The bios submitted while logging is on that are to be logged, in order. -/
def recordedBios : Bool → List Wrapper.Event → List Bio
  | _, [] => []
  | on, .bio bio _ _ :: es =>
    if on && changesDisk bio then bio :: recordedBios on es else recordedBios on es
  | _, .ioctl .logOn :: es => recordedBios true es
  | _, .ioctl .logOff :: es => recordedBios false es
  | on, .ioctl _ :: es => recordedBios on es

def bioOp (bio : Bio) : DiskWrite Payload where
  metadata := ⟨bio.biFlags, bio.biRw, .ofNat 64 bio.biSector, .ofNat 32 bio.biSize⟩
  data := if bio.biSize = 0 then none else some (memdup (segmentsData bio.segments) bio.biSize)

theorem isLogged_eq (bio : Bio) : isLogged bio = changesDisk bio := by
  simp only [isLogged, changesDisk, List.any_cons, List.any_nil, Bool.or_false]
  cases hasFlag bio.biRw reqWrite <;> cases hasFlag bio.biRw reqFua <;>
    cases hasFlag bio.biRw reqFlush <;> simp

/-- What is fetched of a node that is filled with the segments of its bio. -/
theorem fetched_bio {bio : Bio} (hsize : segmentsSize bio.segments = bio.biSize)
    (hlt : bio.biSize < 2 ^ 32) (data : Payload) :
    fetched ⟨bioMeta bio, some (Image.overlay data 0 (segmentsSize bio.segments)
      (segmentsData bio.segments))⟩ = bioOp bio := by
  have hnat : (bioMeta bio).size.toNat = bio.biSize :=
    (BitVec.toNat_ofNat _ _).trans (Nat.mod_eq_of_lt hlt)
  have hzero : (bioMeta bio).size = 0 ↔ bio.biSize = 0 := by rw [size_eq_zero_iff, hnat]
  unfold fetched diskWrite bioOp
  simp only [hzero, hnat, hsize, Option.map_some, Option.getD_some]
  -- both copies keep the bytes of the segments, and pad the rest alike
  have hdata : memdup (memdup (Image.overlay data 0 bio.biSize (segmentsData bio.segments))
      bio.biSize) bio.biSize = memdup (segmentsData bio.segments) bio.biSize := by
    apply Image.overlay_inj.mpr
    intro i hi
    rw [memdup_apply _ hi, Image.overlay_of_mem ⟨Nat.zero_le i, by omega⟩, Nat.sub_zero]
  rw [hdata]
  rfl

/-- The log holds `bios`, and nothing of it was read yet. -/
def Holds (dev : HwmDevice) (bios : List Bio) : Prop :=
  ∃ left, Queue dev [] left ∧ (∀ w ∈ left.entries, w.data.isSome) ∧
    left.entries.map fetched = bios.map bioOp

theorem Holds.bio {dev : HwmDevice} {bios : List Bio} (h : Holds dev bios) {bio : Bio}
    (hsize : segmentsSize bio.segments = bio.biSize) (hlt : bio.biSize < 2 ^ 32) {write : Addr}
    (hfresh : write ∉ dev.heap) (data : Payload) :
    ∃ dev', serve dev (.bio bio write data) = .ok dev' ∧ dev'.logOn = dev.logOn ∧
      Holds dev' (bios ++ if dev.logOn && changesDisk bio then [bio] else []) := by
  obtain ⟨left, hqueue, hdata, hentries⟩ := h
  rw [← isLogged_eq]
  cases hlog : dev.logOn && isLogged bio with
  | false =>
    refine ⟨dev, ?_, rfl, left, hqueue, hdata, by simpa using hentries⟩
    simp only [serve, diskWrapperBio_not_logged hlog]
    rfl
  | true =>
    have hdrained : ¬ Drained dev := fun hd => (hqueue.drained_iff.mp hd).1 rfl
    have hroom : segmentsSize bio.segments ≤ (bioMeta bio).size.toNat := by
      rw [hsize]
      exact ((BitVec.toNat_ofNat _ _).trans (Nat.mod_eq_of_lt hlt)).ge
    obtain ⟨dev', left', hbio, hon, hqueue', hentries'⟩ :=
      diskWrapperBio_queue hqueue hdrained hlog hfresh data hroom
    refine ⟨dev', ?_, hon, left', hqueue', ?_, ?_⟩
    · simp only [serve, hbio]
      rfl
    · rw [hentries']
      exact List.forall_mem_append.mpr ⟨hdata, List.forall_mem_singleton.mpr rfl⟩
    · rw [hentries', List.map_append, hentries, if_pos rfl, List.map_append, List.map_singleton,
        List.map_singleton, fetched_bio hsize hlt]

theorem Holds.serveAll {dev : HwmDevice} {bios : List Bio} (h : Holds dev bios)
    {es : List Wrapper.Event}
    (hes : ∀ e ∈ es, Recording e) (hfresh : FreshRun dev es) :
    ∃ dev', serveAll dev es = .ok dev' ∧ Holds dev' (bios ++ recordedBios dev.logOn es) := by
  induction es generalizing dev bios with
  | nil => exact ⟨dev, rfl, by simpa [recordedBios] using h⟩
  | cons e es ih =>
    obtain ⟨he, hes⟩ := List.forall_mem_cons.mp hes
    obtain ⟨hnew, hrest⟩ := hfresh
    -- a step gives a wrapper that holds what it should, then the others follow
    have hnext {dev₁ : HwmDevice} {bios₁ : List Bio} (hstep : serve dev e = .ok dev₁)
        (h₁ : Holds dev₁ bios₁)
        (heq : bios₁ ++ recordedBios dev₁.logOn es = bios ++ recordedBios dev.logOn (e :: es)) :
        ∃ dev', CrashMonkey.serveAll dev (e :: es) = .ok dev' ∧
          Holds dev' (bios ++ recordedBios dev.logOn (e :: es)) := by
      obtain ⟨dev', hall, hholds⟩ := ih h₁ hes (hrest dev₁ hstep)
      exact ⟨dev', Transition.bind_eq_ok.mpr ⟨dev₁, hstep, hall⟩, heq ▸ hholds⟩
    cases e with
    | bio bio write data =>
      obtain ⟨dev₁, hstep, hon, h₁⟩ := h.bio he.1 he.2 hnew data
      apply hnext hstep h₁
      rw [hon, recordedBios]
      split_ifs <;> simp
    | ioctl cmd =>
      obtain ⟨left, hqueue, hdata, hentries⟩ := h
      rcases he with rfl | rfl
      · exact hnext rfl ⟨left, hqueue.congr rfl rfl rfl rfl, hdata, hentries⟩ rfl
      · exact hnext rfl ⟨left, hqueue.congr rfl rfl rfl rfl, hdata, hentries⟩ rfl

/-- Whatever the wrapper was used for before the clear: with logging on, what follows is
recorded, and the fetch returns exactly the bios that were submitted while logging was on
and change the disk. -/
theorem getWrapperLog_of_recording {before : List Wrapper.Event} {t : Traced}
    {es : List Wrapper.Event} (hbefore : Transition.Run Wrapper.Step .init before t)
    (hes : ∀ e ∈ es, Recording e)
    (hfresh : FreshRun t.dev (.ioctl .clrLog :: .ioctl .logOn :: es)) :
    ∃ dev', serveAll t.dev (.ioctl .clrLog :: .ioctl .logOn :: es) = .ok dev' ∧
      ∀ access, (∀ a ∈ access, a = (true, true)) → (recordedBios true es).length < access.length →
        ∃ dev'', getWrapperLog access dev' [] =
          .ok (some (SUCCESS, (recordedBios true es).map bioOp, dev'')) := by
  obtain ⟨dev₀, hclear, hempty⟩ := (intact_of_run hbefore).freeLogs_eq
  have hon : Holds { dev₀ with logOn := true } [] :=
    ⟨[], hempty.congr rfl rfl rfl rfl, by simp [Nodes.entries], rfl⟩
  obtain ⟨dev', hall, left', hqueue', hdata', hentries'⟩ :=
    hon.serveAll hes (((hfresh.2 dev₀ hclear).2) _ rfl)
  refine ⟨dev', ?_, fun access haccess hlen => ?_⟩
  · exact Transition.bind_eq_ok.mpr ⟨dev₀, hclear, Transition.bind_eq_ok.mpr ⟨_, rfl, hall⟩⟩
  · have hcount := congrArg List.length hentries'
    simp only [Nodes.entries, List.length_map, List.nil_append] at hcount
    obtain ⟨dev'', hlog⟩ := getWrapperLog_eq hqueue' hdata' haccess (by omega) []
    exact ⟨dev'', by rw [hlog, hentries', List.nil_append, List.nil_append]⟩

def twoSegments : List Wrapper.Event :=
  [.bio ⟨0, reqWrite, 3, 4, [⟨fun i => .ofNat i, 3, 1⟩, ⟨fun _ => 9, 1, 0⟩]⟩ 1 fun _ => 170,
    .ioctl .logOff, .bio ⟨0, reqWrite, 5, 0, []⟩ 2 fun _ => 0]

theorem getWrapperLog_twoSegments :
    Transition.Run Wrapper.Step .init [] .init ∧ (∀ e ∈ twoSegments, Recording e) ∧
    FreshRun .init (.ioctl .clrLog :: .ioctl .logOn :: twoSegments) ∧
    ∃ dev', serveAll .init (.ioctl .clrLog :: .ioctl .logOn :: twoSegments) = .ok dev' ∧
      ∀ access, (∀ a ∈ access, a = (true, true)) →
        (recordedBios true twoSegments).length < access.length →
        ∃ dev'', getWrapperLog access dev' [] =
          .ok (some (SUCCESS, (recordedBios true twoSegments).map bioOp, dev'')) := by
  have hes : ∀ e ∈ twoSegments, Recording e := by
    intro e he
    simp only [twoSegments, List.mem_cons, List.not_mem_nil, or_false] at he
    rcases he with rfl | rfl | rfl
    · exact ⟨rfl, by decide⟩
    · exact .inr rfl
    · exact ⟨rfl, by decide⟩
  have hfresh : FreshRun .init (.ioctl .clrLog :: .ioctl .logOn :: twoSegments) := by
    refine ⟨trivial, fun dev₁ h₁ => ⟨trivial, fun dev₂ h₂ => ⟨?_, fun dev₃ h₃ => ⟨trivial,
      fun dev₄ h₄ => ⟨?_, fun _ _ => trivial⟩⟩⟩⟩⟩
    all_goals
      have hfree : serve .init (.ioctl .clrLog) = .ok .init := by
        simp [serve, diskWrapperIoctl, freeLogs, freeNodes, HwmDevice.init, bind, Except.bind, pure,
          Except.pure]
      obtain rfl := Except.ok.inj (hfree.symm.trans h₁)
      cases h₂
    · exact Finmap.notMem_empty
    · cases h₃
      cases h₄
      simp [Wrapper.Event.Fresh, HwmDevice.init, Finmap.notMem_empty]
  exact ⟨.nil _, hes, hfresh, getWrapperLog_of_recording (.nil Traced.init) hes hfresh⟩

end CrashMonkey
