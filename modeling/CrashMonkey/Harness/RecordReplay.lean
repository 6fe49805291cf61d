import CrashMonkey.CowBrd.Isolation
import CrashMonkey.CowBrd.Requests
import CrashMonkey.Harness.WrapperLog

/-!
# Recording and replaying

Bios go through the wrapper to a snapshot. The log is then fetched, the snapshot is
restored, and the log is written to it.
-/

namespace CrashMonkey

open Wrapper

/-- A bio, and what it meets on its way: memory of the device, and memory of the wrapper. -/
structure Submission where
  bio : Bio
  env : CowBrd.Env
  write : Addr
  data : Payload

structure Recorder where
  devices : CowBrd.System
  wrapper : HwmDevice

def Submit (d : ℕ) (r : Recorder) (x : Submission) (r' : Recorder) : Prop :=
  x.write ∉ r.wrapper.heap ∧
  ∃ bio, diskWrapperBio ⟨some x.write, some x.data⟩ r.wrapper x.bio = .ok (r'.wrapper, bio) ∧
    CowBrd.Step r.devices (.bio d bio x.env) r'.devices

/-- What the block layer submits to a device of `capacity` sectors. -/
structure Submission.Valid (capacity : ℕ) (x : Submission) : Prop where
  plenty : x.env.Plenty
  size_lt : x.bio.biSize < 2 ^ 32
  inside : x.bio.endSector ≤ capacity
  sectored : CowBrd.Sectored x.bio.segments
  size_eq : hasFlag x.bio.biRw reqDiscard = false → segmentsSize x.bio.segments = x.bio.biSize
  discard : hasFlag x.bio.biRw reqDiscard = true →
    hasFlag x.bio.biRw reqWrite = true ∧ x.bio.segments = []

/-- The bio changes nothing of device `d` but the bytes it writes. -/
def Recorder.Keeps (d : ℕ) (r : Recorder) (bio : Bio) : Prop :=
  ∀ brd, r.devices.devices[d]? = some brd →
    CowBrd.Keeps (r.devices.parentPages brd) brd.brdPages bio

/-- Device `d` is a snapshot like its frozen disk, and the log is on and empty. -/
structure Recorder.Starts (d : ℕ) (r : Recorder) : Prop where
  reachable : CowBrd.Reachable r.devices
  snapshot : ∃ snap p base, r.devices.devices[d]? = some snap ∧ snap.parentBrd = some p ∧
    r.devices.devices[p]? = some base ∧ base.isWritable = false ∧
    r.devices.content d = r.devices.content p
  logOn : r.wrapper.logOn = true
  empty : r.wrapper.writes = none ∧ r.wrapper.currentWrite = none ∧
    r.wrapper.currentLogWrite = none

/-- The whole log can be fetched, device `d` can be restored, and then the log, if no
call fails, is written to the end and gives the content that the device had. -/
def Recorder.Replays (d : ℕ) (r : Recorder) : Prop :=
  ∃ log s,
    (∃ n, ∀ access : List (Bool × Bool), (∀ a ∈ access, a = (true, true)) → n < access.length →
      ∃ dev, getWrapperLog access r.wrapper [] = .ok (some (SUCCESS, log, dev))) ∧
    CowBrd.Step r.devices (.ioctl d .restoreSnapshot) s ∧
    (∀ calls, .failed ∉ calls → ∀ res img rest,
      testWriteData (r.devices.capacity * 512) log calls (s.content d) = some (res, img, rest) →
      res = true ∧ img = r.devices.content d) ∧
    ∀ calls, Accepting calls → callsNeeded log ≤ calls.length → ∃ img rest,
      testWriteData (r.devices.capacity * 512) log calls (s.content d) = some (true, img, rest)

/-- While the log grows: device `d` is a snapshot of the frozen disk `p`, and the entries
in the nodes `left` can be written to it. -/
structure Logs (d p : ℕ) (pages : CowBrd.PageTree) (r : Recorder) (left : Nodes) : Prop where
  wellFormed : CowBrd.WellFormed r.devices
  capacity_lt : r.devices.capacity < 2 ^ 31
  frozen : CowBrd.Frozen p pages r.devices
  snapshot : ∃ snap, r.devices.devices[d]? = some snap ∧ snap.parentBrd = some p
  logOn : r.wrapper.logOn = true
  queue : Queue r.wrapper [] left
  data : ∀ w ∈ left.entries, w.data.isSome
  replayable : ∀ w ∈ left.entries, Replayable (r.devices.capacity * 512) w

def Follows (d : ℕ) (pages : CowBrd.PageTree) (r : Recorder) (left : Nodes) : Prop :=
  r.devices.content d = left.entries.foldl replayOp (CowBrd.content none pages)

theorem Recorder.Starts.follows {d : ℕ} {r : Recorder} (h : r.Starts d) :
    ∃ p pages, Logs d p pages r [] ∧ Follows d pages r [] := by
  have hw := h.reachable.wellFormed
  obtain ⟨snap, p, base, hd, hparent, hp, hfrozen, hcontent⟩ := h.snapshot
  obtain ⟨-, q, base', hq, hbase', hdisk⟩ := hw.snapshot d snap hd (hw.isSnapshot_of_parent hd hparent)
  rw [hparent, Option.some.injEq] at hq
  subst hq
  rw [hp, Option.some.injEq] at hbase'
  subst hbase'
  obtain ⟨hwrites, hcurrent, hcursor⟩ := h.empty
  refine ⟨p, base.brdPages, ⟨hw, h.reachable.capacity_lt, ⟨base, hp, hdisk, hfrozen, rfl⟩,
    ⟨snap, hd, hparent⟩, h.logOn, ⟨hwrites ▸ .nil, hcursor, List.nodup_nil, hcurrent⟩,
    fun w hmem => (nomatch hmem), fun w hmem => (nomatch hmem)⟩, ?_⟩
  exact hcontent.trans (CowBrd.content_disk hw hp hdisk)

theorem segmentsSize_dvd {vecs : List Segment} (h : CowBrd.Sectored vecs) :
    2 ^ 9 ∣ segmentsSize vecs := by
  induction vecs with
  | nil => exact Nat.dvd_zero _
  | cons vec vecs ih =>
    obtain ⟨hvec, hrest⟩ := List.forall_mem_cons.mp h
    exact Nat.dvd_add hvec.2 (ih hrest)

/-- The entry of a bio that is kept: where it is written, and that it can be. -/
theorem entry_spec {capacity : ℕ} (hcap : capacity < 2 ^ 31) {x : Submission}
    (hx : x.Valid capacity) (hkeeps : hasFlag x.bio.biRw reqDiscard = true → x.bio.biSize = 0)
    (data : Payload) :
    (bioMeta x.bio).size.toNat = x.bio.biSize ∧
    (bioMeta x.bio).writeSector.toNat = x.bio.biSector ∧
    (⟨bioMeta x.bio, some data⟩ : DiskWrite Payload).byteAddr = x.bio.biSector * 512 ∧
    Replayable (capacity * 512) ⟨bioMeta x.bio, some data⟩ := by
  have hend := hx.inside
  unfold Bio.endSector at hend
  have hsize : (bioMeta x.bio).size.toNat = x.bio.biSize :=
    (BitVec.toNat_ofNat _ _).trans (Nat.mod_eq_of_lt hx.size_lt)
  have hsector : (bioMeta x.bio).writeSector.toNat = x.bio.biSector :=
    (BitVec.toNat_ofNat _ _).trans (Nat.mod_eq_of_lt (by omega))
  have haddr : (⟨bioMeta x.bio, some data⟩ : DiskWrite Payload).byteAddr = x.bio.biSector * 512 := by
    unfold DiskWrite.byteAddr
    have hsectorSize : sectorSize.toNat = 512 := rfl
    rw [BitVec.toNat_mul, hsector, hsectorSize]
    exact Nat.mod_eq_of_lt (by omega)
  have hdvd : 2 ^ 9 ∣ x.bio.biSize := by
    cases hdiscard : hasFlag x.bio.biRw reqDiscard with
    | true => exact hkeeps hdiscard ▸ Nat.dvd_zero _
    | false => exact hx.size_eq hdiscard ▸ segmentsSize_dvd hx.sectored
  have hwhole := Nat.div_mul_cancel hdvd
  refine ⟨hsize, hsector, haddr, fun _ => ⟨?_, ?_, fun h => nomatch h⟩⟩
  · simp only [seekable, haddr, Bool.and_eq_true, decide_eq_true_eq]
    omega
  · change DiskWrite.byteAddr _ + (bioMeta x.bio).size.toNat ≤ _
    rw [haddr, hsize]
    omega

/-- In the replay an entry does what its bio is for. -/
theorem replayOp_entry {capacity : ℕ} (hcap : capacity < 2 ^ 31) {x : Submission}
    (hx : x.Valid capacity) (hkeeps : hasFlag x.bio.biRw reqDiscard = true → x.bio.biSize = 0)
    (img : ℕ → UInt8) :
    replayOp img ⟨bioMeta x.bio, some (Image.overlay x.data 0 (segmentsSize x.bio.segments)
      (segmentsData x.bio.segments))⟩ = CowBrd.written x.bio img := by
  obtain ⟨hsize, -, haddr, -⟩ := entry_spec hcap hx hkeeps
    (Image.overlay x.data 0 (segmentsSize x.bio.segments) (segmentsData x.bio.segments))
  unfold replayOp CowBrd.written
  rw [haddr]
  change (if hasFlag x.bio.biRw reqWrite = true then
    Image.overlay img _ (bioMeta x.bio).size.toNat _ else img) = _
  rw [hsize]
  cases hwrite : hasFlag x.bio.biRw reqWrite with
  | false => rfl
  | true =>
    cases hdiscard : hasFlag x.bio.biRw reqDiscard with
    | true =>
      rw [hkeeps hdiscard]
      exact Image.overlay_zero _ _ _
    | false =>
      rw [← hx.size_eq hdiscard]
      apply Image.overlay_inj.mpr
      intro i hi
      exact Image.overlay_of_mem ⟨Nat.zero_le i, by omega⟩

theorem submit_unique {d : ℕ} {r r₁ r₂ : Recorder} {x : Submission} (h₁ : Submit d r x r₁)
    (h₂ : Submit d r x r₂) : r₁ = r₂ := by
  obtain ⟨-, bio₁, hbio₁, hstep₁⟩ := h₁
  obtain ⟨-, bio₂, hbio₂, hstep₂⟩ := h₂
  rw [hbio₁, Except.ok.injEq, Prod.mk.injEq] at hbio₂
  obtain ⟨hwrapper, rfl⟩ := hbio₂
  have hdevices : r₁.devices = r₂.devices := Except.ok.inj (hstep₁.symm.trans hstep₂)
  cases r₁
  cases r₂
  simp_all

/-- The wrapper takes every valid bio, and what it adds to the log is the entry. -/
theorem Logs.wrapper_ok {d p : ℕ} {pages : CowBrd.PageTree} {r : Recorder} {left : Nodes}
    (h : Logs d p pages r left) {x : Submission} (hx : x.Valid r.devices.capacity)
    (hfresh : x.write ∉ r.wrapper.heap) :
    ∃ wrapper left', diskWrapperBio ⟨some x.write, some x.data⟩ r.wrapper x.bio =
        .ok (wrapper, x.bio) ∧ wrapper.logOn = true ∧ Queue wrapper [] left' ∧
      left'.entries = left.entries ++ if isLogged x.bio then
        [⟨bioMeta x.bio, some (Image.overlay x.data 0 (segmentsSize x.bio.segments)
          (segmentsData x.bio.segments))⟩] else [] := by
  cases hlog : isLogged x.bio with
  | false =>
    have hnot : (r.wrapper.logOn && isLogged x.bio) = false := by rw [hlog, Bool.and_false]
    exact ⟨r.wrapper, left, diskWrapperBio_not_logged hnot, h.logOn, h.queue, by simp⟩
  | true =>
    have hdrained : ¬ Drained r.wrapper := fun hd => (h.queue.drained_iff.mp hd).1 rfl
    have hsize : segmentsSize x.bio.segments ≤ (bioMeta x.bio).size.toNat := by
      cases hdiscard : hasFlag x.bio.biRw reqDiscard with
      | true =>
        rw [(hx.discard hdiscard).2]
        exact Nat.zero_le _
      | false =>
        rw [hx.size_eq hdiscard]
        exact ((BitVec.toNat_ofNat _ _).trans (Nat.mod_eq_of_lt hx.size_lt)).ge
    have hboth : (r.wrapper.logOn && isLogged x.bio) = true := by rw [h.logOn, hlog, Bool.true_and]
    obtain ⟨wrapper, left', hbio, hon, hqueue, hentries⟩ :=
      diskWrapperBio_queue h.queue hdrained hboth hfresh x.data hsize
    exact ⟨wrapper, left', hbio, hon.trans h.logOn, hqueue, by simpa using hentries⟩

theorem not_write_of_not_logged {bio : Bio} (h : isLogged bio = false) :
    hasFlag bio.biRw reqWrite = false := by
  unfold isLogged at h
  simp only [Bool.or_eq_false_iff] at h
  exact h.1.2

/-- Every valid bio is served. Unless it is a discard, the log is longer by what it is
for, and the device changes by that exactly if the bio is kept. -/
theorem Logs.submit {d p : ℕ} {pages : CowBrd.PageTree} {r : Recorder} {left : Nodes}
    (h : Logs d p pages r left) {x : Submission} (hx : x.Valid r.devices.capacity)
    (hfresh : x.write ∉ r.wrapper.heap) :
    ∃ r', Submit d r x r' ∧
      ((hasFlag x.bio.biRw reqDiscard = true → x.bio.biSize = 0) → ∃ left', Logs d p pages r' left' ∧
        (∀ img, left'.entries.foldl replayOp img =
          CowBrd.written x.bio (left.entries.foldl replayOp img)) ∧
        (r'.devices.content d = CowBrd.written x.bio (r.devices.content d) ↔ r.Keeps d x.bio)) := by
  obtain ⟨wrapper, left', hbio, hon, hqueue, hentries⟩ := h.wrapper_ok hx hfresh
  obtain ⟨snap, hd, hparent⟩ := h.snapshot
  have hsnap := h.wellFormed.isSnapshot_of_parent hd hparent
  obtain ⟨devices, hstep, hcontent, hkeeps⟩ := CowBrd.step_bio h.wellFormed hd
    (h.wellFormed.snapshot d snap hd hsnap).1 hx.plenty hx.inside hx.sectored
  have hcapacity := CowBrd.step_capacity hstep
  refine ⟨⟨devices, wrapper⟩, ⟨hfresh, x.bio, hbio, hstep⟩, fun hdiscard => ⟨left', ?_, ?_, ?_⟩⟩
  · constructor
    · exact h.wellFormed.step hstep
    · exact hcapacity.trans_lt h.capacity_lt
    · exact h.frozen.step h.wellFormed (by simp [CowBrd.Event.Thaws]) hstep
    · rcases h.wellFormed.step_device hstep d with hsame | ⟨-, old, new, hold, hnew, hserved⟩
      · exact ⟨snap, hsame.trans hd, hparent⟩
      · rw [hd, Option.some.injEq] at hold
        subst hold
        exact ⟨new, hnew, hserved.parentBrd.trans hparent⟩
    · exact hon
    · exact hqueue
    · intro w hw
      rw [hentries, List.mem_append] at hw
      rcases hw with hw | hw
      · exact h.data w hw
      · split_ifs at hw
        · rw [List.mem_singleton.mp hw]
          rfl
        · cases hw
    · intro w hw
      rw [hcapacity]
      rw [hentries, List.mem_append] at hw
      rcases hw with hw | hw
      · exact h.replayable w hw
      · split_ifs at hw
        · rw [List.mem_singleton.mp hw]
          exact (entry_spec h.capacity_lt hx hdiscard _).2.2.2
        · cases hw
  · intro img
    rw [hentries, List.foldl_append]
    cases hlog : isLogged x.bio with
    | false => simp [CowBrd.written, not_write_of_not_logged hlog]
    | true => exact replayOp_entry h.capacity_lt hx hdiscard _
  · have hone : r.Keeps d x.bio ↔ CowBrd.Keeps (r.devices.parentPages snap) snap.brdPages x.bio :=
      ⟨fun hk => hk snap hd, fun hk brd hbrd => Option.some.inj (hd.symm.trans hbrd) ▸ hk⟩
    rw [hone]
    refine ⟨fun heq => ?_, hcontent⟩
    cases hflag : hasFlag x.bio.biRw reqDiscard with
    | false => exact hkeeps hflag heq
    | true => simpa [CowBrd.Keeps, hflag] using hdiscard hflag

theorem Logs.replays_iff {d p : ℕ} {pages : CowBrd.PageTree} {r : Recorder} {left : Nodes}
    (h : Logs d p pages r left) : r.Replays d ↔ Follows d pages r left := by
  obtain ⟨snap, hd, hparent⟩ := h.snapshot
  obtain ⟨s, hrestore, hcontent⟩ := CowBrd.restore_spec h.wellFormed hd hparent h.frozen
  have hreplayable : ∀ w ∈ left.entries.map fetched, Replayable (r.devices.capacity * 512) w := by
    intro w hw
    obtain ⟨w', hw', rfl⟩ := List.mem_map.mp hw
    exact replayable_fetched (h.replayable w' hw')
  constructor
  · rintro ⟨log, s', ⟨n, hlog⟩, hrestore', hwrite, -⟩
    obtain rfl : s = s' := Except.ok.inj (hrestore.symm.trans hrestore')
    have haccess : ∀ a ∈ List.replicate (max n left.length + 1) (true, true), a = (true, true) :=
      fun a ha => List.eq_of_mem_replicate ha
    obtain ⟨dev, hdev⟩ := hlog _ haccess (by simp)
    obtain ⟨dev', hdev'⟩ := getWrapperLog_eq h.queue h.data haccess (by simp) []
    simp only [hdev, List.nil_append, Except.ok.injEq, Option.some.injEq, Prod.mk.injEq,
      true_and] at hdev'
    obtain rfl := hdev'.1
    -- one byte a call is enough
    have hcalls : Accepting (List.replicate (callsNeeded (left.entries.map fetched)) (.accepted 1)) :=
      fun call hcall => ⟨0, List.eq_of_mem_replicate hcall⟩
    obtain ⟨img, rest, hends⟩ := testWriteData_ends (s.content d) hcalls hreplayable (by simp)
    have hfailed : WriteResult.failed ∉ List.replicate (callsNeeded (left.entries.map fetched))
        (WriteResult.accepted 1) := by simp
    obtain ⟨-, himg⟩ := hwrite _ hfailed _ _ _ hends
    rw [Follows, ← himg, (testWriteData_true hends).1, foldl_replayOp_fetched, hcontent]
  · intro hfollows
    refine ⟨left.entries.map fetched, s, ⟨left.length, fun access haccess hlen => ?_⟩, hrestore,
      fun calls hcalls res img rest hwrite => ?_, fun calls hcalls hlen => ?_⟩
    · obtain ⟨dev, hlog⟩ := getWrapperLog_eq h.queue h.data haccess hlen []
      exact ⟨dev, by simpa using hlog⟩
    · obtain rfl := testWriteData_no_failure hcalls hreplayable hwrite
      obtain ⟨himg, -⟩ := testWriteData_true hwrite
      rw [himg, foldl_replayOp_fetched, hcontent]
      exact ⟨rfl, hfollows.symm⟩
    · exact testWriteData_ends _ hcalls hreplayable hlen

theorem Recorder.Keeps.no_discard {d p : ℕ} {pages : CowBrd.PageTree} {r : Recorder} {left : Nodes}
    {bio : Bio} (hkeeps : r.Keeps d bio) (h : Logs d p pages r left) :
    hasFlag bio.biRw reqDiscard = true → bio.biSize = 0 := by
  intro hdiscard
  obtain ⟨snap, hd, -⟩ := h.snapshot
  have hkept := hkeeps snap hd
  rwa [CowBrd.Keeps, if_pos hdiscard] at hkept

/-- In a run whose bios are all kept the log replays to the live content. The next
valid bio is served as well, and unless it is a discard, that it is kept is what the
replay needs. -/
theorem replays_of_run {d : ℕ} {r r' : Recorder} {xs : List Submission} (hr : r.Starts d)
    (hrun : Transition.Run (fun r x r' => Submit d r x r' ∧ r.Keeps d x.bio) r xs r')
    (hxs : ∀ x ∈ xs, x.Valid r.devices.capacity) :
    r'.Replays d ∧
    ∀ x : Submission, x.Valid r'.devices.capacity → x.write ∉ r'.wrapper.heap →
      ∃ r'', Submit d r' x r'' ∧ ((hasFlag x.bio.biRw reqDiscard = true → x.bio.biSize = 0) →
        (r''.Replays d ↔ r'.Keeps d x.bio)) := by
  obtain ⟨p, pages, hlogs, hfollows⟩ := hr.follows
  have hstep : ∀ r₁ x r₂, (r₁.devices.capacity = r.devices.capacity ∧
      ∃ left, Logs d p pages r₁ left ∧ Follows d pages r₁ left) → x.Valid r.devices.capacity →
      (Submit d r₁ x r₂ ∧ r₁.Keeps d x.bio) → r₂.devices.capacity = r.devices.capacity ∧
      ∃ left, Logs d p pages r₂ left ∧ Follows d pages r₂ left := by
    rintro r₁ x r₂ ⟨hcap, left, h₁, hfollows₁⟩ hx ⟨hsubmit, hkeeps⟩
    obtain ⟨r₃, hsubmit₃, h₃⟩ := h₁.submit (hcap ▸ hx) hsubmit.1
    obtain rfl := submit_unique hsubmit hsubmit₃
    obtain ⟨left', hlogs', hreplay, hiff⟩ := h₃ (hkeeps.no_discard h₁)
    obtain ⟨-, bio, -, hserved⟩ := hsubmit
    refine ⟨(CowBrd.step_capacity hserved).trans hcap, left', hlogs', ?_⟩
    rw [Follows, hiff.mpr hkeeps, hreplay, hfollows₁]
  obtain ⟨-, left, hlogs', hfollows'⟩ := hrun.invariant hstep hxs ⟨rfl, [], hlogs, hfollows⟩
  refine ⟨hlogs'.replays_iff.mpr hfollows', fun x hx hfresh => ?_⟩
  obtain ⟨r'', hsubmit, hserved⟩ := hlogs'.submit hx hfresh
  refine ⟨r'', hsubmit, fun hdiscard => ?_⟩
  obtain ⟨left', hlogs'', hreplay, hiff⟩ := hserved hdiscard
  rw [hlogs''.replays_iff, ← hiff, Follows, hreplay, hfollows']

def blankRecorder : Recorder :=
  ⟨⟨16, [⟨0, none, false, false, ∅⟩, ⟨1, some 0, true, true, ∅⟩]⟩, ⟨true, ∅, none, none, none⟩⟩

theorem blankRecorder_starts : blankRecorder.Starts 1 where
  reachable := ⟨1, 1, 8, [.ioctl 0 .snapshot], by decide, .cons rfl (.nil _)⟩
  snapshot := ⟨_, 0, _, rfl, rfl, rfl, rfl, CowBrd.content_empty ∅⟩
  logOn := rfl
  empty := ⟨rfl, rfl, rfl⟩

def fillSubmission (sector n : ℕ) (v : UInt8) (write : Addr) : Submission :=
  ⟨CowBrd.fillBio sector n v, CowBrd.plenty, write, fun _ => 170⟩

section Fill

variable {sector n : ℕ} {v : UInt8} {write : Addr}

theorem fillSubmission_valid {capacity : ℕ}
    (hn : n ≤ CowBrd.pageSize ∧ 2 ^ CowBrd.sectorShift ∣ n)
    (hend : (CowBrd.fillBio sector n v).endSector ≤ capacity) :
    (fillSubmission sector n v write).Valid capacity where
  plenty _ := rfl
  size_lt := Nat.lt_of_le_of_lt hn.1 (by decide)
  inside := hend
  sectored := by
    intro vec hvec
    rw [List.mem_singleton.mp hvec]
    exact hn
  size_eq _ := rfl
  discard h := absurd h (show ¬ hasFlag reqWrite reqDiscard = true by decide)

/-- Inside of a page nothing lies behind the write. -/
theorem keeps_fillBio (hin : ¬ CowBrd.Straddles sector n) (d : ℕ) (r : Recorder) :
    r.Keeps d (CowBrd.fillBio sector n v) := by
  rintro brd -
  have hdiscard : hasFlag (CowBrd.fillBio sector n v).biRw reqDiscard = false :=
    show hasFlag reqWrite reqDiscard = false by decide
  rw [CowBrd.Keeps, hdiscard]
  rintro - b - (hb | hb)
  · exact absurd hb.1 hin
  · cases hb

end Fill

/-- Two sectors are written, and then the second one again. -/
theorem replays_fillSubmission : ∃ r r',
    Submit 1 blankRecorder (fillSubmission 0 1024 7 1) r ∧
    Submit 1 r (fillSubmission 1 512 9 2) r' ∧ r'.Replays 1 := by
  have hfirst : (fillSubmission 0 1024 7 1).Valid 16 :=
    fillSubmission_valid ⟨by decide, 2, rfl⟩ (by decide)
  have hsecond : (fillSubmission 1 512 9 2).Valid 16 :=
    fillSubmission_valid ⟨by decide, 1, rfl⟩ (by decide)
  obtain ⟨r, hsubmit, -⟩ := (replays_of_run blankRecorder_starts (.nil _)
    (List.forall_mem_nil _)).2 _ hfirst Finmap.notMem_empty
  have hfresh : 2 ∉ r.wrapper.heap := by
    obtain ⟨-, bio, hwrapper, -⟩ := hsubmit
    have hlogged : diskWrapperBio ⟨some 1, some fun _ => 170⟩ blankRecorder.wrapper
        (CowBrd.fillBio 0 1024 7) = .ok (⟨true, Finmap.insert 1 _ (Finmap.insert 1 _ ∅), some 1,
          some 1, some 1⟩, _) := rfl
    rw [← (Prod.mk.inj (Except.ok.inj (hlogged.symm.trans hwrapper))).1]
    simp [Finmap.mem_insert, Finmap.notMem_empty]
  have hrun : Transition.Run (fun r x r' => Submit 1 r x r' ∧ r.Keeps 1 x.bio) blankRecorder
      [fillSubmission 0 1024 7 1] r := .cons ⟨hsubmit, keeps_fillBio (by decide) 1 _⟩ (.nil r)
  have hcapacity : r.devices.capacity = 16 := by
    obtain ⟨-, bio, -, hstep⟩ := hsubmit
    exact CowBrd.step_capacity hstep
  obtain ⟨r', hsubmit', hiff⟩ := (replays_of_run blankRecorder_starts hrun
    fun x hx => List.mem_singleton.mp hx ▸ hfirst).2 _ (hcapacity ▸ hsecond) hfresh
  refine ⟨r, r', hsubmit, hsubmit', (hiff fun h => ?_).mpr (keeps_fillBio (by decide) 1 r)⟩
  exact absurd h (show ¬ hasFlag reqWrite reqDiscard = true by decide)

/-- A discard of the first page; the memory for its data is not empty. -/
def discardSubmission : Submission :=
  ⟨⟨0, reqWrite ||| reqDiscard, 0, 4096, []⟩, CowBrd.plenty, 1, fun _ => 170⟩

theorem discardSubmission_valid : discardSubmission.Valid 16 where
  plenty _ := rfl
  size_lt := by decide
  inside := by decide
  sectored := fun _ h => nomatch h
  size_eq h := absurd h (by decide)
  discard _ := ⟨by decide, rfl⟩

theorem discard_step : CowBrd.Step blankRecorder.devices (.bio 1 discardSubmission.bio CowBrd.plenty)
    blankRecorder.devices := by
  have hdiscard : CowBrd.discardFromBrd ∅ 0 4096 = .ok ∅ := by
    rw [CowBrd.discardFromBrd, if_pos (by decide)]
    refine Transition.bind_eq_ok.mpr ⟨∅, rfl, ?_⟩
    rw [CowBrd.discardFromBrd, if_neg (by decide)]
    rfl
  have hreq : CowBrd.brdMakeRequest CowBrd.plenty 16 ⟨1, some 0, true, true, ∅⟩ (some ∅)
      discardSubmission.bio = .ok (0, ∅, []) := by
    rw [CowBrd.brdMakeRequest, if_neg (by decide), if_neg (by decide), if_pos (by decide)]
    exact Transition.bind_eq_ok.mpr ⟨∅, hdiscard, rfl⟩
  refine Transition.bind_eq_ok.mpr ⟨⟨1, some 0, true, true, ∅⟩, ?_, rfl⟩
  exact Transition.bind_eq_ok.mpr ⟨_, hreq, rfl⟩

def discardWrapper : HwmDevice :=
  ⟨true, (Finmap.insert 1 ⟨bioMeta discardSubmission.bio, none, none⟩ ∅).insert 1
    ⟨bioMeta discardSubmission.bio, some fun _ => 170, none⟩, some 1, some 1, some 1⟩

theorem not_replays_discard : ¬ ∀ (d : ℕ) (r r' : Recorder) (xs : List Submission), r.Starts d →
    Transition.Run (Submit d) r xs r' → (∀ x ∈ xs, x.Valid r.devices.capacity) →
    r'.Replays d := by
  intro h
  obtain ⟨log, s, ⟨n, hlog⟩, -, hwrite, -⟩ := h 1 blankRecorder
    ⟨blankRecorder.devices, discardWrapper⟩ [discardSubmission] blankRecorder_starts
    (.cons (t := ⟨blankRecorder.devices, discardWrapper⟩)
      ⟨Finmap.notMem_empty, _, rfl, discard_step⟩ (.nil _))
    (fun x hx => List.mem_singleton.mp hx ▸ discardSubmission_valid)
  obtain ⟨dev, hdev⟩ := hlog (List.replicate (n + 2) (true, true))
    (fun a ha => List.eq_of_mem_replicate ha) (by simp)
  have hentry : getWrapperLog (List.replicate (n + 2) (true, true)) discardWrapper [] =
      .ok (some (SUCCESS, [diskWrite (bioMeta discardSubmission.bio)
        (some (memdup (fun _ => 170) 4096))], { discardWrapper with currentLogWrite := none })) := rfl
  rw [hentry] at hdev
  simp only [Except.ok.injEq, Option.some.injEq, Prod.mk.injEq, true_and] at hdev
  obtain ⟨rfl, -⟩ := hdev
  obtain ⟨-, himg⟩ := hwrite [.accepted 4096] (by simp) _ _ _ rfl
  have hbyte := congrFun himg 0
  rw [Image.overlay_of_mem (by decide)] at hbyte
  exact absurd hbyte (by decide)

end CrashMonkey
