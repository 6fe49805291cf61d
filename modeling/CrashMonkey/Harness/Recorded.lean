import CrashMonkey.Harness.FetchErrors
import CrashMonkey.Harness.MainOrder

namespace CrashMonkey.Resources

open Communication

inductive Seen where
  | main (e : MainEvent)
  | bio (bio : Bio)

def Seen.mainEvent : Seen → Option MainEvent
  | main e => some e
  | bio _ => none

def Seen.bio? : Seen → Option Bio
  | main _ => none
  | bio b => some b

/-- The bios that come while logging is on and change the disk, up to the fetch. -/
def recordedIn : Bool → List Seen → List Bio
  | _, [] => []
  | on, .bio bio :: seen =>
    if on && changesDisk bio then bio :: recordedIn on seen else recordedIn on seen
  | _, .main (.ioctl .logOn) :: seen => recordedIn true seen
  | _, .main (.ioctl .logOff) :: seen => recordedIn false seen
  | _, .main .fetched :: _ => []
  | on, .main _ :: seen => recordedIn on seen

def loggingAfter : Bool → List Seen → Bool
  | on, [] => on
  | _, .main (.ioctl .logOn) :: seen => loggingAfter true seen
  | _, .main (.ioctl .logOff) :: seen => loggingAfter false seen
  | on, _ :: seen => loggingAfter on seen

def Seen.mark : Seen → Option Mark
  | main e => Resources.mark e
  | bio _ => none

theorem seen_marks (seen : List Seen) :
    seen.filterMap Seen.mark = (seen.filterMap Seen.mainEvent).filterMap mark := by
  rw [List.filterMap_filterMap]
  exact congrArg (List.filterMap · seen) (funext fun e => by cases e <;> rfl)

def Still (seen : List Seen) : Prop :=
  .main (.ioctl .logOn) ∉ seen ∧ .main (.ioctl .logOff) ∉ seen ∧ .main .fetched ∉ seen

section Seen

variable {seen seen' : List Seen}

theorem Still.of_cons {e : Seen} (h : Still (e :: seen)) : Still seen :=
  ⟨fun hin => h.1 (List.mem_cons_of_mem _ hin), fun hin => h.2.1 (List.mem_cons_of_mem _ hin),
    fun hin => h.2.2 (List.mem_cons_of_mem _ hin)⟩

theorem still_of_aside {new : List MainEvent} (h : ∀ e ∈ new, Aside e) :
    Still (new.map .main) := by
  have hin {e : MainEvent} (he : Seen.main e ∈ new.map .main) : Aside e := by
    obtain ⟨e', he', heq⟩ := List.mem_map.mp he
    exact Seen.main.inj heq ▸ h e' he'
  exact ⟨fun he => (hin he).1 _ rfl, fun he => (hin he).1 _ rfl, fun he => (hin he).2 rfl⟩

theorem loggingAfter_append (on : Bool) (seen seen' : List Seen) :
    loggingAfter on (seen ++ seen') = loggingAfter (loggingAfter on seen) seen' := by
  induction seen generalizing on with
  | nil => rfl
  | cons e seen ih =>
    cases e with
    | bio b => exact ih on
    | main e =>
      cases e with
      | ioctl cmd => cases cmd <;> exact ih _
      | _ => exact ih on

/-- Before the fetch what is recorded adds up. -/
theorem recordedIn_append (h : .main .fetched ∉ seen) (on : Bool) (seen' : List Seen) :
    recordedIn on (seen ++ seen') =
      recordedIn on seen ++ recordedIn (loggingAfter on seen) seen' := by
  induction seen generalizing on with
  | nil => rfl
  | cons e seen ih =>
    obtain ⟨hne, hnot⟩ := not_or.mp fun hin => h (List.mem_cons.mpr hin)
    cases e with
    | bio b =>
      simp only [List.cons_append, recordedIn, loggingAfter, ih hnot]
      split_ifs
      · rfl
      · rfl
    | main e =>
      cases e with
      | ioctl cmd => cases cmd <;> exact ih hnot _
      | fetched => exact absurd rfl hne
      | _ => exact ih hnot on

theorem recordedIn_fetched (h : .main .fetched ∈ seen) (on : Bool) (seen' : List Seen) :
    recordedIn on (seen ++ seen') = recordedIn on seen := by
  induction seen generalizing on with
  | nil => cases h
  | cons e seen ih =>
    rcases List.mem_cons.mp h with rfl | hin
    · rfl
    · cases e with
      | bio b => simp only [List.cons_append, recordedIn, ih hin]
      | main e =>
        cases e with
        | ioctl cmd => cases cmd <;> exact ih hin _
        | fetched => rfl
        | _ => exact ih hin on

theorem recordedIn_still (h : Still seen) (on : Bool) :
    recordedIn on seen = (seen.filterMap Seen.bio?).filter (on && changesDisk ·) ∧
      loggingAfter on seen = on := by
  induction seen with
  | nil => exact ⟨rfl, rfl⟩
  | cons e seen ih =>
    obtain ⟨hrecorded, hon⟩ := ih h.of_cons
    cases e with
    | bio b =>
      have hbios : (Seen.bio b :: seen).filterMap Seen.bio? = b :: seen.filterMap Seen.bio? := rfl
      rw [hbios, List.filter_cons, ← hrecorded]
      exact ⟨rfl, hon⟩
    | main e =>
      cases e with
      | ioctl cmd =>
        cases cmd with
        | logOn => exact absurd List.mem_cons_self h.1
        | logOff => exact absurd List.mem_cons_self h.2.1
        | _ => exact ⟨hrecorded, hon⟩
      | fetched => exact absurd List.mem_cons_self h.2.2
      | _ => exact ⟨hrecorded, hon⟩

/-- Nothing is recorded before logging is switched on. -/
theorem recordedIn_off (h : .main (.ioctl .logOn) ∉ seen) :
    recordedIn false seen = [] ∧ loggingAfter false seen = false := by
  induction seen with
  | nil => exact ⟨rfl, rfl⟩
  | cons e seen ih =>
    obtain ⟨hne, hnot⟩ := not_or.mp fun hin => h (List.mem_cons.mpr hin)
    obtain ⟨hrecorded, hon⟩ := ih hnot
    cases e with
    | bio b => exact ⟨hrecorded, hon⟩
    | main e =>
      cases e with
      | ioctl cmd =>
        cases cmd with
        | logOn => exact absurd rfl hne
        | _ => exact ⟨hrecorded, hon⟩
      | fetched => exact ⟨rfl, hon⟩
      | _ => exact ⟨hrecorded, hon⟩

theorem loggingAfter_on (hon : .main (.ioctl .logOn) ∈ seen)
    (hoff : .main (.ioctl .logOff) ∉ seen) (on : Bool) : loggingAfter on seen = true := by
  have hkeeps {seen : List Seen} (hoff : .main (.ioctl .logOff) ∉ seen) :
      loggingAfter true seen = true := by
    induction seen with
    | nil => rfl
    | cons e seen ih =>
      obtain ⟨hne, hnot⟩ := not_or.mp fun hin => hoff (List.mem_cons.mpr hin)
      cases e with
      | bio b => exact ih hnot
      | main e =>
        cases e with
        | ioctl cmd =>
          cases cmd with
          | logOff => exact absurd rfl hne
          | _ => exact ih hnot
        | _ => exact ih hnot
  obtain ⟨before, behind, rfl⟩ := List.append_of_mem hon
  rw [loggingAfter_append]
  apply hkeeps
  exact fun hin => hoff (List.mem_append_right _ (List.mem_cons_of_mem _ hin))

theorem notMem_of_marks {script : List Mark} (h : (seen.filterMap Seen.mark).Sublist script)
    {e : Seen} {m : Mark} (he : e.mark = some m) (hm : m ∉ script) : e ∉ seen :=
  fun hin => hm (h.subset (List.mem_filterMap.mpr ⟨e, hin, he⟩))

/-- What comes after the user was told to run the workload and before the user has said that
it is done is recorded, if logging was switched on. -/
theorem workload_recorded {before workload behind : List Seen} {i : ℕ}
    (hseen : seen = before ++ .main (.replied i .kBeginLogDone) ::
      (workload ++ .main (.commanded .kEndLog) :: behind))
    (hmarks : (seen.filterMap Seen.mark).Sublist profileScript)
    (hon : .main (.ioctl .logOn) ∈ seen) :
    (workload.filterMap Seen.bio?).filter changesDisk <:+: recordedIn false seen := by
  have hsplit : seen.filterMap Seen.mark = before.filterMap Seen.mark ++ .begun ::
      (workload.filterMap Seen.mark ++ .ending :: behind.filterMap Seen.mark) := by
    have hbegun (l : List Seen) : (Seen.main (.replied i .kBeginLogDone) :: l).filterMap Seen.mark =
        .begun :: l.filterMap Seen.mark := rfl
    have hending (l : List Seen) : (Seen.main (.commanded .kEndLog) :: l).filterMap Seen.mark =
        .ending :: l.filterMap Seen.mark := rfl
    rw [hseen, List.filterMap_append, hbegun, List.filterMap_append, hending]
  rw [hsplit] at hmarks
  change List.Sublist _ ([Mark.inserted, .cleared, .loggingOn] ++
    Mark.begun :: [.ending, .loggingOff, .fetched]) at hmarks
  obtain ⟨hbefore, hrest⟩ := Script.sublist_split (by decide) (by decide) hmarks
  change List.Sublist _ ([] ++ Mark.ending :: [.loggingOff, .fetched]) at hrest
  obtain ⟨hworkload, hbehind⟩ := Script.sublist_split (by decide) (by decide) hrest
  have hstill : Still workload := ⟨notMem_of_marks hworkload rfl (by decide),
    notMem_of_marks hworkload rfl (by decide), notMem_of_marks hworkload rfl (by decide)⟩
  have hon : .main (.ioctl .logOn) ∈ before := by
    rw [hseen] at hon
    rcases List.mem_append.mp hon with hon | hon
    · exact hon
    · rcases List.mem_append.mp (List.mem_of_ne_of_mem (by simp) hon) with hon | hon
      · exact absurd hon hstill.1
      · exact absurd (List.mem_of_ne_of_mem (by simp) hon)
          (notMem_of_marks hbehind rfl (by decide))
  have hfetched : .main .fetched ∉ before := notMem_of_marks hbefore rfl (by decide)
  have hoff : .main (.ioctl .logOff) ∉ before := notMem_of_marks hbefore rfl (by decide)
  refine ⟨recordedIn false before, recordedIn true (.main (.commanded .kEndLog) :: behind), ?_⟩
  obtain ⟨hrecorded, hafter⟩ := recordedIn_still hstill true
  have hrest : recordedIn true (.main (.replied i .kBeginLogDone) ::
      (workload ++ .main (.commanded .kEndLog) :: behind)) =
        (workload.filterMap Seen.bio?).filter changesDisk ++
          recordedIn true (.main (.commanded .kEndLog) :: behind) := by
    change recordedIn true (workload ++ .main (.commanded .kEndLog) :: behind) = _
    rw [recordedIn_append hstill.2.2, hafter, hrecorded]
    rfl
  rw [hseen, recordedIn_append hfetched, loggingAfter_on hon hoff, hrest, List.append_assoc]

end Seen

section Wrapper

variable {dev dev' : Wrapper.HwmDevice} {seen : List Seen} {new : List MainEvent}

def applyEvent (dev : Wrapper.HwmDevice) : MainEvent → Except Wrapper.Fault Wrapper.HwmDevice
  | .ioctl cmd => Wrapper.diskWrapperIoctl dev cmd
  | _ => .ok dev

structure Logging (dev : Wrapper.HwmDevice) (seen : List Seen) : Prop where
  unfetched : .main .fetched ∉ seen
  holds : Holds dev (recordedIn false seen)
  logOn : dev.logOn = loggingAfter false seen

theorem foldlM_applyEvent (h : ∀ e ∈ new, ∀ cmd, e ≠ .ioctl cmd) (dev : Wrapper.HwmDevice) :
    new.foldlM applyEvent dev = .ok dev := by
  induction new with
  | nil => rfl
  | cons e new ih =>
    obtain ⟨he, hnew⟩ := List.forall_mem_cons.mp h
    have happly : applyEvent dev e = .ok dev := by
      cases e with
      | ioctl cmd => exact absurd rfl (he cmd)
      | _ => rfl
    rw [List.foldlM_cons, happly]
    exact ih hnew

theorem Logging.still {more : List Seen} (h : Logging dev seen) (hmore : Still more)
    (hbios : more.filterMap Seen.bio? = []) : Logging dev (seen ++ more) := by
  obtain ⟨hrecorded, hon⟩ := recordedIn_still hmore (loggingAfter false seen)
  rw [hbios] at hrecorded
  refine ⟨fun hin => ?_, ?_, ?_⟩
  · exact (List.mem_append.mp hin).elim h.unfetched hmore.2.2
  · rw [recordedIn_append h.unfetched, hrecorded, List.filter_nil, List.append_nil]
    exact h.holds
  · rw [loggingAfter_append, hon]
    exact h.logOn

theorem Logging.aside (h : Logging dev seen) (hnew : ∀ e ∈ new, Aside e) :
    Logging dev (seen ++ new.map .main) := by
  apply h.still (still_of_aside hnew)
  rw [List.filterMap_map]
  exact List.filterMap_none new

theorem Logging.bio {b : Bio} {write : Wrapper.Addr} (h : Logging dev seen)
    (hsize : segmentsSize b.segments = b.biSize) (hlt : b.biSize < 2 ^ 32)
    (hfresh : write ∉ dev.heap) (data : Payload) :
    ∃ dev', serve dev (.bio b write data) = .ok dev' ∧ Logging dev' (seen ++ [.bio b]) := by
  obtain ⟨dev', hserve, hon, hholds⟩ := h.holds.bio hsize hlt hfresh data
  refine ⟨dev', hserve, fun hin => ?_, ?_, ?_⟩
  · rcases List.mem_append.mp hin with hin | hin
    · exact h.unfetched hin
    · cases List.mem_singleton.mp hin
  · rw [recordedIn_append h.unfetched, ← h.logOn]
    exact hholds
  · rw [loggingAfter_append, hon]
    exact h.logOn

/-- Logging is switched, or the log cleared before it is. -/
theorem Logging.ioctl {cmd : Wrapper.Cmd} (h : Logging dev seen)
    (hcmd : cmd = .logOn ∨ cmd = .logOff ∨ cmd = .clrLog ∧ .main (.ioctl .logOn) ∉ seen) :
    ∃ dev', Wrapper.diskWrapperIoctl dev cmd = .ok dev' ∧
      Logging dev' (seen ++ [.main (.ioctl cmd)]) := by
  have hunfetched : .main .fetched ∉ seen ++ [.main (.ioctl cmd)] := by
    intro hin
    rcases List.mem_append.mp hin with hin | hin
    · exact h.unfetched hin
    · cases List.mem_singleton.mp hin
  have hrecorded : recordedIn false (seen ++ [.main (.ioctl cmd)]) = recordedIn false seen := by
    rw [recordedIn_append h.unfetched]
    cases cmd <;> exact List.append_nil _
  obtain ⟨left, hqueue, hdata, hentries⟩ := h.holds
  rcases hcmd with rfl | rfl | ⟨rfl, hnot⟩
  · refine ⟨_, rfl, hunfetched, ?_, ?_⟩
    · exact hrecorded ▸ ⟨left, hqueue.congr rfl rfl rfl rfl, hdata, hentries⟩
    · rw [loggingAfter_append]
      rfl
  · refine ⟨_, rfl, hunfetched, ?_, ?_⟩
    · exact hrecorded ▸ ⟨left, hqueue.congr rfl rfl rfl rfl, hdata, hentries⟩
    · rw [loggingAfter_append]
      rfl
  · obtain ⟨dev', hfree, hempty⟩ := hqueue.freeLogs_eq
    obtain ⟨hnone, hoff⟩ := recordedIn_off hnot
    refine ⟨dev', hfree, hunfetched, ?_, ?_⟩
    · rw [hrecorded, hnone]
      exact ⟨[], hempty, by simp [Wrapper.Nodes.entries], rfl⟩
    · obtain ⟨heap, -, hheap⟩ := Transition.bind_eq_ok.mp hfree
      cases hheap
      rw [loggingAfter_append]
      exact h.logOn

/-- A wrapper that has just been loaded. -/
theorem Logging.loaded (hmarks : (seen.filterMap Seen.mark).Sublist []) :
    Logging .init seen := by
  obtain ⟨hrecorded, hoff⟩ := recordedIn_off (notMem_of_marks hmarks rfl List.not_mem_nil)
  refine ⟨notMem_of_marks hmarks rfl List.not_mem_nil, ?_, hoff.symm⟩
  rw [hrecorded]
  exact ⟨[], Wrapper.queue_init, List.forall_mem_nil _, rfl⟩

theorem intact_bio {b : Bio} {write : Wrapper.Addr} (h : Wrapper.Intact dev)
    (hsize : segmentsSize b.segments = b.biSize) (hlt : b.biSize < 2 ^ 32)
    (hfresh : write ∉ dev.heap) (data : Payload) :
    ∃ dev', serve dev (.bio b write data) = .ok dev' ∧ Wrapper.Intact dev' := by
  cases hlog : dev.logOn && Wrapper.isLogged b with
  | false =>
    refine ⟨dev, ?_, h⟩
    simp only [serve, Wrapper.diskWrapperBio_not_logged hlog]
    rfl
  | true =>
    obtain ⟨nodes, hqueue⟩ := h
    -- a node is appended in the same way wherever the cursor is
    have hdrained : ¬ Wrapper.Drained dev.rewind := fun hd => (hqueue.drained_iff.mp hd).1 rfl
    obtain ⟨dev₁, left, hlink, -⟩ := Wrapper.linkWrite_queue hqueue hdrained hfresh
      ⟨Wrapper.bioMeta b, none, none⟩ ⟨Wrapper.bioMeta b, none, none⟩ rfl
    rw [Wrapper.linkWrite_rewind] at hlink
    cases hdev : Wrapper.linkWrite dev write ⟨Wrapper.bioMeta b, none, none⟩ with
    | error fault =>
      rw [hdev] at hlink
      cases hlink
    | ok dev₂ =>
      have hroom : 0 + segmentsSize b.segments ≤ (Wrapper.bioMeta b).size.toNat := by
        rw [Nat.zero_add, hsize]
        exact ((BitVec.toNat_ofNat _ _).trans (Nat.mod_eq_of_lt hlt)).ge
      have hcopy := Wrapper.copySegments_eq hroom data
      let filled := Image.overlay data 0 (segmentsSize b.segments) (segmentsData b.segments)
      refine ⟨{ dev₂ with heap := dev₂.heap.insert write ⟨Wrapper.bioMeta b, some filled, none⟩ },
        ?_, Wrapper.Intact.linkWrite ⟨nodes, hqueue⟩ hfresh rfl hdev⟩
      simp only [serve, Wrapper.diskWrapperBio, hlog, if_true, hdev, hcopy, bind, Except.bind,
        pure, Except.pure]
      rfl

theorem getWrapperLog_ok {passed left : Wrapper.Nodes} (h : Wrapper.Queue dev passed left)
    (hdata : ∀ w ∈ left.entries, w.data.isSome) (access : List (Bool × Bool))
    (logData : List (DiskWrite Payload)) : ∃ r, getWrapperLog access dev logData = .ok r := by
  induction access generalizing dev passed left logData with
  | nil => exact ⟨none, rfl⟩
  | cons a access ih =>
    cases left with
    | nil => exact ⟨_, getWrapperLog_end access logData h a⟩
    | cons n left =>
      by_cases ha : a = (true, true)
      · subst ha
        obtain ⟨hn, hrest⟩ := List.forall_mem_cons.mp hdata
        obtain ⟨dev₁, h₁, hturn⟩ := getWrapperLog_turn access logData h hn
        rw [hturn]
        exact ih h₁ hrest _
      · obtain ⟨err, -, hstop⟩ := getWrapperLog_refused access logData h ha
        exact ⟨_, hstop⟩

theorem intact_ioctl {cmd : Wrapper.Cmd} (h : Wrapper.Intact dev)
    (hcmd : cmd = .logOn ∨ cmd = .logOff ∨ cmd = .clrLog) :
    ∃ dev', Wrapper.diskWrapperIoctl dev cmd = .ok dev' ∧ Wrapper.Intact dev' := by
  obtain ⟨nodes, hqueue⟩ := h
  rcases hcmd with rfl | rfl | rfl
  · exact ⟨_, rfl, nodes, hqueue.congr rfl rfl rfl rfl⟩
  · exact ⟨_, rfl, nodes, hqueue.congr rfl rfl rfl rfl⟩
  · obtain ⟨dev', hfree, hempty⟩ := Wrapper.Intact.freeLogs_eq ⟨nodes, hqueue⟩
    exact ⟨dev', hfree, hempty.intact⟩

end Wrapper

end CrashMonkey.Resources
