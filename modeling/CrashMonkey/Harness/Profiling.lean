import CrashMonkey.Harness.Recorded

namespace CrashMonkey.Resources

open Communication

structure Profiling where
  harness : Harness
  wrapper : Wrapper.HwmDevice
  logData : List (DiskWrite Payload)
  seen : List Seen

/-- A step of main, with the answers of `access_ok` if it fetches the log; or a bio, with
the address of its node and the memory for its data. -/
inductive ProfilingTurn where
  | main (x : HarnessCalls) (access : List (Bool × Bool))
  | bio (bio : Bio) (write : Wrapper.Addr) (data : Payload)

inductive ProfilingFault where
  | main (fault : MainFault)
  | wrapper (fault : Wrapper.Fault)
  /-- The loop around the ioctls has not ended. -/
  | fetching
  | noWrapper
deriving DecidableEq, Repr

def LoadsWrapper (s t : Harness) : Prop :=
  nextOp s.main = some .insertWrapper ∧ s.tester.kernel.loaded .wrapper = false ∧
    t.tester.kernel.loaded .wrapper = true

instance (s t : Harness) : Decidable (LoadsWrapper s t) := inferInstanceAs (Decidable (_ ∧ _))

namespace Profiling

def start (o : Options) (testDev : String) : Profiling := ⟨.start o testDev, .init, [], []⟩

/-- Whether the next operation succeeds if it is none on modules, mounts or descriptors;
and what `get_wrapper_log` does, if it is next. -/
def fetchLog (ok : Bool) (access : List (Bool × Bool)) (s : Profiling) :
    Except ProfilingFault (Bool × List (DiskWrite Payload) × Wrapper.HwmDevice) := do
  if nextOp s.harness.main = some .getWrapperLog then
    if s.harness.main.ioctlFd then
      match ← (getWrapperLog access s.wrapper s.logData).mapError .wrapper with
      | none => .error .fetching
      | some (res, logData, wrapper) => return (decide (res = SUCCESS), logData, wrapper)
    else return (true, s.logData, s.wrapper)
  else return (ok, s.logData, s.wrapper)

def mainTurn (x : HarnessCalls) (access : List (Bool × Bool)) (s : Profiling) :
    Except ProfilingFault Profiling := do
  let (ok, logData, wrapper) ← s.fetchLog x.calls.ok access
  let harness ← (s.harness.step { x with calls := { x.calls with ok } }).mapError .main
  let events := harness.main.events.drop s.harness.main.events.length
  let wrapper ← (events.foldlM applyEvent wrapper).mapError .wrapper
  -- a wrapper that is loaded has an empty log
  let wrapper := if LoadsWrapper s.harness harness then .init else wrapper
  return ⟨harness, wrapper, logData, s.seen ++ events.map .main⟩

def step (s : Profiling) : ProfilingTurn → Except ProfilingFault Profiling
  | .main x access => s.mainTurn x access
  | .bio bio write data =>
    if s.harness.tester.kernel.loaded .wrapper then do
      let wrapper ← (serve s.wrapper (.bio bio write data)).mapError .wrapper
      return { s with wrapper, seen := s.seen ++ [.bio bio] }
    else .error .noWrapper

end Profiling

namespace ProfilingTurn

/-- The segments of a bio have `BI_SIZE` bytes (an `unsigned int`), and its node is made in
memory that is not in use. -/
def Sound (s : Profiling) : ProfilingTurn → Prop
  | main _ _ => True
  | bio b write _ => segmentsSize b.segments = b.biSize ∧ b.biSize < 2 ^ 32 ∧
      write ∉ s.wrapper.heap

instance (s : Profiling) (turn : ProfilingTurn) : Decidable (turn.Sound s) :=
  match turn with
  | main _ _ => .isTrue trivial
  | bio _ _ _ => inferInstanceAs (Decidable (_ ∧ _ ∧ _))

end ProfilingTurn

def ProfilingStep (s : Profiling) (turn : ProfilingTurn) (t : Profiling) : Prop :=
  turn.Sound s ∧ s.step turn = .ok t

/-- Until the log is fetched it holds what is to be recorded, and then main has it. -/
structure Profiled (s : Profiling) : Prop where
  events : s.seen.filterMap Seen.mainEvent = s.harness.main.events
  orderly : (marks s.harness.main ++ marksLeft s.harness.main.todo).Sublist profileScript
  intact : Wrapper.Intact s.wrapper
  logging : .fetched ∈ marksLeft s.harness.main.todo → Logging s.wrapper s.seen ∧ s.logData = []
  profile : .main .fetched ∈ s.seen → s.logData = (recordedIn false s.seen).map bioOp

def Keeps (s : Profiling) (turn : ProfilingTurn) : Prop :=
  (∀ fault, s.step turn ≠ .error (.wrapper fault)) ∧ ∀ t, s.step turn = .ok t → Profiled t

theorem Keeps.of_ok {s t : Profiling} {turn : ProfilingTurn} (hstep : s.step turn = .ok t)
    (ht : Profiled t) : Keeps s turn := by
  refine ⟨fun fault hfault => ?_, fun u hu => ?_⟩
  · rw [hstep] at hfault
    cases hfault
  · rw [hstep] at hu
    exact Except.ok.inj hu ▸ ht

theorem Keeps.of_error {s : Profiling} {turn : ProfilingTurn} {fault : ProfilingFault}
    (hstep : s.step turn = .error fault) (hfault : ∀ f, fault ≠ .wrapper f) : Keeps s turn := by
  refine ⟨fun f hf => ?_, fun u hu => ?_⟩
  · rw [hstep] at hf
    exact hfault f (Except.error.inj hf)
  · rw [hstep] at hu
    cases hu

section Turn

variable {s : Profiling} {x : HarnessCalls} {access : List (Bool × Bool)} {ok : Bool}
  {logData : List (DiskWrite Payload)} {wrapper wrapper' : Wrapper.HwmDevice} {harness : Harness}
  {new : List MainEvent}

theorem Keeps.of_main {fault : MainFault}
    (hfetch : s.fetchLog x.calls.ok access = .ok (ok, logData, wrapper))
    (hharness : s.harness.step { x with calls := { x.calls with ok } } = .error fault) :
    Keeps s (.main x access) := by
  have hstep : s.step (.main x access) = .error (.main fault) := by
    simp only [Profiling.step, Profiling.mainTurn, hfetch, hharness, bind, Except.bind,
      Except.mapError]
  exact .of_error hstep fun _ hf => (by cases hf)

theorem mainTurn_eq (hfetch : s.fetchLog x.calls.ok access = .ok (ok, logData, wrapper))
    (hharness : s.harness.step { x with calls := { x.calls with ok } } = .ok harness)
    (hevents : harness.main.events = s.harness.main.events ++ new)
    (happly : new.foldlM applyEvent wrapper = .ok wrapper') :
    s.step (.main x access) = .ok ⟨harness,
      if LoadsWrapper s.harness harness then .init else wrapper', logData,
      s.seen ++ new.map .main⟩ := by
  simp only [Profiling.step, Profiling.mainTurn, hfetch, hharness, hevents, List.drop_left, happly,
    bind, Except.bind, Except.mapError, pure, Except.pure]

/-- What is to be shown of a turn of main. -/
theorem Profiled.turn (h : Profiled s)
    (hfetch : s.fetchLog x.calls.ok access = .ok (ok, logData, wrapper))
    (hharness : s.harness.step { x with calls := { x.calls with ok } } = .ok harness)
    (hevents : harness.main.events = s.harness.main.events ++ new)
    (happly : new.foldlM applyEvent wrapper = .ok wrapper')
    (horder : (new.filterMap mark ++ marksLeft harness.main.todo).Sublist
      (marksLeft s.harness.main.todo))
    (hintact : Wrapper.Intact wrapper')
    (hlogging : .fetched ∈ marksLeft harness.main.todo →
      Logging (if LoadsWrapper s.harness harness then .init else wrapper')
        (s.seen ++ new.map .main) ∧ logData = [])
    (hprofile : .main .fetched ∈ s.seen ++ new.map .main →
      logData = (recordedIn false (s.seen ++ new.map .main)).map bioOp) :
    Keeps s (.main x access) := by
  apply Keeps.of_ok (mainTurn_eq hfetch hharness hevents happly)
  refine ⟨?_, ?_, ?_, hlogging, hprofile⟩
  · have hnew : (new.map Seen.main).filterMap Seen.mainEvent = new := by
      rw [List.filterMap_map]
      exact List.filterMap_some
    rw [List.filterMap_append, hnew, h.events, hevents]
  · have hmarks : marks harness.main = marks s.harness.main ++ new.filterMap mark := by
      rw [marks, hevents, List.filterMap_append, marks]
    rw [hmarks, List.append_assoc]
    exact (List.Sublist.append (List.Sublist.refl _) horder).trans h.orderly
  · dsimp only
    split_ifs
    · exact Wrapper.queue_init.intact
    · exact hintact

theorem Profiled.marks_seen (h : Profiled s) :
    s.seen.filterMap Seen.mark = marks s.harness.main := by
  rw [seen_marks, h.events, marks]

theorem Profiled.loads (h : Profiled s) (hload : LoadsWrapper s.harness harness) :
    Logging .init s.seen := by
  obtain ⟨onFailure, todo, htodo⟩ := todo_of_nextOp hload.1
  have horderly := h.orderly
  rw [htodo] at horderly
  obtain ⟨hmarks, -⟩ : (marks s.harness.main).Sublist [] ∧
      (marksLeft todo).Sublist profileScript.tail :=
    Script.sublist_split List.not_mem_nil (by decide) horderly
  apply Logging.loaded
  rwa [h.marks_seen]

/-- A turn that does nothing to the wrapper, but may load it. -/
theorem Profiled.aside (h : Profiled s)
    (hfetch : s.fetchLog x.calls.ok access = .ok (ok, s.logData, s.wrapper))
    (hharness : s.harness.step { x with calls := { x.calls with ok } } = .ok harness)
    (hevents : harness.main.events = s.harness.main.events ++ new) (haside : ∀ e ∈ new, Aside e)
    (horder : (new.filterMap mark ++ marksLeft harness.main.todo).Sublist
      (marksLeft s.harness.main.todo)) : Keeps s (.main x access) := by
  refine h.turn hfetch hharness hevents
    (foldlM_applyEvent (fun e he => (haside e he).1) s.wrapper) horder h.intact ?_ ?_
  · intro hleft
    obtain ⟨hlogging, hempty⟩ := h.logging (horder.subset (List.mem_append_right _ hleft))
    refine ⟨?_, hempty⟩
    split_ifs with hload
    · exact (h.loads hload).aside haside
    · exact hlogging.aside haside
  · intro hin
    rcases List.mem_append.mp hin with hin | hin
    · rw [recordedIn_fetched hin]
      exact h.profile hin
    · exact absurd hin (still_of_aside haside).2.2

theorem fetchLog_other (hnext : nextOp s.harness.main ≠ some .getWrapperLog) (ok : Bool)
    (access : List (Bool × Bool)) :
    s.fetchLog ok access = .ok (ok, s.logData, s.wrapper) := by
  unfold Profiling.fetchLog
  rw [if_neg hnext]
  rfl

/-- An operation that makes an ioctl. -/
theorem Profiled.ioctl (h : Profiled s) {op : TesterOp} {cmd : Wrapper.Cmd}
    {more : List MainEvent} {onFailure : OnFailure}
    (hfetch : s.fetchLog x.calls.ok access = .ok (x.calls.ok, s.logData, s.wrapper))
    (hharness : s.harness.step x = .ok harness)
    (htodo : s.harness.main.todo = .run op onFailure :: harness.main.todo)
    (hload : ¬ LoadsWrapper s.harness harness)
    (hcmd : cmd = .logOn ∨ cmd = .logOff ∨ cmd = .clrLog ∧ op = .clearWrapperLog)
    (haside : ∀ e ∈ more, Aside e)
    (hevents : harness.main.events = s.harness.main.events ++ .ran op :: .ioctl cmd :: more)
    (horder : ((.ran op :: .ioctl cmd :: more).filterMap mark ++
      marksLeft harness.main.todo).Sublist (marksLeft s.harness.main.todo)) :
    Keeps s (.main x access) := by
  have hmore : ∀ e ∈ more, ∀ cmd, e ≠ .ioctl cmd := fun e he => (haside e he).1
  obtain ⟨dev', hdev, hintact⟩ := intact_ioctl h.intact
    (hcmd.imp_right fun hcmd => hcmd.imp_right And.left)
  have happly : (MainEvent.ran op :: .ioctl cmd :: more).foldlM applyEvent s.wrapper =
      .ok dev' := by
    rw [List.foldlM_cons]
    change ((MainEvent.ioctl cmd :: more).foldlM applyEvent s.wrapper) = _
    rw [List.foldlM_cons]
    exact Transition.bind_eq_ok.mpr ⟨dev', hdev, foldlM_applyEvent hmore dev'⟩
  have hmain {e : Seen} (hin : e ∈ (MainEvent.ran op :: .ioctl cmd :: more).map Seen.main) :
      e ≠ .main .fetched := by
    obtain ⟨e', hin, rfl⟩ := List.mem_map.mp hin
    intro heq
    obtain rfl := Seen.main.inj heq
    have hin : .fetched ∈ more := by simpa using hin
    exact (haside _ hin).2 rfl
  refine h.turn hfetch hharness hevents happly horder hintact ?_ ?_
  · intro hleft
    obtain ⟨hlogging, hempty⟩ := h.logging (horder.subset (List.mem_append_right _ hleft))
    refine ⟨?_, hempty⟩
    rw [if_neg hload]
    have hbefore : Logging s.wrapper (s.seen ++ [.main (.ran op)]) :=
      hlogging.aside (List.forall_mem_singleton.mpr (aside_ran op))
    obtain ⟨dev₁, hdev₁, hlogging⟩ := hbefore.ioctl (by
      refine hcmd.imp_right fun hcmd => hcmd.imp_right fun hclear => ⟨hclear.1, fun hin => ?_⟩
      -- the log is cleared before logging is switched on
      have horderly := h.orderly
      rw [htodo, hclear.2] at horderly
      obtain ⟨hmarks, -⟩ : (marks s.harness.main).Sublist [.inserted] ∧
          (marksLeft harness.main.todo).Sublist
            [.loggingOn, .begun, .ending, .loggingOff, .fetched] :=
        Script.sublist_split (by decide) (by decide) horderly
      rw [← h.marks_seen] at hmarks
      have hin : .main (.ioctl .logOn) ∈ s.seen := by simpa using hin
      exact notMem_of_marks hmarks rfl (by decide) hin)
    obtain rfl : dev' = dev₁ := Except.ok.inj (hdev.symm.trans hdev₁)
    have hafter := hlogging.aside haside
    simpa using hafter
  · intro hin
    rcases List.mem_append.mp hin with hin | hin
    · rw [recordedIn_fetched hin]
      exact h.profile hin
    · exact absurd rfl (hmain hin)

/-- A fetch that has ended. -/
theorem Profiled.fetched (h : Profiled s) (hnext : nextOp s.harness.main = some .getWrapperLog)
    (hfd : s.harness.main.ioctlFd = true) (hlogging : Logging s.wrapper s.seen)
    (hempty : s.logData = []) {res : Int}
    (hrun : getWrapperLog access s.wrapper s.logData = .ok (some (res, logData, wrapper))) :
    Keeps s (.main x access) := by
  have hfetch : s.fetchLog x.calls.ok access = .ok (decide (res = SUCCESS), logData, wrapper) := by
    simp only [Profiling.fetchLog, hnext, hfd, hrun, if_true, bind, Except.bind, Except.mapError,
      pure, Except.pure]
  cases hharness : s.harness.step
      { x with calls := { x.calls with ok := decide (res = SUCCESS) } } with
  | error fault => exact .of_main hfetch hharness
  | ok harness =>
    obtain ⟨onFailure, more, htodo, haside, hevents, horder⟩ := op_events hharness hnext
    rw [runOp_getWrapperLog, hfd] at hevents horder
    -- nothing is left behind the fetch
    have hdone : .fetched ∉ marksLeft harness.main.todo := by
      have horderly := h.orderly
      rw [htodo] at horderly
      obtain ⟨-, hrest⟩ : (marks s.harness.main).Sublist profileScript.dropLast ∧
          (marksLeft harness.main.todo).Sublist [] :=
        Script.sublist_split (by decide) List.not_mem_nil horderly
      exact fun hin => List.not_mem_nil (hrest.subset hin)
    obtain ⟨left, hqueue, hdata, hentries⟩ := hlogging.holds
    rcases getWrapperLog_cases hqueue hdata hrun with ⟨hres, -, hlog, hqueue'⟩ |
      ⟨hres, -, -, hqueue'⟩
    · rw [decide_eq_true hres] at hevents horder
      have hioctls : ∀ e ∈ [MainEvent.ran .getWrapperLog, .fetched] ++ more,
          ∀ cmd, e ≠ .ioctl cmd :=
        List.forall_mem_append.mpr ⟨by simp, fun e he => (haside e he).1⟩
      refine h.turn hfetch hharness hevents (foldlM_applyEvent hioctls wrapper) horder
        hqueue'.intact (fun hin => absurd hin hdone) fun _ => ?_
      have hbehind : recordedIn (loggingAfter false s.seen)
          (([MainEvent.ran .getWrapperLog, .fetched] ++ more).map .main) = [] := rfl
      change logData = (recordedIn false
        (s.seen ++ ([MainEvent.ran .getWrapperLog, .fetched] ++ more).map .main)).map bioOp
      rw [recordedIn_append hlogging.unfetched, hbehind, List.append_nil, hlog, hempty, hentries]
      rfl
    · rw [decide_eq_false hres] at hevents horder
      have hnew : ∀ e ∈ [MainEvent.ran .getWrapperLog] ++ more, Aside e :=
        List.forall_mem_append.mpr
          ⟨List.forall_mem_singleton.mpr (aside_ran .getWrapperLog), haside⟩
      refine h.turn hfetch hharness hevents
        (foldlM_applyEvent (fun e he => (hnew e he).1) wrapper) horder hqueue'.intact
        (fun hin => absurd hin hdone) fun hin => ?_
      rcases List.mem_append.mp hin with hin | hin
      · exact absurd hin hlogging.unfetched
      · exact absurd hin (still_of_aside hnew).2.2

/-- A turn in which main fetches the log. -/
theorem Profiled.fetch (h : Profiled s) (hnext : nextOp s.harness.main = some .getWrapperLog)
    (x : HarnessCalls) (access : List (Bool × Bool)) : Keeps s (.main x access) := by
  have hleft : .fetched ∈ marksLeft s.harness.main.todo := by
    obtain ⟨onFailure, todo, htodo⟩ := todo_of_nextOp hnext
    rw [htodo]
    exact List.mem_cons_self
  obtain ⟨hlogging, hempty⟩ := h.logging hleft
  cases hfd : s.harness.main.ioctlFd with
  | false =>
    have hfetch : s.fetchLog x.calls.ok access = .ok (true, s.logData, s.wrapper) := by
      simp only [Profiling.fetchLog, hnext, hfd, if_true, Bool.false_eq_true, if_false, pure,
        Except.pure]
    cases hharness : s.harness.step { x with calls := { x.calls with ok := true } } with
    | error fault => exact .of_main hfetch hharness
    | ok harness =>
      obtain ⟨onFailure, more, -, haside, hevents, horder⟩ := op_events hharness hnext
      rw [hfd] at hevents horder
      have hran : ∀ e ∈ [MainEvent.ran .getWrapperLog], Aside e :=
        List.forall_mem_singleton.mpr (aside_ran _)
      exact h.aside hfetch hharness hevents (List.forall_mem_append.mpr ⟨hran, haside⟩) horder
  | true =>
    obtain ⟨left, hqueue, hdata, -⟩ := hlogging.holds
    obtain ⟨r, hr⟩ := getWrapperLog_ok hqueue hdata access s.logData
    cases r with
    | none =>
      have hstep : s.step (.main x access) = .error .fetching := by
        simp only [Profiling.step, Profiling.mainTurn, Profiling.fetchLog, hnext, hfd, hr, if_true,
          bind, Except.bind, Except.mapError]
      exact .of_error hstep fun _ hf => (by cases hf)
    | some r => exact h.fetched hnext hfd hlogging hempty hr

theorem Profiled.mainTurn (h : Profiled s) (x : HarnessCalls) (access : List (Bool × Bool)) :
    Keeps s (.main x access) := by
  by_cases hget : nextOp s.harness.main = some .getWrapperLog
  · exact h.fetch hget x access
  · have hfetch := fetchLog_other hget x.calls.ok access
    cases hharness : s.harness.step x with
    | error fault => exact .of_main hfetch hharness
    | ok harness =>
      cases hnext : nextOp s.harness.main with
      | none =>
        obtain ⟨hmain, -⟩ := HarnessStep.other hharness hnext
        obtain ⟨new, hevents, haside, horder⟩ := step_events hnext hmain
        exact h.aside hfetch hharness hevents haside horder
      | some op =>
        obtain ⟨onFailure, more, htodo, haside, hevents, horder⟩ := op_events hharness hnext
        have hop : op ≠ .getWrapperLog := fun heq => hget (heq ▸ hnext)
        rcases ioctls_cases hop (decide ((runOp x s.harness.tester op).1 = SUCCESS))
          s.harness.main.ioctlFd with hnone | ⟨cmd, hone, hcmd⟩
        · rw [hnone] at hevents horder
          exact h.aside hfetch hharness hevents
            (List.forall_mem_cons.mpr ⟨aside_ran op, haside⟩) horder
        · have hload : ¬ LoadsWrapper s.harness harness := by
            intro hload
            obtain rfl : op = .insertWrapper := Option.some.inj (hnext.symm.trans hload.1)
            cases hone
          rw [hone] at hevents horder
          exact h.ioctl hfetch hharness htodo hload hcmd haside hevents horder

theorem Profiled.bio (h : Profiled s) {b : Bio} {write : Wrapper.Addr} {data : Payload}
    (hsound : (ProfilingTurn.bio b write data).Sound s) : Keeps s (.bio b write data) := by
  obtain ⟨hsize, hlt, hfresh⟩ := hsound
  cases hloaded : s.harness.tester.kernel.loaded .wrapper with
  | false =>
    have hstep : s.step (.bio b write data) = .error .noWrapper := by
      simp only [Profiling.step, hloaded, Bool.false_eq_true, if_false]
    exact .of_error hstep fun _ hf => (by cases hf)
  | true =>
    obtain ⟨dev', hserve, hintact⟩ := intact_bio h.intact hsize hlt hfresh data
    have hstep : s.step (.bio b write data) =
        .ok { s with wrapper := dev', seen := s.seen ++ [.bio b] } := by
      simp only [Profiling.step, hloaded, if_true, hserve, bind, Except.bind, Except.mapError, pure,
        Except.pure]
    apply Keeps.of_ok hstep
    refine ⟨?_, h.orderly, hintact, fun hleft => ?_, fun hin => ?_⟩
    · rw [List.filterMap_append, h.events]
      exact List.append_nil _
    · obtain ⟨hlogging, hempty⟩ := h.logging hleft
      obtain ⟨dev₁, hserve₁, hlogging⟩ := hlogging.bio hsize hlt hfresh data
      obtain rfl : dev' = dev₁ := Except.ok.inj (hserve.symm.trans hserve₁)
      exact ⟨hlogging, hempty⟩
    · have hin : .main .fetched ∈ s.seen := by simpa using hin
      rw [recordedIn_fetched hin]
      exact h.profile hin

theorem Profiled.step (h : Profiled s) {turn : ProfilingTurn} (hsound : turn.Sound s) :
    Keeps s turn := by
  cases turn with
  | main x access => exact h.mainTurn x access
  | bio b write data => exact h.bio hsound

end Turn

theorem profiled_start (o : Options) (testDev : String) : Profiled (.start o testDev) where
  events := rfl
  orderly := marksLeft_program o
  intact := Wrapper.queue_init.intact
  logging _ := ⟨Logging.loaded (List.Sublist.refl _), rfl⟩
  profile hin := absurd hin List.not_mem_nil

/-- In every run, whichever calls fail and whenever bios come, a log that was fetched holds the
bios that changed the disk while logging was on, byte for byte and in order. If logging could
be switched on, those between the answer that the workload may begin and the command that it
has ended are all recorded, and nothing goes wrong in the wrapper. -/
theorem profile_of_run (o : Options) (testDev : String) {turns : List ProfilingTurn}
    {s : Profiling} (hrun : Transition.Run ProfilingStep (.start o testDev) turns s) :
    s.seen.filterMap Seen.mainEvent = s.harness.main.events ∧
    (.fetched ∈ s.harness.main.events → s.logData = (recordedIn false s.seen).map bioOp) ∧
    (.ioctl .logOn ∈ s.harness.main.events → ∀ before workload behind i,
      s.seen = before ++ .main (.replied i .kBeginLogDone) ::
        (workload ++ .main (.commanded .kEndLog) :: behind) →
      (workload.filterMap Seen.bio?).filter changesDisk <:+: recordedIn false s.seen) ∧
    ∀ turn : ProfilingTurn, turn.Sound s → ∀ fault, s.step turn ≠ .error (.wrapper fault) := by
  have h : Profiled s := by
    refine hrun.invariant (I := Profiled) (C := fun _ => True) ?_ (fun _ _ => trivial)
      (profiled_start o testDev)
    exact fun s turn t h _ hstep => (h.step hstep.1).2 t hstep.2
  have hseen {e : MainEvent} (he : e ∈ s.harness.main.events) : .main e ∈ s.seen := by
    rw [← h.events] at he
    obtain ⟨e', hin, he⟩ := List.mem_filterMap.mp he
    cases e' with
    | main e' => exact Option.some.inj he ▸ hin
    | bio b => cases he
  refine ⟨h.events, fun hfetched => h.profile (hseen hfetched), ?_, ?_⟩
  · intro hon before workload behind i hsplit
    have hmarks : (s.seen.filterMap Seen.mark).Sublist profileScript := by
      rw [h.marks_seen]
      exact (List.sublist_append_left _ _).trans h.orderly
    exact workload_recorded hsplit hmarks (hseen hon)
  · exact fun turn hsound => (h.step hsound).1

def HarnessCalls.ofCommand (fd : ℕ) (c : CmCommand) : HarnessCalls :=
  { HarnessCalls.succeed with
    calls := .ofCommand c, outcomes := { HarnessCalls.succeed.outcomes with opened := some fd } }

/-- The client that records runs a workload of one flush. -/
theorem profile_oneFlush : ∃ turns s,
    Transition.Run ProfilingStep (.start (backgroundOptions false) COW_BRD_PATH) turns s ∧
      s.logData.length = 1 ∧ s.logData = (recordedIn false s.seen).map bioOp := by
  let turns : List ProfilingTurn := List.flatten [
    List.replicate 12 (.main (.ofCommand 3 .kBeginLog) []),
    List.replicate 10 (.main (.ofCommand 4 .kEndLog) []),
    [.bio ⟨0, reqFlush, 0, 0, []⟩ 1 fun _ => 0],
    List.replicate 3 (.main (.ofCommand 4 .kEndLog) [(true, true), (true, true)])]
  have hfold : (turns.foldlM
      (fun (s : Profiling) (turn : ProfilingTurn) =>
        if turn.Sound s then s.step turn else .error .noWrapper)
      (Profiling.start (backgroundOptions false) COW_BRD_PATH)).map
        (fun s : Profiling => decide (s.logData.length = 1 ∧
          MainEvent.fetched ∈ s.harness.main.events)) = .ok true := by
    decide +kernel
  obtain ⟨s, hrun, hs⟩ := Transition.exists_run_of_foldlM _ _ hfold
  obtain ⟨hlength, hfetched⟩ := of_decide_eq_true hs
  have hrun : Transition.Run ProfilingStep (.start (backgroundOptions false) COW_BRD_PATH)
      turns s := by
    refine hrun.mono fun s turn t hstep => ?_
    split_ifs at hstep with hsound
    exact ⟨hsound, hstep⟩
  exact ⟨turns, s, hrun, hlength, (profile_of_run _ _ hrun).2.1 hfetched⟩

end CrashMonkey.Resources
