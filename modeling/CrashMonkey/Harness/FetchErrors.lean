import CrashMonkey.Harness.KernelLog

namespace CrashMonkey

open Wrapper

/-- The turns of the loop before one of the two buffers is refused. -/
def turnsBefore (access : List (Bool × Bool)) : ℕ :=
  (access.takeWhile fun a => a.1 && a.2).length

@[simp] theorem turnsBefore_cons_true (access : List (Bool × Bool)) :
    turnsBefore ((true, true) :: access) = turnsBefore access + 1 := rfl

theorem turnsBefore_eq_zero_iff (access : List (Bool × Bool)) :
    turnsBefore access = 0 ↔ access.head? ≠ some (true, true) := by
  cases access with
  | nil => exact iff_of_true rfl nofun
  | cons a access =>
    obtain ⟨metaOk, dataOk⟩ := a
    cases metaOk <;> cases dataOk <;> simp [turnsBefore]

section Turn

variable {dev : HwmDevice} {passed left : Nodes} {n : Addr × DiskWriteOp}
  (access : List (Bool × Bool)) (logData : List (DiskWrite Payload))

/-- Behind the last entry the loop ends. -/
theorem getWrapperLog_end (h : Queue dev passed []) (a : Bool × Bool) :
    getWrapperLog (a :: access) dev logData = .ok (some (SUCCESS, logData, dev)) := by
  simp [getWrapperLog, getLogMeta, h.currentNode_eq, bind, Except.bind, pure, Except.pure]

/-- At a refusal the wrapper stays as it is. -/
theorem getWrapperLog_refused (h : Queue dev passed (n :: left)) {a : Bool × Bool}
    (ha : a ≠ (true, true)) : ∃ err, err ≠ SUCCESS ∧
      getWrapperLog (a :: access) dev logData = .ok (some (err, [], dev)) := by
  obtain ⟨metaOk, dataOk⟩ := a
  cases metaOk with
  | false =>
    refine ⟨WRAPPER_DATA_ERR, by decide, ?_⟩
    simp [getWrapperLog, getLogMeta, h.currentNode_eq, bind, Except.bind, pure, Except.pure]
  | true =>
    cases dataOk with
    | false =>
      refine ⟨WRAPPER_MEM_ERR, by decide, ?_⟩
      simp [getWrapperLog, getLogMeta, getLogData, h.currentNode_eq, bind, Except.bind, pure,
        Except.pure]
    | true => exact absurd rfl ha

theorem getWrapperLog_turn (h : Queue dev passed (n :: left)) (hn : n.2.entry.data.isSome) :
    ∃ dev₁, Queue dev₁ (passed ++ [n]) left ∧
      getWrapperLog ((true, true) :: access) dev logData =
        getWrapperLog access dev₁ (logData ++ [fetched n.2.entry]) := by
  obtain ⟨data, hgetData, hentry⟩ := h.getLogData_eq hn
  obtain ⟨dev₁, hnext, -, h₁⟩ := h.nextEnt_eq
  have hmeta : getLogMeta true dev = .ok (.ok n.2.metadata) := by
    simp [getLogMeta, h.currentNode_eq, bind, Except.bind, pure, Except.pure]
  refine ⟨dev₁, h₁, ?_⟩
  simp [getWrapperLog, hmeta, hgetData, hnext, hentry, bind, Except.bind]

end Turn

/-- What a fetch that ends does: it gets all entries that are left, or it stops at the first
refusal and keeps none. -/
theorem getWrapperLog_cases {dev dev' : HwmDevice} {passed left : Nodes}
    (h : Queue dev passed left) (hdata : ∀ w ∈ left.entries, w.data.isSome)
    {access : List (Bool × Bool)} {logData log : List (DiskWrite Payload)} {res : Int}
    (hrun : getWrapperLog access dev logData = .ok (some (res, log, dev'))) :
    (res = SUCCESS ∧ left.length ≤ turnsBefore access ∧
        log = logData ++ left.entries.map fetched ∧ Queue dev' (passed ++ left) []) ∨
      (res ≠ SUCCESS ∧ turnsBefore access < left.length ∧ log = [] ∧
        Queue dev' (passed ++ left.take (turnsBefore access))
          (left.drop (turnsBefore access))) := by
  induction left generalizing dev passed access logData with
  | nil =>
    cases access with
    | nil => cases hrun
    | cons a access =>
      rw [getWrapperLog_end access logData h a] at hrun
      simp only [Except.ok.injEq, Option.some.injEq, Prod.mk.injEq] at hrun
      obtain ⟨rfl, rfl, rfl⟩ := hrun
      left
      refine ⟨rfl, Nat.zero_le _, ?_, ?_⟩
      · simp [Nodes.entries]
      · rwa [List.append_nil]
  | cons n left ih =>
    cases access with
    | nil => cases hrun
    | cons a access =>
      obtain ⟨hn, hrest⟩ := List.forall_mem_cons.mp hdata
      by_cases ha : a = (true, true)
      · subst ha
        obtain ⟨dev₁, h₁, hturn⟩ := getWrapperLog_turn access logData h hn
        rw [hturn] at hrun
        rw [turnsBefore_cons_true, List.length_cons, List.take_succ_cons, List.drop_succ_cons]
        rcases ih h₁ hrest hrun with ⟨hres, hlen, hlog, hqueue⟩ | ⟨hres, hlen, hlog, hqueue⟩
        · left
          refine ⟨hres, by omega, ?_, ?_⟩
          · rw [hlog, List.append_assoc]
            rfl
          · rwa [List.append_assoc] at hqueue
        · right
          refine ⟨hres, by omega, hlog, ?_⟩
          rwa [List.append_assoc] at hqueue
      · obtain ⟨err, herr, hstop⟩ := getWrapperLog_refused access logData h ha
        have hzero : turnsBefore (a :: access) = 0 :=
          (turnsBefore_eq_zero_iff _).mpr fun heq => ha (Option.some.inj heq)
        rw [hstop] at hrun
        simp only [Except.ok.injEq, Option.some.injEq, Prod.mk.injEq] at hrun
        obtain ⟨rfl, rfl, rfl⟩ := hrun
        right
        rw [hzero, List.take_zero, List.append_nil, List.drop_zero]
        exact ⟨herr, Nat.succ_pos _, rfl, h⟩

/-- A fetch ends at the first refusal, or behind the last entry. -/
theorem exists_getWrapperLog {dev : HwmDevice} {passed left : Nodes} (h : Queue dev passed left)
    (hdata : ∀ w ∈ left.entries, w.data.isSome) {access : List (Bool × Bool)}
    (hlen : min left.length (turnsBefore access) < access.length)
    (logData : List (DiskWrite Payload)) :
    ∃ res log dev', getWrapperLog access dev logData = .ok (some (res, log, dev')) := by
  induction left generalizing dev passed access logData with
  | nil =>
    cases access with
    | nil => exact absurd hlen (Nat.not_lt_zero _)
    | cons a access => exact ⟨_, _, _, getWrapperLog_end access logData h a⟩
  | cons n left ih =>
    cases access with
    | nil => exact absurd hlen (Nat.not_lt_zero _)
    | cons a access =>
      obtain ⟨hn, hrest⟩ := List.forall_mem_cons.mp hdata
      by_cases ha : a = (true, true)
      · subst ha
        obtain ⟨dev₁, h₁, hturn⟩ := getWrapperLog_turn access logData h hn
        rw [hturn]
        apply ih h₁ hrest
        rw [turnsBefore_cons_true, List.length_cons, List.length_cons] at hlen
        omega
      · obtain ⟨err, -, hstop⟩ := getWrapperLog_refused access logData h ha
        exact ⟨err, [], dev, hstop⟩

theorem data_drop {left : Nodes} (h : ∀ w ∈ left.entries, w.data.isSome) (n : ℕ) :
    ∀ w ∈ Nodes.entries (left.drop n), w.data.isSome := by
  intro w hw
  obtain ⟨node, hnode, rfl⟩ := List.mem_map.mp hw
  apply h
  exact List.mem_map_of_mem (List.mem_of_mem_drop hnode)

/-- A fetch with these answers of `access_ok` and this result; `log_data` is kept in between. -/
def Fetch (s : HwmDevice × List (DiskWrite Payload)) (e : List (Bool × Bool) × Int)
    (s' : HwmDevice × List (DiskWrite Payload)) : Prop :=
  getWrapperLog e.1 s.1 s.2 = .ok (some (e.2, s'.2, s'.1))

/-- After failing fetches the log of the harness is empty, and the cursor has moved on over
all that they have read. -/
theorem fetches_fail {s s' : HwmDevice × List (DiskWrite Payload)}
    {es : List (List (Bool × Bool) × Int)} (hrun : Transition.Run Fetch s es s')
    (hfail : ∀ e ∈ es, e.2 ≠ SUCCESS) {passed left : Nodes} (h : Queue s.1 passed left)
    (hdata : ∀ w ∈ left.entries, w.data.isSome) (hempty : s.2 = []) :
    s'.2 = [] ∧ ∃ passed', Queue s'.1 passed'
      (left.drop (es.map fun e => turnsBefore e.1).sum) ∧
      ((es.map fun e => turnsBefore e.1).sum ≤ left.length) := by
  induction hrun generalizing passed left with
  | nil s => exact ⟨hempty, passed, h, Nat.zero_le _⟩
  | @cons s t u e es hstep _ ih =>
    obtain ⟨he, hfail'⟩ := List.forall_mem_cons.mp hfail
    rcases getWrapperLog_cases h hdata hstep with ⟨hres, -⟩ | ⟨-, hlen, hlog, hqueue⟩
    · exact absurd hres he
    · obtain ⟨hempty', passed', hqueue', hle⟩ := ih hfail' hqueue (data_drop hdata _) hlog
      rw [List.drop_drop] at hqueue'
      rw [List.length_drop] at hle
      refine ⟨hempty', passed', ?_, ?_⟩
      · rwa [List.map_cons, List.sum_cons]
      · rw [List.map_cons, List.sum_cons]
        omega

/-- After any number of fetches that failed, one that succeeds gets what they have not read.
It gets the whole log exactly if each of them was refused at its first entry. -/
theorem fetch_after_failures {dev dev' : HwmDevice} {passed left : Nodes}
    (h : Queue dev passed left) (hdata : ∀ w ∈ left.entries, w.data.isSome)
    {es : List (List (Bool × Bool) × Int)} {access : List (Bool × Bool)}
    {log : List (DiskWrite Payload)} (hfail : ∀ e ∈ es, e.2 ≠ SUCCESS)
    (hrun : Transition.Run Fetch (dev, []) (es ++ [(access, SUCCESS)]) (dev', log)) :
    log = (left.entries.map fetched).drop (es.map fun e => turnsBefore e.1).sum ∧
      (log = left.entries.map fetched ↔ ∀ e ∈ es, e.1.head? ≠ some (true, true)) := by
  obtain ⟨⟨dev₁, log₁⟩, hfailed, hlast⟩ := hrun.of_append
  obtain ⟨hempty, passed', hqueue, hle⟩ := fetches_fail hfailed hfail h hdata rfl
  generalize hread : (es.map fun e => turnsBefore e.1).sum = read at hqueue hle ⊢
  cases hlast with
  | cons hstep hnil =>
    cases hnil
    obtain rfl : log₁ = [] := hempty
    have hlog : log = (left.entries.map fetched).drop read := by
      rcases getWrapperLog_cases hqueue (data_drop hdata read) hstep with
        ⟨-, -, hlog, -⟩ | ⟨hres, -⟩
      · have heq : log = [] ++ (Nodes.entries (left.drop read)).map fetched := hlog
        rw [heq, List.nil_append, Nodes.entries, Nodes.entries, List.map_drop, List.map_drop]
      · exact absurd rfl hres
    refine ⟨hlog, ?_⟩
    have hzero : log = left.entries.map fetched ↔ read = 0 := by
      constructor
      · intro heq
        have hlen := congrArg List.length (hlog.symm.trans heq)
        rw [List.length_drop, List.length_map, Nodes.entries, List.length_map] at hlen
        omega
      · rintro rfl
        rw [hlog, List.drop_zero]
    rw [hzero, ← hread, List.sum_eq_zero_iff]
    simp only [List.forall_mem_map, turnsBefore_eq_zero_iff]

/-- Whatever the wrapper was used for before: after a clear, it holds what is recorded. -/
theorem holds_of_recording {before : List Wrapper.Event} {t : Traced} {es : List Wrapper.Event}
    (hbefore : Transition.Run Wrapper.Step .init before t) (hes : ∀ e ∈ es, Recording e)
    (hfresh : FreshRun t.dev (.ioctl .clrLog :: .ioctl .logOn :: es)) :
    ∃ dev, serveAll t.dev (.ioctl .clrLog :: .ioctl .logOn :: es) = .ok dev ∧
      Holds dev (recordedBios true es) := by
  obtain ⟨dev₀, hclear, hempty⟩ := (intact_of_run hbefore).freeLogs_eq
  have hon : Holds { dev₀ with logOn := true } [] :=
    ⟨[], hempty.congr rfl rfl rfl rfl, by simp [Nodes.entries], rfl⟩
  obtain ⟨dev, hall, hholds⟩ := hon.serveAll hes (((hfresh.2 dev₀ hclear).2) _ rfl)
  refine ⟨dev, ?_, by simpa using hholds⟩
  exact Transition.bind_eq_ok.mpr ⟨dev₀, hclear, Transition.bind_eq_ok.mpr ⟨_, rfl, hall⟩⟩

/-- A fetch that succeeds after others that failed gets the recorded bios that these have not
read, and it gets all of them exactly if each of the others was refused at its first entry. -/
theorem fetch_of_recording {before : List Wrapper.Event} {t : Traced} {es : List Wrapper.Event}
    (hbefore : Transition.Run Wrapper.Step .init before t) (hes : ∀ e ∈ es, Recording e)
    (hfresh : FreshRun t.dev (.ioctl .clrLog :: .ioctl .logOn :: es)) {dev dev' : HwmDevice}
    (hserve : serveAll t.dev (.ioctl .clrLog :: .ioctl .logOn :: es) = .ok dev)
    {fs : List (List (Bool × Bool) × Int)} {access : List (Bool × Bool)}
    {log : List (DiskWrite Payload)} (hfail : ∀ f ∈ fs, f.2 ≠ SUCCESS)
    (hrun : Transition.Run Fetch (dev, []) (fs ++ [(access, SUCCESS)]) (dev', log)) :
    log = ((recordedBios true es).map bioOp).drop (fs.map fun f => turnsBefore f.1).sum ∧
      (log = (recordedBios true es).map bioOp ↔ ∀ f ∈ fs, f.1.head? ≠ some (true, true)) := by
  obtain ⟨dev₁, hserve₁, left, hqueue, hdata, hentries⟩ := holds_of_recording hbefore hes hfresh
  obtain rfl : dev₁ = dev := Except.ok.inj (hserve₁.symm.trans hserve)
  rw [← hentries]
  exact fetch_after_failures hqueue hdata hfail hrun

def twoWrites : List Wrapper.Event :=
  [.bio ⟨0, reqWrite, 0, 1, [⟨fun _ => 7, 1, 0⟩]⟩ 1 fun _ => 0,
    .bio ⟨0, reqWrite ||| reqFlush, 1, 1, [⟨fun _ => 8, 1, 0⟩]⟩ 2 fun _ => 0]

theorem twoWrites_recording : ∀ e ∈ twoWrites, Recording e := by
  intro e he
  rw [twoWrites, List.mem_pair] at he
  rcases he with rfl | rfl
  · exact ⟨rfl, by decide⟩
  · exact ⟨rfl, by decide⟩

theorem twoWrites_fresh : FreshRun .init (.ioctl .clrLog :: .ioctl .logOn :: twoWrites) := by
  have hfree : serve .init (.ioctl .clrLog) = .ok .init := by
    simp [serve, diskWrapperIoctl, freeLogs, freeNodes, HwmDevice.init, bind, Except.bind, pure,
      Except.pure]
  refine ⟨trivial, fun dev₁ h₁ => ⟨trivial, fun dev₂ h₂ => ⟨?_, fun dev₃ h₃ => ⟨?_,
    fun _ _ => trivial⟩⟩⟩⟩
  all_goals
    obtain rfl := Except.ok.inj (hfree.symm.trans h₁)
    cases h₂
  · exact Finmap.notMem_empty
  · cases h₃
    simp [Wrapper.Event.Fresh, HwmDevice.init, Finmap.notMem_empty]

/-- A fetch that is refused at the second entry, and one that succeeds. -/
theorem fetch_of_recording_twoWrites : ∃ dev dev' log err,
    serveAll .init (.ioctl .clrLog :: .ioctl .logOn :: twoWrites) = .ok dev ∧ err ≠ SUCCESS ∧
    Transition.Run Fetch (dev, []) ([([(true, true), (true, false)], err)] ++
      [(List.replicate 3 (true, true), SUCCESS)]) (dev', log) ∧
    log = ((recordedBios true twoWrites).map bioOp).drop 1 := by
  obtain ⟨dev, hserve, left, hqueue, hdata, hentries⟩ :=
    holds_of_recording (.nil Traced.init) twoWrites_recording twoWrites_fresh
  have htwo : left.length = 2 := by
    have hlen := congrArg List.length hentries
    rwa [Nodes.entries, List.length_map, List.length_map, List.length_map] at hlen
  have hturns : turnsBefore [(true, true), (true, false)] = 1 := rfl
  have hmany : min left.length (turnsBefore [(true, true), (true, false)]) <
      [(true, true), (true, false)].length := by
    rw [htwo, hturns]
    decide
  obtain ⟨err, log₁, dev₁, hfirst⟩ := exists_getWrapperLog hqueue hdata hmany []
  rcases getWrapperLog_cases hqueue hdata hfirst with ⟨-, hlen, -⟩ | ⟨herr, -, rfl, hqueue₁⟩
  · omega
  have hone : (left.drop 1).length = 1 := by rw [List.length_drop, htwo]
  have hmany₁ : min (left.drop (turnsBefore [(true, true), (true, false)])).length
      (turnsBefore (List.replicate 3 (true, true))) < (List.replicate 3 (true, true)).length := by
    rw [hturns, hone]
    decide
  obtain ⟨res, log, dev', hsecond⟩ := exists_getWrapperLog hqueue₁ (data_drop hdata _) hmany₁ []
  rcases getWrapperLog_cases hqueue₁ (data_drop hdata _) hsecond with ⟨rfl, -⟩ | ⟨-, hlen, -⟩
  · have hrun : Transition.Run Fetch (dev, []) ([([(true, true), (true, false)], err)] ++
        [(List.replicate 3 (true, true), SUCCESS)]) (dev', log) :=
      .cons (t := (dev₁, [])) hfirst (.cons (t := (dev', log)) hsecond (.nil _))
    have hfail : ∀ f ∈ [([(true, true), (true, false)], err)], f.2 ≠ SUCCESS := by
      simpa using herr
    refine ⟨dev, dev', log, err, hserve, herr, hrun, ?_⟩
    exact (fetch_of_recording (.nil Traced.init) twoWrites_recording twoWrites_fresh hserve hfail
      hrun).1
  · rw [hturns, hone] at hlen
    exact absurd hlen (by decide)

end CrashMonkey
