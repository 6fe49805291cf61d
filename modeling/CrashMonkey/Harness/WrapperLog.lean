import CrashMonkey.Harness.Replay
import CrashMonkey.Wrapper.Queue

namespace CrashMonkey

open Wrapper

def SUCCESS : Int := 0
def WRAPPER_DATA_ERR : Int := -19
def WRAPPER_MEM_ERR : Int := -20

def diskWrite (m : DiskWriteOpMeta) (d : Option Payload) : DiskWrite Payload :=
  ⟨m, if m.size = 0 then none else d.map fun src => memdup src m.size.toNat⟩

/-- `Tester::get_wrapper_log`: its result, `log_data` and the wrapper afterwards. A turn
of the loop takes the answers of `access_ok` to its two buffers from `access`; `none`
is a run that is still waiting for them. -/
def getWrapperLog : List (Bool × Bool) → HwmDevice → List (DiskWrite Payload) →
    Except Fault (Option (Int × List (DiskWrite Payload) × HwmDevice))
  | [], _, _ => return none
  | (metaOk, dataOk) :: access, dev, logData => do
    match ← getLogMeta metaOk dev with
    | .error .enodata => return some (SUCCESS, logData, dev)
    | .error .efault => return some (WRAPPER_DATA_ERR, [], dev)
    | .ok m =>
      match ← getLogData dataOk dev with
      | .error .enodata => return some (SUCCESS, logData, dev)
      | .error .efault => return some (WRAPPER_MEM_ERR, [], dev)
      | .ok data =>
        let logData := logData ++ [diskWrite m (some data)]
        match ← nextEnt dev with
        | .error .enodata => return some (SUCCESS, logData, dev)
        | .error .efault => return some (SUCCESS, [], dev)
        | .ok dev => getWrapperLog access dev logData

def fetched (w : DiskWrite Payload) : DiskWrite Payload :=
  diskWrite w.metadata (some (memdup (w.data.getD fun _ => 0) w.metadata.size.toNat))

theorem size_eq_zero_iff (m : DiskWriteOpMeta) : m.size = 0 ↔ m.size.toNat = 0 := by
  rw [← BitVec.toNat_inj]
  rfl

theorem replayOp_fetched (img : ℕ → UInt8) (w : DiskWrite Payload) :
    replayOp img (fetched w) = replayOp img w := by
  unfold replayOp
  have hflag : (fetched w).hasWriteFlag = w.hasWriteFlag := rfl
  rw [hflag]
  split_ifs with hw
  · change Image.overlay img w.byteAddr w.metadata.size.toNat _ = _
    apply Image.overlay_inj.mpr
    intro i hi
    have hsize : w.metadata.size ≠ 0 := by
      rw [Ne, size_eq_zero_iff]
      omega
    simp only [fetched, diskWrite, if_neg hsize, Option.map_some, Option.getD_some]
    rw [memdup_apply _ hi, memdup_apply _ hi]
  · rfl

theorem foldl_replayOp_fetched (ws : List (DiskWrite Payload)) (img : ℕ → UInt8) :
    (ws.map fetched).foldl replayOp img = ws.foldl replayOp img := by
  rw [List.foldl_map]
  exact congrArg (fun f => ws.foldl f img) (funext₂ replayOp_fetched)

theorem replayable_fetched {capacity : ℕ} {w : DiskWrite Payload} (h : Replayable capacity w) :
    Replayable capacity (fetched w) := by
  intro hw
  obtain ⟨hseek, hcap, -⟩ := h hw
  refine ⟨hseek, hcap, fun hnone => ?_⟩
  by_contra hsize
  have hzero : w.metadata.size = 0 := by simpa [fetched, diskWrite] using hnone
  exact hsize ((size_eq_zero_iff _).mp hzero)

theorem Wrapper.Queue.getLogData_eq {dev : HwmDevice} {passed left : Nodes}
    {n : Addr × DiskWriteOp} (h : Queue dev passed (n :: left)) (hdata : n.2.data.isSome) :
    ∃ data, getLogData true dev = .ok (.ok data) ∧
      diskWrite n.2.metadata (some data) = fetched n.2.entry := by
  obtain ⟨data, hdata⟩ := Option.isSome_iff_exists.mp hdata
  unfold getLogData
  simp only [h.currentNode_eq, bind, Except.bind, List.head?_cons, Option.map_some, hdata]
  by_cases hsize : n.2.metadata.size = 0
  · refine ⟨memdup (fun _ => 0) 0, by simp [hsize, pure, Except.pure], ?_⟩
    simp [diskWrite, fetched, DiskWriteOp.entry, hsize]
  · refine ⟨memdup data n.2.metadata.size.toNat, ?_, by simp [fetched, DiskWriteOp.entry, hdata]⟩
    simp only [pure, Except.pure, Bool.not_true, Bool.false_eq_true, if_false, if_neg hsize]

/-- With memory that is accepted, the harness gets all entries behind the cursor. -/
theorem getWrapperLog_eq {dev : HwmDevice} {passed left : Nodes} (h : Queue dev passed left)
    (hdata : ∀ w ∈ left.entries, w.data.isSome) {access : List (Bool × Bool)}
    (haccess : ∀ a ∈ access, a = (true, true)) (hlen : left.length < access.length)
    (logData : List (DiskWrite Payload)) :
    ∃ dev', getWrapperLog access dev logData =
      .ok (some (SUCCESS, logData ++ left.entries.map fetched, dev')) := by
  induction left generalizing dev passed access logData with
  | nil =>
    cases access with
    | nil => cases hlen
    | cons a access =>
      obtain rfl := haccess a List.mem_cons_self
      refine ⟨dev, ?_⟩
      simp [getWrapperLog, getLogMeta, h.currentNode_eq, Nodes.entries, bind, Except.bind, pure,
        Except.pure]
  | cons n left ih =>
    cases access with
    | nil => cases hlen
    | cons a access =>
      obtain ⟨ha, hrest⟩ := List.forall_mem_cons.mp haccess
      obtain ⟨hn, hdata⟩ := List.forall_mem_cons.mp hdata
      obtain ⟨data, hgetData, hentry⟩ := h.getLogData_eq hn
      obtain ⟨dev₁, hnext, -, h₁⟩ := h.nextEnt_eq
      obtain ⟨dev', htail⟩ := ih h₁ hdata hrest (by simpa using hlen)
        (logData ++ [fetched n.2.entry])
      have hmeta : getLogMeta true dev = .ok (.ok n.2.metadata) := by
        simp [getLogMeta, h.currentNode_eq, bind, Except.bind, pure, Except.pure]
      refine ⟨dev', ?_⟩
      simp only [ha, getWrapperLog, hmeta, hgetData, hnext, hentry, bind, Except.bind, htail]
      simp [Nodes.entries]

end CrashMonkey
