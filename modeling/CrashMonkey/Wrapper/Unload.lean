import CrashMonkey.Lib.Ledger
import CrashMonkey.Wrapper.Allocation

namespace CrashMonkey.Wrapper

open Ledger Transition

def enotty : Int := 25
def enomem : Int := 12

inductive Resource where
  | blkdev
  | targetDev
  | flagsDevice
  | disk
  | queue
  | gendisk
deriving DecidableEq, Repr

inductive Opened where
  | failed
  | noQueue
  | noMakeRequest
  | complete
deriving DecidableEq, Repr

structure Setup where
  targetDevicePath : String
  flagsDevicePath : String
  major : Int
  targetDev : Opened
  flagsDevice : Opened
  allocDisk : Bool
  allocQueue : Bool
deriving DecidableEq, Repr

def initOut (calls : List (Call Resource)) : Int × List (Call Resource) :=
  (-enomem, calls ++ [.release .blkdev])

/-- `disk_wrapper_init` once it has its major number. -/
def openDevices (targetDev flagsDevice : Opened) (allocDisk allocQueue : Bool) :
    Int × List (Call Resource) :=
  match targetDev with
  | .failed => initOut [.acquire .blkdev]
  | .noQueue | .noMakeRequest => initOut [.acquire .blkdev, .acquire .targetDev]
  | .complete =>
    match flagsDevice with
    | .failed => initOut [.acquire .blkdev, .acquire .targetDev]
    | .noQueue => initOut [.acquire .blkdev, .acquire .targetDev, .acquire .flagsDevice]
    -- of the device with the flags only the queue is looked at
    | .noMakeRequest | .complete =>
      let calls := [.acquire .blkdev, .acquire .targetDev, .acquire .flagsDevice,
        .release .flagsDevice]
      if !allocDisk then initOut calls
      else if !allocQueue then initOut (calls ++ [.acquire .disk])
      else (0, calls ++ [.acquire .disk, .acquire .queue, .acquire .gendisk])

def diskWrapperInit (s : Setup) : Int × List (Call Resource) :=
  if s.targetDevicePath = "" then (-enotty, [])
  else if s.flagsDevicePath = "" then (-enotty, [])
  else if s.major ≤ 0 then initOut []
  else openDevices s.targetDev s.flagsDevice s.allocDisk s.allocQueue

def helloCleanup (dev : HwmDevice) : Except Fault (HwmDevice × List (Call Resource)) := do
  let dev ← freeLogs dev
  return (dev, [.release .targetDev, .release .queue, .release .gendisk, .release .disk,
    .release .blkdev])

/-- The load ends before the first device is opened, but not at the major number. -/
def Setup.OpensNothing (s : Setup) : Prop :=
  s.targetDevicePath = "" ∨ s.flagsDevicePath = "" ∨ 0 < s.major ∧ s.targetDev = .failed

/-- The heap has the nodes that are met from `writes` on, and no others. -/
def NoOther (dev : HwmDevice) : Prop :=
  ∀ nodes, Chain.Linked DiskWriteOp.next dev.heap dev.writes nodes →
    ∀ a ∈ dev.heap, a ∈ nodes.map Prod.fst

theorem openDevices_failed_iff (targetDev flagsDevice : Opened) (allocDisk allocQueue : Bool)
    (h : (openDevices targetDev flagsDevice allocDisk allocQueue).1 ≠ 0) :
    after ∅ (openDevices targetDev flagsDevice allocDisk allocQueue).2 = some ∅ ↔
      targetDev = .failed := by
  revert h
  cases targetDev <;> cases flagsDevice <;> cases allocDisk <;> cases allocQueue <;> decide

theorem openDevices_zero (targetDev flagsDevice : Opened) (allocDisk allocQueue : Bool)
    (h : (openDevices targetDev flagsDevice allocDisk allocQueue).1 = 0) :
    (openDevices targetDev flagsDevice allocDisk allocQueue).2 =
      [.acquire .blkdev, .acquire .targetDev, .acquire .flagsDevice, .release .flagsDevice,
        .acquire .disk, .acquire .queue, .acquire .gendisk] := by
  revert h
  cases targetDev <;> cases flagsDevice <;> cases allocDisk <;> cases allocQueue <;> decide

/-- A failed load gives back what it has exactly if it has opened nothing. -/
theorem diskWrapperInit_failed_iff {s : Setup} (h : (diskWrapperInit s).1 ≠ 0) :
    after ∅ (diskWrapperInit s).2 = some ∅ ↔ s.OpensNothing := by
  unfold diskWrapperInit at h ⊢
  unfold Setup.OpensNothing
  split_ifs at h ⊢ with htarget hflags hmajor
  · exact iff_of_true rfl (.inl htarget)
  · exact iff_of_true rfl (.inr (.inl hflags))
  · refine iff_of_false (by decide) ?_
    rintro (htarget' | hflags' | ⟨hpos, -⟩)
    · exact htarget htarget'
    · exact hflags hflags'
    · omega
  · rw [openDevices_failed_iff _ _ _ _ h]
    simp only [htarget, hflags, false_or]
    exact ⟨fun hfailed => ⟨not_le.mp hmajor, hfailed⟩, And.right⟩

theorem diskWrapperInit_zero {s : Setup} (h : (diskWrapperInit s).1 = 0) :
    (diskWrapperInit s).2 = [.acquire .blkdev, .acquire .targetDev, .acquire .flagsDevice,
      .release .flagsDevice, .acquire .disk, .acquire .queue, .acquire .gendisk] := by
  unfold diskWrapperInit at h ⊢
  split_ifs at h ⊢
  · exact absurd h (by decide)
  · exact absurd h (by decide)
  · exact absurd h (by decide)
  · exact openDevices_zero _ _ _ _ h

/-- The nodes of the chain are freed, and no others. -/
theorem freeNodes_lookup {heap : Heap} {p : Option Addr} {nodes : Nodes}
    (h : Chain.Linked DiskWriteOp.next heap p nodes) (hnodup : (nodes.map Prod.fst).Nodup) :
    ∃ heap', freeNodes heap p = .ok heap' ∧
      ∀ a, heap'.lookup a = if a ∈ nodes.map Prod.fst then none else heap.lookup a := by
  induction nodes generalizing heap p with
  | nil =>
    cases h
    exact ⟨heap, by rw [freeNodes], fun a => by simp⟩
  | cons n nodes ih =>
    obtain ⟨b, n⟩ := n
    obtain ⟨heap', hfree, hlookup⟩ := ih (h.erase hnodup) (List.nodup_cons.mp hnodup).2
    have hb : heap.lookup b = some n := h.lookup_eq List.mem_cons_self
    have hp : p = some b := h.head_eq
    refine ⟨heap', ?_, fun a => ?_⟩
    · rw [hp, freeNodes]
      split
      · next hnone =>
        rw [hb] at hnone
        cases hnone
      · next m hm =>
        rw [hb, Option.some.injEq] at hm
        rw [← hm, hfree]
    · rw [hlookup, List.map_cons]
      by_cases hab : a = b
      · subst hab
        simp
      · simp only [List.mem_cons, hab, false_or, Finmap.lookup_erase_ne hab]

/-- Only a chain up to a null pointer is freed without complaint. -/
theorem linked_of_freeNodes {heap heap' : Heap} {p : Option Addr}
    (h : freeNodes heap p = .ok heap') :
    ∃ nodes, Chain.Linked DiskWriteOp.next heap p nodes := by
  induction hcard : heap.keys.card using Nat.strong_induction_on generalizing heap p with
  | _ card ih =>
    cases p with
    | none => exact ⟨[], .nil⟩
    | some w =>
      rw [freeNodes] at h
      split at h
      · cases h
      · next node hnode =>
        have hlt := Chain.card_erase_add_one hnode
        obtain ⟨nodes, hnodes⟩ := ih _ (by omega) h rfl
        refine ⟨(w, node) :: nodes, .cons hnode (hnodes.congr fun a ha => ?_)⟩
        obtain ⟨⟨b, n⟩, hn, rfl⟩ := List.mem_map.mp ha
        have hb := hnodes.lookup_eq hn
        refine (Finmap.lookup_erase_ne ?_).symm
        rintro rfl
        rw [Finmap.lookup_erase] at hb
        cases hb

theorem NoOther.of_linked {dev : HwmDevice} {nodes : Nodes}
    (h : Chain.Linked DiskWriteOp.next dev.heap dev.writes nodes)
    (hmem : ∀ a ∈ dev.heap, a ∈ nodes.map Prod.fst) : NoOther dev := by
  intro nodes' hnodes'
  rw [← h.unique hnodes']
  exact hmem

theorem noOther_init : NoOther .init := fun _ _ _ ha => (Finmap.notMem_empty ha).elim

theorem linkWrite_mem {dev dev' : HwmDevice} {write : Addr} {node : DiskWriteOp}
    (h : linkWrite dev write node = .ok dev') {a : Addr} (ha : a ∈ dev'.heap) :
    a = write ∨ a ∈ dev.heap := by
  unfold linkWrite at h
  cases hlast : dev.currentWrite with
  | none =>
    simp only [hlast, Except.ok.injEq] at h
    rw [← h] at ha
    exact Finmap.mem_insert.mp ha
  | some last =>
    simp only [hlast] at h
    split at h
    · cases h
    · next prev hprev =>
      rw [Except.ok.injEq] at h
      rw [← h] at ha
      rcases Finmap.mem_insert.mp ha with rfl | ha
      · exact Finmap.mem_insert.mp (Finmap.mem_of_lookup_eq_some hprev)
      · exact Finmap.mem_insert.mp ha

/-- The chain that a node is linked to and filled in has it as its last one. -/
theorem linkWrite_nodes {dev dev' : HwmDevice} {nodes : Nodes} (h : LogLinked dev nodes)
    {write : Addr} (hfresh : write ∉ dev.heap) {node : DiskWriteOp}
    (hlink : linkWrite dev write node = .ok dev') (filled : DiskWriteOp)
    (hnext : filled.next = none) :
    ∃ nodes', Chain.Linked DiskWriteOp.next (dev'.heap.insert write filled) dev'.writes nodes' ∧
      nodes'.map Prod.fst = nodes.map Prod.fst ++ [write] := by
  have hdrained : ¬ Drained dev.rewind := fun hd => (h.queue.drained_iff.mp hd).1 rfl
  obtain ⟨dev₁, nodes', hlink₁, -, hqueue, -, haddrs⟩ :=
    linkWrite_queue h.queue hdrained hfresh node filled hnext
  rw [linkWrite_rewind, hlink] at hlink₁
  obtain rfl : dev'.rewind = dev₁ := Except.ok.inj hlink₁
  exact ⟨nodes', hqueue.writes, haddrs⟩

theorem NoOther.ioctl {dev dev' : HwmDevice} {nodes : Nodes} (h : LogLinked dev nodes)
    (hother : NoOther dev) {cmd : Cmd} (hioctl : diskWrapperIoctl dev cmd = .ok dev') :
    NoOther dev' := by
  have hmem := hother nodes h.writes
  cases cmd with
  | logOff | logOn | other =>
    rw [← Except.ok.inj hioctl]
    exact .of_linked h.writes hmem
  | getLogMeta accessOk | getLogData accessOk =>
    obtain ⟨_, -, hioctl⟩ := bind_eq_ok.mp hioctl
    rw [← Except.ok.inj hioctl]
    exact hother
  | nextEnt =>
    obtain ⟨r, hr, hioctl⟩ := bind_eq_ok.mp hioctl
    cases r with
    | error err =>
      rw [← Except.ok.inj hioctl]
      exact hother
    | ok dev₁ =>
      rw [← Except.ok.inj hioctl]
      obtain ⟨node, -, hr⟩ := bind_eq_ok.mp hr
      cases node with
      | none => cases hr
      | some node =>
        rw [← Except.ok.inj (Except.ok.inj hr)]
        exact .of_linked h.writes hmem
  | clrLog =>
    obtain ⟨heap', hfree, hlookup⟩ := freeNodes_lookup h.writes h.nodup
    obtain ⟨heap₁, hheap₁, hioctl⟩ := bind_eq_ok.mp hioctl
    obtain rfl : heap' = heap₁ := Except.ok.inj (hfree.symm.trans hheap₁)
    rw [← Except.ok.inj hioctl]
    intro nodes' _ a ha
    obtain ⟨node, hnode⟩ := Finmap.mem_iff.mp ha
    have hnode : heap'.lookup a = some node := hnode
    rw [hlookup] at hnode
    split_ifs at hnode with hin
    exact absurd (hmem a (Finmap.mem_of_lookup_eq_some hnode)) hin

theorem NoOther.bio {dev dev' : HwmDevice} {nodes : Nodes} (h : LogLinked dev nodes)
    (hother : NoOther dev) {bio : Bio} {mem : Kmem} (hstep : Tried dev (.bio bio mem) dev')
    (hkeep : ¬ LosesNode dev (.bio bio mem)) : NoOther dev' := by
  have hmem := hother nodes h.writes
  obtain ⟨⟨dev₁, bio₁⟩, hbio, hdev⟩ := bind_eq_ok.mp hstep.2
  obtain rfl : dev₁ = dev' := Except.ok.inj hdev
  by_cases hnone : mem.node = none ∨ mem.data = none
  · rw [diskWrapperBio_no_memory hnone hkeep, Except.ok.injEq, Prod.mk.injEq] at hbio
    exact hbio.1 ▸ hother
  rw [not_or] at hnone
  obtain ⟨write, hnode⟩ := Option.ne_none_iff_exists'.mp hnone.1
  obtain ⟨data, hdata⟩ := Option.ne_none_iff_exists'.mp hnone.2
  obtain rfl : mem = ⟨some write, some data⟩ := by rw [← hnode, ← hdata]
  cases hlog : dev.logOn && isLogged bio with
  | false =>
    rw [diskWrapperBio_not_logged hlog, Except.ok.injEq, Prod.mk.injEq] at hbio
    exact hbio.1 ▸ hother
  | true =>
    obtain ⟨dev₂, entry, hlink, -, rfl⟩ := diskWrapperBio_logged hlog hbio
    obtain ⟨nodes', hnodes', haddrs⟩ := linkWrite_nodes h (hstep.1 write rfl) hlink
      ⟨entry.metadata, entry.data, none⟩ rfl
    refine .of_linked hnodes' fun a ha => ?_
    rw [haddrs, List.mem_append, List.mem_singleton]
    rcases Finmap.mem_insert.mp ha with rfl | ha
    · exact .inr rfl
    · exact (linkWrite_mem hlink ha).symm.imp_left (hmem a)

theorem NoOther.tried {dev dev' : HwmDevice} {nodes : Nodes} {e : Attempt} (h : LogLinked dev nodes)
    (hother : NoOther dev) (hstep : Tried dev e dev') (hkeep : ¬ LosesNode dev e) :
    NoOther dev' := by
  cases e with
  | ioctl cmd => exact hother.ioctl h hstep.2
  | bio bio mem => exact hother.bio h hstep hkeep

/-- With its last node lost the log is not freed. -/
theorem freeLogs_lost {dev dev' dev₁ : HwmDevice} {nodes : Nodes} (h : LogLinked dev nodes)
    {e : Attempt} (hstep : Tried dev e dev') (hlose : LosesNode dev e) :
    freeLogs dev' ≠ .ok dev₁ := by
  intro hfree
  cases e with
  | ioctl cmd => exact hlose
  | bio bio mem =>
    obtain ⟨node, data⟩ := mem
    obtain ⟨hon, hlogged, hnode, rfl⟩ := hlose
    obtain ⟨write, rfl⟩ := Option.ne_none_iff_exists'.mp hnode
    have hfresh : write ∉ dev.heap := hstep.1 write rfl
    have hlog : (dev.logOn && isLogged bio) = true := by
      rw [hon, hlogged]
      rfl
    obtain ⟨dev₂, hlink, -⟩ := h.link hfresh ⟨bioMeta bio, none, none⟩
    have hattempt : attempt dev (.bio bio ⟨some write, none⟩) =
        .ok { dev₂ with heap := dev₂.heap.erase write } := by
      rw [attempt, diskWrapperBio_lost hlog hlink]
      rfl
    obtain rfl := Except.ok.inj (hattempt.symm.trans hstep.2)
    obtain ⟨heap', hheap', -⟩ := bind_eq_ok.mp hfree
    obtain ⟨nodes₁, hnodes₁⟩ := linked_of_freeNodes hheap'
    obtain ⟨nodes₂, hnodes₂, haddrs⟩ :=
      linkWrite_nodes h hfresh hlink ⟨bioMeta bio, none, none⟩ rfl
    -- a chain without the node would be the chain with it
    have hnot (a : Addr) (ha : a ∈ nodes₁.map Prod.fst) : a ≠ write := by
      obtain ⟨⟨b, n⟩, hn, rfl⟩ := List.mem_map.mp ha
      rintro rfl
      have hb := hnodes₁.lookup_eq hn
      rw [Finmap.lookup_erase] at hb
      cases hb
    have hagree : ∀ a ∈ nodes₁.map Prod.fst,
        (dev₂.heap.insert write ⟨bioMeta bio, none, none⟩).lookup a =
          (dev₂.heap.erase write).lookup a := by
      intro a ha
      rw [Finmap.lookup_insert_of_ne _ (hnot a ha), Finmap.lookup_erase_ne (hnot a ha)]
    have heq := (hnodes₁.congr hagree).unique hnodes₂
    refine hnot write ?_ rfl
    rw [heq, haddrs]
    simp

theorem LogLinked.helloCleanup {dev : HwmDevice} {nodes : Nodes} (h : LogLinked dev nodes)
    (hother : NoOther dev) : helloCleanup dev = .ok (⟨dev.logOn, ∅, none, none, none⟩,
      [.release .targetDev, .release .queue, .release .gendisk, .release .disk,
        .release .blkdev]) := by
  obtain ⟨heap', hfree, hlookup⟩ := freeNodes_lookup h.writes h.nodup
  have hempty : heap' = ∅ := by
    apply Finmap.ext_lookup
    intro a
    rw [hlookup, Finmap.lookup_empty]
    split_ifs with hin
    · rfl
    · by_contra hne
      obtain ⟨node, hnode⟩ := Option.ne_none_iff_exists'.mp hne
      exact hin (hother nodes h.writes a (Finmap.mem_of_lookup_eq_some hnode))
  rw [Wrapper.helloCleanup, freeLogs, hfree, hempty]
  rfl

/-- A load that fails gives back what it has acquired only if it fails before a device is
open. After one that succeeds, whatever is logged, read and cleared: unless a node has
been lost, unloading frees all nodes and gives everything back. -/
theorem helloCleanup_releases (s : Setup) :
    ((diskWrapperInit s).1 ≠ 0 →
      (after ∅ (diskWrapperInit s).2 = some ∅ ↔ s.OpensNothing)) ∧
    ((diskWrapperInit s).1 = 0 → ∀ es dev,
      Run (fun dev e dev' => Tried dev e dev' ∧ ¬ LosesNode dev e) .init es dev →
      (∃ dev' calls, helloCleanup dev = .ok (dev', calls) ∧ dev'.heap = ∅ ∧
        after ∅ ((diskWrapperInit s).2 ++ calls) = some ∅) ∧
      ∀ e dev', Tried dev e dev' → ((∃ r, helloCleanup dev' = .ok r) ↔ ¬ LosesNode dev e)) := by
  refine ⟨diskWrapperInit_failed_iff, fun hzero es dev hrun => ?_⟩
  obtain ⟨⟨nodes, h⟩, hother⟩ : (∃ nodes, LogLinked dev nodes) ∧ NoOther dev := by
    refine hrun.invariant (I := fun dev => (∃ nodes, LogLinked dev nodes) ∧ NoOther dev)
      (C := fun _ => True) ?_ (by simp) ⟨⟨[], logLinked_init⟩, noOther_init⟩
    rintro dev e dev' ⟨⟨nodes, h⟩, hother⟩ - ⟨hstep, hkeep⟩
    exact ⟨(h.tried_iff hstep).mpr hkeep, hother.tried h hstep hkeep⟩
  refine ⟨⟨_, _, h.helloCleanup hother, rfl, ?_⟩, fun e dev' hstep => ⟨?_, fun hkeep => ?_⟩⟩
  · rw [diskWrapperInit_zero hzero]
    decide
  · rintro ⟨r, hr⟩ hlose
    obtain ⟨dev₁, hfree, -⟩ := bind_eq_ok.mp hr
    exact freeLogs_lost h hstep hlose hfree
  · obtain ⟨nodes', h'⟩ := (h.tried_iff hstep).mpr hkeep
    exact ⟨_, h'.helloCleanup (hother.tried h hstep hkeep)⟩

/-- A flush is logged, and freed when the wrapper is unloaded. -/
theorem helloCleanup_releases_flush : ∃ dev dev' calls, dev.writes = some 1 ∧
    helloCleanup dev = .ok (dev', calls) ∧ dev'.heap = ∅ ∧
    after ∅ ((diskWrapperInit ⟨"/dev/ram0", "/dev/ram1", 252, .complete, .complete, true, true⟩).2 ++
      calls) = some ∅ := by
  obtain ⟨dev, hrun, hwrites⟩ : ∃ dev,
      Run (fun dev e dev' => Tried dev e dev' ∧ ¬ LosesNode dev e) .init
        [.ioctl .logOn, .bio flushBio ⟨some 1, some fun _ => 0⟩] dev ∧ dev.writes = some 1 := by
    refine ⟨_, .cons ⟨⟨trivial, rfl⟩, id⟩
      (.cons ⟨⟨?_, rfl⟩, fun h => nomatch h.2.2.2⟩ (.nil _)), rfl⟩
    exact fun write _ => Finmap.notMem_empty
  obtain ⟨⟨dev', calls, hcleanup, hheap, hafter⟩, -⟩ :=
    (helloCleanup_releases ⟨"/dev/ram0", "/dev/ram1", 252, .complete, .complete, true, true⟩).2
      (by decide) _ dev hrun
  exact ⟨dev, dev', calls, hwrites, hcleanup, hheap, hafter⟩

end CrashMonkey.Wrapper
