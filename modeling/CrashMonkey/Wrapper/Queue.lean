import CrashMonkey.Lib.Transition
import CrashMonkey.Wrapper.Device

namespace CrashMonkey.Wrapper

def DiskWriteOp.entry (node : DiskWriteOp) : DiskWrite Payload := ⟨node.metadata, node.data⟩

abbrev Nodes := List (Addr × DiskWriteOp)

def Nodes.entries (nodes : Nodes) : List (DiskWrite Payload) := nodes.map fun n => n.2.entry

/-- The nodes `passed` are before the cursor, and `left` from there on. -/
structure Queue (dev : HwmDevice) (passed left : Nodes) : Prop where
  writes : Chain.Linked DiskWriteOp.next dev.heap dev.writes (passed ++ left)
  cursor : dev.currentLogWrite = left.head?.map Prod.fst
  nodup : ((passed ++ left).map Prod.fst).Nodup
  last : dev.currentWrite = (passed ++ left).getLast?.map Prod.fst

theorem Queue.linked {dev : HwmDevice} {passed left : Nodes} (h : Queue dev passed left) :
    Chain.Linked DiskWriteOp.next dev.heap dev.currentLogWrite left :=
  h.cursor ▸ h.writes.drop

theorem queue_init : Queue .init [] [] := ⟨.nil, rfl, List.nodup_nil, rfl⟩

theorem Queue.congr {dev dev' : HwmDevice} {passed left : Nodes} (h : Queue dev passed left)
    (hheap : dev'.heap = dev.heap) (hwrites : dev'.writes = dev.writes)
    (hcurrent : dev'.currentWrite = dev.currentWrite)
    (hcursor : dev'.currentLogWrite = dev.currentLogWrite) : Queue dev' passed left :=
  ⟨hheap ▸ hwrites ▸ h.writes, hcursor ▸ h.cursor, h.nodup, hcurrent ▸ h.last⟩

def Drained (dev : HwmDevice) : Prop := dev.currentWrite ≠ none ∧ dev.currentLogWrite = none

theorem Queue.drained_iff {dev : HwmDevice} {passed left : Nodes} (h : Queue dev passed left) :
    Drained dev ↔ passed ≠ [] ∧ left = [] := by
  unfold Drained
  rw [h.last, h.cursor]
  cases left with
  | nil => simp
  | cons n left => simp

theorem linkWrite_first {dev : HwmDevice} (h : dev.currentWrite = none) (write : Addr)
    (node : DiskWriteOp) : linkWrite dev write node =
      .ok { dev with heap := dev.heap.insert write node, writes := some write,
                     currentWrite := some write, currentLogWrite := some write } := by
  rw [linkWrite, h]

theorem linkWrite_next {dev : HwmDevice} {last : Addr} (h : dev.currentWrite = some last)
    {write : Addr} {node prev : DiskWriteOp}
    (hprev : (dev.heap.insert write node).lookup last = some prev) : linkWrite dev write node =
      .ok { dev with heap := (dev.heap.insert write node).insert last { prev with next := some write },
                     currentWrite := some write } := by
  rw [linkWrite, h]
  simp only [hprev]

/-- Unless the queue is drained, a new node is its last one and comes into view. -/
theorem linkWrite_queue {dev : HwmDevice} {passed left : Nodes} (h : Queue dev passed left)
    (hdrained : ¬ Drained dev) {write : Addr} (hfresh : write ∉ dev.heap)
    (node filled : DiskWriteOp) (hnext : filled.next = none) :
    ∃ dev' left', linkWrite dev write node = .ok dev' ∧ dev'.logOn = dev.logOn ∧
      Queue { dev' with heap := dev'.heap.insert write filled } passed left' ∧
      left'.entries = left.entries ++ [filled.entry] ∧
      left'.map Prod.fst = left.map Prod.fst ++ [write] := by
  rw [h.drained_iff] at hdrained
  rcases List.eq_nil_or_concat left with rfl | ⟨front, ⟨a, n⟩, rfl⟩
  · obtain rfl : passed = [] := by
      by_contra hne
      exact hdrained ⟨hne, rfl⟩
    have hlast : dev.currentWrite = none := h.last
    refine ⟨_, [(write, filled)], linkWrite_first hlast write node, rfl, ⟨?_, rfl, ?_, rfl⟩, rfl,
      rfl⟩
    · refine .cons (Finmap.lookup_insert _) ?_
      rw [hnext]
      exact .nil
    · exact List.nodup_singleton write
  · rw [List.concat_eq_append] at *
    have hlast : dev.currentWrite = some a := by
      rw [h.last]
      simp
    have hwrites := h.writes
    have hnodup := h.nodup
    rw [← List.append_assoc] at hwrites hnodup
    have hin {b : Addr} {m : DiskWriteOp} (hb : dev.heap.lookup b = some m) : b ≠ write := by
      rintro rfl
      exact hfresh (Finmap.mem_iff.mpr ⟨m, hb⟩)
    have ha : dev.heap.lookup a = some n := hwrites.lookup_eq (by simp)
    have hprev : (dev.heap.insert write node).lookup a = some n := by
      rw [Finmap.lookup_insert_of_ne _ (hin ha), ha]
    refine ⟨_, front ++ [(a, { n with next := some write }), (write, filled)],
      linkWrite_next hlast hprev, rfl, ⟨?_, ?_, ?_, ?_⟩, ?_, ?_⟩
    · rw [← List.append_assoc]
      refine hwrites.append ?_ ?_ rfl (Finmap.lookup_insert _) hnext
      · intro c hc
        obtain ⟨⟨b, m⟩, hm, rfl⟩ := List.mem_map.mp hc
        have hb : dev.heap.lookup b = some m := hwrites.lookup_eq (List.mem_append_left _ hm)
        have hba : b ≠ a := by
          rw [List.map_append, List.nodup_append] at hnodup
          exact hnodup.2.2 b hc a (by simp)
        rw [Finmap.lookup_insert_of_ne _ (hin hb), Finmap.lookup_insert_of_ne _ hba,
          Finmap.lookup_insert_of_ne _ (hin hb)]
      · rw [Finmap.lookup_insert_of_ne _ (hin ha), Finmap.lookup_insert]
    · rw [h.cursor]
      cases front <;> rfl
    · rw [← List.append_assoc, List.map_append]
      have hnot : write ∉ (passed ++ front ++ [(a, n)]).map Prod.fst := by
        intro hmem
        obtain ⟨⟨b, m⟩, hm, rfl⟩ := List.mem_map.mp hmem
        exact hin (hwrites.lookup_eq hm) rfl
      have hall := List.nodup_append.mpr ⟨hnodup, List.nodup_singleton write, fun b hb c hc => by
        rw [List.mem_singleton.mp hc]
        exact fun hbw => hnot (hbw ▸ hb)⟩
      simpa using hall
    · simp
    · simp [Nodes.entries, DiskWriteOp.entry]
    · simp

theorem copySegments_eq {size copied : ℕ} {vecs : List Segment}
    (h : copied + segmentsSize vecs ≤ size) (data : Payload) :
    copySegments size vecs copied data =
      .ok (Image.overlay data copied (segmentsSize vecs) (segmentsData vecs)) := by
  induction vecs generalizing copied data with
  | nil => exact congrArg Except.ok (Image.overlay_zero _ _ _).symm
  | cons vec vecs ih =>
    have hsize : segmentsSize (vec :: vecs) = vec.bvLen + segmentsSize vecs := rfl
    rw [copySegments, if_neg (by omega), ih (by omega), overlay_segmentsData]

/-- A bio whose segments fit is logged with their bytes. -/
theorem diskWrapperBio_queue {dev : HwmDevice} {passed left : Nodes} (h : Queue dev passed left)
    (hdrained : ¬ Drained dev) {bio : Bio} (hlog : (dev.logOn && isLogged bio) = true)
    {write : Addr} (hfresh : write ∉ dev.heap) (data : Payload)
    (hsize : segmentsSize bio.segments ≤ (bioMeta bio).size.toNat) :
    ∃ dev' left', diskWrapperBio ⟨some write, some data⟩ dev bio = .ok (dev', bio) ∧
      dev'.logOn = dev.logOn ∧ Queue dev' passed left' ∧
      left'.entries = left.entries ++ [⟨bioMeta bio, some (Image.overlay data 0
        (segmentsSize bio.segments) (segmentsData bio.segments))⟩] := by
  have hcopy : copySegments (bioMeta bio).size.toNat bio.segments 0 data = _ :=
    copySegments_eq (by omega) data
  obtain ⟨dev₁, left', hlink, hon, hqueue, hentries, -⟩ := linkWrite_queue h hdrained hfresh
    ⟨bioMeta bio, none, none⟩ ⟨bioMeta bio, some (Image.overlay data 0
      (segmentsSize bio.segments) (segmentsData bio.segments)), none⟩ rfl
  refine ⟨_, left', ?_, ?_, hqueue, hentries⟩
  · simp [diskWrapperBio, hlog, hlink, hcopy, bind, Except.bind, pure, Except.pure]
  · exact hon

theorem diskWrapperBio_not_logged {mem : Kmem} {dev : HwmDevice} {bio : Bio}
    (hlog : (dev.logOn && isLogged bio) = false) : diskWrapperBio mem dev bio = .ok (dev, bio) := by
  simp [diskWrapperBio, hlog, pure, Except.pure]

theorem Queue.currentNode_eq {dev : HwmDevice} {passed left : Nodes} (h : Queue dev passed left) :
    currentNode dev = .ok (left.head?.map Prod.snd) := by
  unfold currentNode
  rw [h.cursor]
  cases left with
  | nil => rfl
  | cons n left =>
    have hn : dev.heap.lookup n.1 = some n.2 := h.writes.lookup_eq (by simp)
    simp [hn]

theorem Queue.nextEnt_eq {dev : HwmDevice} {passed left : Nodes} {n : Addr × DiskWriteOp}
    (h : Queue dev passed (n :: left)) :
    ∃ dev', nextEnt dev = .ok (.ok dev') ∧ dev'.logOn = dev.logOn ∧
      Queue dev' (passed ++ [n]) left := by
  refine ⟨{ dev with currentLogWrite := n.2.next }, ?_, rfl, ?_⟩
  · simp [nextEnt, h.currentNode_eq, bind, Except.bind, pure, Except.pure]
  · have hlist : passed ++ [n] ++ left = passed ++ n :: left := by simp
    exact ⟨hlist ▸ h.writes, h.linked.next_eq, hlist ▸ h.nodup, hlist ▸ h.last⟩

theorem Queue.nextEnt_nil {dev : HwmDevice} {passed : Nodes} (h : Queue dev passed []) :
    nextEnt dev = .ok (.error .enodata) := by
  simp [nextEnt, h.currentNode_eq, bind, Except.bind, pure, Except.pure]

theorem freeNodes_ok {heap : Heap} {p : Option Addr} {nodes : Nodes}
    (h : Chain.Linked DiskWriteOp.next heap p nodes) (hnodup : (nodes.map Prod.fst).Nodup) :
    ∃ heap', freeNodes heap p = .ok heap' := by
  induction nodes generalizing heap p with
  | nil =>
    cases h
    exact ⟨heap, by rw [freeNodes]⟩
  | cons n nodes ih =>
    obtain ⟨a, n⟩ := n
    have hrest := h.erase hnodup
    rw [List.map_cons, List.nodup_cons] at hnodup
    have ha : heap.lookup a = some n := h.lookup_eq List.mem_cons_self
    have hp : p = some a := h.head_eq
    obtain ⟨heap', hfree⟩ := ih hrest hnodup.2
    refine ⟨heap', ?_⟩
    rw [hp, freeNodes]
    split
    · next hnone =>
      rw [ha] at hnone
      cases hnone
    · next m hm =>
      rw [ha, Option.some.injEq] at hm
      rw [← hm, hfree]

theorem Queue.freeLogs_eq {dev : HwmDevice} {passed left : Nodes} (h : Queue dev passed left) :
    ∃ dev', freeLogs dev = .ok dev' ∧ Queue dev' [] [] := by
  obtain ⟨heap', hfree⟩ := freeNodes_ok h.writes h.nodup
  refine ⟨⟨dev.logOn, heap', none, none, none⟩, ?_, .nil, rfl, List.nodup_nil, rfl⟩
  simp [freeLogs, hfree, bind, Except.bind, pure, Except.pure]

def HwmDevice.rewind (dev : HwmDevice) : HwmDevice := { dev with currentLogWrite := dev.writes }

/-- The nodes from `writes` on are linked up to `current_write`. -/
def Intact (dev : HwmDevice) : Prop := ∃ nodes, Queue dev.rewind [] nodes

theorem Queue.intact {dev : HwmDevice} {passed left : Nodes} (h : Queue dev passed left) :
    Intact dev :=
  ⟨passed ++ left, h.writes, h.writes.head_eq, h.nodup, h.last⟩

/-- A node is appended without a look at the cursor. -/
theorem linkWrite_rewind (dev : HwmDevice) (write : Addr) (node : DiskWriteOp) :
    linkWrite dev.rewind write node = (linkWrite dev write node).map HwmDevice.rewind := by
  unfold linkWrite HwmDevice.rewind
  cases dev.currentWrite with
  | none => rfl
  | some last =>
    dsimp only
    cases (dev.heap.insert write node).lookup last <;> rfl

theorem Intact.linkWrite {dev dev' : HwmDevice} (h : Intact dev) {write : Addr}
    (hfresh : write ∉ dev.heap) {node filled : DiskWriteOp} (hnext : filled.next = none)
    (hlink : linkWrite dev write node = .ok dev') :
    Intact { dev' with heap := dev'.heap.insert write filled } := by
  obtain ⟨nodes, hqueue⟩ := h
  have hdrained : ¬ Drained dev.rewind := fun hd => (hqueue.drained_iff.mp hd).1 rfl
  obtain ⟨dev₁, left, hlink₁, -, hqueue₁, -, -⟩ :=
    linkWrite_queue hqueue hdrained hfresh node filled hnext
  rw [linkWrite_rewind, hlink] at hlink₁
  obtain rfl : dev'.rewind = dev₁ := Except.ok.inj hlink₁
  exact ⟨left, hqueue₁⟩

theorem Intact.freeLogs_eq {dev : HwmDevice} (h : Intact dev) :
    ∃ dev', freeLogs dev = .ok dev' ∧ Queue dev' [] [] := by
  obtain ⟨nodes, hqueue⟩ := h
  obtain ⟨dev', hfree, hempty⟩ := hqueue.freeLogs_eq
  exact ⟨dev', hfree, hempty⟩

end CrashMonkey.Wrapper
