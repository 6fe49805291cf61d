import CrashMonkey.Wrapper.Cursor

namespace CrashMonkey.Wrapper

/-- A bio with what the allocator gives for it, or an ioctl. -/
inductive Attempt where
  | bio (bio : Bio) (mem : Kmem)
  | ioctl (cmd : Cmd)

def attempt (dev : HwmDevice) : Attempt → Except Fault HwmDevice
  | .bio bio mem => do
    let (dev, _) ← diskWrapperBio mem dev bio
    return dev
  | .ioctl cmd => diskWrapperIoctl dev cmd

/-- The allocator gives no memory that is in use. -/
def Attempt.Fresh (dev : HwmDevice) : Attempt → Prop
  | .bio _ mem => ∀ write, mem.node = some write → write ∉ dev.heap
  | .ioctl _ => True

def Tried (dev : HwmDevice) (e : Attempt) (dev' : HwmDevice) : Prop :=
  e.Fresh dev ∧ attempt dev e = .ok dev'

/-- The log is `nodes`: from `writes` on they are linked and live, `current_write` is the
last of them, the cursor at one of them or past the end, and each of them has data. -/
structure LogLinked (dev : HwmDevice) (nodes : Nodes) : Prop where
  writes : Chain.Linked DiskWriteOp.next dev.heap dev.writes nodes
  nodup : (nodes.map Prod.fst).Nodup
  last : dev.currentWrite = nodes.getLast?.map Prod.fst
  cursor : ∀ c, dev.currentLogWrite = some c → c ∈ nodes.map Prod.fst
  data : ∀ entry ∈ nodes.entries, entry.data ≠ none

/-- The entry has the metadata of the bio, and as many bytes of its segments as these say. -/
def Filled (bio : Bio) (entry : DiskWrite Payload) : Prop :=
  entry.metadata = bioMeta bio ∧ (bioMeta bio).size.toNat ≤ segmentsSize bio.segments ∧
    ∃ data, entry.data = some data ∧
      ∀ i < (bioMeta bio).size.toNat, data i = segmentsData bio.segments i

/-- The nodes are those of `bios`, one for each of them, and completely filled. -/
structure LogIntact (dev : HwmDevice) (bios : List Bio) (nodes : Nodes) : Prop
    extends LogLinked dev nodes where
  filled : List.Forall₂ Filled bios nodes.entries

def Cmd.logs (on : Bool) : Cmd → Bool
  | .logOff => false
  | .logOn => true
  | _ => on

def keepsEntry (on : Bool) (bio : Bio) (mem : Kmem) : Bool :=
  on && isLogged bio && mem.node.isSome && mem.data.isSome

def submit (s : Bool × List Bio) : Attempt → Bool × List Bio
  | .bio bio mem => (s.1, if keepsEntry s.1 bio mem then s.2 ++ [bio] else s.2)
  | .ioctl cmd => (cmd.logs s.1, if cmd = .clrLog then [] else s.2)

/-- A bio is logged that gets a node, but no memory for its data. -/
def LosesNode (dev : HwmDevice) : Attempt → Prop
  | .bio bio mem => dev.logOn = true ∧ isLogged bio = true ∧ mem.node ≠ none ∧ mem.data = none
  | .ioctl _ => False

/-- A bio is logged that gets a node, but no memory for its data, or memory that its
segments do not fill. -/
def SpoilsLog (dev : HwmDevice) : Attempt → Prop
  | .bio bio mem => dev.logOn = true ∧ isLogged bio = true ∧ mem.node ≠ none ∧
      (mem.data = none ∨ segmentsSize bio.segments < (bioMeta bio).size.toNat)
  | .ioctl _ => False

theorem LosesNode.spoils {dev : HwmDevice} {e : Attempt} (h : LosesNode dev e) :
    SpoilsLog dev e := by
  cases e with
  | bio bio mem => exact ⟨h.1, h.2.1, h.2.2.1, .inl h.2.2.2⟩
  | ioctl cmd => exact h

theorem logLinked_init : LogLinked .init [] :=
  ⟨.nil, List.nodup_nil, rfl, nofun, nofun⟩

variable {dev dev' : HwmDevice} {nodes : Nodes} {bios : List Bio}

theorem LogLinked.queue (h : LogLinked dev nodes) : Queue dev.rewind [] nodes :=
  ⟨h.writes, h.writes.head_eq, h.nodup, h.last⟩

theorem linkWrite_cursor {write : Addr} {node : DiskWriteOp}
    (h : linkWrite dev write node = .ok dev') :
    dev'.currentLogWrite = dev.currentLogWrite ∨ dev'.currentLogWrite = some write := by
  unfold linkWrite at h
  cases hlast : dev.currentWrite with
  | none =>
    simp only [hlast, Except.ok.injEq] at h
    exact .inr (h ▸ rfl)
  | some last =>
    simp only [hlast] at h
    split at h
    · cases h
    · rw [Except.ok.injEq] at h
      exact .inl (h ▸ rfl)

theorem linkWrite_currentWrite {write : Addr} {node : DiskWriteOp}
    (h : linkWrite dev write node = .ok dev') : dev'.currentWrite = some write := by
  unfold linkWrite at h
  cases hlast : dev.currentWrite with
  | none =>
    simp only [hlast, Except.ok.injEq] at h
    exact h ▸ rfl
  | some last =>
    simp only [hlast] at h
    split at h
    · cases h
    · rw [Except.ok.injEq] at h
      exact h ▸ rfl

/-- A new node is linked without a fault, and with data it belongs to the log. -/
theorem LogLinked.link (h : LogLinked dev nodes) {write : Addr} (hfresh : write ∉ dev.heap)
    (node : DiskWriteOp) :
    ∃ dev', linkWrite dev write node = .ok dev' ∧ dev'.logOn = dev.logOn ∧
      ∀ entry : DiskWrite Payload, entry.data ≠ none → ∃ nodes',
        LogLinked { dev' with heap := dev'.heap.insert write ⟨entry.metadata, entry.data, none⟩ }
          nodes' ∧ nodes'.entries = nodes.entries ++ [entry] := by
  have hdrained : ¬ Drained dev.rewind := fun hd => (h.queue.drained_iff.mp hd).1 rfl
  have hqueue (filled : DiskWriteOp) (hnext : filled.next = none) :=
    linkWrite_queue h.queue hdrained hfresh node filled hnext
  cases hlink : linkWrite dev write node with
  | error fault =>
    obtain ⟨dev₁, -, hlink₁, -⟩ := hqueue ⟨default, none, none⟩ rfl
    rw [linkWrite_rewind, hlink] at hlink₁
    cases hlink₁
  | ok dev' =>
    refine ⟨dev', rfl, ?_, fun entry hentry => ?_⟩
    · obtain ⟨dev₁, -, hlink₁, hon, -⟩ := hqueue ⟨default, none, none⟩ rfl
      rw [linkWrite_rewind, hlink] at hlink₁
      obtain rfl : dev'.rewind = dev₁ := Except.ok.inj hlink₁
      exact hon
    obtain ⟨dev₁, nodes', hlink₁, -, hqueue₁, hentries, haddrs⟩ :=
      hqueue ⟨entry.metadata, entry.data, none⟩ rfl
    rw [linkWrite_rewind, hlink] at hlink₁
    obtain rfl : dev'.rewind = dev₁ := Except.ok.inj hlink₁
    refine ⟨nodes', ⟨hqueue₁.writes, hqueue₁.nodup, hqueue₁.last, fun c hc => ?_, fun e he => ?_⟩,
      hentries⟩
    · rw [haddrs, List.mem_append, List.mem_singleton]
      rcases linkWrite_cursor hlink with hcursor | hcursor
      · exact .inl (h.cursor c (hcursor ▸ hc))
      · exact .inr (Option.some.inj (hc.symm.trans hcursor))
    · rw [hentries, List.mem_append, List.mem_singleton] at he
      rcases he with he | rfl
      · exact h.data e he
      · exact hentry

/-- Without memory for the data the freed node stays the last one of the log. -/
theorem diskWrapperBio_lost {bio : Bio} {write : Addr}
    (hlog : (dev.logOn && isLogged bio) = true) {dev₁ : HwmDevice}
    (hlink : linkWrite dev write ⟨bioMeta bio, none, none⟩ = .ok dev₁) :
    diskWrapperBio ⟨some write, none⟩ dev bio =
      .ok ({ dev₁ with heap := dev₁.heap.erase write }, bio) := by
  simp [diskWrapperBio, hlog, hlink, bind, Except.bind, pure, Except.pure]

theorem not_logLinked_lost {write : Addr} {node : DiskWriteOp}
    (hlink : linkWrite dev write node = .ok dev') (nodes : Nodes) :
    ¬ LogLinked { dev' with heap := dev'.heap.erase write } nodes := by
  intro h
  have hlast : some write = nodes.getLast?.map Prod.fst :=
    (linkWrite_currentWrite hlink).symm.trans h.last
  obtain ⟨⟨a, n⟩, hn, rfl⟩ := Option.map_eq_some_iff.mp hlast.symm
  have hfreed := h.writes.lookup_eq (List.mem_of_getLast? hn)
  rw [Finmap.lookup_erase] at hfreed
  cases hfreed

/-- Without memory the bio is passed on and nothing else, unless it loses its node. -/
theorem diskWrapperBio_no_memory {bio : Bio} {mem : Kmem} (hnone : mem.node = none ∨ mem.data = none)
    (hkeep : ¬ LosesNode dev (.bio bio mem)) : diskWrapperBio mem dev bio = .ok (dev, bio) := by
  cases hlog : dev.logOn && isLogged bio with
  | false => exact diskWrapperBio_not_logged hlog
  | true =>
    have hnode : mem.node = none := by
      by_contra hnode
      rw [Bool.and_eq_true] at hlog
      exact hkeep ⟨hlog.1, hlog.2, hnode, hnone.resolve_left hnode⟩
    simp [diskWrapperBio, hlog, hnode, pure, Except.pure]

theorem copySegments_error {size copied : ℕ} {vecs : List Segment} {data : Payload}
    {fault : Fault} (h : copySegments size vecs copied data = .error fault) : fault = .overrun := by
  induction vecs generalizing copied data with
  | nil => cases h
  | cons vec vecs ih =>
    rw [copySegments] at h
    split_ifs at h
    · cases h
      rfl
    · exact ih h

/-- What is copied without an overrun is behind the bytes that the segments have. -/
theorem copySegments_ok {size copied : ℕ} {vecs : List Segment} {data data' : Payload}
    (h : copySegments size vecs copied data = .ok data') (hle : copied ≤ size) :
    copied + segmentsSize vecs ≤ size := by
  induction vecs generalizing copied data with
  | nil => exact hle
  | cons vec vecs ih =>
    rw [copySegments] at h
    split_ifs at h with hover
    have hrest := ih h (by omega)
    have hsize : segmentsSize (vec :: vecs) = vec.bvLen + segmentsSize vecs := rfl
    omega

/-- The entry of a bio whose segments have all its bytes. -/
theorem filled_bioEntry {bio : Bio} {data : Payload} {entry : DiskWrite Payload}
    (h : bioEntry bio data = .ok entry) :
    Filled bio entry ↔ (bioMeta bio).size.toNat ≤ segmentsSize bio.segments := by
  obtain ⟨copied, hcopy, hentry⟩ := Transition.bind_eq_ok.mp h
  obtain rfl := Except.ok.inj hentry
  refine ⟨fun hfilled => hfilled.2.1, fun hle => ⟨rfl, hle, copied, rfl, fun i hi => ?_⟩⟩
  have hsize := copySegments_ok hcopy (Nat.zero_le _)
  rw [copySegments_eq hsize] at hcopy
  rw [← Except.ok.inj hcopy, Image.overlay_of_mem ⟨Nat.zero_le i, by omega⟩]
  rfl

/-- A bio that does not lose its node keeps the log, and adds its entry if it is logged
and has its memory. -/
theorem LogLinked.bio (h : LogLinked dev nodes) {bio : Bio} {mem : Kmem}
    (hfresh : (Attempt.bio bio mem).Fresh dev) (hkeep : ¬ LosesNode dev (.bio bio mem)) :
    diskWrapperBio mem dev bio = .error .overrun ∨
    ∃ dev' nodes', diskWrapperBio mem dev bio = .ok (dev', bio) ∧ LogLinked dev' nodes' ∧
      dev'.logOn = dev.logOn ∧
      (keepsEntry dev.logOn bio mem = false ∧ nodes' = nodes ∨
        keepsEntry dev.logOn bio mem = true ∧ ∃ data entry, bioEntry bio data = .ok entry ∧
          nodes'.entries = nodes.entries ++ [entry]) := by
  by_cases hnone : mem.node = none ∨ mem.data = none
  · refine .inr ⟨dev, nodes, diskWrapperBio_no_memory hnone hkeep, h, rfl, .inl ⟨?_, rfl⟩⟩
    rcases hnone with hnone | hnone <;> simp [keepsEntry, hnone]
  · rw [not_or] at hnone
    obtain ⟨write, hnode⟩ := Option.ne_none_iff_exists'.mp hnone.1
    obtain ⟨data, hdata⟩ := Option.ne_none_iff_exists'.mp hnone.2
    obtain rfl : mem = ⟨some write, some data⟩ := by rw [← hnode, ← hdata]
    cases hlog : dev.logOn && isLogged bio with
    | false =>
      refine .inr ⟨dev, nodes, diskWrapperBio_not_logged hlog, h, rfl, .inl ⟨?_, rfl⟩⟩
      simp [keepsEntry, hlog]
    | true =>
      obtain ⟨dev₁, hlink, hon, hfilled⟩ := h.link (hfresh write rfl) ⟨bioMeta bio, none, none⟩
      cases hcopy : copySegments (bioMeta bio).size.toNat bio.segments 0 data with
      | error fault =>
        obtain rfl := copySegments_error hcopy
        exact .inl (by simp [diskWrapperBio, hlog, hlink, hcopy, bind, Except.bind])
      | ok copied =>
        have hentry : bioEntry bio data = .ok ⟨bioMeta bio, some copied⟩ := by
          simp [bioEntry, hcopy, bind, Except.bind, pure, Except.pure]
        obtain ⟨nodes', hlinked, hentries⟩ := hfilled ⟨bioMeta bio, some copied⟩ (by simp)
        refine .inr ⟨_, nodes', ?_, hlinked, hon, .inr ⟨?_, data, _, hentry, hentries⟩⟩
        · simp [diskWrapperBio, hlog, hlink, hcopy, bind, Except.bind, pure, Except.pure]
        · simp [keepsEntry, hlog]

theorem LogLinked.lost (h : LogLinked dev nodes) {bio : Bio} {mem : Kmem}
    (hfresh : (Attempt.bio bio mem).Fresh dev) (hlose : LosesNode dev (.bio bio mem)) :
    ∃ dev', diskWrapperBio mem dev bio = .ok (dev', bio) ∧ ∀ nodes', ¬ LogLinked dev' nodes' := by
  obtain ⟨node, data⟩ := mem
  obtain ⟨hon, hlogged, hnode, rfl⟩ := hlose
  obtain ⟨write, rfl⟩ := Option.ne_none_iff_exists'.mp hnode
  obtain ⟨dev₁, hlink, -⟩ := h.link (hfresh write rfl) ⟨bioMeta bio, none, none⟩
  have hlog : (dev.logOn && isLogged bio) = true := by rw [hon, hlogged]; rfl
  exact ⟨_, diskWrapperBio_lost hlog hlink, not_logLinked_lost hlink⟩

theorem LogLinked.currentNode_eq (h : LogLinked dev nodes) :
    ∃ node, currentNode dev = .ok node ∧ ∀ n, node = some n → ∃ c, (c, n) ∈ nodes := by
  unfold currentNode
  cases hcursor : dev.currentLogWrite with
  | none => exact ⟨none, rfl, nofun⟩
  | some c =>
    obtain ⟨⟨a, n⟩, hn, rfl⟩ := List.mem_map.mp (h.cursor c hcursor)
    have hlookup : dev.heap.lookup a = some n := h.writes.lookup_eq hn
    exact ⟨some n, by simp [hlookup], fun m hm => ⟨a, Option.some.inj hm ▸ hn⟩⟩

/-- Reads, steps and clears find what they need, and keep the log or empty it. -/
theorem LogLinked.ioctl (h : LogLinked dev nodes) (cmd : Cmd) :
    ∃ dev', diskWrapperIoctl dev cmd = .ok dev' ∧ dev'.logOn = cmd.logs dev.logOn ∧
      LogLinked dev' (if cmd = .clrLog then [] else nodes) := by
  obtain ⟨node, hnode, hmem⟩ := h.currentNode_eq
  cases cmd with
  | logOff => exact ⟨_, rfl, rfl, h.writes, h.nodup, h.last, h.cursor, h.data⟩
  | logOn => exact ⟨_, rfl, rfl, h.writes, h.nodup, h.last, h.cursor, h.data⟩
  | other => exact ⟨dev, rfl, rfl, h⟩
  | getLogMeta accessOk =>
    refine ⟨dev, ?_, rfl, h⟩
    cases node <;> cases accessOk <;>
      simp [diskWrapperIoctl, getLogMeta, hnode, bind, Except.bind, pure, Except.pure]
  | getLogData accessOk =>
    refine ⟨dev, ?_, rfl, h⟩
    cases node with
    | none => simp [diskWrapperIoctl, getLogData, hnode, bind, Except.bind, pure, Except.pure]
    | some n =>
      obtain ⟨c, hc⟩ := hmem n rfl
      have hdata : n.data ≠ none := h.data n.entry (List.mem_map_of_mem hc)
      obtain ⟨data, hdata⟩ := Option.ne_none_iff_exists'.mp hdata
      simp only [diskWrapperIoctl, getLogData, hnode, hdata, bind, Except.bind, pure, Except.pure]
      split_ifs <;> rfl
  | nextEnt =>
    cases node with
    | none =>
      refine ⟨dev, ?_, rfl, h⟩
      simp [diskWrapperIoctl, nextEnt, hnode, bind, Except.bind, pure, Except.pure]
    | some n =>
      obtain ⟨c, hc⟩ := hmem n rfl
      refine ⟨{ dev with currentLogWrite := n.next }, ?_, rfl, h.writes, h.nodup, h.last, ?_, h.data⟩
      · simp [diskWrapperIoctl, nextEnt, hnode, bind, Except.bind, pure, Except.pure]
      · exact fun b hb => h.writes.next_mem hc hb
  | clrLog =>
    obtain ⟨heap', hfree⟩ := freeNodes_ok h.writes h.nodup
    refine ⟨⟨dev.logOn, heap', none, none, none⟩, ?_, rfl, .nil, List.nodup_nil, rfl, ?_, ?_⟩
    · simp [diskWrapperIoctl, freeLogs, hfree, bind, Except.bind, pure, Except.pure]
    · intro cursor hcursor
      cases hcursor
    · intro entry hentry
      cases hentry

/-- Of what the kernel does not survive only a bio with too many bytes is left. -/
theorem LogLinked.attempt (h : LogLinked dev nodes) {e : Attempt} (hfresh : e.Fresh dev)
    (hkeep : ¬ LosesNode dev e) : attempt dev e = .error .overrun ∨
      ∃ dev' nodes', attempt dev e = .ok dev' ∧ LogLinked dev' nodes' := by
  cases e with
  | bio bio mem =>
    rcases h.bio hfresh hkeep with hfault | ⟨dev', nodes', hbio, hlinked, -⟩
    · exact .inl (by simp [Wrapper.attempt, hfault, bind, Except.bind])
    · exact .inr ⟨dev', nodes', by simp [Wrapper.attempt, hbio, bind, Except.bind, pure, Except.pure],
        hlinked⟩
  | ioctl cmd =>
    obtain ⟨dev', hioctl, -, hlinked⟩ := h.ioctl cmd
    exact .inr ⟨dev', _, hioctl, hlinked⟩

theorem LogLinked.not_tried (h : LogLinked dev nodes) {e : Attempt} (hstep : Tried dev e dev')
    (hlose : LosesNode dev e) (nodes' : Nodes) : ¬ LogLinked dev' nodes' := by
  cases e with
  | ioctl cmd => exact hlose.elim
  | bio bio mem =>
    obtain ⟨dev₁, hbio, hnot⟩ := h.lost hstep.1 hlose
    have heq := hstep.2
    simp only [Wrapper.attempt, hbio, bind, Except.bind, pure, Except.pure, Except.ok.injEq] at heq
    exact heq ▸ hnot nodes'

theorem LogLinked.tried_iff (h : LogLinked dev nodes) {e : Attempt} (hstep : Tried dev e dev') :
    (∃ nodes', LogLinked dev' nodes') ↔ ¬ LosesNode dev e := by
  constructor
  · exact fun ⟨nodes', hlinked⟩ hlose => h.not_tried hstep hlose nodes' hlinked
  · intro hkeep
    rcases h.attempt hstep.1 hkeep with hfault | ⟨dev₁, nodes', hok, hlinked⟩
    · rw [hstep.2] at hfault
      cases hfault
    · obtain rfl : dev' = dev₁ := Except.ok.inj (hstep.2.symm.trans hok)
      exact ⟨nodes', hlinked⟩

/-- A step that loses no node leaves the log with the entries that it is to have, and
they are filled if the segments of the bio have its bytes. -/
theorem LogIntact.tried (h : LogIntact dev bios nodes) {e : Attempt} (hstep : Tried dev e dev')
    (hkeep : ¬ LosesNode dev e) :
    dev'.logOn = (submit (dev.logOn, bios) e).1 ∧
      (¬ SpoilsLog dev e → ∃ nodes', LogIntact dev' (submit (dev.logOn, bios) e).2 nodes') := by
  obtain ⟨hfresh, hstep⟩ := hstep
  cases e with
  | ioctl cmd =>
    obtain ⟨dev₁, hioctl, hon, hlinked⟩ := h.toLogLinked.ioctl cmd
    obtain rfl : dev' = dev₁ := Except.ok.inj (hstep.symm.trans hioctl)
    refine ⟨hon, fun _ => ⟨_, hlinked, ?_⟩⟩
    simp only [submit]
    split_ifs
    · exact .nil
    · exact h.filled
  | bio bio mem =>
    rcases h.toLogLinked.bio hfresh hkeep with hfault | ⟨dev₁, nodes', hbio, hlinked, hon, hadds⟩
    · simp [attempt, hfault, bind, Except.bind] at hstep
    simp only [attempt, hbio, bind, Except.bind, pure, Except.pure, Except.ok.injEq] at hstep
    subst hstep
    refine ⟨hon, fun hfills => ⟨nodes', hlinked, ?_⟩⟩
    obtain ⟨hnot, rfl⟩ | ⟨hadds, data, entry, hentry, hentries⟩ := hadds
    · simpa [submit, hnot] using h.filled
    · simp only [submit, hadds, if_true, hentries]
      refine List.rel_append h.filled (.cons ((filled_bioEntry hentry).mpr ?_) .nil)
      simp only [keepsEntry, Bool.and_eq_true, Option.isSome_iff_ne_none] at hadds
      by_contra hless
      exact hfills ⟨hadds.1.1.1, hadds.1.1.2, hadds.1.2, .inr (not_le.mp hless)⟩

/-- A step keeps the log intact exactly if it does not spoil it. -/
theorem LogIntact.tried_iff (h : LogIntact dev bios nodes) {e : Attempt}
    (hstep : Tried dev e dev') :
    (∃ nodes', LogIntact dev' (submit (dev.logOn, bios) e).2 nodes') ↔ ¬ SpoilsLog dev e := by
  constructor
  · rintro ⟨nodes', hintact⟩ hspoils
    by_cases hlose : LosesNode dev e
    · exact h.toLogLinked.not_tried hstep hlose nodes' hintact.toLogLinked
    cases e with
    | ioctl cmd => exact hspoils
    | bio bio mem =>
      obtain ⟨hon, hlogged, hnode, hdata | hless⟩ := hspoils
      · exact hlose ⟨hon, hlogged, hnode, hdata⟩
      -- the entry of the bio is one that its segments do not fill
      have hadds : keepsEntry dev.logOn bio mem = true := by
        have hdata : mem.data ≠ none := fun hnone => hlose ⟨hon, hlogged, hnode, hnone⟩
        simp [keepsEntry, hon, hlogged, Option.isSome_iff_ne_none, hnode, hdata]
      have hfilled := hintact.filled
      simp only [submit, hadds, if_true] at hfilled
      have hlast := List.forall₂_drop bios.length hfilled
      rw [List.drop_left, List.forall₂_cons_left_iff] at hlast
      obtain ⟨entry, -, hbio, -⟩ := hlast
      exact absurd hbio.2.1 (not_le.mpr hless)
  · exact fun hkeep => (h.tried hstep fun hlose => hkeep hlose.spoils).2 hkeep

def flushBio : Bio := ⟨0, reqFlush, 0, 0, []⟩

end CrashMonkey.Wrapper
