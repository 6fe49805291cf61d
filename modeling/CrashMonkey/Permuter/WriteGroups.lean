import CrashMonkey.Lib.WriteCache
import CrashMonkey.Permuter.Overlaps
import CrashMonkey.Permuter.Pieces

/-!
# Epochs as groups of writes

To a disk with a volatile cache a log is a list of commands. The permuter has its own
view of what comes before what: the epochs are the groups of this view, where no barrier
directly follows a divided flush, and it allows no more than the disk does.
-/

namespace CrashMonkey

open WriteCache

structure Extent where
  start : ℕ
  length : ℕ
  bytes : Payload

def Extent.write (img : ℕ → UInt8) (x : Extent) : ℕ → UInt8 :=
  Image.overlay img x.start x.length x.bytes

/-- What `test_write_data` writes for the operation. -/
def DiskWrite.extent (w : DiskWrite Payload) : Option Extent :=
  if w.hasWriteFlag then some ⟨w.byteAddr, w.metadata.size.toNat, w.data.getD fun _ => 0⟩ else none

def DiskWrite.isDiscard (w : DiskWrite Payload) : Bool := hasFlag w.metadata.biRw reqDiscard

def DiskWrite.flushes (w : DiskWrite Payload) : Bool := w.hasFlushFlag || w.hasFlushSeqFlag

/-- What the operation does to the disk. What was discarded reads as zeros. -/
def DiskWrite.effect (w : DiskWrite Payload) : Option Extent :=
  if w.isDiscard then some ⟨w.byteAddr, w.metadata.size.toNat, fun _ => 0⟩ else w.extent

/-- The cache is flushed first if there is a flush flag, and the write goes through with
FUA. A soft barrier is nothing to the disk. -/
def DiskWrite.commands (w : DiskWrite Payload) : List (Cmd Extent) :=
  (if w.flushes then [.flush] else []) ++
    w.effect.toList.map fun x => if w.hasFUAFlag then .through x else .write x

def commands (log : List (DiskWrite Payload)) : List (Cmd Extent) := log.flatMap DiskWrite.commands

/-- Flushes have the write flag, and nothing is discarded. -/
structure Ordinary (log : List (DiskWrite Payload)) : Prop where
  flushes_write : ∀ w ∈ log, w.flushes = true → w.hasWriteFlag = true
  no_discard : ∀ w ∈ log, w.isDiscard = false

/-- There are no barriers but flushes. -/
def BarriersFlush (log : List (DiskWrite Payload)) : Prop :=
  ∀ w ∈ log, w.isBarrierWrite = true → w.flushes = true

def extents (ops : List (EpochOp Payload)) : List Extent := ops.filterMap fun o => o.op.extent

theorem replayOp_eq (img : ℕ → UInt8) (w : DiskWrite Payload) :
    replayOp img w = w.extent.toList.foldl Extent.write img := by
  unfold replayOp DiskWrite.extent
  split_ifs
  · rfl
  · rfl

/-- A replay makes the writes, and the other operations are without effect. -/
theorem foldl_replayOp_eq (ops : List (EpochOp Payload)) (img : ℕ → UInt8) :
    (ops.map EpochOp.op).foldl replayOp img = (extents ops).foldl Extent.write img := by
  induction ops generalizing img with
  | nil => rfl
  | cons o ops ih =>
    rw [List.map_cons, List.foldl_cons, ih, replayOp_eq, extents, extents, List.filterMap_cons]
    cases o.op.extent with
    | none => rfl
    | some x => rfl

theorem extents_append (ops ops' : List (EpochOp Payload)) :
    extents (ops ++ ops') = extents ops ++ extents ops' := List.filterMap_append

theorem extents_singleton (i : ℕ) (w : DiskWrite Payload) :
    extents [⟨i, w⟩] = w.extent.toList := by
  rw [extents, List.filterMap_cons]
  cases w.extent with
  | none => rfl
  | some x => rfl

theorem dataHalf_extent (w : DiskWrite Payload) : w.dataHalf.extent = w.extent := by
  have hrange := dataHalf_range w
  unfold DiskWrite.extent
  rw [dataHalf_hasWriteFlag, dataHalf_data, hrange.1, hrange.2]

/-- The groups as the permuter sees them; those of the first one go behind `cur`. -/
def writeGroups : List Extent → List (DiskWrite Payload) → List (List Extent)
  | cur, [] => [cur]
  | cur, w :: ws =>
    if w.isBarrierWrite then
      if w.splitsFlush then cur :: writeGroups w.extent.toList ws
      else cur :: w.extent.toList :: writeGroups [] ws
    else writeGroups (cur ++ w.extent.toList) ws

/-- Each epoch is a group of writes; a barrier that is not divided is a group of its own.
`lost` are the writes that are still waiting for an epoch at the end of the log. -/
inductive Grouped (lost : List Extent) : List (Epoch Payload) → List (List Extent) → Prop
  | nil : Grouped lost [] [lost]
  | last {ep : Epoch Payload} (h : ep.hasBarrier = false) : Grouped lost [ep] [extents ep.ops]
  | flush {ep : Epoch Payload} {eps : List (Epoch Payload)} {gs : List (List Extent)}
      (h : ep.hasBarrier = false) (hrest : Grouped lost eps gs) :
      Grouped lost (ep :: eps) (extents ep.ops :: gs)
  | barrier {ep : Epoch Payload} {eps : List (Epoch Payload)} {gs : List (List Extent)}
      {init : List (EpochOp Payload)} {b : EpochOp Payload} (h : ep.hasBarrier = true)
      (hops : ep.ops = init ++ [b]) (hrest : Grouped lost eps gs) :
      Grouped lost (ep :: eps) (extents init :: extents [b] :: gs)

/-- No barrier directly follows a divided flush. -/
def FlushesApart (log : List (DiskWrite Payload)) : Prop :=
  ∀ i w w', log[i]? = some w → w.splitsFlush = true → log[i + 1]? = some w' →
    w'.isBarrierWrite = false

/-- What is left in the storage of a flush half is no write. -/
def QuietStorage (u : Uninit) (log : List (DiskWrite Payload)) : Prop :=
  ∀ b w, log[b]? = some w → w.splitsFlush = true → hasFlag (u.flagHalf b).biRw reqWrite = false

theorem FlushesFollowed.apart {log : List (DiskWrite Payload)} (h : FlushesFollowed log) :
    FlushesApart log := by
  intro i w w' hw hs hw'
  obtain ⟨v, hv, hplain⟩ := h i w hw hs
  rw [hw', Option.some.injEq] at hv
  exact hv ▸ hplain

theorem flushesApart_cons {w : DiskWrite Payload} {ws : List (DiskWrite Payload)}
    (h : FlushesApart (w :: ws)) : (w.splitsFlush = true → ∀ w', ws.head? = some w' →
      w'.isBarrierWrite = false) ∧ FlushesApart ws := by
  constructor
  · intro hs w' hw'
    apply h 0 w w' rfl hs
    rw [List.getElem?_cons_succ, ← List.head?_eq_getElem?]
    exact hw'
  · intro i v v' hv hs hv'
    exact h (i + 1) v v' hv hs hv'

theorem flagHalf_hasWriteFlag {stale : DiskWriteOpMeta} (h : hasFlag stale.biRw reqWrite = false)
    (w : DiskWrite Payload) : (w.flagHalf stale).hasWriteFlag = false := by
  unfold DiskWrite.flagHalf
  split_ifs <;> simpa [DiskWrite.hasWriteFlag, DiskWriteOpMeta.cHasWriteFlag,
    DiskWrite.setFlushFlag, DiskWrite.setFlushSeqFlag, DiskWriteOpMeta.cSetFlushFlag,
    DiskWriteOpMeta.cSetFlushSeqFlag, reqWrite, reqFlush, reqFlushSeq, hasFlag_set] using h

theorem flagHalf_extent {stale : DiskWriteOpMeta} (h : hasFlag stale.biRw reqWrite = false)
    (w : DiskWrite Payload) : (w.flagHalf stale).extent = none := by
  rw [DiskWrite.extent, flagHalf_hasWriteFlag h, if_neg Bool.false_ne_true]

def cached (cur : Option (Epoch Payload)) (l : Locals Payload) : List Extent :=
  (if l.prevEpochFlushOp then l.dataHalf.extent.toList else []) ++
    cur.elim [] fun ep => extents ep.ops

/-- What holds at each point of the pass. A pending data half is the first write of the next
epoch. -/
structure Passing (u : Uninit) (cur : Option (Epoch Payload)) (l : Locals Payload)
    (ws : List (DiskWrite Payload)) : Prop where
  noBarrier : ∀ ep ∈ cur, ep.hasBarrier = false
  pending : l.prevEpochFlushOp = true → cur = none ∧
    ∀ w, ws.head? = some w → w.isBarrierWrite = false
  apart : FlushesApart ws
  quiet : ∀ b w, ws[b]? = some w → w.splitsFlush = true →
    hasFlag (u.flagHalf (l.index + b)).biRw reqWrite = false

def FormsGroups (u : Uninit) (cur : Option (Epoch Payload)) (l : Locals Payload)
    (ws : List (DiskWrite Payload)) : Prop :=
  ∃ lost, Grouped lost (splitFrom u cur l ws) (writeGroups (cached cur l) ws) ∧
    ((l.prevEpochFlushOp = true → ws ≠ []) → FlushesFollowed ws → lost = [])

section Pass

variable {u : Uninit} {cur : Option (Epoch Payload)} {l : Locals Payload} {w : DiskWrite Payload}
  {ws : List (DiskWrite Payload)}

theorem Passing.getD_hasBarrier (h : Passing u cur l ws) (i : ℕ) :
    (cur.getD (newEpoch u i)).hasBarrier = false := by
  cases cur with
  | none => rfl
  | some ep => exact h.noBarrier ep rfl

theorem extents_getD (u : Uninit) (cur : Option (Epoch Payload)) (i : ℕ) :
    extents (cur.getD (newEpoch u i)).ops = cur.elim [] fun ep => extents ep.ops := by
  cases cur with
  | none => rfl
  | some ep => rfl

theorem Passing.next (h : Passing u cur l (w :: ws)) {cur' : Option (Epoch Payload)}
    (hbarrier : ∀ ep ∈ cur', ep.hasBarrier = false)
    (hpending : (nextLocals u w l).prevEpochFlushOp = true → cur' = none ∧
      ∀ w', ws.head? = some w' → w'.isBarrierWrite = false) :
    Passing u cur' (nextLocals u w l) ws where
  noBarrier := hbarrier
  pending := hpending
  apart := (flushesApart_cons h.apart).2
  quiet := by
    intro b v hv hs
    have hquiet := h.quiet (b + 1) v hv hs
    rwa [nextLocals_index, Nat.add_assoc, Nat.add_comm 1 b]

/-- Nothing is pending at a barrier. -/
theorem Passing.cached_barrier (h : Passing u cur l (w :: ws)) (hw : w.isBarrierWrite = true) :
    l.prevEpochFlushOp = false ∧ cached cur l = extents (cur.getD (newEpoch u l.index)).ops := by
  have hfalse : l.prevEpochFlushOp = false := by
    apply Bool.eq_false_iff.mpr
    intro htrue
    rw [(h.pending htrue).2 w rfl] at hw
    cases hw
  refine ⟨hfalse, ?_⟩
  rw [extents_getD, cached, hfalse]
  rfl

theorem Passing.formsGroups_nil (h : Passing u cur l []) : FormsGroups u cur l [] := by
  cases cur with
  | none =>
    refine ⟨cached none l, .nil, fun hne _ => ?_⟩
    have hfalse : l.prevEpochFlushOp = false := by
      apply Bool.eq_false_iff.mpr
      exact fun htrue => hne htrue rfl
    simp [cached, hfalse]
  | some ep =>
    have hfalse : l.prevEpochFlushOp = false := by
      apply Bool.eq_false_iff.mpr
      exact fun htrue => nomatch (h.pending htrue).1
    have hcached : cached (some ep) l = extents ep.ops := by simp [cached, hfalse]
    rw [FormsGroups, hcached]
    exact ⟨[], .last (h.noBarrier ep rfl), fun _ _ => rfl⟩

/-- A divided flush closes the epoch, and its data half waits for the next one. -/
theorem Passing.formsGroups_flush (h : Passing u cur l (w :: ws)) (hw : w.isBarrierWrite = true)
    (hs : w.splitsFlush = true)
    (ih : Passing u none (nextLocals u w l) ws → FormsGroups u none (nextLocals u w l) ws) :
    FormsGroups u cur l (w :: ws) := by
  have hpend := nextLocals_prevEpochFlushOp u w l
  rw [hw, hs, Bool.true_or, Bool.true_and] at hpend
  obtain ⟨lost, hgrouped, hlost⟩ :=
    ih (h.next nofun fun _ => ⟨rfl, (flushesApart_cons h.apart).1 hs⟩)
  have hwrite : cached none (nextLocals u w l) = w.extent.toList := by
    simp [cached, hpend, nextLocals_dataHalf, hs, dataHalf_extent]
  have hhalf : extents ((cur.getD (newEpoch u l.index)).push l.index
      (w.flagHalf (u.flagHalf l.index))).ops =
        extents (cur.getD (newEpoch u l.index)).ops := by
    have hnone : (w.flagHalf (u.flagHalf l.index)).extent = none := by
      apply flagHalf_extent
      exact h.quiet 0 w rfl hs
    rw [Epoch.push_ops, extents_append, extents_singleton, hnone, Option.toList_none,
      List.append_nil]
  rw [FormsGroups, writeGroups, splitFrom_barrier u cur l ws hw, if_pos hw, if_pos hs,
    (h.cached_barrier hw).2, closeEpoch, if_pos hs, ← hwrite]
  refine ⟨lost, hhalf ▸ .flush (h.getD_hasBarrier l.index) hgrouped, fun _ hfollowed => ?_⟩
  obtain ⟨hfirst, hrest⟩ := (flushesFollowed_cons w ws).mp hfollowed
  apply hlost _ hrest
  rintro - rfl
  obtain ⟨w', hw', -⟩ := hfirst hs
  cases hw'

/-- A barrier that is not divided closes the epoch, as the last write of it. -/
theorem Passing.formsGroups_barrier (h : Passing u cur l (w :: ws)) (hw : w.isBarrierWrite = true)
    (hs : ¬ w.splitsFlush = true)
    (ih : Passing u none (nextLocals u w l) ws → FormsGroups u none (nextLocals u w l) ws) :
    FormsGroups u cur l (w :: ws) := by
  obtain ⟨hfalse, hcached⟩ := h.cached_barrier hw
  have hpend := nextLocals_prevEpochFlushOp u w l
  rw [hw, Bool.eq_false_iff.mpr hs, hfalse] at hpend
  have hnot : ¬ (nextLocals u w l).prevEpochFlushOp = true := Bool.eq_false_iff.mp hpend
  obtain ⟨lost, hgrouped, hlost⟩ := ih (h.next nofun fun htrue => absurd htrue hnot)
  have hempty : cached none (nextLocals u w l) = [] := by simp [cached, hpend]
  rw [hempty] at hgrouped
  rw [FormsGroups, writeGroups, splitFrom_barrier u cur l ws hw, if_pos hw, if_neg hs, hcached,
    closeEpoch, if_neg hs, ← extents_singleton l.index w]
  refine ⟨lost, .barrier rfl (Epoch.push_ops _ _ _) hgrouped, fun _ hfollowed => ?_⟩
  exact hlost (fun htrue => absurd htrue hnot) ((flushesFollowed_cons w ws).mp hfollowed).2

/-- The epoch takes what is pending, and the write. -/
theorem Passing.cached_collectOp (h : Passing u cur l (w :: ws)) (hw : w.isBarrierWrite = false)
    (hpend : (nextLocals u w l).prevEpochFlushOp = false) :
    cached (some (collectOp w l (cur.getD (newEpoch u l.index))).2) (nextLocals u w l) =
      cached cur l ++ w.extent.toList := by
  have hturn : extents (turnOps u w l) =
      (if l.prevEpochFlushOp then l.dataHalf.extent.toList else []) ++ w.extent.toList := by
    rw [turnOps, if_neg (Bool.eq_false_iff.mp hw), extents_append, extents_singleton]
    split_ifs
    · rw [extents_singleton]
    · rfl
  simp only [cached, hpend, Bool.false_eq_true, if_false, List.nil_append, Option.elim_some,
    collectOp_ops u hw, extents_append, hturn, extents_getD]
  -- the data half comes before what the epoch has, which is nothing then
  by_cases htrue : l.prevEpochFlushOp = true
  · simp [htrue, (h.pending htrue).1]
  · simp [htrue]

theorem Passing.formsGroups_plain (h : Passing u cur l (w :: ws)) (hw : w.isBarrierWrite = false)
    (ih : ∀ cur', Passing u cur' (nextLocals u w l) ws → FormsGroups u cur' (nextLocals u w l) ws) :
    FormsGroups u cur l (w :: ws) := by
  have hpend := nextLocals_prevEpochFlushOp u w l
  rw [hw, Bool.false_and] at hpend
  have hnot : ¬ (nextLocals u w l).prevEpochFlushOp = true := Bool.eq_false_iff.mp hpend
  have hbarrier : ∀ ep ∈ some (collectOp w l (cur.getD (newEpoch u l.index))).2,
      ep.hasBarrier = false := by
    intro ep hep
    obtain rfl : _ = ep := Option.mem_some_iff.mp hep
    rw [collectOp_hasBarrier]
    exact h.getD_hasBarrier l.index
  obtain ⟨lost, hgrouped, hlost⟩ := ih _ (h.next hbarrier fun htrue => absurd htrue hnot)
  rw [h.cached_collectOp hw hpend] at hgrouped
  rw [FormsGroups, writeGroups, splitFrom_plain u cur l ws hw,
    if_neg (Bool.eq_false_iff.mp hw)]
  refine ⟨lost, hgrouped, fun _ hfollowed => ?_⟩
  exact hlost (fun htrue => absurd htrue hnot) ((flushesFollowed_cons w ws).mp hfollowed).2

theorem Passing.formsGroups (h : Passing u cur l ws) : FormsGroups u cur l ws := by
  induction ws generalizing cur l with
  | nil => exact h.formsGroups_nil
  | cons w ws ih =>
    by_cases hw : w.isBarrierWrite = true
    · by_cases hs : w.splitsFlush = true
      · exact h.formsGroups_flush hw hs ih
      · exact h.formsGroups_barrier hw hs ih
    · exact h.formsGroups_plain (Bool.eq_false_iff.mpr hw) fun _ => ih

end Pass

/-- The epochs of a log are the groups of its writes. -/
theorem initDataVector_grouped {u : Uninit} {log : List (DiskWrite Payload)}
    (hapart : FlushesApart log) (hquiet : QuietStorage u log) :
    ∃ lost, Grouped lost (initDataVector u log) (writeGroups [] log) ∧
      (FlushesFollowed log → lost = []) := by
  have hindex : (initLocals Payload u).index = 0 := rfl
  have hstart : Passing u none (initLocals Payload u) log := by
    refine ⟨nofun, nofun, hapart, fun b w hw hs => ?_⟩
    rw [hindex, Nat.zero_add]
    exact hquiet b w hw hs
  obtain ⟨lost, hgrouped, hlost⟩ := hstart.formsGroups
  rw [initDataVector_eq_splitFrom]
  exact ⟨lost, hgrouped, hlost nofun⟩

section Disk

variable {w : DiskWrite Payload} {ws log : List (DiskWrite Payload)}

theorem commands_cons (w : DiskWrite Payload) (ws : List (DiskWrite Payload)) :
    commands (w :: ws) = w.commands ++ commands ws := List.flatMap_cons

theorem Ordinary.of_cons (h : Ordinary (w :: ws)) : Ordinary ws where
  flushes_write v hv := h.flushes_write v (List.mem_cons_of_mem _ hv)
  no_discard v hv := h.no_discard v (List.mem_cons_of_mem _ hv)

theorem BarriersFlush.of_cons (h : BarriersFlush (w :: ws)) : BarriersFlush ws :=
  fun v hv => h v (List.mem_cons_of_mem _ hv)

theorem DiskWrite.splitsFlush_eq (w : DiskWrite Payload) :
    w.splitsFlush = (w.flushes && w.hasWriteFlag && !w.hasFUAFlag) := rfl

theorem DiskWrite.isBarrierWrite_eq (w : DiskWrite Payload) : w.isBarrierWrite =
    ((w.hasFUAFlag || w.flushes || hasFlag w.metadata.biRw reqSoftbarrier) && w.hasWriteFlag) := by
  rw [DiskWrite.flushes, ← Bool.or_assoc]
  rfl

/-- What the disk makes of an operation. A barrier without a flush is one with FUA, which
goes through, or a soft one, which is like any other write. -/
inductive Request (w : DiskWrite Payload) : Prop
  | plain (hw : w.isBarrierWrite = false) (hcommands : w.commands = w.extent.toList.map .write)
  | flush (x : Extent) (hx : w.extent = some x) (hw : w.isBarrierWrite = true)
      (hs : w.splitsFlush = true) (hcommands : w.commands = [.flush, .write x])
  | flushFua (x : Extent) (hx : w.extent = some x) (hw : w.isBarrierWrite = true)
      (hs : w.splitsFlush = false) (hcommands : w.commands = [.flush, .through x])
  | fua (x : Extent) (hx : w.extent = some x) (hw : w.isBarrierWrite = true)
      (hs : w.splitsFlush = false) (hf : w.flushes = false) (hcommands : w.commands = [.through x])
  | soft (x : Extent) (hx : w.extent = some x) (hw : w.isBarrierWrite = true)
      (hs : w.splitsFlush = false) (hf : w.flushes = false) (hcommands : w.commands = [.write x])

theorem Ordinary.request (h : Ordinary (w :: ws)) : Request w := by
  have hflush := h.flushes_write w List.mem_cons_self
  have hcommands : w.commands = (if w.flushes then [.flush] else []) ++
      w.extent.toList.map fun x => if w.hasFUAFlag then .through x else .write x := by
    rw [DiskWrite.commands, DiskWrite.effect, h.no_discard w List.mem_cons_self,
      if_neg Bool.false_ne_true]
  have hsplits := w.splitsFlush_eq
  cases hw : w.isBarrierWrite with
  | false =>
    refine .plain hw ?_
    rw [DiskWrite.isBarrierWrite_eq] at hw
    cases hwrite : w.hasWriteFlag with
    | false =>
      have hnot : w.flushes = false := Bool.eq_false_iff.mpr fun hf => by simp [hflush hf] at hwrite
      simp [hcommands, hnot, DiskWrite.extent, hwrite]
    | true =>
      simp only [hwrite, Bool.and_true, Bool.or_eq_false_iff] at hw
      simp [hcommands, hw.1.1, hw.1.2]
  | true =>
    have hwrite := DiskWrite.hasWriteFlag_of_isBarrierWrite hw
    have hx : w.extent = some ⟨w.byteAddr, w.metadata.size.toNat, w.data.getD fun _ => 0⟩ :=
      if_pos hwrite
    rw [hx] at hcommands
    rw [hwrite, Bool.and_true] at hsplits
    cases hf : w.flushes <;> cases hfua : w.hasFUAFlag <;> rw [hf, hfua] at hcommands hsplits
    · exact .soft _ hx hw hsplits hf hcommands
    · exact .fua _ hx hw hsplits hf hcommands
    · exact .flush _ hx hw hsplits hcommands
    · exact .flushFua _ hx hw hsplits hcommands

theorem groups_map_write (cur l : List Extent) (cmds : List (Cmd Extent)) :
    groups cur (l.map .write ++ cmds) = groups (cur ++ l) cmds := by
  induction l generalizing cur with
  | nil => rw [List.map_nil, List.nil_append, List.append_nil]
  | cons x l ih => rw [List.map_cons, List.cons_append, groups_write, ih, List.append_assoc]; rfl

theorem writeGroups_plain (cur : List Extent) (hw : w.isBarrierWrite = false) :
    writeGroups cur (w :: ws) = writeGroups (cur ++ w.extent.toList) ws := by
  rw [writeGroups, hw, if_neg Bool.false_ne_true]

theorem writeGroups_flush (cur : List Extent) {x : Extent} (hx : w.extent = some x)
    (hw : w.isBarrierWrite = true) (hs : w.splitsFlush = true) :
    writeGroups cur (w :: ws) = cur :: writeGroups [x] ws := by
  rw [writeGroups, if_pos hw, if_pos hs, hx]
  rfl

theorem writeGroups_barrier (cur : List Extent) {x : Extent} (hx : w.extent = some x)
    (hw : w.isBarrierWrite = true) (hs : w.splitsFlush = false) :
    writeGroups cur (w :: ws) = cur :: [x] :: writeGroups [] ws := by
  rw [writeGroups, if_pos hw, hs, if_neg Bool.false_ne_true, hx]
  rfl

/-- The disk allows all that the permuter takes to be possible. -/
theorem Ordinary.crashes (h : Ordinary log) {cur : List Extent} {img img' : ℕ → UInt8}
    (hcrash : Crashes Extent.write (writeGroups cur log) img img') :
    Crashes Extent.write (groups cur (commands log)) img img' := by
  induction log generalizing cur img with
  | nil => exact hcrash
  | cons w ws ih =>
    rw [commands_cons]
    cases h.request with
    | plain hw hcommands =>
      rw [hcommands, groups_map_write]
      exact ih h.of_cons (writeGroups_plain cur hw ▸ hcrash)
    | flush x hx hw hs hcommands =>
      rw [writeGroups_flush cur hx hw hs] at hcrash
      rw [hcommands]
      exact hcrash.tail fun img => ih h.of_cons
    | flushFua x hx hw hs hcommands =>
      rw [writeGroups_barrier cur hx hw hs] at hcrash
      rw [hcommands]
      exact hcrash.tail fun img hrest => crashes_empty.mpr (hrest.tail fun img => ih h.of_cons)
    | fua x hx hw hs _ hcommands =>
      rw [writeGroups_barrier cur hx hw hs] at hcrash
      rw [hcommands]
      exact hcrash.tail fun img hrest => hrest.tail fun img => ih h.of_cons
    | soft x hx hw hs _ hcommands =>
      rw [writeGroups_barrier cur hx hw hs] at hcrash
      have hafter := hcrash.tail fun img hrest => hrest.tail fun img => ih h.of_cons
      obtain ⟨more, rest, hgroups⟩ := groups_eq (commands ws)
      rw [hcommands, List.singleton_append, groups_write, hgroups]
      rw [hgroups] at hafter
      exact hafter.merge.merge

/-- Where all barriers are flushes, the disk allows no more. -/
theorem Ordinary.crashes_iff (h : Ordinary log) (hb : BarriersFlush log) {cur : List Extent}
    {img img' : ℕ → UInt8} : Crashes Extent.write (groups cur (commands log)) img img' ↔
      Crashes Extent.write (writeGroups cur log) img img' := by
  refine ⟨fun hcrash => ?_, h.crashes⟩
  induction log generalizing cur img with
  | nil => exact hcrash
  | cons w ws ih =>
    rw [commands_cons] at hcrash
    cases h.request with
    | plain hw hcommands =>
      rw [hcommands, groups_map_write] at hcrash
      exact writeGroups_plain cur hw ▸ ih h.of_cons hb.of_cons hcrash
    | flush x hx hw hs hcommands =>
      rw [hcommands] at hcrash
      rw [writeGroups_flush cur hx hw hs]
      exact hcrash.tail fun img => ih h.of_cons hb.of_cons
    | flushFua x hx hw hs hcommands =>
      rw [hcommands] at hcrash
      rw [writeGroups_barrier cur hx hw hs]
      exact hcrash.tail fun img hrest =>
        (crashes_empty.mp hrest).tail fun img => ih h.of_cons hb.of_cons
    | fua x _ hw _ hf => simp [hb w List.mem_cons_self hw] at hf
    | soft x _ hw _ hf => simp [hb w List.mem_cons_self hw] at hf

theorem Ordinary.throughFlushed (h : Ordinary log) (hb : BarriersFlush log) (flushed : Bool) :
    ThroughFlushed flushed (commands log) := by
  induction log generalizing flushed with
  | nil => trivial
  | cons w ws ih =>
    have ih := ih h.of_cons hb.of_cons
    rw [commands_cons]
    cases h.request with
    | plain hw hcommands =>
      rw [hcommands]
      cases w.extent with
      | none => exact ih flushed
      | some x => exact ih false
    | flush x hx hw hs hcommands =>
      rw [hcommands]
      exact ih false
    | flushFua x hx hw hs hcommands =>
      rw [hcommands]
      exact ⟨rfl, ih true⟩
    | fua x _ hw _ hf => simp [hb w List.mem_cons_self hw] at hf
    | soft x _ hw _ hf => simp [hb w List.mem_cons_self hw] at hf

theorem Ordinary.mem_groups (h : Ordinary log) (hb : BarriersFlush log) {cur g : List Extent}
    (hg : g ∈ writeGroups cur log) : g ∈ groups cur (commands log) := by
  induction log generalizing cur with
  | nil => exact hg
  | cons w ws ih =>
    rw [commands_cons]
    cases h.request with
    | plain hw hcommands =>
      rw [hcommands, groups_map_write]
      exact ih h.of_cons hb.of_cons (writeGroups_plain cur hw ▸ hg)
    | flush x hx hw hs hcommands =>
      rw [writeGroups_flush cur hx hw hs, List.mem_cons] at hg
      rw [hcommands]
      exact List.mem_cons.mpr (hg.imp_right (ih h.of_cons hb.of_cons))
    | flushFua x hx hw hs hcommands =>
      rw [writeGroups_barrier cur hx hw hs, List.mem_cons, List.mem_cons] at hg
      have hrest := hg.imp_right fun hg => hg.imp_right (ih h.of_cons hb.of_cons)
      rw [hcommands]
      simpa using hrest.imp_right Or.inr
    | fua x _ hw _ hf => simp [hb w List.mem_cons_self hw] at hf
    | soft x _ hw _ hf => simp [hb w List.mem_cons_self hw] at hf

end Disk

end CrashMonkey
