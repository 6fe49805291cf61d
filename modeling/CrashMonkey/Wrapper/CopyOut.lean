import CrashMonkey.Lib.Loop
import CrashMonkey.Wrapper.Device

namespace CrashMonkey.Wrapper

open Finset

def metaSize : ℕ := 32

/-- Byte `i` of the struct; behind `size` comes padding, which `kzalloc` has cleared. -/
def metaBytes (m : DiskWriteOpMeta) (i : ℕ) : UInt8 :=
  .ofBitVec ((0#32 ++ m.size ++ m.writeSector ++ m.biRw ++ m.biFlags).extractLsb' (8 * i) 8)

/-- The kernel's memory, with the addresses of the metadata of a node and of its data. -/
structure KernelMemory where
  byte : ℕ → UInt8
  metadataAt : Addr → ℕ
  dataAt : Addr → ℕ

def KernelMemory.Holds (mem : KernelMemory) (dev : HwmDevice) : Prop :=
  ∀ a node, dev.heap.lookup a = some node →
    (∀ i < metaSize, mem.byte (mem.metadataAt a + i) = metaBytes node.metadata i) ∧
    ∀ data, node.data = some data →
      ∀ i < node.metadata.size.toNat, mem.byte (mem.dataAt a + i) = data i

/-- A copy loop between two calls; `reads` are the ranges of kernel memory that were
copied. -/
structure CopyOut where
  user : ℕ → UInt8
  notCopied : ℕ
  calls : ℕ
  reads : List (ℕ × ℕ)

def CopyOut.more (s : CopyOut) : Bool := s.notCopied != 0

/-- One call. It copies `moves k` bytes if it is number `k`, but no more than it was asked
for. `stride` is the size of what the pointer `src` points to, so that adding an offset to
it adds `stride` bytes for each. -/
def copyTurn (moves : ℕ → ℕ) (kernel : ℕ → UInt8) (stride src size arg : ℕ) (s : CopyOut) :
    CopyOut :=
  let offset := size - s.notCopied
  let moved := min (moves s.calls) s.notCopied
  let start := src + stride * offset
  ⟨Image.overlay s.user (arg + offset) moved fun i => kernel (start + i), s.notCopied - moved,
    s.calls + 1, s.reads ++ [(start, moved)]⟩

def copyLoop (moves : ℕ → ℕ) (kernel : ℕ → UInt8) (stride src size arg : ℕ)
    (user : ℕ → UInt8) (fuel : ℕ) : Option CopyOut :=
  Loop.run CopyOut.more (copyTurn moves kernel stride src size arg) fuel ⟨user, size, 0, []⟩

/-- What an ioctl returns, if it does: an error, or 0 with what its loop did. -/
abbrev Returned := Option (Except LogError CopyOut)

/-- `HWM_GET_LOG_META`: the offset is added to a pointer to the struct. -/
def copyLogMeta (mem : KernelMemory) (accessOk : Bool) (moves : ℕ → ℕ) (arg : ℕ)
    (user : ℕ → UInt8) (dev : HwmDevice) (fuel : ℕ) : Except Fault Returned := do
  match dev.currentLogWrite, ← currentNode dev with
  | some cursor, some _ =>
    if !accessOk then return some (.error .efault)
    return (copyLoop moves mem.byte metaSize (mem.metadataAt cursor) metaSize arg user fuel).map .ok
  | _, _ => return some (.error .enodata)

/-- `HWM_GET_LOG_DATA`: the offset is added to a `void*`. -/
def copyLogData (mem : KernelMemory) (accessOk : Bool) (moves : ℕ → ℕ) (arg : ℕ)
    (user : ℕ → UInt8) (dev : HwmDevice) (fuel : ℕ) : Except Fault Returned := do
  match dev.currentLogWrite, ← currentNode dev with
  | some cursor, some node =>
    if !accessOk then return some (.error .efault)
    if node.data = none ∧ node.metadata.size ≠ 0 then throw .nullPointer
    return (copyLoop moves mem.byte 1 (mem.dataAt cursor) node.metadata.size.toNat arg user
      fuel).map .ok
  | _, _ => return some (.error .enodata)

/-- The ioctl returns 0, with the `size` bytes `src` at the user's `arg` and nothing else
changed, and has read kernel memory only in the `size` bytes from `start` on. -/
def Delivered (start size : ℕ) (src : ℕ → UInt8) (arg : ℕ) (user : ℕ → UInt8)
    (ioctl : ℕ → Except Fault Returned) : Prop :=
  ∃ fuel s, ioctl fuel = .ok (some (.ok s)) ∧ s.user = Image.overlay user arg size src ∧
    ∀ r ∈ s.reads, start ≤ r.1 ∧ r.1 + r.2 ≤ start + size

def Completable (moves : ℕ → ℕ) (size : ℕ) : Prop := ∃ n, size ≤ ∑ j ∈ range n, moves j

/-- The ioctl returns, and with `-EFAULT` if not all bytes can be copied. -/
def Returns (moves : ℕ → ℕ) (size : ℕ) (ioctl : ℕ → Except Fault Returned) : Prop :=
  ∃ fuel r, ioctl fuel = .ok (some r) ∧ (¬ Completable moves size → r = .error .efault)

/-- As long as bytes are left some later call copies one. -/
def NeverStalls (moves : ℕ → ℕ) (size : ℕ) : Prop :=
  ∀ k, ∑ j ∈ range k, moves j < size → ∃ j, k ≤ j ∧ 0 < moves j

variable {moves : ℕ → ℕ} {kernel user : ℕ → UInt8} {stride src size arg : ℕ}

theorem copyTurn_iterate (n : ℕ) :
    ((copyTurn moves kernel stride src size arg)^[n] ⟨user, size, 0, []⟩).notCopied =
        size - ∑ j ∈ range n, moves j ∧
      ((copyTurn moves kernel stride src size arg)^[n] ⟨user, size, 0, []⟩).calls = n := by
  induction n with
  | zero => simp
  | succ n ih =>
    obtain ⟨hleft, hcalls⟩ := ih
    rw [Function.iterate_succ_apply', sum_range_succ]
    simp only [copyTurn, hleft, hcalls, and_true]
    omega

theorem exists_copyLoop_iff :
    (∃ fuel s, copyLoop moves kernel stride src size arg user fuel = some s) ↔
      Completable moves size := by
  refine Loop.exists_run_iff.trans (exists_congr fun n => ?_)
  rw [CopyOut.more, (copyTurn_iterate n).1, bne_eq_false_iff_eq, Nat.sub_eq_zero_iff_le]

theorem completable_iff : Completable moves size ↔ NeverStalls moves size := by
  constructor
  · rintro ⟨n, hn⟩ k hk
    by_contra hzero
    have hsame : ∑ j ∈ range n, moves j ≤ ∑ j ∈ range k, moves j := by
      rcases le_total n k with hle | hle
      · exact sum_le_sum_of_subset (range_mono hle)
      · rw [← sum_range_add_sum_Ico _ hle, sum_eq_zero (s := Ico k n) fun j hj => ?_]
        · exact le_rfl
        · by_contra hne
          exact hzero ⟨j, (mem_Ico.mp hj).1, Nat.pos_of_ne_zero hne⟩
    omega
  · intro h
    -- each byte is copied at some time
    have hall (m : ℕ) (hm : m ≤ size) : ∃ n, m ≤ ∑ j ∈ range n, moves j := by
      induction m with
      | zero => exact ⟨0, Nat.zero_le _⟩
      | succ m ih =>
        obtain ⟨n, hn⟩ := ih (by omega)
        rcases Nat.lt_or_ge m (∑ j ∈ range n, moves j) with hlt | hge
        · exact ⟨n, hlt⟩
        · obtain ⟨j, hj, hmoves⟩ := h n (by omega)
          refine ⟨j + 1, ?_⟩
          have hmono : ∑ i ∈ range n, moves i ≤ ∑ i ∈ range j, moves i :=
            sum_le_sum_of_subset (range_mono hj)
          rw [sum_range_succ]
          omega
    exact hall size le_rfl

theorem completable_of_progress (hmoves : ∀ k, 0 < moves k) : Completable moves size :=
  completable_iff.mpr fun k _ => ⟨k, le_rfl, hmoves k⟩

structure BytesCopied (kernel user : ℕ → UInt8) (src size arg : ℕ) (s : CopyOut) : Prop where
  left : s.notCopied ≤ size
  user : s.user = Image.overlay user arg (size - s.notCopied) fun i => kernel (src + i)
  reads : ∀ r ∈ s.reads, src ≤ r.1 ∧ r.1 + r.2 ≤ src + size

theorem BytesCopied.turn {s : CopyOut} (h : BytesCopied kernel user src size arg s) :
    BytesCopied kernel user src size arg (copyTurn moves kernel 1 src size arg s) where
  left := (Nat.sub_le _ _).trans h.left
  user := by
    have hleft := h.left
    simp only [copyTurn, Nat.one_mul, Nat.add_assoc]
    rw [h.user, Image.overlay_overlay _ _ _ _ fun i => kernel (src + i)]
    congr 1
    omega
  reads r hr := by
    have hleft := h.left
    simp only [copyTurn, List.mem_append, List.mem_singleton] at hr
    rcases hr with hr | rfl
    · exact h.reads r hr
    · dsimp only
      omega

/-- A pointer to bytes is moved on by what was copied. -/
theorem copyLoop_bytes {fuel : ℕ} {s : CopyOut}
    (h : copyLoop moves kernel 1 src size arg user fuel = some s) :
    s.user = Image.overlay user arg size (fun i => kernel (src + i)) ∧
      ∀ r ∈ s.reads, src ≤ r.1 ∧ r.1 + r.2 ≤ src + size := by
  have hstart : BytesCopied kernel user src size arg ⟨user, size, 0, []⟩ :=
    ⟨le_rfl, by simp, nofun⟩
  obtain ⟨hcopied, hdone⟩ := Loop.run_invariant (fun _ hs _ => hs.turn) hstart h
  have huser := hcopied.user
  rw [bne_eq_false_iff_eq.mp hdone, Nat.sub_zero] at huser
  exact ⟨huser, hcopied.reads⟩

/-- A first call that copies everything is the only one. -/
theorem copyLoop_once (hpos : 0 < size) (hall : size ≤ moves 0) :
    copyLoop moves kernel stride src size arg user 1 =
      some ⟨Image.overlay user arg size (fun i => kernel (src + i)), 0, 1, [(src, size)]⟩ := by
  have hmore : CopyOut.more ⟨user, size, 0, []⟩ = true := bne_iff_ne.mpr hpos.ne'
  rw [copyLoop, Loop.run_of_more hmore]
  simp [copyTurn, Loop.run, CopyOut.more, hall]

/-- After a first call that is cut short, a pointer to objects of the size of the whole is
moved past them. -/
theorem copyLoop_past (hmoves : ∀ k, 0 < moves k) (hcut : moves 0 < size) {fuel : ℕ} {s : CopyOut}
    (h : copyLoop moves kernel size src size arg user fuel = some s) :
    ∃ r ∈ s.reads, src + size < r.1 + r.2 := by
  have hfirst : CopyOut.more ⟨user, size, 0, []⟩ = true :=
    bne_iff_ne.mpr (Nat.zero_lt_of_lt hcut).ne'
  have hleft : min (moves 0) size = moves 0 := min_eq_left hcut.le
  cases fuel with
  | zero =>
    rw [copyLoop, Loop.run, if_pos hfirst] at h
    cases h
  | succ fuel =>
    rw [copyLoop, Loop.run_of_more hfirst] at h
    have hsecond : (copyTurn moves kernel size src size arg ⟨user, size, 0, []⟩).more = true := by
      rw [CopyOut.more, bne_iff_ne, copyTurn]
      dsimp only
      omega
    cases fuel with
    | zero =>
      rw [Loop.run, if_pos hsecond] at h
      cases h
    | succ fuel =>
      rw [Loop.run_of_more hsecond] at h
      -- the second call starts behind the object, and what was read stays read
      refine (Loop.run_invariant (I := fun s => ∃ r ∈ s.reads, src + size < r.1 + r.2)
        (fun s (hs : ∃ r ∈ s.reads, _) _ =>
          hs.imp fun r hr => ⟨List.mem_append_left _ hr.1, hr.2⟩) ?_ h).1
      refine ⟨(src + size * moves 0, min (moves 1) (size - moves 0)), ?_, ?_⟩
      · simp [copyTurn, hleft, Nat.sub_sub_self hcut.le]
      · have hone := hmoves 1
        have hmul : size * 1 ≤ size * moves 0 := Nat.mul_le_mul_left size (hmoves 0)
        dsimp only
        omega

variable {mem : KernelMemory} {dev : HwmDevice} {cursor : Addr} {node : DiskWriteOp}
  {data : Payload} {fuel : ℕ}

theorem currentNode_of_cursor (hcursor : dev.currentLogWrite = some cursor)
    (hnode : dev.heap.lookup cursor = some node) : currentNode dev = .ok (some node) := by
  simp only [currentNode, hcursor, hnode]

theorem copyLogMeta_eq (hcursor : dev.currentLogWrite = some cursor)
    (hnode : dev.heap.lookup cursor = some node) : copyLogMeta mem true moves arg user dev fuel =
      .ok ((copyLoop moves mem.byte metaSize (mem.metadataAt cursor) metaSize arg user
        fuel).map .ok) := by
  simp [copyLogMeta, hcursor, currentNode_of_cursor hcursor hnode, bind, Except.bind, pure,
    Except.pure]

theorem copyLogData_eq (hcursor : dev.currentLogWrite = some cursor)
    (hnode : dev.heap.lookup cursor = some node) (hdata : node.data = some data) :
    copyLogData mem true moves arg user dev fuel =
      .ok ((copyLoop moves mem.byte 1 (mem.dataAt cursor) node.metadata.size.toNat arg user
        fuel).map .ok) := by
  simp [copyLogData, hcursor, currentNode_of_cursor hcursor hnode, hdata, bind, Except.bind, pure,
    Except.pure]

theorem delivered_iff_of_loop {start : ℕ} {bytes : ℕ → UInt8} {ioctl : ℕ → Except Fault Returned}
    (hioctl : ∀ fuel, ioctl fuel =
      .ok ((copyLoop moves kernel stride start size arg user fuel).map .ok)) :
    Delivered start size bytes arg user ioctl ↔ ∃ fuel s,
      copyLoop moves kernel stride start size arg user fuel = some s ∧
      s.user = Image.overlay user arg size bytes ∧
      ∀ r ∈ s.reads, start ≤ r.1 ∧ r.1 + r.2 ≤ start + size := by
  refine exists_congr fun fuel => exists_congr fun s => and_congr_left fun _ => ?_
  rw [hioctl, Except.ok.injEq, Option.map_eq_some_iff]
  simp

theorem returns_iff_of_loop {start : ℕ} {ioctl : ℕ → Except Fault Returned}
    (hioctl : ∀ fuel, ioctl fuel =
      .ok ((copyLoop moves kernel stride start size arg user fuel).map .ok)) :
    Returns moves size ioctl ↔ NeverStalls moves size := by
  rw [← completable_iff]
  constructor
  · rintro ⟨fuel, r, hr, hfault⟩
    rw [hioctl, Except.ok.injEq, Option.map_eq_some_iff] at hr
    obtain ⟨s, hloop, rfl⟩ := hr
    exact exists_copyLoop_iff.mp ⟨fuel, s, hloop⟩
  · intro h
    obtain ⟨fuel, s, hloop⟩ := exists_copyLoop_iff.mpr h
    exact ⟨fuel, .ok s, by rw [hioctl, hloop]; rfl, fun hnot => absurd h hnot⟩

def entryMeta : DiskWriteOpMeta := ⟨0, reqWrite, 0, 2⟩

def entryDev : HwmDevice :=
  ⟨false, .singleton 1 ⟨entryMeta, some fun _ => 7, none⟩, some 1, some 1, some 1⟩

def entryMemory : KernelMemory :=
  ⟨fun b => if b < metaSize then metaBytes entryMeta b else 7, fun _ => 0, fun _ => 64⟩

theorem entryDev_lookup : entryDev.heap.lookup 1 = some ⟨entryMeta, some fun _ => 7, none⟩ :=
  Finmap.lookup_singleton_eq

theorem entryMemory_holds : entryMemory.Holds entryDev := by
  intro a node h
  have hmem : a ∈ entryDev.heap := Finmap.mem_iff.mpr ⟨node, h⟩
  obtain rfl : a = 1 := (Finmap.mem_singleton _ _ _).mp hmem
  obtain rfl := Option.some.inj (entryDev_lookup.symm.trans h)
  refine ⟨fun i hi => ?_, fun data hdata i _ => ?_⟩
  · simp [entryMemory, hi]
  · obtain rfl := Option.some.inj hdata
    simp [entryMemory, metaSize, show ¬ 64 + i < 32 by omega]

/-- The data is always delivered, and the metadata if it is copied in one go. -/
theorem delivered_iff (hcursor : dev.currentLogWrite = some cursor)
    (hnode : dev.heap.lookup cursor = some node) (hdata : node.data = some data)
    (hmem : mem.Holds dev) {metaMoves dataMoves : ℕ → ℕ} (hmeta : ∀ k, 0 < metaMoves k)
    (hmoves : ∀ k, 0 < dataMoves k) (arg : ℕ) (user : ℕ → UInt8) :
    (Delivered (mem.metadataAt cursor) metaSize (metaBytes node.metadata) arg user
        (copyLogMeta mem true metaMoves arg user dev) ∧
      Delivered (mem.dataAt cursor) node.metadata.size.toNat data arg user
        (copyLogData mem true dataMoves arg user dev)) ↔ metaSize ≤ metaMoves 0 := by
  obtain ⟨hmetaBytes, hdataBytes⟩ := hmem cursor node hnode
  rw [delivered_iff_of_loop fun _ => copyLogMeta_eq hcursor hnode,
    delivered_iff_of_loop fun _ => copyLogData_eq hcursor hnode hdata]
  constructor
  · rintro ⟨⟨fuel, s, hloop, -, hreads⟩, -⟩
    by_contra hcut
    obtain ⟨r, hr, hpast⟩ := copyLoop_past hmeta (not_le.mp hcut) hloop
    have := (hreads r hr).2
    omega
  · intro hall
    refine ⟨⟨1, _, copyLoop_once (by decide) hall, ?_, ?_⟩, ?_⟩
    · exact Image.overlay_inj.mpr hmetaBytes
    · simp
    · obtain ⟨fuel, s, hloop⟩ := exists_copyLoop_iff.mpr (completable_of_progress hmoves)
      obtain ⟨huser, hreads⟩ := copyLoop_bytes hloop
      exact ⟨fuel, s, hloop, huser.trans (Image.overlay_inj.mpr (hdataBytes data hdata)), hreads⟩

theorem delivered_inOneGo :
    Delivered 0 metaSize (metaBytes entryMeta) 4096 (fun _ => 0)
        (copyLogMeta entryMemory true (fun _ => 32) 4096 (fun _ => 0) entryDev) ∧
      Delivered 64 2 (fun _ => 7) 4096 (fun _ => 0)
        (copyLogData entryMemory true (fun _ => 1) 4096 (fun _ => 0) entryDev) :=
  (delivered_iff rfl entryDev_lookup rfl entryMemory_holds (fun _ => by decide) (fun _ => by decide)
    4096 fun _ => 0).mpr le_rfl

/-- The metadata is copied in two halves. -/
theorem not_delivered_halves : ¬ ∀ (dev : HwmDevice) (cursor : Addr) (node : DiskWriteOp)
    (data : Payload) (mem : KernelMemory) (metaMoves dataMoves : ℕ → ℕ) (arg : ℕ)
    (user : ℕ → UInt8), dev.currentLogWrite = some cursor → dev.heap.lookup cursor = some node →
    node.data = some data → mem.Holds dev → (∀ k, 0 < metaMoves k) → (∀ k, 0 < dataMoves k) →
    Delivered (mem.metadataAt cursor) metaSize (metaBytes node.metadata) arg user
        (copyLogMeta mem true metaMoves arg user dev) ∧
      Delivered (mem.dataAt cursor) node.metadata.size.toNat data arg user
        (copyLogData mem true dataMoves arg user dev) := by
  intro h
  have hmeta := (h entryDev 1 _ _ entryMemory (fun _ => 16) (fun _ => 1) 4096 (fun _ => 0) rfl
    entryDev_lookup rfl entryMemory_holds (fun _ => by decide) fun _ => by decide).1
  obtain ⟨fuel, s, hloop, -, hreads⟩ :=
    (delivered_iff_of_loop fun _ => copyLogMeta_eq rfl entryDev_lookup).mp hmeta
  obtain ⟨r, hr, hpast⟩ := copyLoop_past (fun _ => by decide) (by decide) hloop
  exact absurd (hreads r hr).2 (not_le.mpr hpast)

/-- Nothing but the end of the copy ends the loops. -/
theorem returns_iff_neverStalls (hcursor : dev.currentLogWrite = some cursor)
    (hnode : dev.heap.lookup cursor = some node) (hdata : node.data = some data)
    (mem : KernelMemory) (metaMoves dataMoves : ℕ → ℕ) (arg : ℕ) (user : ℕ → UInt8) :
    (Returns metaMoves metaSize (copyLogMeta mem true metaMoves arg user dev) ∧
      Returns dataMoves node.metadata.size.toNat (copyLogData mem true dataMoves arg user dev)) ↔
    NeverStalls metaMoves metaSize ∧ NeverStalls dataMoves node.metadata.size.toNat :=
  and_congr (returns_iff_of_loop fun _ => copyLogMeta_eq hcursor hnode)
    (returns_iff_of_loop fun _ => copyLogData_eq hcursor hnode hdata)

theorem returns_byteByByte :
    Returns (fun _ => 1) metaSize
        (copyLogMeta entryMemory true (fun _ => 1) 4096 (fun _ => 0) entryDev) ∧
      Returns (fun _ => 1) 2
        (copyLogData entryMemory true (fun _ => 1) 4096 (fun _ => 0) entryDev) :=
  (returns_iff_neverStalls rfl entryDev_lookup rfl entryMemory (fun _ => 1) (fun _ => 1) 4096 fun _ => 0).mpr
    ⟨fun k _ => ⟨k, le_rfl, Nat.one_pos⟩, fun k _ => ⟨k, le_rfl, Nat.one_pos⟩⟩

/-- No byte of the user's page can be written. -/
theorem not_returns_unmapped : ¬ ∀ (dev : HwmDevice) (cursor : Addr) (node : DiskWriteOp)
    (data : Payload) (mem : KernelMemory) (metaMoves dataMoves : ℕ → ℕ) (arg : ℕ)
    (user : ℕ → UInt8), dev.currentLogWrite = some cursor → dev.heap.lookup cursor = some node →
    node.data = some data →
    Returns metaMoves metaSize (copyLogMeta mem true metaMoves arg user dev) ∧
      Returns dataMoves node.metadata.size.toNat (copyLogData mem true dataMoves arg user dev) := by
  intro h
  have hmeta := (h entryDev 1 _ _ entryMemory (fun _ => 0) (fun _ => 0) 4096 (fun _ => 0) rfl
    entryDev_lookup rfl).1
  have hnever := (returns_iff_of_loop fun _ => copyLogMeta_eq rfl entryDev_lookup).mp hmeta
  obtain ⟨j, -, hj⟩ := hnever 0 (by decide)
  exact absurd hj (lt_irrefl 0)

end CrashMonkey.Wrapper
