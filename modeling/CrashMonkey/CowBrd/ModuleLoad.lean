import Mathlib.Data.Nat.Size
import CrashMonkey.CowBrd.Freeing
import CrashMonkey.Lib.Ledger

namespace CrashMonkey.CowBrd

open Ledger

def einval : Int := 22
def diskMaxParts : ℕ := 256
def minorBits : ℕ := 20

/-- The major number; and each device, its queue and its disk, by the device's number. -/
inductive Resource where
  | blkdev (major : Int)
  | brd (i : ℕ)
  | queue (i : ℕ)
  | disk (i : ℕ)
deriving DecidableEq, Repr

/-- Whether `kzalloc`, `blk_alloc_queue` and `alloc_disk` succeed for a device. -/
structure BrdMem where
  dev : Bool
  queue : Bool
  disk : Bool
deriving DecidableEq, Repr

structure Params where
  numDisks : BitVec 32
  numSnapshots : BitVec 32
  maxPart : BitVec 32
deriving DecidableEq, Repr

def Params.nr (p : Params) : BitVec 32 := p.numDisks * (1 + p.numSnapshots)

/-- `part_shift`, with `fls` for the size of a positive number. -/
def Params.partShift (p : Params) : ℕ := if 0 < p.maxPart.toInt then p.maxPart.toNat.size else 0

/-- `brd_alloc`; without memory it releases what it has. -/
def brdAllocOr (numDisks : Int) (mem : BrdMem) (i : ℕ) :
    Option BrdDevice × List (Call Resource) :=
  if mem.dev = false then (none, [])
  else if mem.queue = false then (none, [.acquire (.brd i), .release (.brd i)])
  else if mem.disk = false then
    (none, [.acquire (.brd i), .acquire (.queue i), .release (.queue i), .release (.brd i)])
  else
    (some ⟨i, none, true, decide (numDisks ≤ i), ∅⟩,
      [.acquire (.brd i), .acquire (.queue i), .acquire (.disk i)])

def brdFree (brd : BrdDevice) : Except Fault (List (Call Resource)) := do
  let _ ← brdFreePages brd.brdPages
  return [.release (.disk brd.brdNumber), .release (.queue brd.brdNumber),
    .release (.brd brd.brdNumber)]

def brdInitDevices (numDisks : Int) (mem : ℕ → BrdMem) :
    ℕ → ℕ → List BrdDevice → Bool × List BrdDevice × List (Call Resource)
  | 0, _, devices => (true, devices, [])
  | left + 1, i, devices =>
    match brdAllocOr numDisks (mem i) i with
    | (none, calls) => (false, devices, calls)
    | (some brd, calls) =>
      let parent := if numDisks ≤ i then
        (devices ++ [brd]).findIdx? fun d => d.brdNumber == (i : Int).tmod numDisks else none
      let r := brdInitDevices numDisks mem left (i + 1) (devices ++ [{ brd with parentBrd := parent }])
      (r.1, r.2.1, calls ++ r.2.2)

def freeDevices : List BrdDevice → Except Fault (List (Call Resource))
  | [] => return []
  | brd :: devices => do
    let calls ← brdFree brd
    let rest ← freeDevices devices
    return calls ++ rest

structure Load where
  err : Int
  devices : List BrdDevice
  calls : List (Call Resource)

/-- `brd_init`; `major` is the answer of `register_blkdev`. -/
def brdInitModule (major : Int) (p : Params) (mem : ℕ → BrdMem) : Except Fault Load :=
  if major ≤ 0 then return ⟨-eio, [], []⟩
  else if diskMaxParts < 2 ^ p.partShift then return ⟨-einval, [], [.acquire (.blkdev major)]⟩
  -- the comparison is between unsigned 64-bit numbers
  else if 2 ^ (minorBits - p.partShift) < (p.nr.signExtend 64).toNat then
    return ⟨-einval, [], [.acquire (.blkdev major)]⟩
  else
    match brdInitDevices p.numDisks.toInt mem p.nr.toInt.toNat 0 [] with
    | (true, devices, calls) => return ⟨0, devices, .acquire (.blkdev major) :: calls⟩
    | (false, devices, calls) => do
      let freed ← freeDevices devices
      return ⟨-enomem, [], .acquire (.blkdev major) :: calls ++ freed ++ [.release (.blkdev major)]⟩

/-- After an error no device is left, nothing is held, and what was acquired has been
released once. -/
def LeavesNothing (r : Load) : Prop :=
  r.err ≠ 0 → r.devices = [] ∧ after ∅ r.calls = some ∅ ∧
    ∀ res, .acquire res ∈ r.calls → r.calls.count (.release res) = 1

structure ParamsFit (p : Params) : Prop where
  maxPart_lt : p.maxPart.toInt < 256
  nr_nonneg : 0 ≤ p.nr.toInt
  nr_le : p.nr.toInt ≤ 2 ^ (20 - p.partShift)

theorem diskMaxParts_lt_iff (p : Params) :
    diskMaxParts < 2 ^ p.partShift ↔ 256 ≤ p.maxPart.toInt := by
  unfold Params.partShift
  split_ifs with hpos
  · have hnat : p.maxPart.toInt = p.maxPart.toNat := by
      rw [BitVec.toInt_eq_toNat_cond] at hpos ⊢
      split_ifs at hpos ⊢ with hlt
      · rfl
      · omega
    have hsize : diskMaxParts < 2 ^ p.maxPart.toNat.size ↔ 8 < p.maxPart.toNat.size :=
      Nat.pow_lt_pow_iff_right (a := 2) (n := 8) (by decide)
    rw [hsize, Nat.lt_size, hnat]
    omega
  · simp only [diskMaxParts, pow_zero]
    omega

theorem nr_exceeds_iff (p : Params) :
    2 ^ (minorBits - p.partShift) < (p.nr.signExtend 64).toNat ↔
      ¬ (0 ≤ p.nr.toInt ∧ p.nr.toInt ≤ 2 ^ (20 - p.partShift)) := by
  have hint : (p.nr.signExtend 64).toInt = p.nr.toInt := BitVec.toInt_signExtend_of_le (by decide)
  have hle : 2 ^ (20 - p.partShift) ≤ 2 ^ 20 := Nat.pow_le_pow_right (by decide) (Nat.sub_le _ _)
  have hcast : ((2 : Int) ^ (20 - p.partShift)) = ((2 ^ (20 - p.partShift) : ℕ) : Int) := by
    push_cast
    rfl
  have hlt := (p.nr.signExtend 64).isLt
  rw [BitVec.toInt_eq_toNat_cond] at hint
  rw [hcast, ← hint, minorBits]
  split_ifs with hsmall
  · omega
  · omega

theorem paramsFit_iff (p : Params) : ParamsFit p ↔
    ¬ diskMaxParts < 2 ^ p.partShift ∧
      ¬ 2 ^ (minorBits - p.partShift) < (p.nr.signExtend 64).toNat := by
  rw [diskMaxParts_lt_iff, nr_exceeds_iff, not_le, not_not]
  exact ⟨fun h => ⟨h.1, h.2, h.3⟩, fun h => ⟨h.1, h.2.1, h.2.2⟩⟩

def resources (i : ℕ) : List Resource := [.brd i, .queue i, .disk i]

structure FailedAlloc (i : ℕ) (calls : List (Call Resource)) : Prop where
  after_eq : ∀ held, (∀ r ∈ resources i, r ∉ held) → after held calls = some held
  acquired_sublist : (acquired calls).Sublist (resources i)

theorem failedAlloc_nil (i : ℕ) : FailedAlloc i [] := ⟨fun _ _ => rfl, List.nil_sublist _⟩

theorem brdAllocOr_failed {numDisks : Int} {mem : BrdMem} {i : ℕ}
    {calls : List (Call Resource)} (h : brdAllocOr numDisks mem i = (none, calls)) :
    FailedAlloc i calls := by
  unfold brdAllocOr at h
  split_ifs at h with hdev hqueue hdisk <;> simp only [Prod.mk.injEq, reduceCtorEq, false_and,
    true_and] at h <;> subst h
  · exact failedAlloc_nil i
  · refine ⟨fun held hnew => ?_, by simp [resources]⟩
    have hbrd : .brd i ∉ held := hnew _ (by simp [resources])
    simp [hbrd]
  · refine ⟨fun held hnew => ?_, by simp [resources]⟩
    have hbrd : .brd i ∉ held := hnew _ (by simp [resources])
    have hq : .queue i ∉ held := hnew _ (by simp [resources])
    simp [hbrd, hq]

theorem brdAllocOr_some {numDisks : Int} {mem : BrdMem} {i : ℕ} {brd : BrdDevice}
    {calls : List (Call Resource)} (h : brdAllocOr numDisks mem i = (some brd, calls)) :
    brd = ⟨i, none, true, decide (numDisks ≤ i), ∅⟩ ∧ calls = (resources i).map .acquire := by
  unfold brdAllocOr at h
  split_ifs at h with hdev hqueue hdisk <;> simp only [Prod.mk.injEq, reduceCtorEq, false_and,
    Option.some.injEq] at h
  exact ⟨h.1.symm, h.2.symm⟩

/-- What the loop adds to `brd_devices`: devices in ascending order, each without pages;
`calls` acquires what belongs to them and ends with an allocation that may have failed. -/
structure Allocated (i : ℕ) (news : List BrdDevice) (calls : List (Call Resource)) : Prop where
  numbers : news.map BrdDevice.brdNumber = List.range' i news.length
  pages : ∀ brd ∈ news, brd.brdPages = ∅
  calls_eq : ∃ fail, FailedAlloc (i + news.length) fail ∧
    calls = (news.flatMap fun brd => resources brd.brdNumber).map .acquire ++ fail

theorem brdInitDevices_spec (numDisks : Int) (mem : ℕ → BrdMem) (left i : ℕ)
    (devices : List BrdDevice) : ∃ news,
      (brdInitDevices numDisks mem left i devices).2.1 = devices ++ news ∧
      Allocated i news (brdInitDevices numDisks mem left i devices).2.2 := by
  induction left generalizing i devices with
  | zero => exact ⟨[], by simp [brdInitDevices], rfl, by simp, [], failedAlloc_nil i, rfl⟩
  | succ left ih =>
    unfold brdInitDevices
    cases halloc : brdAllocOr numDisks (mem i) i with
    | mk found calls =>
      cases found with
      | none =>
        exact ⟨[], by simp, rfl, by simp, calls, brdAllocOr_failed halloc, rfl⟩
      | some brd =>
        obtain ⟨rfl, rfl⟩ := brdAllocOr_some halloc
        dsimp only
        generalize (if numDisks ≤ i then _ else none) = parent
        obtain ⟨news, hdevices, hnews⟩ := ih (i + 1)
          (devices ++ [⟨i, parent, true, decide (numDisks ≤ i), ∅⟩])
        obtain ⟨fail, hfail, hcalls⟩ := hnews.calls_eq
        refine ⟨⟨i, parent, true, decide (numDisks ≤ i), ∅⟩ :: news, ?_, ?_, ?_, fail, ?_, ?_⟩
        · rw [hdevices, List.append_assoc, List.singleton_append]
        · rw [List.map_cons, hnews.numbers, List.length_cons, List.range'_succ]
        · exact List.forall_mem_cons.mpr ⟨rfl, hnews.pages⟩
        · rw [List.length_cons, Nat.add_comm news.length, ← Nat.add_assoc]
          exact hfail
        · rw [hcalls, List.flatMap_cons, List.map_append, List.append_assoc]

theorem freeDevices_eq {devices : List BrdDevice} (h : ∀ brd ∈ devices, brd.brdPages = ∅) :
    freeDevices devices = .ok ((devices.flatMap fun brd =>
      (resources brd.brdNumber).reverse).map .release) := by
  induction devices with
  | nil => rfl
  | cons brd devices ih =>
    obtain ⟨hbrd, hrest⟩ := List.forall_mem_cons.mp h
    have hfree : brdFree brd = .ok ((resources brd.brdNumber).reverse.map .release) := by
      unfold brdFree
      rw [hbrd, brdFreePages_spec indexed_empty]
      rfl
    rw [freeDevices, hfree, ih hrest, List.flatMap_cons, List.map_append]
    rfl

theorem resources_disjoint {i j : ℕ} (h : i ≠ j) : (resources i).Disjoint (resources j) := by
  simp [resources, h.symm]

/-- What the devices with numbers below `n` hold. -/
theorem nodup_resources (n : ℕ) : ((List.range' 0 n).flatMap resources).Nodup := by
  rw [List.nodup_flatMap]
  refine ⟨fun i _ => by simp [resources], ?_⟩
  exact List.Pairwise.imp resources_disjoint List.nodup_range'

theorem notMem_resources {n : ℕ} {r : Resource} (h : r ∈ resources n) :
    r ∉ (List.range' 0 n).flatMap resources := by
  intro hmem
  obtain ⟨i, hi, hr⟩ := List.mem_flatMap.mp hmem
  have hlt := (List.mem_range'_1.mp hi).2
  exact resources_disjoint (by omega) hr h

theorem blkdev_notMem (major : Int) (n : ℕ) :
    .blkdev major ∉ (List.range' 0 n).flatMap resources := by simp [resources]

/-- The calls of a load whose devices are freed again. -/
theorem released_calls (major : Int) {n : ℕ} {fail : List (Call Resource)}
    (hfail : FailedAlloc n fail) {freed : List Resource}
    (hfreed : freed.Perm ((List.range' 0 n).flatMap resources)) :
    let calls := .acquire (.blkdev major) ::
      (((List.range' 0 n).flatMap resources).map .acquire ++ fail) ++ freed.map .release ++
        [.release (.blkdev major)]
    after ∅ calls = some ∅ ∧ (acquired calls).Nodup := by
  have hnodup := nodup_resources n
  have hblk := blkdev_notMem major n
  have hlast : ∀ r ∈ resources n, r ∉ (List.range' 0 n).flatMap resources := fun r =>
    notMem_resources
  generalize (List.range' 0 n).flatMap resources = rs at hnodup hblk hlast hfreed
  have hblkn : .blkdev major ∉ resources n := by simp [resources]
  dsimp only
  constructor
  · have hacquire : after {.blkdev major} (rs.map .acquire) =
        some ({.blkdev major} ∪ rs.toFinset) := by
      refine after_acquire hnodup fun r hr hheld => ?_
      rw [Finset.mem_singleton] at hheld
      exact hblk (hheld ▸ hr)
    have hfailed := hfail.after_eq ({.blkdev major} ∪ rs.toFinset) fun r hr hheld => by
      rcases Finset.mem_union.mp hheld with h | h
      · exact hblkn (Finset.mem_singleton.mp h ▸ hr)
      · exact hlast r hr (List.mem_toFinset.mp h)
    have hrelease : after ({.blkdev major} ∪ rs.toFinset) (freed.map .release) =
        some {.blkdev major} := by
      rw [after_release (hfreed.nodup_iff.mpr hnodup) fun r hr =>
          Finset.mem_union_right _ (List.mem_toFinset.mpr (hfreed.mem_iff.mp hr)),
        List.toFinset_eq_of_perm _ _ hfreed, Finset.union_sdiff_cancel_right]
      rw [Finset.disjoint_singleton_left, List.mem_toFinset]
      exact hblk
    rw [List.cons_append, List.cons_append, after_cons, step_acquire (Finset.notMem_empty _),
      Option.bind_some, insert_empty_eq, List.append_assoc, List.append_assoc,
      after_append_of hacquire, after_append_of hfailed, after_append_of hrelease]
    simp
  · have hacquired : acquired (.acquire (.blkdev major) :: (rs.map .acquire ++ fail) ++
        freed.map .release ++ [.release (.blkdev major)]) =
          .blkdev major :: (rs ++ acquired fail) := by
      simp
    have hsub := hfail.acquired_sublist.subset
    have hfailed : (acquired fail).Nodup :=
      hfail.acquired_sublist.nodup (by simp [resources])
    rw [hacquired, List.nodup_cons, List.mem_append, List.nodup_append']
    refine ⟨?_, hnodup, hfailed, fun r hr hr' => hlast r (hsub hr') hr⟩
    rintro (hr | hr)
    · exact hblk hr
    · exact hblkn (hsub hr)

theorem leavesNothing_of_calls {err : Int} {calls : List (Call Resource)}
    (hafter : after ∅ calls = some ∅) (hnodup : (acquired calls).Nodup) :
    LeavesNothing ⟨err, [], calls⟩ :=
  fun _ => ⟨rfl, hafter, fun _ => count_release_eq_one hafter hnodup⟩

theorem not_leavesNothing_einval (major : Int) :
    ¬ LeavesNothing ⟨-einval, [], [.acquire (.blkdev major)]⟩ := by
  intro h
  obtain ⟨-, hafter, -⟩ := h (show -einval ≠ 0 by decide)
  simp at hafter

/-- Once the parameters have passed the checks. -/
theorem brdInitModule_fit {major : Int} (hmajor : 0 < major) {p : Params} (hp : ParamsFit p)
    (mem : ℕ → BrdMem) : ∃ r, brdInitModule major p mem = .ok r ∧ LeavesNothing r := by
  obtain ⟨hparts, hnr⟩ := (paramsFit_iff p).mp hp
  unfold brdInitModule
  rw [if_neg (not_le.mpr hmajor), if_neg hparts, if_neg hnr]
  obtain ⟨news, hdevices, hnews⟩ := brdInitDevices_spec p.numDisks.toInt mem p.nr.toInt.toNat 0 []
  obtain ⟨fail, hfail, hcalls⟩ := hnews.calls_eq
  generalize brdInitDevices p.numDisks.toInt mem p.nr.toInt.toNat 0 [] = loop
    at hdevices hcalls hnews
  obtain ⟨ok, devices, calls⟩ := loop
  dsimp only at hdevices hcalls hnews
  rw [List.nil_append] at hdevices
  subst hdevices hcalls
  cases ok with
  | true => exact ⟨_, rfl, fun herr => absurd rfl herr⟩
  | false =>
    have hnumbers (f : ℕ → List Resource) : (devices.flatMap fun brd => f brd.brdNumber) =
        (List.range' 0 devices.length).flatMap f := by
      rw [← hnews.numbers, List.flatMap_map]
    rw [Nat.zero_add] at hfail
    dsimp only
    rw [freeDevices_eq hnews.pages, hnumbers resources, hnumbers fun i => (resources i).reverse]
    have hperm : ((List.range' 0 devices.length).flatMap fun i => (resources i).reverse).Perm
        ((List.range' 0 devices.length).flatMap resources) :=
      List.Perm.flatMap_left _ fun i _ => List.reverse_perm _
    obtain ⟨hafter, hnodup⟩ := released_calls major hfail hperm
    exact ⟨_, rfl, leavesNothing_of_calls hafter hnodup⟩

/-- A failed load leaves nothing behind exactly if it does not fail at the parameters. -/
theorem brdInitModule_leavesNothing_iff (major : Int) (p : Params) (mem : ℕ → BrdMem) :
    ∃ r, brdInitModule major p mem = .ok r ∧ (LeavesNothing r ↔ (0 < major → ParamsFit p)) := by
  by_cases hmajor : 0 < major
  · by_cases hp : ParamsFit p
    · obtain ⟨r, heq, hr⟩ := brdInitModule_fit hmajor hp mem
      exact ⟨r, heq, iff_of_true hr fun _ => hp⟩
    · have heq : brdInitModule major p mem = .ok ⟨-einval, [], [.acquire (.blkdev major)]⟩ := by
        unfold brdInitModule
        rw [if_neg (not_le.mpr hmajor)]
        rw [paramsFit_iff, ← not_or, not_not] at hp
        split_ifs with hparts hnr
        · rfl
        · rfl
        · exact absurd hp (not_or.mpr ⟨hparts, hnr⟩)
      exact ⟨_, heq, iff_of_false (not_leavesNothing_einval major) fun h => hp (h hmajor)⟩
  · refine ⟨⟨-eio, [], []⟩, if_pos (not_lt.mp hmajor), iff_of_true ?_ fun h => absurd h hmajor⟩
    exact leavesNothing_of_calls rfl List.nodup_nil

/-- With 256 partitions the module fails to load and keeps its major number. -/
theorem not_leavesNothing_maxPart : ¬ ∀ (major : Int) (p : Params) (mem : ℕ → BrdMem),
    ∃ r, brdInitModule major p mem = .ok r ∧ LeavesNothing r := by
  intro h
  obtain ⟨r, heq, hr⟩ := h 252 ⟨1, 1, 256⟩ fun _ => ⟨true, true, true⟩
  have heinval : brdInitModule 252 ⟨1, 1, 256⟩ (fun _ => ⟨true, true, true⟩) =
      .ok ⟨-einval, [], [.acquire (.blkdev 252)]⟩ := by rfl
  rw [heinval, Except.ok.injEq] at heq
  exact not_leavesNothing_einval 252 (heq ▸ hr)

end CrashMonkey.CowBrd
