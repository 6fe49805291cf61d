import CrashMonkey.CowBrd.ModuleLoad

namespace CrashMonkey.CowBrd

open Ledger Transition

def ramdiskMajor : Int := 1

/-- What the module holds: besides memory and its major number, the region of minors
under a major number and the registered disk of a device. -/
inductive Held where
  | resource (r : Resource)
  | region (major : Int)
  | gendisk (i : ℕ)
deriving DecidableEq, Repr

open Held

def blkdev (major : Int) : Held := resource (.blkdev major)

@[simp] theorem blkdev_ne_region (major major' : Int) : blkdev major ≠ region major' := nofun

def memory (calls : List (Call Resource)) : List (Call Held) := calls.map (Call.map resource)

structure Module where
  system : System
  calls : List (Call Held)

def brdInitAll (major : Int) (p : Params) (mem : ℕ → BrdMem) (diskSize : ℕ) :
    Except Fault (Int × Module) := do
  let r ← brdInitModule major p mem
  if r.err ≠ 0 then return (r.err, ⟨⟨diskSize * 2, r.devices⟩, memory r.calls⟩)
  return (0, ⟨⟨diskSize * 2, r.devices⟩, memory r.calls ++
    r.devices.map (fun brd => .acquire (gendisk brd.brdNumber)) ++
      [.acquire (region ramdiskMajor)]⟩)

def brdInitOne (numDisks : Int) (mem : BrdMem) (i : ℕ) (m : Module) : Option BrdDevice × Module :=
  match m.system.devices.find? fun brd => brd.brdNumber == i with
  | some brd => (some brd, m)
  | none =>
    match brdAllocOr numDisks mem i with
    | (none, calls) => (none, { m with calls := m.calls ++ memory calls })
    | (some brd, calls) =>
      let parent := if numDisks ≤ i then
        (m.system.devices ++ [brd]).findIdx? fun d => d.brdNumber == (i : Int).tmod numDisks
        else none
      let brd := { brd with parentBrd := parent }
      (some brd, ⟨{ m.system with devices := m.system.devices ++ [brd] },
        m.calls ++ memory calls ++ [.acquire (gendisk i)]⟩)

def brdProbe (p : Params) (mem : BrdMem) (minor : ℕ) (m : Module) : Option BrdDevice × Module :=
  brdInitOne p.numDisks.toInt mem (minor / 2 ^ p.partShift) m

def brdDelOne (brd : BrdDevice) : Except Fault (List (Call Held)) := do
  let calls ← brdFree brd
  return .release (gendisk brd.brdNumber) :: memory calls

def delDevices : List BrdDevice → Except Fault (List (Call Held))
  | [] => return []
  | brd :: devices => do
    let calls ← brdDelOne brd
    let rest ← delDevices devices
    return calls ++ rest

/-- `brd_exit`; the region it takes back is that of `major`. -/
def brdExit (major : Int) (m : Module) : Except Fault (List (Call Held)) := do
  let calls ← delDevices m.system.devices
  return calls ++ [.release (region major), .release (blkdev major)]

inductive ModuleEvent where
  | io (e : Event)
  | probe (minor : ℕ) (mem : BrdMem)

def ModuleStep (p : Params) (m : Module) (e : ModuleEvent) (m' : Module) : Prop :=
  match e with
  | .io e => Step m.system e m'.system ∧ m'.calls = m.calls
  | .probe minor mem => m' = (brdProbe p mem minor m).2

/-- The minor number is in the region, which has `nr << part_shift` of them. -/
def InRegion (p : Params) (minor : ℕ) : Prop := minor < p.nr.toInt.toNat * 2 ^ p.partShift

/-- The kernel asks for the minors of the region only. -/
def ModuleEvent.Routed (p : Params) : ModuleEvent → Prop
  | .io _ => True
  | .probe minor _ => InRegion p minor

def devicesHeld (n : ℕ) : List Held :=
  ((List.range' 0 n).flatMap resources).map resource ++ (List.range' 0 n).map gendisk

/-- What is held by a module with `n` devices, in the order in which it was acquired. -/
def loadHeld (major : Int) (n : ℕ) : List Held :=
  blkdev major :: devicesHeld n ++ [region ramdiskMajor]

def deviceHeld (i : ℕ) : List Held := gendisk i :: (resources i).reverse.map resource

/-- The devices 0 to n - 1 are there, and nothing has been acquired or released since. -/
structure Loaded (major : Int) (n : ℕ) (m : Module) : Prop where
  numbers : m.system.devices.map BrdDevice.brdNumber = List.range' 0 n
  indexed : ∀ brd ∈ m.system.devices, Indexed brd.brdPages
  calls : m.calls = (loadHeld major n).map .acquire

/-- The loop comes to its end with a device for each number. -/
theorem brdInitDevices_done {numDisks : Int} {mem : ℕ → BrdMem} {left i : ℕ}
    {devices devices' : List BrdDevice} {calls : List (Call Resource)}
    (h : brdInitDevices numDisks mem left i devices = (true, devices', calls)) :
    devices'.map BrdDevice.brdNumber =
        devices.map BrdDevice.brdNumber ++ List.range' i left ∧
      calls = ((List.range' i left).flatMap resources).map .acquire := by
  induction left generalizing i devices calls with
  | zero =>
    simp only [brdInitDevices, Prod.mk.injEq, true_and] at h
    obtain ⟨rfl, rfl⟩ := h
    simp
  | succ left ih =>
    unfold brdInitDevices at h
    cases halloc : brdAllocOr numDisks (mem i) i with
    | mk found calls₀ =>
      rw [halloc] at h
      cases found with
      | none => simp at h
      | some brd =>
        obtain ⟨rfl, rfl⟩ := brdAllocOr_some halloc
        dsimp only at h
        generalize (if numDisks ≤ i then _ else none) = parent at h
        generalize hr : brdInitDevices numDisks mem left (i + 1) _ = r at h
        obtain ⟨ok, devices₁, calls₁⟩ := r
        simp only [Prod.mk.injEq] at h
        obtain ⟨rfl, rfl, rfl⟩ := h
        obtain ⟨hnumbers, hcalls⟩ := ih hr
        constructor
        · rw [hnumbers, List.map_append, List.append_assoc, List.range'_succ]
          rfl
        · rw [hcalls, List.range'_succ, List.flatMap_cons, List.map_append]

/-- Its devices are those of `brdInit`. -/
theorem brdInitDevices_eq {numDisks : ℕ} {mem : ℕ → BrdMem} {left i : ℕ}
    {devices devices' : List BrdDevice} {calls : List (Call Resource)}
    (h : brdInitDevices numDisks mem left i devices = (true, devices', calls)) :
    devices' = brdInitLoop numDisks left i devices := by
  induction left generalizing i devices calls with
  | zero =>
    simp only [brdInitDevices, Prod.mk.injEq, true_and] at h
    exact h.1.symm
  | succ left ih =>
    have hparent (d : BrdDevice) :
        ((d.brdNumber : Int) == (i : Int).tmod numDisks) = (d.brdNumber == i % numDisks) := by
      rw [← Int.ofNat_tmod, Bool.eq_iff_iff, beq_iff_eq, beq_iff_eq, Int.natCast_inj]
    unfold brdInitDevices at h
    cases halloc : brdAllocOr numDisks (mem i) i with
    | mk found calls₀ =>
      rw [halloc] at h
      cases found with
      | none => simp at h
      | some brd =>
        obtain ⟨rfl, -⟩ := brdAllocOr_some halloc
        simp only [hparent, Nat.cast_le, Prod.mk.injEq] at h
        obtain ⟨hok, hdevices, -⟩ := h
        rw [brdInitLoop, brdAlloc]
        exact ih (Prod.ext hok (Prod.ext hdevices rfl))

/-- A `brd_init` that succeeds has come to the end of the loop. -/
theorem brdInitAll_done {major : Int} {p : Params} {mem : ℕ → BrdMem} {diskSize : ℕ} {m : Module}
    (h : brdInitAll major p mem diskSize = .ok (0, m)) : ∃ devices calls,
      brdInitDevices p.numDisks.toInt mem p.nr.toInt.toNat 0 [] = (true, devices, calls) ∧
      m = ⟨⟨diskSize * 2, devices⟩, memory (.acquire (.blkdev major) :: calls) ++
        devices.map (fun brd => .acquire (gendisk brd.brdNumber)) ++
          [.acquire (region ramdiskMajor)]⟩ := by
  unfold brdInitAll at h
  obtain ⟨r, hr, h⟩ := bind_eq_ok.mp h
  split_ifs at h with herr
  · simp only [pure, Except.pure, Except.ok.injEq, Prod.mk.injEq] at h
    exact absurd h.1 herr
  simp only [pure, Except.pure, Except.ok.injEq, Prod.mk.injEq, true_and] at h
  rw [not_not] at herr
  have hfail {err : Int} {devices : List BrdDevice} {calls : List (Call Resource)}
      (hne : err ≠ 0) (hr : (pure ⟨err, devices, calls⟩ : Except Fault Load) = .ok r) : False := by
    rw [← Except.ok.inj hr] at herr
    exact hne herr
  unfold brdInitModule at hr
  split_ifs at hr with hmajor hparts hnr
  · exact (hfail (by decide) hr).elim
  · exact (hfail (by decide) hr).elim
  · exact (hfail (by decide) hr).elim
  · generalize brdInitDevices p.numDisks.toInt mem p.nr.toInt.toNat 0 [] = loop at hr ⊢
    obtain ⟨ok, devices, calls⟩ := loop
    cases ok with
    | false =>
      obtain ⟨freed, -, hr⟩ := bind_eq_ok.mp hr
      exact (hfail (by decide) hr).elim
    | true =>
      rw [← Except.ok.inj hr] at h
      exact ⟨devices, calls, rfl, h.symm⟩

theorem brdInitAll_loaded {major : Int} {p : Params} {mem : ℕ → BrdMem} {diskSize : ℕ} {m : Module}
    (h : brdInitAll major p mem diskSize = .ok (0, m)) : Loaded major p.nr.toInt.toNat m := by
  obtain ⟨devices, calls, hloop, rfl⟩ := brdInitAll_done h
  obtain ⟨hnumbers, hcalls⟩ := brdInitDevices_done hloop
  obtain ⟨news, hdevices, hnews⟩ := brdInitDevices_spec p.numDisks.toInt mem p.nr.toInt.toNat 0 []
  rw [hloop] at hdevices
  have hnumbers : devices.map BrdDevice.brdNumber = List.range' 0 p.nr.toInt.toNat := hnumbers
  refine ⟨hnumbers, fun brd hbrd => ?_, ?_⟩
  · have hdevices : devices = news := hdevices
    rw [hnews.pages brd (hdevices ▸ hbrd)]
    exact indexed_empty
  · have hgendisks : devices.map (fun brd => Call.acquire (gendisk brd.brdNumber)) =
        ((List.range' 0 p.nr.toInt.toNat).map gendisk).map .acquire := by
      rw [← hnumbers, List.map_map, List.map_map]
      rfl
    have hmemory : memory (.acquire (.blkdev major) :: calls) = .acquire (blkdev major) ::
        (((List.range' 0 p.nr.toInt.toNat).flatMap resources).map resource).map .acquire := by
      rw [hcalls, memory, List.map_cons, map_acquire]
      rfl
    dsimp only
    rw [hgendisks, hmemory, loadHeld, devicesHeld, List.map_append, List.map_cons,
      List.map_append, List.cons_append]
    rfl

/-- The module starts with the devices whose reads and writes the laws are about. -/
theorem brdInitAll_system {major : Int} {p : Params} {mem : ℕ → BrdMem} {diskSize : ℕ} {m : Module}
    (h : brdInitAll major p mem diskSize = .ok (0, m)) {numDisks numSnapshots : ℕ}
    (hdisks : p.numDisks.toInt = numDisks) (hnr : p.nr.toInt = numDisks * (1 + numSnapshots)) :
    m.system = brdInit numDisks numSnapshots diskSize := by
  obtain ⟨devices, calls, hloop, rfl⟩ := brdInitAll_done h
  have hleft : p.nr.toInt.toNat = numDisks * (1 + numSnapshots) := by
    rw [hnr]
    exact Int.toNat_natCast _
  rw [hdisks, hleft] at hloop
  rw [brdInit, ← brdInitDevices_eq hloop]

/-- An ioctl opens or closes the device, or frees its pages. -/
theorem brdIoctl_brdNumber {brd brd' : BrdDevice} {cmd : Cmd} {err : Int}
    (h : brdIoctl brd cmd = .ok (err, brd')) : brd'.brdNumber = brd.brdNumber := by
  have hsame {brd₁ : BrdDevice} {err₁ : Int} (h : (pure (err₁, brd₁) : Except Fault _) =
      .ok (err, brd')) (hnumber : brd₁.brdNumber = brd.brdNumber) :
      brd'.brdNumber = brd.brdNumber := by
    obtain ⟨-, rfl⟩ := Prod.mk.inj (Except.ok.inj h)
    exact hnumber
  cases cmd with
  | snapshot | unsnapshot =>
    simp only [brdIoctl] at h
    split_ifs at h
    · exact hsame h rfl
    · exact hsame h rfl
  | restoreSnapshot | wipe =>
    simp only [brdIoctl] at h
    split_ifs at h
    · exact hsame h rfl
    · obtain ⟨pages, -, h⟩ := bind_eq_ok.mp h
      exact hsame h rfl
  | other => exact hsame h rfl

theorem serve_brdNumber {s : System} {e : Event} {brd brd' : BrdDevice}
    (h : serve s brd e = .ok brd') : brd'.brdNumber = brd.brdNumber := by
  cases e with
  | bio dev bio env =>
    obtain ⟨r, -, h⟩ := bind_eq_ok.mp h
    rw [← Except.ok.inj h]
  | ioctl dev cmd =>
    obtain ⟨⟨err, brd₁⟩, hioctl, h⟩ := bind_eq_ok.mp h
    rw [← Except.ok.inj h]
    exact brdIoctl_brdNumber hioctl

/-- Requests and ioctls leave the numbers of the devices alone, and the pages under their
index. -/
theorem Loaded.io {major : Int} {n : ℕ} {m m' : Module} {e : Event} (h : Loaded major n m)
    (hstep : Step m.system e m'.system) (hcalls : m'.calls = m.calls) : Loaded major n m' := by
  rcases step_cases hstep with ⟨-, heq⟩ | ⟨brd, brd', hbrd, hserve, heq⟩
  · exact ⟨heq ▸ h.numbers, heq ▸ h.indexed, hcalls ▸ h.calls⟩
  have hparent : ∀ p ∈ m.system.parentPages brd, Indexed p := by
    intro p hp
    obtain ⟨q, -, hq⟩ := Option.bind_eq_some_iff.mp hp
    obtain ⟨base, hbase, rfl⟩ := Option.map_eq_some_iff.mp hq
    exact h.indexed base (List.mem_of_getElem? hbase)
  have hserved := serve_served (h.indexed brd (List.mem_of_getElem? hbrd)) hparent hserve
  refine ⟨?_, fun b hb => ?_, hcalls ▸ h.calls⟩
  · obtain ⟨hlt, hget⟩ := List.getElem?_eq_some_iff.mp hbrd
    have hlen : e.dev < (m.system.devices.map BrdDevice.brdNumber).length := by simpa using hlt
    have hnumber : brd'.brdNumber = (m.system.devices.map BrdDevice.brdNumber)[e.dev] := by
      rw [serve_brdNumber hserve, List.getElem_map, hget]
    rw [heq, List.map_set, hnumber, List.set_getElem_self, h.numbers]
  · rw [heq] at hb
    rcases List.mem_or_eq_of_mem_set hb with hb | rfl
    · exact h.indexed b hb
    · exact hserved.indexed

/-- A minor of the region leads to its device, and nothing is made. -/
theorem Loaded.probe {major : Int} {p : Params} {m : Module} (h : Loaded major p.nr.toInt.toNat m)
    {minor : ℕ} (hminor : InRegion p minor) (mem : BrdMem) :
    ∃ brd ∈ m.system.devices, brd.brdNumber = minor / 2 ^ p.partShift ∧
      brdProbe p mem minor m = (some brd, m) := by
  have hlt : minor / 2 ^ p.partShift < p.nr.toInt.toNat :=
    (Nat.div_lt_iff_lt_mul (Nat.two_pow_pos _)).mpr hminor
  have hnumber : minor / 2 ^ p.partShift ∈ m.system.devices.map BrdDevice.brdNumber := by
    rw [h.numbers, List.mem_range'_1, Nat.zero_add]
    exact ⟨Nat.zero_le _, hlt⟩
  obtain ⟨brd₀, hbrd₀, heq₀⟩ := List.mem_map.mp hnumber
  cases hfind : m.system.devices.find? fun brd => brd.brdNumber == minor / 2 ^ p.partShift with
  | none =>
    have hne := List.find?_eq_none.mp hfind brd₀ hbrd₀
    rw [heq₀, beq_self_eq_true] at hne
    exact absurd rfl hne
  | some brd =>
    have hbrd := List.find?_some hfind
    refine ⟨brd, List.mem_of_find?_eq_some hfind, eq_of_beq hbrd, ?_⟩
    rw [brdProbe, brdInitOne, hfind]

theorem Loaded.step {major : Int} {p : Params} {m m' : Module} {e : ModuleEvent}
    (h : Loaded major p.nr.toInt.toNat m) (he : e.Routed p) (hstep : ModuleStep p m e m') :
    Loaded major p.nr.toInt.toNat m' := by
  cases e with
  | io e => exact h.io hstep.1 hstep.2
  | probe minor mem =>
    obtain ⟨brd, -, -, hprobe⟩ := h.probe he mem
    have hstep : m' = (brdProbe p mem minor m).2 := hstep
    rw [hstep, hprobe]
    exact h

theorem delDevices_eq {devices : List BrdDevice} (h : ∀ brd ∈ devices, Indexed brd.brdPages) :
    delDevices devices = .ok (((devices.map BrdDevice.brdNumber).flatMap deviceHeld).map
      .release) := by
  induction devices with
  | nil => rfl
  | cons brd devices ih =>
    obtain ⟨hbrd, hrest⟩ := List.forall_mem_cons.mp h
    have hdel : brdDelOne brd = .ok ((deviceHeld brd.brdNumber).map .release) := by
      rw [brdDelOne, brdFree, brdFreePages_spec hbrd]
      rfl
    rw [delDevices, hdel, ih hrest, List.map_cons, List.flatMap_cons, List.map_append]
    rfl

theorem Loaded.brdExit {major : Int} {n : ℕ} {m : Module} (h : Loaded major n m) :
    brdExit major m = .ok (((List.range' 0 n).flatMap deviceHeld).map .release ++
      [.release (region major), .release (blkdev major)]) := by
  rw [CowBrd.brdExit, delDevices_eq h.indexed, h.numbers]
  rfl

/-- The devices give back what they hold, in another order. -/
theorem flatMap_deviceHeld (is : List ℕ) : (is.flatMap deviceHeld).Perm
    ((is.flatMap resources).map resource ++ is.map gendisk) := by
  induction is with
  | nil => exact .refl _
  | cons i is ih =>
    have hreverse : ((resources i).reverse.map resource : List Held).Perm
        ((resources i).map resource) := (List.reverse_perm _).map _
    rw [List.flatMap_cons, List.flatMap_cons, List.map_cons, List.map_append, List.append_assoc,
      deviceHeld, List.cons_append]
    calc gendisk i :: ((resources i).reverse.map resource ++ is.flatMap deviceHeld)
      _ |>.Perm (gendisk i :: ((resources i).map resource ++
          ((is.flatMap resources).map resource ++ is.map gendisk))) := (hreverse.append ih).cons _
      _ |>.Perm ((resources i).map resource ++ ((is.flatMap resources).map resource ++
          gendisk i :: is.map gendisk)) := by
        rw [← List.append_assoc, ← List.append_assoc]
        exact List.perm_middle.symm

theorem blkdev_notMem_devicesHeld (major : Int) (n : ℕ) : blkdev major ∉ devicesHeld n := by
  have h := blkdev_notMem major n
  simpa [devicesHeld, blkdev, gendisk] using h

theorem region_notMem_devicesHeld (major : Int) (n : ℕ) : region major ∉ devicesHeld n := by
  simp [devicesHeld]

theorem nodup_devicesHeld (n : ℕ) : (devicesHeld n).Nodup := by
  apply List.nodup_append'.mpr
  refine ⟨(nodup_resources n).map fun r r' h => resource.inj h, ?_, ?_⟩
  · exact List.Nodup.map (fun i j h => gendisk.inj h) List.nodup_range'
  · intro r hr hr'
    obtain ⟨q, -, rfl⟩ := List.mem_map.mp hr
    obtain ⟨i, -, hi⟩ := List.mem_map.mp hr'
    cases hi

theorem nodup_loadHeld (major : Int) (n : ℕ) : (loadHeld major n).Nodup := by
  have hblkdev := blkdev_notMem_devicesHeld major n
  have hregion := region_notMem_devicesHeld ramdiskMajor n
  rw [loadHeld, List.cons_append, List.nodup_cons, List.nodup_append']
  refine ⟨?_, nodup_devicesHeld n, List.nodup_singleton _, ?_⟩
  · simp [hblkdev]
  · simpa using hregion

/-- After the devices the major number and the region are left. -/
theorem after_delDevices (major : Int) (n : ℕ) (calls : List (Call Held)) :
    after ∅ ((loadHeld major n).map .acquire ++
        (((List.range' 0 n).flatMap deviceHeld).map .release ++ calls)) =
      after {blkdev major, region ramdiskMajor} calls := by
  have hperm : ((List.range' 0 n).flatMap deviceHeld).Perm (devicesHeld n) := flatMap_deviceHeld _
  have hload := after_acquire (nodup_loadHeld major n) fun r _ => Finset.notMem_empty r
  have hheld : ∀ r ∈ (List.range' 0 n).flatMap deviceHeld, r ∈ ∅ ∪ (loadHeld major n).toFinset := by
    intro r hr
    have hmem := hperm.mem_iff.mp hr
    simp [loadHeld, hmem]
  have hdel := after_release (hperm.nodup_iff.mpr (nodup_devicesHeld n)) hheld
  rw [after_append_of hload, after_append_of hdel, List.toFinset_eq_of_perm _ _ hperm]
  congr 1
  ext r
  have hblkdev := blkdev_notMem_devicesHeld major n
  have hregion := region_notMem_devicesHeld ramdiskMajor n
  simp only [loadHeld, Finset.mem_sdiff, Finset.mem_union, Finset.notMem_empty, List.mem_toFinset,
    List.cons_append, List.mem_cons, List.mem_append, List.not_mem_nil, or_false, false_or,
    Finset.mem_insert, Finset.mem_singleton]
  constructor
  · rintro ⟨hr | hr | hr, hnot⟩
    · exact .inl hr
    · exact absurd hr hnot
    · exact .inr hr
  · rintro (rfl | rfl)
    · exact ⟨.inl rfl, hblkdev⟩
    · exact ⟨.inr (.inr rfl), hregion⟩

/-- All but the region is given back once. -/
theorem count_exit {major : Int} {n : ℕ} {r : Held} (hr : r ∈ loadHeld major n)
    (hne : r ≠ region ramdiskMajor) :
    (((List.range' 0 n).flatMap deviceHeld ++ [region major, blkdev major]).map
      Call.release).count (.release r) = 1 := by
  have hinj : (Call.release (ρ := Held)).Injective := fun r r' h => Call.release.inj h
  have hdevices : ((List.range' 0 n).flatMap deviceHeld).count r = (devicesHeld n).count r :=
    (flatMap_deviceHeld _).count_eq r
  rw [List.count_map_of_injective _ _ hinj, List.count_append, hdevices]
  have hblkdev := blkdev_notMem_devicesHeld major n
  have hregion := region_notMem_devicesHeld major n
  simp only [loadHeld, List.cons_append, List.mem_cons, List.mem_append, List.not_mem_nil,
    or_false, hne] at hr
  rcases hr with rfl | hr
  · rw [List.count_eq_zero_of_not_mem hblkdev]
    simp [(blkdev_ne_region _ _).symm]
  · have hr₁ : region major ≠ r := fun h => hregion (h ▸ hr)
    have hr₂ : blkdev major ≠ r := fun h => hblkdev (h ▸ hr)
    rw [List.count_eq_one_of_mem (nodup_devicesHeld n) hr, List.count_cons_of_ne hr₁,
      List.count_cons_of_ne hr₂, List.count_nil]

/-- Whatever happens to a module that has loaded, the minors of its region lead to its
devices, and unloading it gives back once what it holds; but the region it takes back is
the one that it has registered only under the major number 1. It starts with the devices
of `brdInit`. -/
theorem brdExit_releases {major : Int} {p : Params} {mem : ℕ → BrdMem} {diskSize : ℕ}
    {m m' : Module} {es : List ModuleEvent} (hload : brdInitAll major p mem diskSize = .ok (0, m))
    (hrun : Run (ModuleStep p) m es m') (hes : ∀ e ∈ es, e.Routed p) :
    (∀ numDisks numSnapshots : ℕ, p.numDisks.toInt = numDisks →
      p.nr.toInt = numDisks * (1 + numSnapshots) →
        m.system = brdInit numDisks numSnapshots diskSize) ∧
    m'.calls = m.calls ∧
    (∀ minor mem, InRegion p minor → ∃ brd ∈ m'.system.devices,
      brd.brdNumber = minor / 2 ^ p.partShift ∧ brdProbe p mem minor m' = (some brd, m')) ∧
    ∃ calls, brdExit major m' = .ok calls ∧
      (after ∅ (m'.calls ++ calls) = some ∅ ↔ major = ramdiskMajor) ∧
      (.release (region ramdiskMajor) ∈ calls ↔ major = ramdiskMajor) ∧
      ∀ r, .acquire r ∈ m'.calls → r ≠ region ramdiskMajor → calls.count (.release r) = 1 := by
  have hm := brdInitAll_loaded hload
  have hm' := hrun.invariant (fun _ _ _ h he hstep => h.step he hstep) hes hm
  refine ⟨fun _ _ => brdInitAll_system hload, hm'.calls.trans hm.calls.symm,
    fun minor mem hminor => hm'.probe hminor mem, _, hm'.brdExit, ?_, ?_, ?_⟩
  · rw [hm'.calls, after_delDevices]
    by_cases hmajor : major = ramdiskMajor
    · subst hmajor
      exact iff_of_true (by decide) rfl
    · have hne : region major ∉ ({blkdev major, region ramdiskMajor} : Finset Held) := by
        simp [hmajor, (blkdev_ne_region _ _).symm]
      rw [after_cons, Ledger.step, if_neg hne]
      exact iff_of_false (by simp) hmajor
  · have hregion : region ramdiskMajor ∉ (List.range' 0 p.nr.toInt.toNat).flatMap deviceHeld :=
      fun h => region_notMem_devicesHeld _ _ ((flatMap_deviceHeld _).mem_iff.mp h)
    have hinj : (Call.release (ρ := Held)).Injective := fun r r' h => Call.release.inj h
    rw [List.mem_append, List.mem_map_of_injective hinj]
    simp [hregion, eq_comm]
  · intro r hr hne
    have hinj : (Call.acquire (ρ := Held)).Injective := fun r r' h => Call.acquire.inj h
    rw [hm'.calls, List.mem_map_of_injective hinj] at hr
    have hcount := count_exit hr hne
    rwa [List.map_append] at hcount

def twoDevices (writable : Bool) : Module :=
  ⟨⟨16, [⟨0, none, writable, false, ∅⟩, ⟨1, some 0, true, true, ∅⟩]⟩,
    (loadHeld 252 2).map .acquire⟩

/-- After a snapshot and a probe the region stays registered. -/
theorem brdExit_releases_twoDevices : ∃ calls, brdExit 252 (twoDevices false) = .ok calls ∧
    .release (region ramdiskMajor) ∉ calls := by
  have hload : brdInitAll 252 ⟨1, 1, 0⟩ (fun _ => ⟨true, true, true⟩) 8 =
      .ok (0, twoDevices true) := rfl
  have hio : ModuleStep ⟨1, 1, 0⟩ (twoDevices true) (.io (.ioctl 0 .snapshot)) (twoDevices false) :=
    ⟨rfl, rfl⟩
  have hprobe : ModuleStep ⟨1, 1, 0⟩ (twoDevices false) (.probe 1 ⟨true, true, true⟩)
      (twoDevices false) := rfl
  have hrun := Run.cons hio (.cons hprobe (.nil _))
  have hes : ∀ e ∈ [ModuleEvent.io (.ioctl 0 .snapshot), .probe 1 ⟨true, true, true⟩],
      e.Routed ⟨1, 1, 0⟩ := by
    intro e he
    fin_cases he
    · trivial
    · exact (by decide : 1 < 2)
  obtain ⟨-, -, -, calls, hexit, -, hregion, -⟩ := brdExit_releases hload hrun hes
  exact ⟨calls, hexit, fun h => absurd (hregion.mp h) (by decide)⟩

end CrashMonkey.CowBrd
