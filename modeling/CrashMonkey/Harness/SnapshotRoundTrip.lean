import CrashMonkey.Harness.Snapshot

namespace CrashMonkey

open Transfer

theorem toNat_ofNat_mul_two {n : ℕ} (h : n < 2 ^ 31) :
    (BitVec.ofNat 32 n * 2).toNat = n * 2 := by
  have hn : n % 2 ^ 32 = n := Nat.mod_eq_of_lt (by omega)
  rw [BitVec.toNat_mul, BitVec.toNat_ofNat, hn]
  exact Nat.mod_eq_of_lt (show n * 2 < 2 ^ 32 by omega)

theorem Disk.sizeOf_eq {diskSize : ℕ} (h : diskSize < 2 ^ 30) :
    Disk.sizeOf (.ofNat 32 diskSize) = 1024 * diskSize := by
  have hmul := toNat_ofNat_mul_two (show diskSize < 2 ^ 31 by omega)
  rw [sizeOf, BitVec.toInt_eq_toNat_cond, hmul, if_pos (by omega)]
  omega

/-- From `2 ^ 30` on the number of sectors is negative. -/
theorem Disk.sizeOf_eq_zero {diskSize : ℕ} (h : 2 ^ 30 ≤ diskSize) (hlt : diskSize < 2 ^ 31) :
    Disk.sizeOf (.ofNat 32 diskSize) = 0 := by
  rw [sizeOf, BitVec.toInt_eq_toNat_cond, toNat_ofNat_mul_two hlt, if_neg (by omega)]
  omega

def slice (content : ℕ → UInt8) (offset n : ℕ) : List UInt8 :=
  (List.range n).map fun i => content (offset + i)

theorem Disk.bytesFrom_length (disk : Disk) (offset : ℕ) :
    (disk.bytesFrom offset).length = disk.bytes - offset := by
  rw [bytesFrom, List.length_map, List.length_range]

theorem Disk.take_bytesFrom {disk : Disk} {offset n : ℕ} (h : n ≤ disk.bytes - offset) :
    (disk.bytesFrom offset).take n = slice disk.content offset n := by
  rw [bytesFrom, ← List.map_take, List.take_range, min_eq_left h]
  rfl

theorem slice_length (content : ℕ → UInt8) (offset n : ℕ) : (slice content offset n).length = n := by
  rw [slice, List.length_map, List.length_range]

theorem readClone_ok {reads : List Call} (hreads : Moving reads) {t : Tester} {offset : ℕ}
    (hfd : t.cowBrdFd = some offset) (hsize : 0 < t.deviceSize) {bytesRead : List UInt8}
    (h : readClone reads t = .ok bytesRead) : offset + t.deviceSize ≤ t.disk.bytes ∧
      bytesRead = slice t.disk.content offset t.deviceSize := by
  simp only [readClone, hfd] at h
  cases hloop : Transfer.loop unsignedLimit reads t.deviceSize 0 (t.disk.bytesFrom offset) with
  | error fault =>
    rw [hloop] at h
    cases h
  | ok r =>
    obtain ⟨ok, moved, rest, calls⟩ := r
    rw [hloop] at h
    cases h
    obtain ⟨-, hle, hmoved, -⟩ := loop_ok hreads hloop
    rw [Disk.bytesFrom_length] at hle
    exact ⟨by omega, hmoved.trans (Disk.take_bytesFrom hle)⟩

/-- With enough bytes behind the offset the loop comes to an end. -/
theorem exists_readClone {reads : List Call} (hreads : Moving reads) {t : Tester} {offset : ℕ}
    (hfd : t.cowBrdFd = some offset) (hsize : t.deviceSize < 2 ^ 31)
    (hbytes : offset + t.deviceSize ≤ t.disk.bytes) (hlen : t.deviceSize < reads.length) :
    ∃ bytesRead, readClone reads t = .ok bytesRead := by
  have hle : t.deviceSize ≤ (t.disk.bytesFrom offset).length := by
    rw [Disk.bytesFrom_length]
    omega
  have hlimit : 0 + t.deviceSize < unsignedLimit := by
    rw [unsignedLimit]
    omega
  have hcalls : callsFor t.deviceSize + 0 ≤ reads.length := by
    rw [callsFor]
    omega
  obtain ⟨rest, -, -, hloop⟩ := loop_eq hreads hle hlimit hcalls
  simp only [readClone, hfd, hloop]
  exact ⟨_, rfl⟩

def Tester.saved (t : Tester) : Tester :=
  { t with cowBrdFd := t.cowBrdFd.map (· + t.deviceSize) }

theorem logSnapshotSave_eq (stack : ℕ → UInt8) {reads : List Call} {t : Tester} {offset : ℕ}
    (h : readClone reads t = .ok (slice t.disk.content offset t.deviceSize)) :
    logSnapshotSave stack reads true t =
      .ok (SUCCESS, some (slice t.disk.content offset t.deviceSize), t.saved) := by
  unfold logSnapshotSave
  rw [h]
  simp [bind, Except.bind, slice_length, Tester.saved, pure, Except.pure]

/-- A save that comes to an end has read from the offset on. -/
theorem logSnapshotSave_ok {stack : ℕ → UInt8} {reads : List Call} (hreads : Moving reads)
    {t : Tester} {offset : ℕ} (hfd : t.cowBrdFd = some offset) (hsize : 0 < t.deviceSize)
    {x : Int × Option (List UInt8) × Tester} (h : logSnapshotSave stack reads true t = .ok x) :
    offset + t.deviceSize ≤ t.disk.bytes ∧
      x = (SUCCESS, some (slice t.disk.content offset t.deviceSize), t.saved) := by
  have h' := h
  unfold logSnapshotSave at h
  obtain ⟨bytesRead, hread, -⟩ := Transition.bind_eq_ok.mp h
  obtain ⟨hbytes, rfl⟩ := readClone_ok hreads hfd hsize hread
  rw [logSnapshotSave_eq stack hread, Except.ok.injEq] at h'
  exact ⟨hbytes, h'.symm⟩

@[simp] theorem Tester.saved_deviceSize (t : Tester) : t.saved.deviceSize = t.deviceSize := rfl

@[simp] theorem Tester.saved_disk (t : Tester) : t.saved.disk = t.disk := rfl

theorem Tester.saved_cowBrdFd {t : Tester} {offset : ℕ} (hfd : t.cowBrdFd = some offset) :
    t.saved.cowBrdFd = some (offset + t.deviceSize) := by
  rw [saved, hfd, Option.map_some]

def slices (content : ℕ → UInt8) (size : ℕ) : ℕ → ℕ → List (Int × Option (List UInt8))
  | 0, _ => []
  | n + 1, offset =>
    (SUCCESS, some (slice content offset size)) :: slices content size n (offset + size)

theorem logSnapshotSaves_ok {saves : List ((ℕ → UInt8) × List Call)}
    (hsaves : ∀ s ∈ saves, Moving s.2) {t : Tester} {offset : ℕ}
    (hfd : t.cowBrdFd = some offset) (hsize : 0 < t.deviceSize)
    {outs : List (Int × Option (List UInt8))} {t' : Tester}
    (h : logSnapshotSaves saves t = .ok (outs, t')) :
    outs = slices t.disk.content t.deviceSize saves.length offset ∧
      (saves ≠ [] → offset + saves.length * t.deviceSize ≤ t.disk.bytes) := by
  induction saves generalizing t offset outs with
  | nil =>
    cases h
    exact ⟨rfl, fun h => absurd rfl h⟩
  | cons s saves ih =>
    obtain ⟨stack, reads⟩ := s
    obtain ⟨hreads, hsaves⟩ := List.forall_mem_cons.mp hsaves
    obtain ⟨x, hfirst, h⟩ := Transition.bind_eq_ok.mp h
    obtain ⟨hbytes, rfl⟩ := logSnapshotSave_ok hreads hfd hsize hfirst
    obtain ⟨⟨outs', t''⟩, hrest, h⟩ := Transition.bind_eq_ok.mp h
    cases h
    obtain ⟨rfl, hle⟩ := ih hsaves (Tester.saved_cowBrdFd hfd) hsize hrest
    refine ⟨rfl, fun _ => ?_⟩
    cases saves with
    | nil => simpa using hbytes
    | cons s saves =>
      have := hle (List.cons_ne_nil _ _)
      simp only [List.length_cons, Nat.add_one_mul, Tester.saved_deviceSize,
        Tester.saved_disk] at this ⊢
      omega

theorem exists_logSnapshotSaves {saves : List ((ℕ → UInt8) × List Call)} {t : Tester}
    {offset : ℕ} (hsaves : ∀ s ∈ saves, Moving s.2 ∧ t.deviceSize + 1 ≤ s.2.length)
    (hfd : t.cowBrdFd = some offset) (hsize : 0 < t.deviceSize ∧ t.deviceSize < 2 ^ 31)
    (hbytes : offset + saves.length * t.deviceSize ≤ t.disk.bytes) :
    ∃ x, logSnapshotSaves saves t = .ok x := by
  induction saves generalizing t offset with
  | nil => exact ⟨_, rfl⟩
  | cons s saves ih =>
    obtain ⟨stack, reads⟩ := s
    obtain ⟨⟨hreads, hlen⟩, hsaves⟩ := List.forall_mem_cons.mp hsaves
    rw [List.length_cons, Nat.add_one_mul] at hbytes
    obtain ⟨bytesRead, hread⟩ := exists_readClone hreads hfd hsize.2 (by omega) hlen
    obtain ⟨-, rfl⟩ := readClone_ok hreads hfd hsize.1 hread
    obtain ⟨⟨outs, t'⟩, hrest⟩ := ih (t := t.saved) hsaves (Tester.saved_cowBrdFd hfd) hsize
      (by rw [Tester.saved_deviceSize, Tester.saved_disk]; omega)
    have hfirst := logSnapshotSave_eq stack hread
    exact ⟨_, Transition.bind_eq_ok.mpr ⟨_, hfirst, Transition.bind_eq_ok.mpr ⟨_, hrest, rfl⟩⟩⟩

/-- Adjacent parts of the file are one. -/
theorem overlay_getD_append (file : List UInt8) (img : ℕ → UInt8) {b res size : ℕ}
    (h : b + res ≤ size) :
    Image.overlay (Image.overlay img b res fun i => file.getD (b + i) 0) (b + res)
        (size - (b + res)) (fun i => file.getD (b + res + i) 0) =
      Image.overlay img b (size - b) fun i => file.getD (b + i) 0 := by
  have hparts := Image.overlay_overlay img b res (size - (b + res)) fun i => file.getD (b + i) 0
  rw [show res + (size - (b + res)) = size - b by omega] at hparts
  rw [← hparts]
  simp only [Nat.add_assoc]

/-- A call that writes something at the position the counter stands for. -/
theorem writeBack_moved {bytes deviceSize n b res : ℕ} (hsize : deviceSize < 2 ^ 31)
    (hlt : b < deviceSize) (hroom : b < bytes) (hres : min n (min (deviceSize - b) (bytes - b)) = res)
    (deviceClone : List UInt8) (calls : List Call) {bytesWritten : BitVec 32}
    (hb : bytesWritten.toNat = b) (img : ℕ → UInt8) :
    (bytesWritten + .ofNat 32 res).toNat = b + res ∧
      writeBack bytes deviceSize deviceClone (.moved n :: calls) b bytesWritten img =
        if b + res < deviceSize then
          writeBack bytes deviceSize deviceClone calls (b + res) (bytesWritten + .ofNat 32 res)
            (Image.overlay img b res fun i => deviceClone.getD (b + i) 0)
        else .ok (Image.overlay img b res fun i => deviceClone.getD (b + i) 0) := by
  have hsum : (bytesWritten + .ofNat 32 res).toNat = b + res := by
    rw [BitVec.toNat_add, BitVec.toNat_ofNat, Nat.mod_eq_of_lt (show res < 2 ^ 32 by omega), hb]
    exact Nat.mod_eq_of_lt (by omega)
  refine ⟨hsum, ?_⟩
  have hinside : ¬ (bytes ≤ b ∧ 0 < deviceSize - b) := by omega
  simp only [writeBack, hb, if_neg hinside, hres, Option.getD_some, hsum]

/-- Calls that each write something fill the disk up to `device_size`. -/
theorem writeBack_eq {bytes deviceSize : ℕ} (hsize : deviceSize < 2 ^ 31)
    (hbytes : deviceSize ≤ bytes) (deviceClone : List UInt8) {calls : List Call}
    (hcalls : Moving calls) {bytesWritten : BitVec 32} {b : ℕ} (hb : bytesWritten.toNat = b)
    (img : ℕ → UInt8) (hlt : b < deviceSize) (hlen : deviceSize - b ≤ calls.length) :
    writeBack bytes deviceSize deviceClone calls b bytesWritten img =
      .ok (Image.overlay img b (deviceSize - b) fun i => deviceClone.getD (b + i) 0) := by
  induction calls generalizing bytesWritten b img with
  | nil =>
    rw [List.length_nil] at hlen
    omega
  | cons call calls ih =>
    obtain ⟨n, rfl⟩ := hcalls call List.mem_cons_self
    rw [List.length_cons] at hlen
    obtain ⟨res, hres, hpos, hle⟩ : ∃ res, min (n + 1) (min (deviceSize - b) (bytes - b)) = res ∧
        0 < res ∧ res ≤ deviceSize - b := ⟨_, rfl, by omega, by omega⟩
    obtain ⟨hsum, hstep⟩ := writeBack_moved hsize hlt (by omega) hres deviceClone calls hb img
    rw [hstep]
    split_ifs with hmore
    · -- the rest is written by the other calls
      rw [ih hcalls.tail hsum _ hmore (by omega), overlay_getD_append deviceClone img (by omega)]
    · rw [show deviceSize - b = res by omega]

/-- What an ioctl keeps of the tester and, with `f`, of the disk. -/
theorem Tester.ioctl_keeps {α : Type} {f : Disk → Disk} {g : Disk → α}
    (hf : ∀ disk, g (f disk) = g disk) (ok : Bool) (t : Tester) :
    (t.ioctl ok f).deviceSize = t.deviceSize ∧ g (t.ioctl ok f).disk = g t.disk := by
  unfold ioctl
  split_ifs
  · exact ⟨rfl, hf t.disk⟩
  · exact ⟨rfl, rfl⟩

/-- With a file of the right size all depends on the loop around `write`. -/
theorem logSnapshotLoad_of_file {x : LoadCalls} {t : Tester} {file : List UInt8}
    (hfile : x.logFile = some file) (hlen : file.length = t.deviceSize) :
    logSnapshotLoad x t = (writeBack t.disk.bytes t.deviceSize file
      (if x.openOk then x.writes else x.writes.map fun _ => .failed) 0 0
      (t.ioctl x.wipeOk Disk.wipe).disk.content).map fun img => some (SUCCESS,
        { t.ioctl x.wipeOk Disk.wipe with
          disk := (t.ioctl x.wipeOk Disk.wipe).disk.write img }.ioctl x.snapshotOk Disk.freeze) := by
  have hread : (IStream.ofFile x.logFile).read t.deviceSize = (file, ⟨[], false, false⟩) := by
    rw [hfile, ← hlen, IStream.ofFile, IStream.read, if_neg (by simp [IStream.good]),
      if_neg (lt_irrefl _), List.take_length, List.drop_length]
  obtain ⟨hdevice, hbytes⟩ :=
    t.ioctl_keeps (f := Disk.wipe) (g := Disk.bytes) (fun _ => rfl) x.wipeOk
  unfold logSnapshotLoad
  simp only [hdevice, hread, hbytes]
  cases writeBack t.disk.bytes t.deviceSize file
    (if x.openOk then x.writes else x.writes.map fun _ => .failed) 0 0
    (t.ioctl x.wipeOk Disk.wipe).disk.content <;> rfl

/-- A load into a disk of zeros leaves the file at its start. -/
theorem logSnapshotLoad_eq {x : LoadCalls} {t : Tester} {file : List UInt8}
    (hsize : 0 < t.deviceSize ∧ t.deviceSize < 2 ^ 31) (hbytes : t.deviceSize ≤ t.disk.bytes)
    (hdisk : t.disk.isWritable = true ∧ t.disk.content = fun _ => 0)
    (hfile : x.logFile = some file ∧ file.length = t.deviceSize) (hopen : x.openOk = true)
    (hwrites : Moving x.writes) (hlen : t.deviceSize ≤ x.writes.length) :
    ∃ t', logSnapshotLoad x t = .ok (some (SUCCESS, t')) ∧
      t'.disk.content = Image.overlay (fun _ => 0) 0 t.deviceSize fun i => file.getD i 0 := by
  have hwrite : writeBack t.disk.bytes t.deviceSize file x.writes 0 0 (fun _ => 0) =
      .ok (Image.overlay (fun _ => 0) 0 t.deviceSize fun i => file.getD i 0) := by
    simpa using writeBack_eq hsize.2 hbytes file hwrites (show (0 : BitVec 32).toNat = 0 from rfl)
      (fun _ => 0) hsize.1 hlen
  have hwritable :=
    (t.ioctl_keeps (f := Disk.wipe) (g := Disk.isWritable) (fun _ => rfl) x.wipeOk).2
  have hwipe : (t.ioctl x.wipeOk Disk.wipe).disk.content = fun _ => 0 := by
    unfold Tester.ioctl
    split_ifs
    · rfl
    · exact hdisk.2
  rw [logSnapshotLoad_of_file hfile.1 hfile.2, hwipe, if_pos hopen, hwrite]
  refine ⟨_, rfl, ?_⟩
  rw [(Tester.ioctl_keeps (f := Disk.freeze) (g := Disk.content) (fun _ => rfl) _ _).2, Disk.write,
    hwritable, hdisk.1, if_pos rfl]

def fresh (diskSize : ℕ) : Tester := (insertCowBrd true true true (.new diskSize)).2

def recorded (diskSize : ℕ) (content : ℕ → UInt8) : Tester :=
  { fresh diskSize with disk := ((fresh diskSize).disk.write content).freeze }

/-- After `k` other saves: if each call moves something, all saves write the same file,
and with that file a fresh harness gets the content on the whole disk. -/
def SnapshotRoundTrips (diskSize k : ℕ) (content : ℕ → UInt8) : Prop :=
  ∃ enough, ∀ (saves : List ((ℕ → UInt8) × List Call)) (x : LoadCalls), saves.length = k + 1 →
    (∀ s ∈ saves, Moving s.2 ∧ enough ≤ s.2.length) →
    x.openOk = true → Moving x.writes → enough ≤ x.writes.length →
    ∃ file t t', logSnapshotSaves saves (recorded diskSize content) =
        .ok (List.replicate (k + 1) (SUCCESS, some file), t) ∧
      logSnapshotLoad { x with logFile := some file } (fresh diskSize) =
        .ok (some (SUCCESS, t')) ∧
      ∀ a < (fresh diskSize).disk.bytes, t'.disk.content a = content a

theorem fresh_eq (diskSize : ℕ) : fresh diskSize =
    ⟨diskSize, some 0, true, ⟨Disk.sizeOf (.ofNat 32 diskSize), fun _ => 0, true⟩⟩ := by
  have hcontent := CowBrd.content_brdInit 1 1 diskSize 0
  unfold fresh insertCowBrd
  simp [Tester.new, Disk.insmod, hcontent]

theorem recorded_eq (diskSize : ℕ) (content : ℕ → UInt8) : recorded diskSize content =
    ⟨diskSize, some 0, true, ⟨Disk.sizeOf (.ofNat 32 diskSize), content, false⟩⟩ := by
  rw [recorded, fresh_eq]
  rfl

theorem slices_eq_replicate_iff {content : ℕ → UInt8} {size n offset : ℕ} {file : List UInt8} :
    slices content size n offset = List.replicate n (SUCCESS, some file) ↔
      ∀ j < n, slice content (offset + j * size) size = file := by
  induction n generalizing offset with
  | zero => simp [slices]
  | succ n ih =>
    rw [slices, List.replicate_succ, List.cons.injEq, ih]
    constructor
    · rintro ⟨hfirst, hrest⟩ j hj
      cases j with
      | zero => simpa using hfirst
      | succ j =>
        rw [Nat.add_one_mul, ← Nat.add_assoc, Nat.add_right_comm]
        exact hrest j (by omega)
    · intro h
      refine ⟨by simpa using h 0 (by omega), fun j hj => ?_⟩
      have := h (j + 1) (by omega)
      rwa [Nat.add_one_mul, ← Nat.add_assoc, Nat.add_right_comm] at this

theorem slice_inj {content content' : ℕ → UInt8} {offset offset' n : ℕ} :
    slice content offset n = slice content' offset' n ↔
      ∀ i < n, content (offset + i) = content' (offset' + i) := by
  unfold slice
  rw [List.map_inj_left]
  simp

structure Restored (diskSize k : ℕ) (content : ℕ → UInt8) : Prop where
  bytes_le : (k + 1) * diskSize ≤ Disk.sizeOf (.ofNat 32 diskSize)
  same : ∀ j < k + 1, ∀ i < diskSize, content (j * diskSize + i) = content i
  zero : ∀ a, diskSize ≤ a → a < Disk.sizeOf (.ofNat 32 diskSize) → content a = 0

/-- What the loaded disk holds, for calls that each move something. -/
theorem exists_load {diskSize : ℕ} (hsize : 0 < diskSize ∧ diskSize < 2 ^ 31)
    (hbytes : diskSize ≤ Disk.sizeOf (.ofNat 32 diskSize)) (content : ℕ → UInt8) {x : LoadCalls}
    (hopen : x.openOk = true) (hwrites : Moving x.writes) (hlen : diskSize ≤ x.writes.length) :
    ∃ t', logSnapshotLoad { x with logFile := some (slice content 0 diskSize) } (fresh diskSize) =
        .ok (some (SUCCESS, t')) ∧
      ∀ a, t'.disk.content a = if a < diskSize then content a else 0 := by
  rw [fresh_eq]
  obtain ⟨t', hload, hcontent⟩ := logSnapshotLoad_eq
    (x := { x with logFile := some (slice content 0 diskSize) })
    (t := ⟨diskSize, some 0, true, ⟨Disk.sizeOf (.ofNat 32 diskSize), fun _ => 0, true⟩⟩)
    hsize hbytes ⟨rfl, rfl⟩ ⟨rfl, slice_length _ _ _⟩ hopen hwrites hlen
  refine ⟨t', hload, fun a => ?_⟩
  rw [hcontent]
  split_ifs with ha
  · rw [Image.overlay_of_mem ⟨Nat.zero_le a, by simpa using ha⟩]
    simp [slice, ha]
  · exact Image.overlay_of_not_mem fun hmem => ha (by simpa using hmem.2)

/-- The files of `k + 1` saves that come to an end. -/
theorem saves_ok {diskSize k : ℕ} (hsize : 0 < diskSize) {content : ℕ → UInt8}
    {saves : List ((ℕ → UInt8) × List Call)} (hlen : saves.length = k + 1)
    (hsaves : ∀ s ∈ saves, Moving s.2) {outs : List (Int × Option (List UInt8))} {t : Tester}
    (h : logSnapshotSaves saves (recorded diskSize content) = .ok (outs, t)) :
    outs = slices content diskSize (k + 1) 0 ∧
      (k + 1) * diskSize ≤ Disk.sizeOf (.ofNat 32 diskSize) := by
  rw [recorded_eq] at h
  obtain ⟨houts, hbytes⟩ := logSnapshotSaves_ok hsaves rfl hsize h
  rw [hlen] at houts hbytes
  refine ⟨houts, ?_⟩
  rw [← Nat.zero_add ((k + 1) * diskSize)]
  apply hbytes
  rintro rfl
  cases hlen

theorem SnapshotRoundTrips.restored {diskSize k : ℕ} (hsize : 0 < diskSize ∧ diskSize < 2 ^ 31)
    {content : ℕ → UInt8} (h : SnapshotRoundTrips diskSize k content) :
    Restored diskSize k content := by
  obtain ⟨enough, h⟩ := h
  have hmoving (n : ℕ) : Moving (List.replicate n (.moved 1)) := fun call hcall =>
    ⟨0, List.eq_of_mem_replicate hcall⟩
  have hsaves (s : (ℕ → UInt8) × List Call)
      (hs : s ∈ List.replicate (k + 1) (fun _ => 0, List.replicate enough (.moved 1))) :
      Moving s.2 ∧ enough ≤ s.2.length := by
    rw [List.eq_of_mem_replicate hs]
    exact ⟨hmoving enough, by simp⟩
  obtain ⟨file, t, t', hsave, hload, hcontent⟩ := h _
    ⟨true, none, true, List.replicate (enough + diskSize) (.moved 1), true⟩
    List.length_replicate hsaves rfl (hmoving _) (by simp)
  obtain ⟨houts, hle⟩ := saves_ok hsize.1 List.length_replicate (fun s hs => (hsaves s hs).1) hsave
  have hslices := slices_eq_replicate_iff.mp houts.symm
  have hfirst : slice content 0 diskSize = file := by simpa using hslices 0 (by omega)
  have hone : 1 * diskSize ≤ (k + 1) * diskSize := Nat.mul_le_mul_right _ (by omega)
  obtain ⟨t'', hload', hcontent'⟩ := exists_load hsize (by omega) content
    (x := ⟨true, none, true, List.replicate (enough + diskSize) (.moved 1), true⟩) rfl
    (hmoving _) (by simp)
  rw [hfirst, hload, Except.ok.injEq, Option.some.injEq, Prod.mk.injEq] at hload'
  rw [← hload'.2] at hcontent'
  rw [fresh_eq] at hcontent
  refine ⟨hle, fun j hj i hi => ?_, fun a ha hlt => ?_⟩
  · have := slice_inj.mp ((hslices j hj).trans hfirst.symm) i hi
    simpa using this
  · rw [← hcontent a hlt, hcontent', if_neg (not_lt.mpr ha)]

theorem Restored.snapshotRoundTrips {diskSize k : ℕ} (hsize : 0 < diskSize ∧ diskSize < 2 ^ 31)
    {content : ℕ → UInt8} (h : Restored diskSize k content) :
    SnapshotRoundTrips diskSize k content := by
  have hle := h.bytes_le
  have hone : 1 * diskSize ≤ (k + 1) * diskSize := Nat.mul_le_mul_right _ (by omega)
  refine ⟨diskSize + 1, fun saves x hlen hsaves hopen hwrites hwritesLen => ?_⟩
  obtain ⟨⟨outs, t⟩, hsave⟩ : ∃ x, logSnapshotSaves saves (recorded diskSize content) = .ok x := by
    rw [recorded_eq]
    exact exists_logSnapshotSaves hsaves rfl hsize (by rw [hlen, Nat.zero_add]; exact hle)
  obtain ⟨rfl, -⟩ := saves_ok hsize.1 hlen (fun s hs => (hsaves s hs).1) hsave
  have hslices : slices content diskSize (k + 1) 0 =
      List.replicate (k + 1) (SUCCESS, some (slice content 0 diskSize)) := by
    apply slices_eq_replicate_iff.mpr
    intro j hj
    apply slice_inj.mpr
    intro i hi
    rw [Nat.zero_add, Nat.zero_add]
    exact h.same j hj i hi
  obtain ⟨t', hload, hcontent⟩ := exists_load hsize (by omega) content hopen hwrites (by omega)
  refine ⟨_, t, t', hslices ▸ hsave, hload, fun a ha => ?_⟩
  rw [hcontent]
  split_ifs with hlt
  · rfl
  · rw [fresh_eq] at ha
    exact (h.zero a (not_lt.mp hlt) ha).symm

/-- Only the start of the disk is saved, and only by the first save. -/
theorem snapshotRoundTrips_iff {diskSize : ℕ} (hpos : 0 < diskSize) (hlt : diskSize < 2 ^ 31)
    (k : ℕ) (content : ℕ → UInt8) :
    SnapshotRoundTrips diskSize k content ↔ diskSize < 2 ^ 30 ∧ k < 1024 ∧
      (∀ a, diskSize ≤ a → a < 1024 * diskSize → content a = 0) ∧
      (k = 0 ∨ ∀ a < diskSize, content a = 0) := by
  have hiff : SnapshotRoundTrips diskSize k content ↔ Restored diskSize k content :=
    ⟨fun h => h.restored ⟨hpos, hlt⟩, fun h => h.snapshotRoundTrips ⟨hpos, hlt⟩⟩
  rw [hiff]
  by_cases hsize : diskSize < 2 ^ 30
  · have hbytes := Disk.sizeOf_eq hsize
    constructor
    · intro h
      have hle := h.bytes_le
      rw [hbytes] at hle
      have hk : k + 1 ≤ 1024 := Nat.le_of_mul_le_mul_right hle hpos
      refine ⟨hsize, by omega, fun a ha ha' => h.zero a ha (by rwa [hbytes]), ?_⟩
      rcases Nat.eq_zero_or_pos k with hzero | hk'
      · exact .inl hzero
      · -- the second save has written zeros
        refine .inr fun a ha => ?_
        rw [← h.same 1 (by omega) a ha]
        exact h.zero _ (by omega) (by rw [hbytes]; omega)
    · rintro ⟨-, hk, hzero, hall⟩
      have hle : (k + 1) * diskSize ≤ 1024 * diskSize := Nat.mul_le_mul_right _ hk
      refine ⟨by rwa [hbytes], fun j hj i hi => ?_, fun a ha ha' => hzero a ha (hbytes ▸ ha')⟩
      rcases Nat.eq_zero_or_pos j with rfl | hj'
      · rw [Nat.zero_mul, Nat.zero_add]
      · have hone : 1 * diskSize ≤ j * diskSize := Nat.mul_le_mul_right _ hj'
        have hmore : (j + 1) * diskSize ≤ 1024 * diskSize := Nat.mul_le_mul_right _ (by omega)
        rw [Nat.add_one_mul] at hmore
        rw [hzero _ (by omega) (by omega), hall.resolve_left (by omega) i hi]
  · constructor
    · intro h
      have hle := h.bytes_le
      rw [Disk.sizeOf_eq_zero (not_lt.mp hsize) hlt, Nat.add_one_mul] at hle
      omega
    · exact fun h => absurd h.1 hsize

/-- The default size, and a disk that is full of ones as far as it is saved. -/
theorem snapshotRoundTrips_empty :
    SnapshotRoundTrips 10240 0 fun a => if a < 10240 then 1 else 0 := by
  apply (snapshotRoundTrips_iff (by decide) (by decide) 0 _).mpr
  refine ⟨by decide, by decide, fun a ha _ => ?_, .inl rfl⟩
  exact if_neg (not_lt.mpr ha)

/-- The first save of a disk of the default size that is full of ones. -/
theorem not_snapshotRoundTrips_ones : ¬ SnapshotRoundTrips 10240 0 fun _ => 1 := by
  intro h
  have hzero := (h.restored ⟨by decide, by decide⟩).zero 10240 le_rfl
    (by rw [Disk.sizeOf_eq (by decide)]; decide)
  exact absurd hzero (by decide)

end CrashMonkey
