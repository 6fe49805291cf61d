import CrashMonkey.Harness.SnapshotRoundTrip

namespace CrashMonkey

open Transfer

/-- What the calls of `log_snapshot_load` return, however many times `write` is called.
The result of `lseek` is not among them: a new descriptor is at the start anyway. -/
structure LoadResults where
  wipeOk : Bool
  openOk : Bool
  writes : ℕ → Call
  fsyncOk : Bool
  snapshotOk : Bool

def LoadResults.calls (x : LoadResults) (logFile : Option (List UInt8)) (n : ℕ) : LoadCalls :=
  ⟨x.wipeOk, logFile, x.openOk, first x.writes n, x.snapshotOk⟩

/-- What was written is on the disk if `fsync` succeeds; else there is something else. -/
def Disk.fsync (ok : Bool) (unsynced : ℕ → UInt8) (disk : Disk) : Disk :=
  if ok then disk else { disk with content := unsynced }

/-- What `SUCCESS` of a save says: the file has the `device_size` bytes from where the
descriptor was. What `log` still held when it was checked is in the file if `flush` and
`close` could write it. -/
def Saved (flushOk : Bool) (t : Tester) (file : Option (List UInt8)) : Prop :=
  ∃ offset, t.cowBrdFd = some offset ∧ offset + t.deviceSize ≤ t.disk.bytes ∧ flushOk = true ∧
    file = some (slice t.disk.content offset t.deviceSize)

/-- Whatever `device_clone` holds at first, a save ends, and says so if it fails. -/
def SaveSound (reads : ℕ → Call) (logOk flushOk : Bool) (t : Tester) : Prop :=
  ∀ stack, ∃ n res file t', logSnapshotSave stack (first reads n) logOk t = .ok (res, file, t') ∧
    (res = SUCCESS → Saved flushOk t file)

/-- What `SUCCESS` of a load says: the disk was wiped, has the file at its start, and was
frozen. -/
structure Loaded (x : LoadResults) (t : Tester) (file : List UInt8) (disk : Disk) : Prop where
  wiped : x.wipeOk = true ∧ t.cowBrdFd ≠ none
  written : disk.content = Image.overlay (fun _ => 0) 0 t.deviceSize fun i => file.getD i 0
  frozen : x.snapshotOk = true ∧ disk.isWritable = false

/-- Whatever the file holds, a load ends or is aborted, and says so if it fails. -/
def LoadSound (x : LoadResults) (t : Tester) : Prop :=
  ∀ logFile unsynced, ∃ n r, logSnapshotLoad (x.calls logFile n) t = .ok r ∧
    ∀ t', r = some (SUCCESS, t') → ∃ file, logFile = some file ∧ file.length = t.deviceSize ∧
      Loaded x t file (t'.disk.fsync x.fsyncOk unsynced)

/-- Every byte can be read, and what `log` holds back can be written; or `log` fails
before, and reading comes to an end. -/
def SaveFits (reads : ℕ → Call) (logOk flushOk : Bool) (t : Tester) : Prop :=
  (∃ offset, t.cowBrdFd = some offset ∧ offset + t.deviceSize ≤ t.disk.bytes ∧
    Delivers reads t.deviceSize ∧ (logOk = true → flushOk = true)) ∨
  logOk = false ∧ (t.cowBrdFd = none ∨ ∃ f, reads f = .failed)

/-- Every call of a load succeeds, and the disk takes the whole file. -/
structure LoadFits (x : LoadResults) (t : Tester) : Prop where
  wiped : x.wipeOk = true ∧ t.cowBrdFd ≠ none
  opened : x.openOk = true
  room : t.deviceSize ≤ t.disk.bytes
  writable : t.disk.isWritable = true
  written : Delivers x.writes t.deviceSize
  synced : x.fsyncOk = true
  frozen : x.snapshotOk = true

variable {t : Tester}

theorem readClone_none (hfd : t.cowBrdFd = none) (reads : List Call) :
    readClone reads t = .ok [] := by
  rw [readClone, hfd]

theorem exists_readClone_of_delivers {reads : ℕ → Call} {offset : ℕ}
    (hfd : t.cowBrdFd = some offset) (hsize : 0 < t.deviceSize ∧ t.deviceSize < 2 ^ 31)
    (hdelivers : Delivers reads t.deviceSize) (hbytes : offset + t.deviceSize ≤ t.disk.bytes) :
    ∃ n, readClone (first reads n) t = .ok (slice t.disk.content offset t.deviceSize) := by
  have hle : t.deviceSize ≤ (t.disk.bytesFrom offset).length := by
    rw [Disk.bytesFrom_length]
    omega
  have hlimit : 0 + t.deviceSize < unsignedLimit := by
    rw [unsignedLimit]
    omega
  obtain ⟨n, rest, calls', hloop⟩ := hdelivers.exists_loop hsize.1 hle hlimit
  refine ⟨n, ?_⟩
  simp only [readClone, hfd, hloop]
  exact congrArg Except.ok (Disk.take_bytesFrom (by omega))

theorem exists_readClone_of_failed {reads : ℕ → Call} {f : ℕ} (hf : reads f = .failed)
    (hsize : t.deviceSize < 2 ^ 31) : ∃ n bytesRead, readClone (first reads n) t = .ok bytesRead := by
  cases hfd : t.cowBrdFd with
  | none => exact ⟨0, [], readClone_none hfd _⟩
  | some offset =>
    have hlimit : 0 + t.deviceSize < unsignedLimit := by
      rw [unsignedLimit]
      omega
    obtain ⟨n, r, hloop⟩ := exists_loop_of_failed hf (t.disk.bytesFrom offset) hlimit
    refine ⟨n, r.2.1, ?_⟩
    simp only [readClone, hfd, hloop]
    rfl

/-- What the loop around `read` has stored when it ends. -/
theorem readClone_first_ok {reads : ℕ → Call} {offset n : ℕ} (hfd : t.cowBrdFd = some offset)
    (hsize : 0 < t.deviceSize) {bytesRead : List UInt8}
    (h : readClone (first reads n) t = .ok bytesRead) :
    (Delivers reads t.deviceSize ∧ offset + t.deviceSize ≤ t.disk.bytes ∧
      bytesRead = slice t.disk.content offset t.deviceSize) ∨
    (∃ f, reads f = .failed) ∧ bytesRead.length < t.deviceSize := by
  simp only [readClone, hfd] at h
  cases hloop : Transfer.loop unsignedLimit (first reads n) t.deviceSize 0
      (t.disk.bytesFrom offset) with
  | error fault =>
    rw [hloop] at h
    cases h
  | ok r =>
    obtain ⟨ok, moved, rest, calls⟩ := r
    rw [hloop] at h
    cases h
    rcases loop_first_ok hsize hloop with ⟨hdelivers, hle, hmoved⟩ | hfailed
    · rw [Disk.bytesFrom_length] at hle
      exact .inl ⟨hdelivers, by omega, hmoved.trans (Disk.take_bytesFrom hle)⟩
    · exact .inr hfailed

theorem logSnapshotSave_of_read {reads : List Call} {bytesRead : List UInt8}
    (h : readClone reads t = .ok bytesRead) (stack : ℕ → UInt8) (logOk : Bool) :
    ∃ t', logSnapshotSave stack reads logOk t = .ok (if logOk then (SUCCESS, some (bytesRead ++
      (List.range (t.deviceSize - bytesRead.length)).map fun i => stack (bytesRead.length + i)), t')
      else (LOG_CLONE_ERR, none, t')) :=
  ⟨_, Transition.bind_eq_ok.mpr ⟨_, h, rfl⟩⟩

/-- A byte that was not read is what was on the stack. -/
theorem not_slice_of_short {content stack : ℕ → UInt8} {offset size : ℕ} {bytesRead : List UInt8}
    (hlen : bytesRead.length < size) (hstack : ∀ i, stack i ≠ content (offset + i)) :
    bytesRead ++ (List.range (size - bytesRead.length)).map (fun i => stack (bytesRead.length + i)) ≠
      slice content offset size := by
  intro h
  have hbyte := congrArg (fun bytes => bytes[bytesRead.length]?) h
  have hpos : 0 < size - bytesRead.length := by omega
  exact hstack _ (by simpa [slice, hlen, hpos] using hbyte)

theorem saveSound_iff (hsize : 0 < t.deviceSize ∧ t.deviceSize < 2 ^ 31) (reads : ℕ → Call)
    (logOk flushOk : Bool) : SaveSound reads logOk flushOk t ↔ SaveFits reads logOk flushOk t := by
  constructor
  · intro h
    -- no byte on the stack is the right one
    obtain ⟨stack, hstack⟩ : ∃ stack : ℕ → UInt8,
        ∀ i, stack i ≠ t.disk.content (t.cowBrdFd.getD 0 + i) :=
      ⟨fun i => t.disk.content (t.cowBrdFd.getD 0 + i) + 1, fun i => by simp⟩
    obtain ⟨n, res, file, t', hsave, hsound⟩ := h stack
    obtain ⟨bytesRead, hread, -⟩ := Transition.bind_eq_ok.mp hsave
    obtain ⟨t'', hsave'⟩ := logSnapshotSave_of_read hread stack logOk
    rw [hsave, Except.ok.injEq] at hsave'
    cases logOk with
    | false =>
      cases hfd : t.cowBrdFd with
      | none => exact .inr ⟨rfl, .inl hfd⟩
      | some offset =>
        rcases readClone_first_ok hfd hsize.1 hread with ⟨hdelivers, hle, -⟩ | ⟨hf, -⟩
        · exact .inl ⟨offset, hfd, hle, hdelivers, nofun⟩
        · exact .inr ⟨rfl, .inr hf⟩
    | true =>
      rw [if_pos rfl, Prod.mk.injEq, Prod.mk.injEq] at hsave'
      obtain ⟨rfl, rfl, -⟩ := hsave'
      obtain ⟨offset, hfd, hle, hflush, hfile⟩ := hsound rfl
      rcases readClone_first_ok hfd hsize.1 hread with ⟨hdelivers, -⟩ | ⟨-, hlen⟩
      · exact .inl ⟨offset, hfd, hle, hdelivers, fun _ => hflush⟩
      · rw [hfd, Option.getD_some] at hstack
        exact absurd (Option.some.inj hfile) (not_slice_of_short hlen hstack)
  · rintro (⟨offset, hfd, hle, hdelivers, hflush⟩ | ⟨rfl, h⟩) stack
    · obtain ⟨n, hread⟩ := exists_readClone_of_delivers hfd hsize hdelivers hle
      obtain ⟨t', hsave⟩ := logSnapshotSave_of_read hread stack logOk
      cases logOk with
      | false => exact ⟨n, _, _, t', hsave, fun h => absurd h (by decide)⟩
      | true =>
        refine ⟨n, _, _, t', hsave, fun _ => ⟨offset, hfd, hle, hflush rfl, ?_⟩⟩
        simp [slice_length]
    · obtain ⟨n, bytesRead, hread⟩ : ∃ n bytesRead, readClone (first reads n) t = .ok bytesRead := by
        rcases h with hfd | ⟨f, hf⟩
        · exact ⟨0, [], readClone_none hfd _⟩
        · exact exists_readClone_of_failed hf hsize.2
      obtain ⟨t', hsave⟩ := logSnapshotSave_of_read hread stack false
      exact ⟨n, _, _, t', hsave, fun h => absurd h (by decide)⟩

section WriteBack

variable {bytes size b k pos : ℕ} {clone : List UInt8} {img img' : ℕ → UInt8}
  {bytesWritten : BitVec 32}

/-- Beginning at position `b`, the first call that fails does so at position `k`. -/
inductive FailsAt (bytes size : ℕ) : (ℕ → Call) → ℕ → ℕ → Prop
  | here {calls : ℕ → Call} {b : ℕ} : calls 0 = .failed ∨ bytes ≤ b → FailsAt bytes size calls b b
  | later {calls : ℕ → Call} {b k n res : ℕ} : calls 0 = .moved n → b < bytes →
      min n (min (size - b) (bytes - b)) = res → b + res < size →
      FailsAt bytes size (later calls) (b + res) k → FailsAt bytes size calls b k

theorem FailsAt.le {calls : ℕ → Call} (h : FailsAt bytes size calls b k) : b ≤ k := by
  induction h with
  | here => exact le_rfl
  | later _ _ _ _ _ ih => exact (Nat.le_add_right _ _).trans ih

/-- What a call does, whatever it returns. -/
theorem writeBack_cons (bytes size : ℕ) (clone : List UInt8) (call : Call) (calls : List Call)
    (pos : ℕ) (bytesWritten : BitVec 32) (img : ℕ → UInt8) :
    ∃ n next, (next = bytesWritten - 1 ∧ n = 0 ∨ next = bytesWritten + .ofNat 32 n) ∧
      writeBack bytes size clone (call :: calls) pos bytesWritten img =
        if next.toNat < size then writeBack bytes size clone calls (pos + n) next
          (Image.overlay img pos n fun i => clone.getD (bytesWritten.toNat + i) 0)
        else .ok (Image.overlay img pos n fun i => clone.getD (bytesWritten.toNat + i) 0) := by
  cases call with
  | failed =>
    rw [writeBack]
    exact ⟨0, _, .inl ⟨rfl, rfl⟩, rfl⟩
  | moved m =>
    rw [writeBack]
    generalize (if bytes ≤ pos ∧ 0 < size - bytesWritten.toNat then none
      else some (min m (min (size - bytesWritten.toNat) (bytes - pos)))) = res
    cases res with
    | none => exact ⟨0, _, .inl ⟨rfl, rfl⟩, rfl⟩
    | some n => exact ⟨n, _, .inr rfl, rfl⟩

theorem writeBack_failed {call : Call} (hfails : call = .failed ∨ bytes ≤ pos)
    (hlt : bytesWritten.toNat < size) (calls : List Call) :
    writeBack bytes size clone (call :: calls) pos bytesWritten img =
      if (bytesWritten - 1).toNat < size then
        writeBack bytes size clone calls pos (bytesWritten - 1) img
      else .ok img := by
  have hleft : 0 < size - bytesWritten.toNat := by omega
  cases call with
  | failed => simp [writeBack]
  | moved n => simp [writeBack, hfails.resolve_left (by simp), hleft]

/-- Only from 0 the counter steps up. -/
theorem toNat_of_sub_one_lt (h : (bytesWritten - 1).toNat < size) (hsize : size < 2 ^ 31) :
    bytesWritten.toNat = (bytesWritten - 1).toNat + 1 := by
  have hlt := bytesWritten.isLt
  have hone : (1 : BitVec 32).toNat = 1 := rfl
  rw [BitVec.toNat_sub, hone] at h ⊢
  omega

/-- What lies before the position of the descriptor is left alone. -/
theorem writeBack_before {calls : List Call} (hk : k < pos)
    (h : writeBack bytes size clone calls pos bytesWritten img = .ok img') : img' k = img k := by
  induction calls generalizing pos bytesWritten img with
  | nil => cases h
  | cons call calls ih =>
    obtain ⟨n, next, -, heq⟩ := writeBack_cons bytes size clone call calls pos bytesWritten img
    have hout : Image.overlay img pos n (fun i => clone.getD (bytesWritten.toNat + i) 0) k = img k :=
      Image.overlay_of_not_mem (by omega)
    rw [heq] at h
    split_ifs at h
    · rw [ih (by omega) h, hout]
    · cases h
      exact hout

/-- A counter that has fallen behind the position gives it a byte of the file that belongs
before. -/
theorem writeBack_behind {calls : List Call} (hbehind : bytesWritten.toNat < k)
    (hsize : size < 2 ^ 31)
    (h : writeBack bytes size clone calls k bytesWritten img = .ok img') :
    img' k = img k ∨ ∃ j < k, img' k = clone.getD j 0 := by
  induction calls generalizing bytesWritten img with
  | nil => cases h
  | cons call calls ih =>
    obtain ⟨n, next, hnext, heq⟩ := writeBack_cons bytes size clone call calls k bytesWritten img
    rw [heq] at h
    rcases Nat.eq_zero_or_pos n with rfl | hn
    · rw [Image.overlay_zero, Nat.add_zero] at h
      split_ifs at h with hmore
      · refine ih ?_ h
        rcases hnext with ⟨rfl, -⟩ | rfl
        · have := toNat_of_sub_one_lt hmore hsize
          omega
        · simpa using hbehind
      · cases h
        exact .inl rfl
    · have hfirst : Image.overlay img k n (fun i => clone.getD (bytesWritten.toNat + i) 0) k =
          clone.getD bytesWritten.toNat 0 := by
        rw [Image.overlay_of_mem ⟨le_rfl, by omega⟩, Nat.sub_self, Nat.add_zero]
      refine .inr ⟨bytesWritten.toNat, hbehind, ?_⟩
      split_ifs at h
      · rw [writeBack_before (by omega) h, hfirst]
      · cases h
        exact hfirst

/-- A loop that ends has written everything, or a call has failed before. -/
theorem writeBack_first_ok {calls : ℕ → Call} {n : ℕ} (hsize : size < 2 ^ 31)
    (hb : bytesWritten.toNat = b) (hlt : b < size)
    (h : writeBack bytes size clone (first calls n) b bytesWritten img = .ok img') :
    (Delivers calls (size - b) ∧ size ≤ bytes) ∨ ∃ k < size, FailsAt bytes size calls b k := by
  induction n generalizing calls b bytesWritten img with
  | zero => cases h
  | succ n ih =>
    rw [first_succ] at h
    cases hcall : calls 0 with
    | failed => exact .inr ⟨b, hlt, .here (.inl hcall)⟩
    | moved m =>
      rcases Nat.lt_or_ge b bytes with hroom | hfull
      · obtain ⟨res, hres⟩ : ∃ res, min m (min (size - b) (bytes - b)) = res := ⟨_, rfl⟩
        rw [hcall] at h
        obtain ⟨hsum, hstep⟩ := writeBack_moved hsize hlt hroom hres clone (first (later calls) n) hb img
        rw [hstep] at h
        split_ifs at h with hmore
        · rcases ih hsum hmore h with ⟨hdelivers, hle⟩ | ⟨k, hk, hfails⟩
          · refine .inl ⟨.moved hcall ?_, hle⟩
            rwa [show size - b - m = size - (b + res) by omega]
          · exact .inr ⟨k, hk, .later hcall hroom hres hmore hfails⟩
        · exact .inl ⟨delivers_of_le hcall (by omega), by omega⟩
      · exact .inr ⟨b, hlt, .here (.inr hfull)⟩

/-- At the position where a call fails first there is no byte of the file, or one that
belongs before. -/
theorem FailsAt.byte {calls : ℕ → Call} (h : FailsAt bytes size calls b k) (hsize : size < 2 ^ 31)
    (hlt : b < size) {n : ℕ} (hb : bytesWritten.toNat = b)
    (hok : writeBack bytes size clone (first calls n) b bytesWritten img = .ok img') :
    img' k = img k ∨ ∃ j < k, img' k = clone.getD j 0 := by
  induction h generalizing n bytesWritten img with
  | @here calls b hfails =>
    cases n with
    | zero => cases hok
    | succ n =>
      rw [first_succ, writeBack_failed hfails (hb.trans_lt hlt)] at hok
      split_ifs at hok with hmore
      · refine writeBack_behind ?_ hsize hok
        have := toNat_of_sub_one_lt hmore hsize
        omega
      · cases hok
        exact .inl rfl
  | @later calls b k m res hcall hroom hres hmore hrest ih =>
    cases n with
    | zero => cases hok
    | succ n =>
      obtain ⟨hsum, hstep⟩ := writeBack_moved hsize hlt hroom hres clone
        (first (Transfer.later calls) n) hb img
      rw [first_succ, hcall, hstep, if_pos hmore] at hok
      have hout : Image.overlay img b res (fun i => clone.getD (b + i) 0) k = img k := by
        have := hrest.le
        exact Image.overlay_of_not_mem (by omega)
      exact hout ▸ ih hmore hsum hok

/-- Calls that deliver fill the disk up to `size`. -/
theorem exists_writeBack {calls : ℕ → Call} {left : ℕ} (h : Delivers calls left)
    (hleft : left = size - b) (hlt : b < size) (hsize : size < 2 ^ 31) (hbytes : size ≤ bytes)
    (hb : bytesWritten.toNat = b) (clone : List UInt8) (img : ℕ → UInt8) :
    ∃ n, writeBack bytes size clone (first calls n) b bytesWritten img =
      .ok (Image.overlay img b (size - b) fun i => clone.getD (b + i) 0) := by
  induction h generalizing b bytesWritten img with
  | done => omega
  | @moved calls left m hcall hrest ih =>
    obtain ⟨res, hres⟩ : ∃ res, min m (min (size - b) (bytes - b)) = res := ⟨_, rfl⟩
    have hstep (rest : List Call) :=
      writeBack_moved hsize hlt (show b < bytes by omega) hres clone rest hb img
    by_cases hmore : b + res < size
    · obtain ⟨n, hloop⟩ := ih (b := b + res) (by omega) hmore (hstep []).1
        (Image.overlay img b res fun i => clone.getD (b + i) 0)
      refine ⟨n + 1, ?_⟩
      rw [first_succ, hcall, (hstep _).2, if_pos hmore, hloop,
        overlay_getD_append clone img (by omega)]
    · refine ⟨1, ?_⟩
      rw [first_succ, hcall, (hstep _).2, if_neg hmore, show size - b = res by omega]

end WriteBack

variable {x : LoadResults}

def LoadResults.writeCalls (x : LoadResults) : ℕ → Call :=
  if x.openOk then x.writes else fun _ => .failed

def LoadResults.after (x : LoadResults) (img : ℕ → UInt8) (t : Tester) : Tester :=
  { t.ioctl x.wipeOk Disk.wipe with
    disk := (t.ioctl x.wipeOk Disk.wipe).disk.write img }.ioctl x.snapshotOk Disk.freeze

theorem logSnapshotLoad_calls {file : List UInt8} (hlen : file.length = t.deviceSize) (n : ℕ) :
    logSnapshotLoad (x.calls (some file) n) t = (writeBack t.disk.bytes t.deviceSize file
      (first x.writeCalls n) 0 0 (t.ioctl x.wipeOk Disk.wipe).disk.content).map fun img =>
        some (SUCCESS, x.after img t) := by
  have hcalls : (if x.openOk then first x.writes n else (first x.writes n).map fun _ => .failed) =
      first x.writeCalls n := by
    unfold LoadResults.writeCalls
    split_ifs
    · rfl
    · rw [first, List.map_map]
      rfl
  rw [← hcalls]
  exact logSnapshotLoad_of_file rfl hlen

theorem Tester.ioctl_true (hfd : t.cowBrdFd ≠ none) (f : Disk → Disk) :
    t.ioctl true f = { t with disk := f t.disk } := by
  simp [ioctl, Option.isSome_iff_ne_none.mpr hfd]

theorem after_disk (hwiped : x.wipeOk = true ∧ t.cowBrdFd ≠ none) (img : ℕ → UInt8) :
    (x.after img t).disk.content = (if t.disk.isWritable then img else fun _ => 0) ∧
      (x.snapshotOk = true → (x.after img t).disk.isWritable = false) := by
  obtain ⟨hwipe, hfd⟩ := hwiped
  rw [LoadResults.after, hwipe, Tester.ioctl_true hfd]
  constructor
  · rw [(Tester.ioctl_keeps (f := Disk.freeze) (g := Disk.content) (fun _ => rfl) _ _).2]
    cases hwritable : t.disk.isWritable <;> simp [Disk.write, Disk.wipe, hwritable]
  · intro hfrozen
    have hfreeze := Tester.ioctl_true (t := { t with disk := t.disk.wipe.write img }) hfd Disk.freeze
    rw [hfrozen]
    exact (congrArg (fun t => t.disk.isWritable) hfreeze).trans rfl

/-- A file that cannot be read or has another size is refused. -/
theorem logSnapshotLoad_refused {logFile : Option (List UInt8)}
    (hfile : ∀ file, logFile = some file → file.length ≠ t.deviceSize) (n : ℕ) :
    ∃ r, logSnapshotLoad (x.calls logFile n) t = .ok r ∧ ∀ t', r ≠ some (SUCCESS, t') := by
  have hdevice := (t.ioctl_keeps (f := Disk.wipe) (g := Disk.bytes) (fun _ => rfl) x.wipeOk).1
  have hres : LOG_CLONE_ERR ≠ SUCCESS := by decide
  cases logFile with
  | none =>
    refine ⟨some (LOG_CLONE_ERR, t.ioctl x.wipeOk Disk.wipe), ?_, by simp [hres]⟩
    simp [logSnapshotLoad, LoadResults.calls, IStream.ofFile, IStream.read, IStream.peek,
      IStream.good, IStream.setFail, pure, Except.pure]
  | some file =>
    rcases lt_or_gt_of_ne (hfile file rfl) with hlt | hgt
    · refine ⟨some (LOG_CLONE_ERR, t.ioctl x.wipeOk Disk.wipe), ?_, by simp [hres]⟩
      simp [logSnapshotLoad, LoadResults.calls, hdevice, IStream.ofFile, IStream.read, IStream.peek,
        IStream.good, IStream.setFail, hlt, pure, Except.pure]
    · -- the assertion fails
      refine ⟨none, ?_, by simp⟩
      obtain ⟨b, rest, hdrop⟩ := List.exists_cons_of_ne_nil
        (show file.drop t.deviceSize ≠ [] by simpa using hgt)
      simp [logSnapshotLoad, LoadResults.calls, hdevice, IStream.ofFile, IStream.read, IStream.peek,
        IStream.good, not_lt.mpr hgt.le, hdrop, pure, Except.pure]

theorem LoadFits.loadSound (hsize : 0 < t.deviceSize ∧ t.deviceSize < 2 ^ 31) (h : LoadFits x t) :
    LoadSound x t := by
  intro logFile unsynced
  by_cases hfile : ∀ file, logFile = some file → file.length ≠ t.deviceSize
  · obtain ⟨r, hload, hnot⟩ := logSnapshotLoad_refused hfile 0
    exact ⟨0, r, hload, fun t' ht' => absurd ht' (hnot t')⟩
  · obtain ⟨file, rfl, hlen⟩ : ∃ file, logFile = some file ∧ file.length = t.deviceSize := by
      simpa using hfile
    have hcalls : x.writeCalls = x.writes := if_pos h.opened
    have hzero : (t.ioctl x.wipeOk Disk.wipe).disk.content = fun _ => 0 := by
      rw [h.wiped.1, Tester.ioctl_true h.wiped.2]
      rfl
    obtain ⟨n, hloop⟩ := exists_writeBack h.written (Nat.sub_zero _).symm hsize.1 hsize.2 h.room
      (show (0 : BitVec 32).toNat = 0 from rfl) file fun _ => 0
    simp only [Nat.sub_zero, Nat.zero_add] at hloop
    refine ⟨n, _, (logSnapshotLoad_calls hlen n).trans (by rw [hcalls, hzero, hloop]; rfl), ?_⟩
    intro t' ht'
    cases ht'
    obtain ⟨hcontent, hfrozen⟩ := after_disk h.wiped
      (Image.overlay (fun _ => 0) 0 t.deviceSize fun i => file.getD i 0)
    rw [if_pos h.writable] at hcontent
    rw [Disk.fsync, if_pos h.synced]
    exact ⟨file, rfl, hlen, h.wiped, hcontent, h.frozen, hfrozen h.frozen⟩

def markedFile (size k : ℕ) : List UInt8 := (List.range size).map fun i => if i = k then 1 else 0

@[simp] theorem markedFile_length (size k : ℕ) : (markedFile size k).length = size := by
  simp [markedFile]

theorem markedFile_getD {size k j : ℕ} (hj : j < size) :
    (markedFile size k).getD j 0 = if j = k then 1 else 0 := by
  simp [markedFile, hj]

/-- What a sound load makes of a marked file. -/
theorem LoadSound.marked (hsize : 0 < t.deviceSize) (h : LoadSound x t) (k : ℕ) :
    ∃ n img, writeBack t.disk.bytes t.deviceSize (markedFile t.deviceSize k)
        (first x.writeCalls n) 0 0 (t.ioctl x.wipeOk Disk.wipe).disk.content = .ok img ∧
      x.fsyncOk = true ∧ (x.wipeOk = true ∧ t.cowBrdFd ≠ none) ∧ x.snapshotOk = true ∧
      (k < t.deviceSize → (if t.disk.isWritable then img else fun _ => 0) k = 1) := by
  obtain ⟨n, r, hload, hsound⟩ := h (some (markedFile t.deviceSize k)) fun _ => 2
  rw [logSnapshotLoad_calls (markedFile_length _ _)] at hload
  cases hloop : writeBack t.disk.bytes t.deviceSize (markedFile t.deviceSize k)
      (first x.writeCalls n) 0 0 (t.ioctl x.wipeOk Disk.wipe).disk.content with
  | error fault =>
    rw [hloop] at hload
    cases hload
  | ok img =>
    rw [hloop] at hload
    cases hload
    obtain ⟨file, hfile, -, hwiped, hwritten, hfrozen, -⟩ := hsound _ rfl
    obtain rfl := Option.some.inj hfile
    have hbyte (i : ℕ) (hi : i < t.deviceSize) :
        ((x.after img t).disk.fsync x.fsyncOk fun _ => 2).content i = if i = k then 1 else 0 := by
      rw [hwritten, Image.overlay_of_mem ⟨Nat.zero_le i, by omega⟩, Nat.sub_zero, markedFile_getD hi]
    have hsynced : x.fsyncOk = true := by
      by_contra hnot
      have hlost : (2 : UInt8) = if 0 = k then 1 else 0 := by
        simpa [Disk.fsync, hnot] using hbyte 0 hsize
      split_ifs at hlost <;> exact absurd hlost (by decide)
    refine ⟨n, img, hloop, hsynced, hwiped, hfrozen, fun hk => ?_⟩
    have hmark := hbyte k hk
    rwa [hsynced, Disk.fsync, if_pos rfl, (after_disk hwiped img).1, if_pos rfl] at hmark

theorem LoadSound.loadFits (hsize : 0 < t.deviceSize ∧ t.deviceSize < 2 ^ 31) (h : LoadSound x t) :
    LoadFits x t := by
  obtain ⟨n, img, hloop, hsynced, hwiped, hfrozen, hmark⟩ := h.marked hsize.1 0
  have hwritable : t.disk.isWritable = true := by
    by_contra hnot
    have hzero := hmark hsize.1
    rw [if_neg hnot] at hzero
    exact absurd hzero (by decide)
  have hends := writeBack_first_ok hsize.2 (show (0 : BitVec 32).toNat = 0 from rfl) hsize.1 hloop
  rcases hends with ⟨hdelivers, hroom⟩ | ⟨k, hk, hfails⟩
  · rw [Nat.sub_zero] at hdelivers
    have hopened : x.openOk = true := by
      by_contra hnot
      rw [LoadResults.writeCalls, if_neg hnot] at hdelivers
      exact not_delivers_of_failed rfl hsize.1 hdelivers
    have hcalls : x.writeCalls = x.writes := if_pos hopened
    exact ⟨hwiped, hopened, hroom, hwritable, hcalls ▸ hdelivers, hsynced, hfrozen⟩
  · -- a file whose first byte behind the failure is marked is not loaded
    obtain ⟨m, img', hloop', -, -, -, hmark'⟩ := h.marked hsize.1 k
    have hone := hmark' hk
    rw [if_pos hwritable] at hone
    have hzero : (t.ioctl x.wipeOk Disk.wipe).disk.content k = 0 := by
      rw [hwiped.1, Tester.ioctl_true hwiped.2]
      rfl
    rcases hfails.byte hsize.2 hsize.1 rfl hloop' with hkept | ⟨j, hj, hbyte⟩
    · rw [hkept, hzero] at hone
      exact absurd hone (by decide)
    · rw [hbyte, markedFile_getD (hj.trans hk), if_neg hj.ne] at hone
      exact absurd hone (by decide)

/-- Both are sound exactly if no call fails that they do not look at. -/
theorem snapshotSound_iff (hsize : 0 < t.deviceSize ∧ t.deviceSize < 2 ^ 31) (reads : ℕ → Call)
    (logOk flushOk : Bool) (x : LoadResults) :
    (SaveSound reads logOk flushOk t ∧ LoadSound x t) ↔
      SaveFits reads logOk flushOk t ∧ LoadFits x t :=
  and_congr (saveSound_iff hsize reads logOk flushOk)
    ⟨fun h => h.loadFits hsize, fun h => h.loadSound hsize⟩

def fewBytes : Tester := ⟨4, some 0, true, ⟨8, fun _ => 5, true⟩⟩

theorem snapshotSound_shortTransfers :
    SaveSound (fun _ => .moved 3) true true fewBytes ∧
      LoadSound ⟨true, true, fun _ => .moved 3, true, true⟩ fewBytes := by
  have hdelivers : Delivers (fun _ => .moved 3) 4 := .moved rfl (delivers_of_le rfl (by decide))
  apply (snapshotSound_iff (by decide) _ true true _).mpr
  exact ⟨.inl ⟨0, rfl, by decide, hdelivers, fun _ => rfl⟩,
    ⟨rfl, nofun⟩, rfl, by decide, rfl, hdelivers, rfl, rfl⟩

/-- The first read fails. -/
theorem not_snapshotSound_readError : ¬ ∀ (t : Tester) (reads : ℕ → Call) (logOk flushOk : Bool)
    (x : LoadResults), 0 < t.deviceSize ∧ t.deviceSize < 2 ^ 31 →
    SaveSound reads logOk flushOk t ∧ LoadSound x t := by
  intro h
  have hsize : 0 < fewBytes.deviceSize ∧ fewBytes.deviceSize < 2 ^ 31 := by decide
  have hsave := (h fewBytes (fun _ => .failed) true true ⟨true, true, fun _ => .moved 3, true, true⟩
    hsize).1
  rcases (saveSound_iff hsize _ _ _).mp hsave with ⟨_, -, -, hdelivers, -⟩ | ⟨hlog, -⟩
  · exact not_delivers_of_failed rfl hsize.1 hdelivers
  · cases hlog

end CrashMonkey
