import CrashMonkey.Communication.Closed
import CrashMonkey.Communication.Sequences

namespace CrashMonkey.Communication

open Transfer

/-- A message on the wire, with any payload; that of a checkpoint is made of words. -/
structure Frame where
  command : CmCommand
  payload : List UInt8
  length_lt : payload.length < 2 ^ 32
  aligned : command = .kCheckpoint → 4 ∣ payload.length

namespace Frame

def size (f : Frame) : BitVec 32 := .ofNat 32 f.payload.length

def bytes (f : Frame) : List UInt8 := wireWord f.command.code ++ (wireWord f.size ++ f.payload)

/-- The payload can be counted in an `int`, and a string has its terminator. -/
structure Readable (f : Frame) : Prop where
  length_lt : f.payload.length < 2 ^ 31
  terminated : f.command = .kCheckpoint → 0 ∈ f.payload

theorem size_toNat (f : Frame) : f.size.toNat = f.payload.length := by
  rw [size, BitVec.toNat_ofNat]
  exact Nat.mod_eq_of_lt f.length_lt

theorem size_mask {f : Frame} (h : f.command = .kCheckpoint) : f.size &&& 3 = 0 := by
  apply BitVec.eq_of_toNat_eq
  rw [BitVec.toNat_and, size_toNat]
  exact (Nat.and_two_pow_sub_one_eq_mod _ 2).trans (Nat.mod_eq_zero_of_dvd (f.aligned h))

end Frame

/-- Reading one message for each frame gives the types and sizes of the frames, and after
each of them what lies behind it is left, in whatever pieces the bytes come. -/
def StaysInFrame (fs : List Frame) : Prop :=
  ∃ enough, ∀ calls old, Moving calls → enough ≤ calls.length → ∃ reads c,
    readMessages fs.length old ⟨(fs.map Frame.bytes).flatten, calls⟩ = .ok (reads, c) ∧
    List.Forall₂ (fun f x => x.1 = 0 ∧ x.2.1.type = f.command.code ∧ x.2.1.size = f.size) fs reads ∧
    reads.map (fun x => x.2.2) = leftAfter (fs.map Frame.bytes)

theorem mem_swapWords {b : UInt8} (xs : List UInt8) : b ∈ swapWords xs ↔ b ∈ xs := by
  fun_induction swapWords xs with
  | case1 a b c d rest ih =>
    simp only [List.mem_cons, ih]
    tauto
  | case2 rest h => rfl

variable {c : Conn} {f : Frame} {rest : List UInt8}

theorem recvBytes_payload (hf : f.Readable) (hbytes : c.bytes = f.payload ++ rest)
    (hcalls : Moving c.calls) {more : ℕ}
    (hlen : callsFor f.payload.length + more ≤ c.calls.length) :
    ∃ calls, Moving calls ∧ more ≤ calls.length ∧
      recvBytes f.size.toNat c = .ok (some f.payload, ⟨rest, calls⟩) := by
  rw [f.size_toNat]
  exact recvBytes_eq hf.length_lt hbytes hcalls hlen

/-- Behind the two words of a frame exactly its payload is read. -/
theorem readPayload_frame (hf : f.Readable) (s : List UInt8) (hbytes : c.bytes = f.payload ++ rest)
    (hcalls : Moving c.calls) {more : ℕ}
    (hlen : callsFor f.payload.length + more ≤ c.calls.length) :
    ∃ s' calls, Moving calls ∧ more ≤ calls.length ∧
      readPayload ⟨f.command.code, f.size, s⟩ c =
        .ok (0, ⟨f.command.code, f.size, s'⟩, ⟨rest, calls⟩) := by
  obtain ⟨calls, hmoving, hmore, hrecv⟩ := recvBytes_payload hf hbytes hcalls hlen
  have hcommand := f.command.ofCode_code
  by_cases hcheckpoint : f.command = .kCheckpoint
  · have hterminated : 0 ∈ swapWords f.payload :=
      (mem_swapWords f.payload).mpr (hf.terminated hcheckpoint)
    have hstring : readStringFromSocket f.size c =
        .ok (some ((swapWords f.payload).takeWhile (· ≠ 0)), ⟨rest, calls⟩) := by
      rw [readStringFromSocket, if_neg (not_not.mpr (Frame.size_mask hcheckpoint))]
      refine Transition.bind_eq_ok.mpr ⟨_, hrecv, Transition.bind_eq_ok.mpr ⟨_, ?_, rfl⟩⟩
      exact if_pos hterminated
    rw [hcheckpoint] at hcommand ⊢
    refine ⟨(swapWords f.payload).takeWhile (· ≠ 0), calls, hmoving, hmore, ?_⟩
    simp only [readPayload, hcommand]
    exact Transition.bind_eq_ok.mpr ⟨_, hstring, rfl⟩
  · rw [readPayload_other hcommand hcheckpoint]
    by_cases hzero : f.size = 0
    · -- nothing is read
      have hnil : f.payload = [] := by
        rw [← List.length_eq_zero_iff, ← f.size_toNat, hzero]
        rfl
      rw [if_neg (not_not.mpr hzero)]
      refine ⟨s, c.calls, hcalls, by omega, ?_⟩
      rw [hnil, List.nil_append] at hbytes
      rw [← hbytes]
      rfl
    · have hgobble : gobbleData f.size c = .ok (true, ⟨rest, calls⟩) :=
        Transition.bind_eq_ok.mpr ⟨_, hrecv, rfl⟩
      rw [if_pos hzero]
      exact ⟨s, calls, hmoving, hmore, Transition.bind_eq_ok.mpr ⟨_, hgobble, rfl⟩⟩

def Frame.callsFor (f : Frame) : ℕ := 8 + Transfer.callsFor f.payload.length

theorem readMessageFromSocket_frame (hf : f.Readable) (old : SocketMessage)
    (hbytes : c.bytes = f.bytes ++ rest) (hcalls : Moving c.calls) {more : ℕ}
    (hlen : f.callsFor + more ≤ c.calls.length) :
    ∃ s calls, Moving calls ∧ more ≤ calls.length ∧
      readMessageFromSocket old c = .ok (0, ⟨f.command.code, f.size, s⟩, ⟨rest, calls⟩) := by
  rw [Frame.callsFor] at hlen
  rw [Frame.bytes, List.append_assoc, List.append_assoc] at hbytes
  obtain ⟨calls₁, hmoving₁, hmore₁, htype⟩ := readIntFromSocket_eq f.command.code hbytes hcalls
    (show 4 + (4 + (Transfer.callsFor f.payload.length + more)) ≤ c.calls.length by omega)
  obtain ⟨calls₂, hmoving₂, hmore₂, hsize⟩ := readIntFromSocket_eq f.size (c := ⟨_, calls₁⟩) rfl
    hmoving₁ hmore₁
  obtain ⟨s, calls, hmoving, hmore, hread⟩ := readPayload_frame hf old.stringValue
    (c := ⟨f.payload ++ rest, calls₂⟩) rfl hmoving₂ hmore₂
  exact ⟨s, calls, hmoving, hmore, (readMessageFromSocket_words htype hsize).trans hread⟩

/-- A frame from which the reader returns is readable. -/
theorem readable_of_read (hbytes : c.bytes = f.bytes ++ rest) (hcalls : Moving c.calls)
    {old : SocketMessage} {r : Int × SocketMessage × Conn}
    (h : readMessageFromSocket old c = .ok r) : f.Readable := by
  have hwhole := readMessageFromSocket_ok hcalls h
  have htype : word c.bytes = f.command.code := by
    rw [hbytes, Frame.bytes, List.append_assoc, word_wireWord]
  have hdrop₄ : c.bytes.drop 4 = wireWord f.size ++ (f.payload ++ rest) := by
    rw [hbytes, Frame.bytes, List.append_assoc, List.append_assoc,
      List.drop_left' (wireWord_length _)]
  have hsize : word (c.bytes.drop 4) = f.size := by rw [hdrop₄, word_wireWord]
  have hdrop₈ : c.bytes.drop 8 = f.payload ++ rest := by
    rw [show 8 = 4 + 4 from rfl, ← List.drop_drop, hdrop₄, List.drop_left' (wireWord_length _)]
  have hcommand : CmCommand.ofCode (word c.bytes) = some f.command := by
    rw [htype, CmCommand.ofCode_code]
  by_cases hcheckpoint : f.command = .kCheckpoint
  · have hstring := hwhole.string (hcommand.trans (congrArg some hcheckpoint))
    rw [hsize, hdrop₈] at hstring
    have hmask : ¬ f.size &&& 3 ≠ 0 := not_not.mpr (Frame.size_mask hcheckpoint)
    obtain ⟨⟨-, hint⟩, hnul⟩ := hstring.resolve_left hmask
    rw [f.size_toNat] at hint hnul
    rw [List.take_left, mem_swapWords] at hnul
    exact ⟨hint, fun _ => hnul⟩
  · have hdata := hwhole.extra f.command hcommand hcheckpoint
    rw [hsize] at hdata
    exact ⟨f.size_toNat ▸ hdata.2, fun h => absurd h hcheckpoint⟩

def callsForAll (fs : List Frame) : ℕ := (fs.map Frame.callsFor).sum

theorem readMessages_frames {fs : List Frame} (hfs : ∀ f ∈ fs, f.Readable) (old : SocketMessage)
    (hbytes : c.bytes = (fs.map Frame.bytes).flatten) (hcalls : Moving c.calls)
    (hlen : callsForAll fs ≤ c.calls.length) :
    ∃ reads c', readMessages fs.length old c = .ok (reads, c') ∧
      List.Forall₂ (fun f x => x.1 = 0 ∧ x.2.1.type = f.command.code ∧ x.2.1.size = f.size) fs
        reads ∧
      reads.map (fun x => x.2.2) = leftAfter (fs.map Frame.bytes) := by
  induction fs generalizing old c with
  | nil => exact ⟨[], c, rfl, .nil, rfl⟩
  | cons f fs ih =>
    obtain ⟨hf, hfs⟩ := List.forall_mem_cons.mp hfs
    simp only [callsForAll, List.map_cons, List.sum_cons] at hlen
    obtain ⟨s, calls, hmoving, hmore, hread⟩ :=
      readMessageFromSocket_frame hf old hbytes hcalls hlen
    obtain ⟨reads, c', hrest, hall, hleft⟩ := ih hfs ⟨f.command.code, f.size, s⟩ (c := ⟨_, calls⟩)
      rfl hmoving hmore
    refine ⟨(0, ⟨f.command.code, f.size, s⟩, (fs.map Frame.bytes).flatten) :: reads, c', ?_,
      .cons ⟨rfl, rfl, rfl⟩ hall, ?_⟩
    · exact Transition.bind_eq_ok.mpr ⟨_, hread, Transition.bind_eq_ok.mpr ⟨_, hrest, rfl⟩⟩
    · rw [List.map_cons, hleft]
      rfl

theorem readable_of_reads {fs : List Frame} {old : SocketMessage} {c' : Conn}
    {reads : List (Int × SocketMessage × List UInt8)}
    (hbytes : c.bytes = (fs.map Frame.bytes).flatten) (hcalls : Moving c.calls)
    (hlen : callsForAll fs ≤ c.calls.length)
    (h : readMessages fs.length old c = .ok (reads, c')) : ∀ f ∈ fs, f.Readable := by
  induction fs generalizing old c c' reads with
  | nil => simp
  | cons f fs ih =>
    simp only [callsForAll, List.map_cons, List.sum_cons] at hlen
    obtain ⟨⟨res, r, c₁⟩, hread, h⟩ := Transition.bind_eq_ok.mp h
    have hf := readable_of_read hbytes hcalls hread
    obtain ⟨s, calls, hmoving, hmore, hframe⟩ :=
      readMessageFromSocket_frame hf old hbytes hcalls hlen
    rw [hread, Except.ok.injEq, Prod.mk.injEq, Prod.mk.injEq] at hframe
    obtain ⟨-, -, rfl⟩ := hframe
    obtain ⟨⟨reads', c₂⟩, hrest, -⟩ := Transition.bind_eq_ok.mp h
    exact List.forall_mem_cons.mpr ⟨hf, ih (c := ⟨_, calls⟩) rfl hmoving hmore hrest⟩

/-- The reader stays in frame exactly if each frame is readable. -/
theorem staysInFrame_iff (fs : List Frame) : StaysInFrame fs ↔ ∀ f ∈ fs, f.Readable := by
  constructor
  · rintro ⟨enough, h⟩
    have hcalls : Moving (List.replicate (enough + callsForAll fs) (.moved 1)) := fun call hcall =>
      ⟨0, List.eq_of_mem_replicate hcall⟩
    obtain ⟨reads, c, hreads, -⟩ := h _ ⟨0, 0, []⟩ hcalls (by simp)
    exact readable_of_reads rfl hcalls (by simp) hreads
  · exact fun hfs => ⟨callsForAll fs, fun calls old hcalls hlen =>
      readMessages_frames hfs old (c := ⟨_, calls⟩) rfl hcalls hlen⟩

def unterminated : Frame := ⟨.kCheckpoint, [97, 98, 99, 100], by decide, fun _ => by decide⟩

theorem not_staysInFrame_unterminated : ¬ ∀ fs, StaysInFrame fs := by
  intro h
  obtain ⟨enough, h⟩ := h [unterminated]
  have hcalls : Moving (List.replicate (enough + callsForAll [unterminated]) (.moved 1)) :=
    fun call hcall => ⟨0, List.eq_of_mem_replicate hcall⟩
  obtain ⟨reads, c, hreads, -⟩ := h _ ⟨0, 0, []⟩ hcalls (by simp)
  have hreadable := readable_of_reads rfl hcalls (by simp) hreads unterminated (by simp)
  exact absurd (hreadable.terminated rfl) (by decide)

end CrashMonkey.Communication
