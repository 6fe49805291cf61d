import CrashMonkey.Communication.BaseSocket
import CrashMonkey.Lib.Transition
import Mathlib.Data.List.TakeWhile

namespace CrashMonkey.Communication

open Transfer

theorem CmCommand.ofCode_code (c : CmCommand) : CmCommand.ofCode c.code = some c := by
  cases c <;> decide

@[simp] theorem leBytes_length (x : BitVec 32) : (leBytes x).length = 4 := rfl

theorem ofLeBytes_leBytes (x : BitVec 32) : ofLeBytes (leBytes x) = x := by
  apply BitVec.eq_of_toNat_eq
  have hx := x.isLt
  simp only [leBytes, ofLeBytes, BitVec.toNat_ofNat, UInt8.toNat_ofNat']
  omega

theorem swapWords_cons (a b c d : UInt8) (rest : List UInt8) :
    swapWords (a :: b :: c :: d :: rest) = d :: c :: b :: a :: swapWords rest := by
  rw [swapWords]

@[simp] theorem swapWords_length (xs : List UInt8) : (swapWords xs).length = xs.length := by
  fun_induction swapWords xs with
  | case1 a b c d rest ih => simp [ih]
  | case2 rest h => rfl

theorem swapWords_swapWords (xs : List UInt8) : swapWords (swapWords xs) = xs := by
  fun_induction swapWords xs with
  | case1 a b c d rest ih => rw [swapWords_cons, ih]
  | case2 rest h =>
    rw [swapWords]
    exact h

theorem sendBytes_eq {data : List UInt8} (hdata : data.length < intLimit) {c : Conn}
    (hcalls : Moving c.calls) {more : ℕ} (hlen : callsFor data.length + more ≤ c.calls.length) :
    ∃ calls, Moving calls ∧ more ≤ calls.length ∧
      sendBytes data c = .ok (true, ⟨c.bytes ++ data, calls⟩) := by
  have hcount : 0 + data.length < intLimit := by omega
  obtain ⟨calls, hmoving, hmore, hloop⟩ := loop_eq hcalls (le_refl data.length) hcount hlen
  refine ⟨calls, hmoving, hmore, Transition.bind_eq_ok.mpr ⟨_, hloop, ?_⟩⟩
  rw [List.take_length]
  rfl

theorem recvBytes_eq {data rest : List UInt8} (hdata : data.length < intLimit) {c : Conn}
    (hbytes : c.bytes = data ++ rest) (hcalls : Moving c.calls) {more : ℕ}
    (hlen : callsFor data.length + more ≤ c.calls.length) :
    ∃ calls, Moving calls ∧ more ≤ calls.length ∧
      recvBytes data.length c = .ok (some data, ⟨rest, calls⟩) := by
  have hsrc : data.length ≤ c.bytes.length := by
    rw [hbytes, List.length_append]
    omega
  have hcount : 0 + data.length < intLimit := by omega
  obtain ⟨calls, hmoving, hmore, hloop⟩ := loop_eq hcalls hsrc hcount hlen
  have htake : c.bytes.take data.length = data := by rw [hbytes, List.take_left]
  have hdrop : c.bytes.drop data.length = rest := by rw [hbytes, List.drop_left]
  refine ⟨calls, hmoving, hmore, Transition.bind_eq_ok.mpr ⟨_, hloop, ?_⟩⟩
  rw [htake, hdrop]
  rfl

def wireWord (x : BitVec 32) : List UInt8 := swapWords (leBytes x)

theorem ofLeBytes_wireWord (x : BitVec 32) : ofLeBytes (swapWords (wireWord x)) = x := by
  rw [wireWord, swapWords_swapWords, ofLeBytes_leBytes]

@[simp] theorem wireWord_length (x : BitVec 32) : (wireWord x).length = 4 := by
  rw [wireWord, swapWords_length, leBytes_length]

theorem writeIntToSocket_eq (x : BitVec 32) {c : Conn} (hcalls : Moving c.calls) {more : ℕ}
    (hlen : 4 + more ≤ c.calls.length) : ∃ calls, Moving calls ∧ more ≤ calls.length ∧
      writeIntToSocket x c = .ok (true, ⟨c.bytes ++ wireWord x, calls⟩) := by
  have hword := wireWord_length x
  have hdata : (wireWord x).length < intLimit := by
    rw [hword]
    decide
  apply sendBytes_eq hdata hcalls
  rwa [hword]

theorem readIntFromSocket_eq (x : BitVec 32) {rest : List UInt8} {c : Conn}
    (hbytes : c.bytes = wireWord x ++ rest) (hcalls : Moving c.calls) {more : ℕ}
    (hlen : 4 + more ≤ c.calls.length) : ∃ calls, Moving calls ∧ more ≤ calls.length ∧
      readIntFromSocket c = .ok (some x, ⟨rest, calls⟩) := by
  have hword := wireWord_length x
  have hdata : (wireWord x).length < intLimit := by
    rw [hword]
    decide
  have hlen' : callsFor (wireWord x).length + more ≤ c.calls.length := by rwa [hword]
  obtain ⟨calls, hmoving, hmore, hrecv⟩ := recvBytes_eq hdata hbytes hcalls hlen'
  rw [hword] at hrecv
  refine ⟨calls, hmoving, hmore, Transition.bind_eq_ok.mpr ⟨_, hrecv, ?_⟩⟩
  simp only [Option.map_some, ofLeBytes_wireWord]
  rfl

/-- The string leaves room for its terminator, and its padded length is an `int`. -/
def Sendable (s : List UInt8) : Prop := s.length % 4 ≠ 0 ∧ s.length < 2 ^ 31 - 4

def padded (s : List UInt8) : List UInt8 := s ++ List.replicate (roundUp s.length - s.length) 0

theorem padded_length (s : List UInt8) : (padded s).length = roundUp s.length := by
  simp only [padded, List.length_append, List.length_replicate, roundUp]
  omega

theorem takeWhile_eq {s : List UInt8} (h : 0 ∉ s) : s.takeWhile (· ≠ 0) = s := by
  apply List.takeWhile_eq_self_iff.mpr
  intro b hb
  simpa using fun h0 : b = 0 => h (h0 ▸ hb)

theorem strcpy_eq {s : List UInt8} (hs : 0 ∉ s) {n : ℕ} (h : s.length < n) :
    strcpy (List.replicate n 0) s = .ok (s ++ List.replicate (n - s.length) 0) := by
  have hn : n - s.length = n - (s.length + 1) + 1 := by omega
  rw [strcpy, takeWhile_eq hs, hn, List.replicate_succ]
  simp only [List.length_replicate, List.length_append, List.length_singleton, List.drop_replicate]
  rw [if_neg (by omega), List.append_assoc]
  rfl

theorem cString_padded {s : List UInt8} (hs : 0 ∉ s) {n : ℕ} (h : 0 < n) :
    cString (s ++ List.replicate n 0) = .ok s := by
  obtain ⟨m, rfl⟩ := Nat.exists_eq_succ_of_ne_zero h.ne'
  rw [cString, List.replicate_succ, if_pos (by simp), List.takeWhile_append_of_pos]
  · simp
  · intro b hb
    simpa using fun h0 : b = 0 => hs (h0 ▸ hb)

theorem roundUp_of_sendable {s : List UInt8} (h : Sendable s) :
    s.length < roundUp s.length ∧ roundUp s.length < 2 ^ 31 ∧ roundUp s.length % 4 = 0 := by
  obtain ⟨hmod, hlt⟩ := h
  unfold roundUp
  omega

theorem writeStringToSocket_eq {s : List UInt8} (hs : 0 ∉ s) (h : Sendable s) {c : Conn}
    (hcalls : Moving c.calls) {more : ℕ}
    (hlen : 4 + (roundUp s.length + more) ≤ c.calls.length) :
    ∃ calls, Moving calls ∧ more ≤ calls.length ∧
      writeStringToSocket s c = .ok (true, ⟨c.bytes ++
        (wireWord (.ofNat 32 (roundUp s.length)) ++ swapWords (padded s)), calls⟩) := by
  obtain ⟨hroom, hint, -⟩ := roundUp_of_sendable h
  have hnat : (BitVec.ofNat 32 (roundUp s.length)).toNat = roundUp s.length :=
    (BitVec.toNat_ofNat _ _).trans (Nat.mod_eq_of_lt (by omega))
  have hmsb : (BitVec.ofNat 32 (roundUp s.length)).msb = false := by
    rw [BitVec.msb_eq_false_iff_two_mul_lt, hnat]
    omega
  have hpadded : (swapWords (padded s)).length = roundUp s.length := by
    rw [swapWords_length, padded_length]
  obtain ⟨calls₁, hmoving₁, hmore₁, hint₁⟩ :=
    writeIntToSocket_eq (.ofNat 32 (roundUp s.length)) hcalls hlen
  have hcalls₁ : callsFor (swapWords (padded s)).length + more ≤ calls₁.length := by
    rw [hpadded, callsFor]
    omega
  have hdata : (swapWords (padded s)).length < intLimit := by
    rw [hpadded]
    exact hint
  let c₁ : Conn := ⟨c.bytes ++ wireWord (.ofNat 32 (roundUp s.length)), calls₁⟩
  obtain ⟨calls₂, hmoving₂, hmore₂, hsend⟩ :
      ∃ calls, Moving calls ∧ more ≤ calls.length ∧ sendBytes (swapWords (padded s)) c₁ =
        .ok (true, ⟨c₁.bytes ++ swapWords (padded s), calls⟩) := sendBytes_eq hdata hmoving₁ hcalls₁
  refine ⟨calls₂, hmoving₂, hmore₂, ?_⟩
  simp only [c₁, List.append_assoc] at hsend
  simp only [writeStringToSocket, hmsb, hnat, strcpy_eq hs hroom]
  exact Transition.bind_eq_ok.mpr ⟨_, rfl, Transition.bind_eq_ok.mpr ⟨_, hint₁, hsend⟩⟩

/-- A string without terminator that is not sendable does not fit the send buffer. -/
theorem writeStringToSocket_overrun {s : List UInt8} (hs : 0 ∉ s) (h : ¬ Sendable s) (c : Conn) :
    writeStringToSocket s c = .error .overrun := by
  cases hmsb : (BitVec.ofNat 32 (roundUp s.length)).msb with
  | true =>
    simp only [writeStringToSocket, hmsb]
    rfl
  | false =>
    have hlt := BitVec.msb_eq_false_iff_two_mul_lt.mp hmsb
    have hle : (BitVec.ofNat 32 (roundUp s.length)).toNat ≤ s.length := by
      rw [BitVec.toNat_ofNat] at hlt ⊢
      unfold Sendable at h
      unfold roundUp at hlt ⊢
      omega
    have hcopy : strcpy (List.replicate (BitVec.ofNat 32 (roundUp s.length)).toNat 0) s =
        .error .overrun := by
      rw [strcpy, takeWhile_eq hs, List.length_replicate, List.length_append, List.length_singleton]
      exact if_pos (by omega)
    simp only [writeStringToSocket, hmsb, hcopy]
    rfl

theorem readStringFromSocket_eq {s : List UInt8} (hs : 0 ∉ s) (h : Sendable s)
    {rest : List UInt8} {c : Conn} (hbytes : c.bytes = swapWords (padded s) ++ rest)
    (hcalls : Moving c.calls) {more : ℕ} (hlen : roundUp s.length + more ≤ c.calls.length) :
    ∃ calls, Moving calls ∧ more ≤ calls.length ∧
      readStringFromSocket (.ofNat 32 (roundUp s.length)) c = .ok (some s, ⟨rest, calls⟩) := by
  obtain ⟨hroom, hint, hmod⟩ := roundUp_of_sendable h
  have hnat : (BitVec.ofNat 32 (roundUp s.length)).toNat = roundUp s.length :=
    (BitVec.toNat_ofNat _ _).trans (Nat.mod_eq_of_lt (by omega))
  have hmask : ¬ BitVec.ofNat 32 (roundUp s.length) &&& 3 ≠ 0 := by
    rw [not_not]
    apply BitVec.eq_of_toNat_eq
    rw [BitVec.toNat_and, hnat]
    exact (Nat.and_two_pow_sub_one_eq_mod _ 2).trans hmod
  have hpadded : (swapWords (padded s)).length = roundUp s.length := by
    rw [swapWords_length, padded_length]
  have hdata : (swapWords (padded s)).length < intLimit := by
    rw [hpadded]
    exact hint
  have hlen' : callsFor (swapWords (padded s)).length + more ≤ c.calls.length := by
    rw [hpadded, callsFor]
    omega
  obtain ⟨calls, hmoving, hmore, hrecv⟩ := recvBytes_eq hdata hbytes hcalls hlen'
  rw [hpadded] at hrecv
  have hstring : cString (swapWords (swapWords (padded s))) = .ok s := by
    rw [swapWords_swapWords]
    exact cString_padded hs (by omega)
  refine ⟨calls, hmoving, hmore, ?_⟩
  simp only [readStringFromSocket, hmask, if_false, hnat]
  exact Transition.bind_eq_ok.mpr ⟨_, hrecv, Transition.bind_eq_ok.mpr ⟨_, hstring, rfl⟩⟩

/-- A message with a named type, whose string has no terminator in it if it is sent. -/
structure Valid (m : SocketMessage) : Prop where
  type : ∃ command, CmCommand.ofCode m.type = some command
  string : CmCommand.ofCode m.type = some .kCheckpoint → 0 ∉ m.stringValue

def Fits (m : SocketMessage) : Prop :=
  CmCommand.ofCode m.type = some .kCheckpoint → Sendable m.stringValue

def frame (m : SocketMessage) : List UInt8 :=
  wireWord m.type ++ if CmCommand.ofCode m.type = some .kCheckpoint then
    wireWord (.ofNat 32 (roundUp m.stringValue.length)) ++ swapWords (padded m.stringValue)
  else wireWord 0

theorem frame_checkpoint {m : SocketMessage} (h : CmCommand.ofCode m.type = some .kCheckpoint) :
    frame m = wireWord m.type ++ (wireWord (.ofNat 32 (roundUp m.stringValue.length)) ++
      swapWords (padded m.stringValue)) := by
  rw [frame, if_pos h]

theorem frame_control {m : SocketMessage} (h : CmCommand.ofCode m.type ≠ some .kCheckpoint) :
    frame m = wireWord m.type ++ wireWord 0 := by
  rw [frame, if_neg h]

theorem frame_length_checkpoint {m : SocketMessage}
    (h : CmCommand.ofCode m.type = some .kCheckpoint) :
    (frame m).length = 8 + roundUp m.stringValue.length := by
  rw [frame_checkpoint h]
  simp only [List.length_append, wireWord_length, swapWords_length, padded_length]
  omega

theorem writeMessageToSocket_eq {m : SocketMessage} (hm : Valid m) (hfits : Fits m) {c : Conn}
    (hcalls : Moving c.calls) {more : ℕ} (hlen : (frame m).length + more ≤ c.calls.length) :
    ∃ calls, Moving calls ∧ more ≤ calls.length ∧
      writeMessageToSocket m c = .ok (0, ⟨c.bytes ++ frame m, calls⟩) := by
  obtain ⟨command, hcommand⟩ := hm.type
  obtain rfl | hne := eq_or_ne command .kCheckpoint
  · rw [frame_length_checkpoint hcommand] at hlen
    obtain ⟨calls₁, hmoving₁, hmore₁, htype⟩ := writeIntToSocket_eq m.type hcalls
      (show 4 + (4 + roundUp m.stringValue.length + more) ≤ c.calls.length by omega)
    let c₁ : Conn := ⟨c.bytes ++ wireWord m.type, calls₁⟩
    have hcalls₁ : 4 + (roundUp m.stringValue.length + more) ≤ c₁.calls.length := by
      simp only [c₁]
      omega
    obtain ⟨calls₂, hmoving₂, hmore₂, hstring⟩ := writeStringToSocket_eq (hm.string hcommand)
      (hfits hcommand) (show Moving c₁.calls from hmoving₁) hcalls₁
    refine ⟨calls₂, hmoving₂, hmore₂, ?_⟩
    rw [frame_checkpoint hcommand, ← List.append_assoc]
    refine Transition.bind_eq_ok.mpr ⟨_, htype, ?_⟩
    simp only [Bool.not_true, Bool.false_eq_true, if_false, hcommand]
    exact Transition.bind_eq_ok.mpr ⟨_, hstring, rfl⟩
  · have hnot : CmCommand.ofCode m.type ≠ some .kCheckpoint := by
      rw [hcommand]
      exact fun h => hne (Option.some.inj h)
    rw [frame_control hnot] at hlen ⊢
    simp only [List.length_append, wireWord_length] at hlen
    obtain ⟨calls₁, hmoving₁, hmore₁, htype⟩ := writeIntToSocket_eq m.type hcalls
      (show 4 + (4 + more) ≤ c.calls.length by omega)
    let c₁ : Conn := ⟨c.bytes ++ wireWord m.type, calls₁⟩
    obtain ⟨calls₂, hmoving₂, hmore₂, hsize⟩ := writeIntToSocket_eq 0
      (show Moving c₁.calls from hmoving₁) (show 4 + more ≤ c₁.calls.length from hmore₁)
    refine ⟨calls₂, hmoving₂, hmore₂, ?_⟩
    rw [← List.append_assoc]
    refine Transition.bind_eq_ok.mpr ⟨_, htype, ?_⟩
    simp only [Bool.not_true, Bool.false_eq_true, if_false, hcommand]
    -- all other types send a size of zero
    cases command <;> first | exact absurd rfl hne | exact Transition.bind_eq_ok.mpr ⟨_, hsize, rfl⟩

/-- What is read of a message: its type, and the string of a checkpoint. -/
structure Agrees (m r : SocketMessage) : Prop where
  type : r.type = m.type
  string : CmCommand.ofCode m.type = some .kCheckpoint → r.stringValue = m.stringValue

theorem readMessageFromSocket_eq {m : SocketMessage} (hm : Valid m) (hfits : Fits m)
    (old : SocketMessage) {rest : List UInt8} {c : Conn} (hbytes : c.bytes = frame m ++ rest)
    (hcalls : Moving c.calls) {more : ℕ} (hlen : (frame m).length + more ≤ c.calls.length) :
    ∃ r calls, Agrees m r ∧ Moving calls ∧ more ≤ calls.length ∧
      readMessageFromSocket old c = .ok (0, r, ⟨rest, calls⟩) := by
  obtain ⟨command, hcommand⟩ := hm.type
  obtain rfl | hne := eq_or_ne command .kCheckpoint
  · rw [frame_length_checkpoint hcommand] at hlen
    rw [frame_checkpoint hcommand, List.append_assoc, List.append_assoc] at hbytes
    obtain ⟨calls₁, hmoving₁, hmore₁, htype⟩ := readIntFromSocket_eq m.type hbytes hcalls
      (show 4 + (4 + (roundUp m.stringValue.length + more)) ≤ c.calls.length by omega)
    obtain ⟨calls₂, hmoving₂, hmore₂, hsize⟩ := readIntFromSocket_eq
      (.ofNat 32 (roundUp m.stringValue.length)) (c := ⟨_, calls₁⟩) rfl hmoving₁ hmore₁
    obtain ⟨calls₃, hmoving₃, hmore₃, hstring⟩ := readStringFromSocket_eq (hm.string hcommand)
      (hfits hcommand) (c := ⟨_, calls₂⟩) rfl hmoving₂ hmore₂
    refine ⟨⟨m.type, .ofNat 32 (roundUp m.stringValue.length), m.stringValue⟩, calls₃,
      ⟨rfl, fun _ => rfl⟩, hmoving₃, hmore₃, ?_⟩
    refine Transition.bind_eq_ok.mpr ⟨_, htype, Transition.bind_eq_ok.mpr ⟨_, hsize, ?_⟩⟩
    simp only [hcommand]
    exact Transition.bind_eq_ok.mpr ⟨_, hstring, rfl⟩
  · have hnot : CmCommand.ofCode m.type ≠ some .kCheckpoint := by
      rw [hcommand]
      exact fun h => hne (Option.some.inj h)
    rw [frame_control hnot, List.append_assoc] at hbytes
    rw [frame_control hnot] at hlen
    simp only [List.length_append, wireWord_length] at hlen
    obtain ⟨calls₁, hmoving₁, hmore₁, htype⟩ := readIntFromSocket_eq m.type hbytes hcalls
      (show 4 + (4 + more) ≤ c.calls.length by omega)
    obtain ⟨calls₂, hmoving₂, hmore₂, hsize⟩ := readIntFromSocket_eq 0 (c := ⟨_, calls₁⟩) rfl
      hmoving₁ hmore₁
    refine ⟨⟨m.type, 0, old.stringValue⟩, calls₂, ⟨rfl, fun h => absurd h hnot⟩, hmoving₂, hmore₂,
      ?_⟩
    refine Transition.bind_eq_ok.mpr ⟨_, htype, Transition.bind_eq_ok.mpr ⟨_, hsize, ?_⟩⟩
    simp only [hcommand]
    cases command <;> first | exact absurd rfl hne | rfl

end CrashMonkey.Communication
