import CrashMonkey.Communication.RoundTrip

namespace CrashMonkey.Communication

open Transfer

/-- The first `n` calls of `recv`: number `i` gives up to `pieces i + 1` bytes, and 0 at
the end of the stream. -/
def received (pieces : ℕ → ℕ) (n : ℕ) : List Call := first (fun i => .moved (pieces i + 1)) n

/-- On the stream `bytes` the reader returns after finitely many calls, with a negative
result if what it reads is not complete. -/
def Returns {β : Type} (negative : β → Prop) (complete : Prop) (reader : Conn → Except Fault β)
    (bytes : List UInt8) (pieces : ℕ → ℕ) : Prop :=
  ∃ n r, reader ⟨bytes, received pieces n⟩ = .ok r ∧ (¬ complete → negative r)

def DataWhole (len : BitVec 32) (bytes : List UInt8) : Prop :=
  len.toNat ≤ bytes.length ∧ len.toNat < intLimit

/-- The string is not even read, or it is there with its terminator. -/
def StringWhole (len : BitVec 32) (bytes : List UInt8) : Prop :=
  len &&& 3 ≠ 0 ∨ DataWhole len bytes ∧ 0 ∈ swapWords (bytes.take len.toNat)

def word (bytes : List UInt8) : BitVec 32 := ofLeBytes (swapWords (bytes.take 4))

theorem word_wireWord (x : BitVec 32) (rest : List UInt8) : word (wireWord x ++ rest) = x := by
  rw [word, List.take_left' (wireWord_length x), ofLeBytes_wireWord]

/-- Type and size are there, and what a message of that type has behind them. -/
structure MessageWhole (bytes : List UInt8) : Prop where
  head : 8 ≤ bytes.length
  string : CmCommand.ofCode (word bytes) = some .kCheckpoint →
    StringWhole (word (bytes.drop 4)) (bytes.drop 8)
  extra : ∀ command, CmCommand.ofCode (word bytes) = some command → command ≠ .kCheckpoint →
    DataWhole (word (bytes.drop 4)) (bytes.drop 8)

def MessageComplete (bytes : List UInt8) : Prop :=
  8 ≤ bytes.length ∧ (word (bytes.drop 4)).toNat ≤ (bytes.drop 8).length

theorem moving_received (pieces : ℕ → ℕ) (n : ℕ) : Moving (received pieces n) := by
  intro c hc
  obtain ⟨i, -, rfl⟩ := List.mem_map.mp hc
  exact ⟨pieces i, rfl⟩

@[simp] theorem received_length (pieces : ℕ → ℕ) (n : ℕ) : (received pieces n).length = n := by
  simp [received]

variable {c c' : Conn} {len : BitVec 32}

theorem recvBytes_ok (hcalls : Moving c.calls) {n : ℕ} {r : Option (List UInt8)}
    (h : recvBytes n c = .ok (r, c')) :
    r = some (c.bytes.take n) ∧ n ≤ c.bytes.length ∧ n < intLimit ∧
      c'.bytes = c.bytes.drop n ∧ Moving c'.calls := by
  obtain ⟨⟨ok, moved, rest, calls⟩, hloop, h⟩ := Transition.bind_eq_ok.mp h
  obtain ⟨rfl, hle, rfl, rfl, hmoving, hint⟩ := loop_ok hcalls hloop
  cases h
  exact ⟨rfl, hle, by omega, rfl, hmoving⟩

theorem recvBytes_take {n : ℕ} (hle : n ≤ c.bytes.length) (hint : n < intLimit)
    (hcalls : Moving c.calls) {more : ℕ} (hlen : callsFor n + more ≤ c.calls.length) :
    ∃ calls, Moving calls ∧ more ≤ calls.length ∧
      recvBytes n c = .ok (some (c.bytes.take n), ⟨c.bytes.drop n, calls⟩) := by
  have htake : (c.bytes.take n).length = n := List.length_take_of_le hle
  have hrecv := recvBytes_eq (by rwa [htake]) (List.take_append_drop n c.bytes).symm hcalls
    (by rwa [htake])
  rwa [htake] at hrecv

theorem readIntFromSocket_ok (hcalls : Moving c.calls) {r : Option (BitVec 32)}
    (h : readIntFromSocket c = .ok (r, c')) :
    r = some (word c.bytes) ∧ 4 ≤ c.bytes.length ∧ c'.bytes = c.bytes.drop 4 ∧
      Moving c'.calls := by
  obtain ⟨⟨d, c₁⟩, hrecv, h⟩ := Transition.bind_eq_ok.mp h
  obtain ⟨rfl, hle, -, hbytes, hmoving⟩ := recvBytes_ok hcalls hrecv
  cases h
  exact ⟨rfl, hle, hbytes, hmoving⟩

theorem readIntFromSocket_word (hle : 4 ≤ c.bytes.length) (hcalls : Moving c.calls) {more : ℕ}
    (hlen : 4 + more ≤ c.calls.length) : ∃ calls, Moving calls ∧ more ≤ calls.length ∧
      readIntFromSocket c = .ok (some (word c.bytes), ⟨c.bytes.drop 4, calls⟩) := by
  obtain ⟨calls, hmoving, hmore, hrecv⟩ := recvBytes_take hle (by decide) hcalls hlen
  exact ⟨calls, hmoving, hmore, Transition.bind_eq_ok.mpr ⟨_, hrecv, rfl⟩⟩

theorem gobbleData_ok (hcalls : Moving c.calls) {r : Bool} (h : gobbleData len c = .ok (r, c')) :
    DataWhole len c.bytes := by
  obtain ⟨⟨d, c₁⟩, hrecv, -⟩ := Transition.bind_eq_ok.mp h
  obtain ⟨-, hle, hint, -⟩ := recvBytes_ok hcalls hrecv
  exact ⟨hle, hint⟩

theorem gobbleData_whole (h : DataWhole len c.bytes) (hcalls : Moving c.calls)
    (hlen : callsFor len.toNat ≤ c.calls.length) : ∃ c', gobbleData len c = .ok (true, c') := by
  obtain ⟨calls, -, -, hrecv⟩ := recvBytes_take h.1 h.2 hcalls
    (show callsFor len.toNat + 0 ≤ c.calls.length from hlen)
  exact ⟨_, Transition.bind_eq_ok.mpr ⟨_, hrecv, rfl⟩⟩

theorem readStringFromSocket_ok (hcalls : Moving c.calls) {r : Option (List UInt8)}
    (h : readStringFromSocket len c = .ok (r, c')) : StringWhole len c.bytes := by
  by_cases hmask : len &&& 3 ≠ 0
  · exact .inl hmask
  · simp only [readStringFromSocket, hmask, if_false] at h
    obtain ⟨⟨buf, c₁⟩, hrecv, h⟩ := Transition.bind_eq_ok.mp h
    obtain ⟨rfl, hle, hint, -⟩ := recvBytes_ok hcalls hrecv
    obtain ⟨s, hstring, -⟩ := Transition.bind_eq_ok.mp h
    refine .inr ⟨⟨hle, hint⟩, ?_⟩
    by_contra hnul
    rw [cString, if_neg hnul] at hstring
    cases hstring

theorem readStringFromSocket_whole (h : StringWhole len c.bytes) (hcalls : Moving c.calls)
    (hlen : callsFor len.toNat ≤ c.calls.length) : ∃ r c',
      readStringFromSocket len c = .ok (r, c') ∧ (¬ len.toNat ≤ c.bytes.length → r = none) := by
  by_cases hmask : len &&& 3 ≠ 0
  · refine ⟨none, c, ?_, fun _ => rfl⟩
    rw [readStringFromSocket, if_pos hmask]
    rfl
  · obtain ⟨hwhole, hnul⟩ := h.resolve_left hmask
    obtain ⟨calls, -, -, hrecv⟩ := recvBytes_take hwhole.1 hwhole.2 hcalls
      (show callsFor len.toNat + 0 ≤ c.calls.length from hlen)
    obtain ⟨s, hstring⟩ : ∃ s, cString (swapWords (c.bytes.take len.toNat)) = .ok s :=
      ⟨_, if_pos hnul⟩
    refine ⟨some s, ⟨c.bytes.drop len.toNat, calls⟩, ?_, fun hnot => absurd hwhole.1 hnot⟩
    simp only [readStringFromSocket, hmask, if_false]
    exact Transition.bind_eq_ok.mpr ⟨_, hrecv, Transition.bind_eq_ok.mpr ⟨s, hstring, rfl⟩⟩

def readPayload (m : SocketMessage) (c : Conn) : Except Fault (Int × SocketMessage × Conn) := do
  match CmCommand.ofCode m.type with
  | none => return (-1, m, c)
  | some .kCheckpoint =>
    let (s, c) ← readStringFromSocket m.size c
    match s with
    | none => return (-1, m, c)
    | some s => return (0, { m with stringValue := s }, c)
  | some _ =>
    if m.size ≠ 0 then
      let (ok, c) ← gobbleData m.size c
      return (if ok then 0 else -1, m, c)
    else return (0, m, c)

theorem readPayload_other {m : SocketMessage} {command : CmCommand}
    (hcommand : CmCommand.ofCode m.type = some command) (hne : command ≠ .kCheckpoint) (c : Conn) :
    readPayload m c = if m.size ≠ 0 then do
        let (ok, c) ← gobbleData m.size c
        return (if ok then 0 else -1, m, c)
      else return (0, m, c) := by
  rw [readPayload, hcommand]
  cases command <;> first | exact absurd rfl hne | rfl

theorem readMessageFromSocket_words {m : SocketMessage} {type size : BitVec 32} {c₁ c₂ : Conn}
    (htype : readIntFromSocket c = .ok (some type, c₁))
    (hsize : readIntFromSocket c₁ = .ok (some size, c₂)) :
    readMessageFromSocket m c = readPayload ⟨type, size, m.stringValue⟩ c₂ := by
  unfold readMessageFromSocket
  rw [htype]
  simp only [bind, Except.bind, hsize]
  rfl

structure PayloadWhole (m : SocketMessage) (bytes : List UInt8) : Prop where
  string : CmCommand.ofCode m.type = some .kCheckpoint → StringWhole m.size bytes
  extra : ∀ command, CmCommand.ofCode m.type = some command → command ≠ .kCheckpoint →
    DataWhole m.size bytes

theorem readPayload_ok {m : SocketMessage} (hcalls : Moving c.calls)
    {r : Int × SocketMessage × Conn} (h : readPayload m c = .ok r) : PayloadWhole m c.bytes := by
  constructor
  · intro hcommand
    simp only [readPayload, hcommand] at h
    obtain ⟨⟨s, c₁⟩, hstring, -⟩ := Transition.bind_eq_ok.mp h
    exact readStringFromSocket_ok hcalls hstring
  · intro command hcommand hne
    rw [readPayload_other hcommand hne] at h
    split_ifs at h with hsize
    · obtain ⟨⟨ok, c₁⟩, hgobble, -⟩ := Transition.bind_eq_ok.mp h
      exact gobbleData_ok hcalls hgobble
    · rw [not_not.mp hsize]
      exact ⟨Nat.zero_le _, by decide⟩

theorem readPayload_whole {m : SocketMessage} (h : PayloadWhole m c.bytes) (hcalls : Moving c.calls)
    (hlen : callsFor m.size.toNat ≤ c.calls.length) : ∃ r, readPayload m c = .ok r ∧
      (¬ m.size.toNat ≤ c.bytes.length → r.1 < 0) := by
  cases hcommand : CmCommand.ofCode m.type with
  | none =>
    refine ⟨(-1, m, c), ?_, fun _ => neg_one_lt_zero⟩
    simp [readPayload, hcommand, pure, Except.pure]
  | some command =>
    obtain rfl | hne := eq_or_ne command .kCheckpoint
    · obtain ⟨s, c₁, hstring, hnone⟩ := readStringFromSocket_whole (h.string hcommand) hcalls hlen
      cases s with
      | none =>
        refine ⟨(-1, m, c₁), ?_, fun _ => neg_one_lt_zero⟩
        simp [readPayload, hcommand, hstring, bind, Except.bind, pure, Except.pure]
      | some s =>
        refine ⟨(0, { m with stringValue := s }, c₁), ?_, fun hnot => nomatch hnone hnot⟩
        simp [readPayload, hcommand, hstring, bind, Except.bind, pure, Except.pure]
    · have hwhole := h.extra command hcommand hne
      rw [readPayload_other hcommand hne]
      split_ifs with hsize
      · obtain ⟨c₁, hgobble⟩ := gobbleData_whole hwhole hcalls hlen
        exact ⟨_, Transition.bind_eq_ok.mpr ⟨_, hgobble, rfl⟩, fun hnot => absurd hwhole.1 hnot⟩
      · exact ⟨_, rfl, fun hnot => absurd hwhole.1 hnot⟩

theorem readMessageFromSocket_ok {m : SocketMessage} (hcalls : Moving c.calls)
    {r : Int × SocketMessage × Conn} (h : readMessageFromSocket m c = .ok r) :
    MessageWhole c.bytes := by
  obtain ⟨⟨type, c₁⟩, htype, hrest⟩ := Transition.bind_eq_ok.mp h
  obtain ⟨rfl, hle₁, hbytes₁, hcalls₁⟩ := readIntFromSocket_ok hcalls htype
  dsimp only at hrest
  obtain ⟨⟨size, c₂⟩, hsize, -⟩ := Transition.bind_eq_ok.mp hrest
  obtain ⟨rfl, hle₂, hbytes₂, hcalls₂⟩ := readIntFromSocket_ok hcalls₁ hsize
  rw [readMessageFromSocket_words htype hsize] at h
  obtain ⟨hstring, hextra⟩ := readPayload_ok hcalls₂ h
  rw [hbytes₁] at hle₂ hbytes₂ hstring hextra
  rw [List.drop_drop] at hbytes₂
  rw [hbytes₂] at hstring hextra
  rw [List.length_drop] at hle₂
  exact ⟨by omega, hstring, hextra⟩

theorem readMessageFromSocket_whole (m : SocketMessage) (h : MessageWhole c.bytes)
    (hcalls : Moving c.calls)
    (hlen : 8 + callsFor (word (c.bytes.drop 4)).toNat ≤ c.calls.length) :
    ∃ r, readMessageFromSocket m c = .ok r ∧ (¬ MessageComplete c.bytes → r.1 < 0) := by
  have hhead := h.head
  obtain ⟨calls₁, hmoving₁, hmore₁, htype⟩ := readIntFromSocket_word (by omega) hcalls
    (show 4 + (4 + callsFor (word (c.bytes.drop 4)).toNat) ≤ c.calls.length by omega)
  have hle : 4 ≤ (c.bytes.drop 4).length := by
    rw [List.length_drop]
    omega
  obtain ⟨calls₂, hmoving₂, hmore₂, hsize⟩ :=
    readIntFromSocket_word (c := ⟨c.bytes.drop 4, calls₁⟩) hle hmoving₁ hmore₁
  have hpayload : PayloadWhole ⟨word c.bytes, word (c.bytes.drop 4), m.stringValue⟩
      ((c.bytes.drop 4).drop 4) := by
    rw [List.drop_drop]
    exact ⟨h.string, h.extra⟩
  obtain ⟨r, hread, hnegative⟩ := readPayload_whole hpayload
    (c := ⟨(c.bytes.drop 4).drop 4, calls₂⟩) hmoving₂ hmore₂
  refine ⟨r, (readMessageFromSocket_words htype hsize).trans hread, fun hnot => hnegative ?_⟩
  intro hcomplete
  rw [List.drop_drop] at hcomplete
  exact hnot ⟨h.head, hcomplete⟩

/-- A reader returns exactly if what it reads is whole. -/
theorem returns_iff_whole (bytes : List UInt8) (pieces : ℕ → ℕ) (len : BitVec 32) (m : SocketMessage) :
    (Returns (fun r => r.1 = none) (4 ≤ bytes.length) readIntFromSocket bytes pieces ↔
      4 ≤ bytes.length) ∧
    (Returns (fun r => r.1 = false) (len.toNat ≤ bytes.length) (gobbleData len) bytes pieces ↔
      DataWhole len bytes) ∧
    (Returns (fun r => r.1 = none) (len.toNat ≤ bytes.length) (readStringFromSocket len) bytes
      pieces ↔ StringWhole len bytes) ∧
    (Returns (fun r => r.1 < 0) (MessageComplete bytes) (readMessageFromSocket m) bytes pieces ↔
      MessageWhole bytes) := by
  have hcalls := moving_received pieces
  refine ⟨⟨?_, fun h => ?_⟩, ⟨?_, fun h => ?_⟩, ⟨?_, fun h => ?_⟩, ?_, fun h => ?_⟩
  · rintro ⟨n, r, hread, -⟩
    exact (readIntFromSocket_ok (hcalls n) hread).2.1
  · obtain ⟨calls, -, -, hread⟩ := readIntFromSocket_word (c := ⟨bytes, received pieces 4⟩) h
      (hcalls 4) (show 4 + 0 ≤ _ by simp)
    exact ⟨4, _, hread, fun hnot => absurd h hnot⟩
  · rintro ⟨n, r, hread, -⟩
    exact gobbleData_ok (hcalls n) hread
  · obtain ⟨c', hread⟩ := gobbleData_whole (c := ⟨bytes, received pieces (callsFor len.toNat)⟩) h
      (hcalls _) (by simp)
    exact ⟨_, _, hread, fun hnot => absurd h.1 hnot⟩
  · rintro ⟨n, r, hread, -⟩
    exact readStringFromSocket_ok (hcalls n) hread
  · obtain ⟨r, c', hread, hnone⟩ := readStringFromSocket_whole
      (c := ⟨bytes, received pieces (callsFor len.toNat)⟩) h (hcalls _) (by simp)
    exact ⟨_, _, hread, hnone⟩
  · rintro ⟨n, r, hread, -⟩
    exact readMessageFromSocket_ok (hcalls n) hread
  · obtain ⟨r, hread, hnegative⟩ := readMessageFromSocket_whole m
      (c := ⟨bytes, received pieces (8 + callsFor (word (bytes.drop 4)).toNat)⟩) h (hcalls _)
      (by simp)
    exact ⟨_, r, hread, hnegative⟩

/-- The peer sends the type of a message and half of the size. -/
theorem not_returns_cut : ¬ ∀ (bytes : List UInt8) (pieces : ℕ → ℕ) (m : SocketMessage),
    Returns (fun r => r.1 < 0) (MessageComplete bytes) (readMessageFromSocket m) bytes pieces := by
  intro h
  obtain ⟨n, r, hread, -⟩ := h [0, 0, 0, 4, 0, 0] (fun _ => 0) ⟨0, 0, []⟩
  have hhead : 8 ≤ 6 := (readMessageFromSocket_ok (moving_received _ n) hread).head
  exact absurd hhead (by decide)

end CrashMonkey.Communication
