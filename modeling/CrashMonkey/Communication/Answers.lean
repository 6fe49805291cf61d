import CrashMonkey.Communication.Closed
import CrashMonkey.Communication.ServerSocket

namespace CrashMonkey.Communication

open Transfer

variable {c c' : Conn}

/-- A first part of the data is sent, and all of it unless a call fails. -/
theorem sendBytes_made {data : List UInt8} (hpos : 0 < data.length) {ok : Bool}
    (h : sendBytes data c = .ok (ok, c')) : ∃ part, c'.bytes = c.bytes ++ part ∧
      (ok = true ∧ part = data ∨ ok = false ∧ part.length < data.length) := by
  obtain ⟨⟨ok', moved, rest, calls⟩, hloop, h⟩ := Transition.bind_eq_ok.mp h
  obtain ⟨hmoved, -, made, -, hok⟩ := loop_made hloop
  cases h
  refine ⟨moved, rfl, hok.imp (fun ⟨hok, hall, _⟩ => ⟨hok, ?_⟩)
    fun ⟨hok, hpart, _⟩ => ⟨hok, hpart hpos⟩⟩
  rw [hmoved, hall, List.take_length]

theorem recvBytes_made {n : ℕ} {d : Option (List UInt8)}
    (h : recvBytes n c = .ok (d, c')) : ∃ made, c.calls = made ++ c'.calls ∧
      (d = some (c.bytes.take n) ∧ n ≤ c.bytes.length ∧ c'.bytes = c.bytes.drop n ∧ .failed ∉ made ∨
        d = none ∧ .failed ∈ made) := by
  obtain ⟨⟨ok, moved, rest, calls⟩, hloop, h⟩ := Transition.bind_eq_ok.mp h
  obtain ⟨hmoved, hrest, made, hmade, hok⟩ := loop_made hloop
  cases h
  refine ⟨made, hmade, hok.imp (fun ⟨hok, hall, _, hno⟩ => ?_) fun ⟨hok, _, hfailed⟩ => ?_⟩
  · rw [hall] at hmoved hrest
    have hle : n ≤ c.bytes.length := by
      rw [← hall, hmoved, List.length_take]
      exact min_le_right _ _
    exact ⟨by rw [hok, if_pos rfl, hmoved], hle, hrest, hno⟩
  · exact ⟨by rw [hok, if_neg Bool.false_ne_true], hfailed⟩

theorem readIntFromSocket_made {d : Option (BitVec 32)} (h : readIntFromSocket c = .ok (d, c')) :
    ∃ made, c.calls = made ++ c'.calls ∧
      (d = some (word c.bytes) ∧ 4 ≤ c.bytes.length ∧ c'.bytes = c.bytes.drop 4 ∧ .failed ∉ made ∨
        d = none ∧ .failed ∈ made) := by
  obtain ⟨⟨d', c₁⟩, hrecv, h⟩ := Transition.bind_eq_ok.mp h
  obtain ⟨made, hmade, hd⟩ := recvBytes_made hrecv
  cases h
  refine ⟨made, hmade, hd.imp (fun ⟨hd, hle, hbytes, hno⟩ => ⟨?_, hle, hbytes, hno⟩)
    fun ⟨hd, hfailed⟩ => ⟨?_, hfailed⟩⟩
  · rw [hd]
    rfl
  · rw [hd]
    rfl

/-- The server sends an answer, or less than that and reports it. -/
theorem writeMessageToSocket_reply {command : CmCommand} (hne : command ≠ .kCheckpoint) {res : Int}
    (h : writeMessageToSocket ⟨command.code, 0, []⟩ c = .ok (res, c')) :
    ∃ part, c'.bytes = c.bytes ++ part ∧
      (res = 0 ∧ part = replyFrame command ∨ res < 0 ∧ part.length < 8) := by
  have hpos : ∀ x, 0 < (wireWord x).length := fun x => by simp
  obtain ⟨⟨ok, c₁⟩, htype, hrest⟩ := Transition.bind_eq_ok.mp h
  obtain ⟨part₁, hbytes₁, hok⟩ := sendBytes_made (hpos command.code) htype
  rcases hok with ⟨rfl, rfl⟩ | ⟨rfl, hpart⟩
  · have hsize : (writeIntToSocket 0 c₁ >>= fun r =>
        Except.ok ((if r.1 then 0 else -1 : Int), r.2)) = .ok (res, c') := by
      simp only [Bool.not_true, Bool.false_eq_true, if_false, CmCommand.ofCode_code] at hrest
      cases command <;> first | exact absurd rfl hne | exact hrest
    obtain ⟨⟨ok, c₂⟩, hsize, hrest⟩ := Transition.bind_eq_ok.mp hsize
    obtain ⟨part₂, hbytes₂, hok⟩ := sendBytes_made (hpos 0) hsize
    cases hrest
    refine ⟨wireWord command.code ++ part₂, by rw [hbytes₂, hbytes₁, List.append_assoc], ?_⟩
    rcases hok with ⟨rfl, rfl⟩ | ⟨rfl, hpart⟩
    · exact .inl ⟨by simp, rfl⟩
    · rw [wireWord_length] at hpart
      refine .inr ⟨by simp, ?_⟩
      rw [List.length_append, wireWord_length]
      omega
  · cases hrest
    rw [wireWord_length] at hpart
    exact ⟨part₁, hbytes₁, .inr ⟨by decide, by omega⟩⟩

/-- The client reads the first answer there is, unless a call fails. -/
theorem readMessageFromSocket_reply {answers : List CmCommand}
    (hanswers : ∀ command ∈ answers, command ≠ .kCheckpoint) {part : List UInt8}
    (hpart : part.length < 8) (hbytes : c.bytes = answers.flatMap replyFrame ++ part)
    {m r : SocketMessage} {res : Int} (h : readMessageFromSocket m c = .ok (res, r, c'))
    (hmade : c'.calls = []) :
    .failed ∈ c.calls ∧ res < 0 ∨
      .failed ∉ c.calls ∧ res = 0 ∧ ∃ command ∈ answers, r.type = command.code := by
  obtain ⟨⟨type, c₁⟩, htype, hrest⟩ := Transition.bind_eq_ok.mp h
  obtain ⟨made₁, hmade₁, hd⟩ := readIntFromSocket_made htype
  rcases hd with ⟨rfl, hle₁, hbytes₁, hno₁⟩ | ⟨rfl, hfailed⟩
  · obtain ⟨⟨size, c₂⟩, hsize, hrest⟩ := Transition.bind_eq_ok.mp hrest
    obtain ⟨made₂, hmade₂, hd⟩ := readIntFromSocket_made hsize
    rcases hd with ⟨rfl, hle₂, hbytes₂, hno₂⟩ | ⟨rfl, hfailed⟩
    · -- eight bytes are more than the part of an answer
      obtain _ | ⟨command, answers⟩ := answers
      · rw [List.flatMap_nil, List.nil_append] at hbytes
        rw [hbytes₁, hbytes, List.length_drop] at hle₂
        omega
      · have hne := hanswers command List.mem_cons_self
        rw [List.flatMap_cons, replyFrame, List.append_assoc, List.append_assoc] at hbytes
        have hword : word c.bytes = command.code := by rw [hbytes, word_wireWord]
        have hzero : word c₁.bytes = 0 := by
          rw [hbytes₁, hbytes, List.drop_left' (wireWord_length _), word_wireWord]
        rw [hword] at htype
        rw [hzero] at hsize
        rw [readMessageFromSocket_words htype hsize,
          readPayload_other (CmCommand.ofCode_code command) hne, if_neg (not_not.mpr rfl)] at h
        cases h
        refine .inr ⟨?_, rfl, command, List.mem_cons_self, rfl⟩
        rw [hmade₁, hmade₂, hmade]
        simp [hno₁, hno₂]
    · cases hrest
      refine .inl ⟨?_, by decide⟩
      rw [hmade₁, hmade₂]
      simp [hfailed]
  · cases hrest
    refine .inl ⟨?_, by decide⟩
    rw [hmade₁]
    simp [hfailed]

namespace ServerSocket

variable {s s' : ServerSocket} {connections connections' : List Connection} {e : SocketError}

/-- Only the connection of the client changes, and it does so if there is no error. -/
theorem sendCommand_made {command : CmCommand} (hne : command ≠ .kCheckpoint)
    (h : s.sendCommand command connections = .ok (e, connections')) :
    connections' = connections ∧ e ≠ .kNone ∨
      ∃ i x outgoing part, s.clientSocket = some i ∧ connections[i]? = some x ∧
        connections' = connections.set i { x with outgoing } ∧
        outgoing.bytes = x.outgoing.bytes ++ part ∧
        (e = .kNone ∧ part = replyFrame command ∨ e ≠ .kNone ∧ part.length < 8) := by
  unfold sendCommand sendMessage at h
  split_ifs at h
  · cases h
    exact .inl ⟨rfl, nofun⟩
  · cases hi : s.clientSocket with
    | none =>
      rw [hi] at h
      cases h
      exact .inl ⟨rfl, nofun⟩
    | some i =>
      cases hx : connections[i]? with
      | none =>
        simp only [hi, hx] at h
        cases h
        exact .inl ⟨rfl, nofun⟩
      | some x =>
        simp only [hi, hx] at h
        obtain ⟨⟨res, outgoing⟩, hwrite, h⟩ := Transition.bind_eq_ok.mp h
        cases h
        obtain ⟨part, hbytes, hres⟩ := writeMessageToSocket_reply hne hwrite
        refine .inr ⟨i, x, outgoing, part, rfl, hx, rfl, hbytes, ?_⟩
        rcases hres with ⟨rfl, hpart⟩ | ⟨hres, hpart⟩
        · exact .inl ⟨rfl, hpart⟩
        · rw [if_pos hres]
          exact .inr ⟨nofun, hpart⟩

/-- A client that is accepted is the last one, and nothing was written to it. -/
theorem waitForMessage_made {m r : SocketMessage} {accepted : Option Client}
    (h : s.waitForMessage m accepted connections = .ok (e, r, s', connections')) :
    connections' = connections ∧ e ≠ .kNone ∨
      s' = { s with clientSocket := some connections.length } ∧
        ∃ x : Connection, x.outgoing.bytes = [] ∧ connections' = connections ++ [x] := by
  unfold waitForMessage at h
  split_ifs at h with hclient hserver
  · cases h
    exact .inl ⟨rfl, nofun⟩
  · cases accepted with
    | none =>
      cases h
      exact .inl ⟨rfl, nofun⟩
    | some p =>
      obtain ⟨⟨res, r', incoming⟩, -, h⟩ := Transition.bind_eq_ok.mp h
      cases h
      exact .inr ⟨rfl, { p.connect with incoming }, rfl, rfl⟩
  · cases h
    exact .inl ⟨rfl, nofun⟩

end ServerSocket

end CrashMonkey.Communication
