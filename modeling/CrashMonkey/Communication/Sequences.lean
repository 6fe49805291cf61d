import CrashMonkey.Communication.RoundTrip

namespace CrashMonkey.Communication

open Transfer

def writeMessages : List SocketMessage → Conn → Except Fault (List (Int × List UInt8) × Conn)
  | [], c => .ok ([], c)
  | m :: ms, c => do
    let (res, c₁) ← writeMessageToSocket m c
    let (writes, c₂) ← writeMessages ms c₁
    return ((res, c₁.bytes) :: writes, c₂)

def readMessages : ℕ → SocketMessage → Conn →
    Except Fault (List (Int × SocketMessage × List UInt8) × Conn)
  | 0, _, c => .ok ([], c)
  | n + 1, m, c => do
    let (res, r, c₁) ← readMessageFromSocket m c
    let (reads, c₂) ← readMessages n r c₁
    return ((res, r, c₁.bytes) :: reads, c₂)

def sentAfter : List UInt8 → List (List UInt8) → List (List UInt8)
  | _, [] => []
  | sent, f :: fs => (sent ++ f) :: sentAfter (sent ++ f) fs

def leftAfter : List (List UInt8) → List (List UInt8)
  | [] => []
  | _ :: fs => fs.flatten :: leftAfter fs

/-- For some frames, one for each message: each write sends its frame and each read takes
it, and what is read agrees with what was written, in whatever pieces the bytes move. -/
def RoundTrips (ms : List SocketMessage) : Prop :=
  ∃ (frames : List (List UInt8)) (enough : ℕ), frames.length = ms.length ∧
    (∀ calls, Moving calls → enough ≤ calls.length → ∃ c,
      writeMessages ms ⟨[], calls⟩ = .ok ((sentAfter [] frames).map ((0 : Int), ·), c)) ∧
    ∀ calls old, Moving calls → enough ≤ calls.length → ∃ reads c,
      readMessages ms.length old ⟨frames.flatten, calls⟩ = .ok (reads, c) ∧
      List.Forall₂ Agrees ms (reads.map fun x => x.2.1) ∧
      reads.map (fun x => (x.1, x.2.2)) = (leftAfter frames).map ((0 : Int), ·)

theorem writeMessages_eq {ms : List SocketMessage} (hms : ∀ m ∈ ms, Valid m)
    (hfits : ∀ m ∈ ms, Fits m) {c : Conn} (hcalls : Moving c.calls)
    (hlen : (ms.map frame).flatten.length ≤ c.calls.length) :
    ∃ c', writeMessages ms c = .ok ((sentAfter c.bytes (ms.map frame)).map ((0 : Int), ·), c') := by
  induction ms generalizing c with
  | nil => exact ⟨c, rfl⟩
  | cons m ms ih =>
    obtain ⟨hm, hms⟩ := List.forall_mem_cons.mp hms
    obtain ⟨hfit, hfits⟩ := List.forall_mem_cons.mp hfits
    rw [List.map_cons, List.flatten_cons, List.length_append] at hlen
    obtain ⟨calls, hmoving, hmore, hwrite⟩ := writeMessageToSocket_eq hm hfit hcalls hlen
    obtain ⟨c', hrest⟩ := ih hms hfits (c := ⟨c.bytes ++ frame m, calls⟩) hmoving hmore
    exact ⟨c', Transition.bind_eq_ok.mpr ⟨_, hwrite, Transition.bind_eq_ok.mpr ⟨_, hrest, rfl⟩⟩⟩

theorem readMessages_eq {ms : List SocketMessage} (hms : ∀ m ∈ ms, Valid m)
    (hfits : ∀ m ∈ ms, Fits m) (old : SocketMessage) {c : Conn}
    (hbytes : c.bytes = (ms.map frame).flatten) (hcalls : Moving c.calls)
    (hlen : (ms.map frame).flatten.length ≤ c.calls.length) :
    ∃ reads c', readMessages ms.length old c = .ok (reads, c') ∧
      List.Forall₂ Agrees ms (reads.map fun x => x.2.1) ∧
      reads.map (fun x => (x.1, x.2.2)) = (leftAfter (ms.map frame)).map ((0 : Int), ·) := by
  induction ms generalizing old c with
  | nil => exact ⟨[], c, rfl, .nil, rfl⟩
  | cons m ms ih =>
    obtain ⟨hm, hms⟩ := List.forall_mem_cons.mp hms
    obtain ⟨hfit, hfits⟩ := List.forall_mem_cons.mp hfits
    rw [List.map_cons, List.flatten_cons] at hbytes
    rw [List.map_cons, List.flatten_cons, List.length_append] at hlen
    obtain ⟨r, calls, hagrees, hmoving, hmore, hread⟩ :=
      readMessageFromSocket_eq hm hfit old hbytes hcalls hlen
    obtain ⟨reads, c', hrest, hall, hleft⟩ := ih hms hfits r (c := ⟨_, calls⟩) rfl hmoving hmore
    refine ⟨(0, r, (ms.map frame).flatten) :: reads, c', ?_, .cons hagrees hall, ?_⟩
    · exact Transition.bind_eq_ok.mpr ⟨_, hread, Transition.bind_eq_ok.mpr ⟨_, hrest, rfl⟩⟩
    · rw [List.map_cons, hleft]
      rfl

/-- A checkpoint that is written without leaving the buffer fits. -/
theorem fits_of_write {m : SocketMessage} (hm : Valid m) {c c' : Conn}
    (h : writeMessageToSocket m c = .ok (0, c')) : Fits m := by
  intro hcheckpoint
  by_contra hnot
  have hoverrun := writeStringToSocket_overrun (hm.string hcheckpoint) hnot
  obtain ⟨⟨ok, c₁⟩, -, h⟩ := Transition.bind_eq_ok.mp h
  cases ok with
  | false =>
    -- a result of -1
    simp only [Bool.not_false, if_true] at h
    cases h
  | true =>
    simp only [Bool.not_true, Bool.false_eq_true, if_false, hcheckpoint, hoverrun c₁] at h
    cases h

theorem fits_of_writes {ms : List SocketMessage} (hms : ∀ m ∈ ms, Valid m) {c c' : Conn}
    {sents : List (List UInt8)}
    (h : writeMessages ms c = .ok (sents.map ((0 : Int), ·), c')) : ∀ m ∈ ms, Fits m := by
  induction ms generalizing c sents with
  | nil => simp
  | cons m ms ih =>
    obtain ⟨hm, hms⟩ := List.forall_mem_cons.mp hms
    obtain ⟨⟨res, c₁⟩, hwrite, h⟩ := Transition.bind_eq_ok.mp h
    obtain ⟨⟨writes, c₂⟩, hrest, h⟩ := Transition.bind_eq_ok.mp h
    cases sents with
    | nil => cases h
    | cons sent sents =>
      cases h
      exact List.forall_mem_cons.mpr ⟨fits_of_write hm hwrite, ih hms hrest⟩

/-- The messages come through exactly if every checkpoint string can be sent. -/
theorem roundTrips_iff {ms : List SocketMessage} (hms : ∀ m ∈ ms, Valid m) :
    RoundTrips ms ↔ ∀ m ∈ ms, Fits m := by
  constructor
  · rintro ⟨frames, enough, -, hwrite, -⟩
    have hcalls : Moving (List.replicate enough (.moved 1)) := fun call hcall =>
      ⟨0, List.eq_of_mem_replicate hcall⟩
    obtain ⟨c, hwrite⟩ := hwrite _ hcalls (by simp)
    exact fits_of_writes hms hwrite
  · intro hfits
    refine ⟨ms.map frame, (ms.map frame).flatten.length, List.length_map _, ?_, ?_⟩
    · intro calls hcalls hlen
      exact writeMessages_eq hms hfits (c := ⟨[], calls⟩) hcalls hlen
    · intro calls old hcalls hlen
      exact readMessages_eq hms hfits old (c := ⟨_, calls⟩) rfl hcalls hlen

def checkpointMessages : List SocketMessage :=
  [⟨CmCommand.kCheckpoint.code, 0, [97, 98]⟩, ⟨CmCommand.kCheckpointDone.code, 0, []⟩]

theorem roundTrips_checkpointMessages : (∀ m ∈ checkpointMessages, Valid m) ∧
    (RoundTrips checkpointMessages ↔ ∀ m ∈ checkpointMessages, Fits m) := by
  have hms : ∀ m ∈ checkpointMessages, Valid m := by
    intro m hm
    simp only [checkpointMessages, List.mem_cons, List.not_mem_nil, or_false] at hm
    rcases hm with rfl | rfl
    · exact ⟨⟨.kCheckpoint, by decide⟩, fun _ => by decide⟩
    · exact ⟨⟨.kCheckpointDone, by decide⟩, fun _ => by decide⟩
  exact ⟨hms, roundTrips_iff hms⟩

def namelessCheckpoint : SocketMessage := ⟨CmCommand.kCheckpoint.code, 0, []⟩

theorem not_roundTrips_nameless : Valid namelessCheckpoint ∧ ¬ RoundTrips [namelessCheckpoint] := by
  refine ⟨⟨⟨.kCheckpoint, by decide⟩, fun _ => by decide⟩, ?_⟩
  rintro ⟨frames, enough, -, hwrite, -⟩
  have hcalls : Moving (List.replicate enough (.moved 1)) := fun call hcall =>
    ⟨0, List.eq_of_mem_replicate hcall⟩
  obtain ⟨c, hwrite⟩ := hwrite _ hcalls (by simp)
  have hvalid : ∀ m ∈ [namelessCheckpoint], Valid m := by
    intro m hm
    rw [List.mem_singleton.mp hm]
    exact ⟨⟨.kCheckpoint, by decide⟩, fun _ => by decide⟩
  have hfits := fits_of_writes hvalid hwrite namelessCheckpoint List.mem_cons_self
  exact absurd (hfits (by decide)).1 (by decide)

end CrashMonkey.Communication
