import CrashMonkey.Lib.Transition
import Mathlib.Tactic

/-!
# Transfers in pieces

A loop that asks a system call for all that is still missing, until nothing is. How much
a call moves is up to the system, so a run is given the results of the calls.
-/

namespace Transfer

variable {α : Type*}

/-- What one call reports: an error, or that at most `n` elements were moved. -/
inductive Call where
  | failed
  | moved (n : ℕ)
deriving DecidableEq, Repr

/-- How a computation in memory can stop short: it waits for a call, its counter
overflows, or it leaves its buffer. -/
inductive Fault where
  | waiting
  | overflow
  | overrun
deriving DecidableEq, Repr

/-- The loop, with `left` elements of `src` to go and `count` moved so far, in a counter
that stays below `limit`. Returns whether no call failed, what was moved, the rest of
the source and the calls not made. -/
def loop (limit : ℕ) : List Call → ℕ → ℕ → List α →
    Except Fault (Bool × List α × List α × List Call)
  | [], _, _, _ => .error .waiting
  | .failed :: calls, _, _, src => .ok (false, [], src, calls)
  | .moved n :: calls, left, count, src =>
    let res := min n (min left src.length)
    if limit ≤ count + res then .error .overflow
    else if left ≤ res then .ok (true, src.take res, src.drop res, calls)
    else do
      let (ok, moved, rest, calls) ← loop limit calls (left - res) (count + res) (src.drop res)
      return (ok, src.take res ++ moved, rest, calls)

/-- No call fails, and each one moves something. -/
def Moving (calls : List Call) : Prop := ∀ c ∈ calls, ∃ n, c = .moved (n + 1)

theorem Moving.tail {c : Call} {calls : List Call} (h : Moving (c :: calls)) : Moving calls :=
  fun d hd => h d (List.mem_cons_of_mem c hd)

def callsFor (left : ℕ) : ℕ := max left 1

/-- A source that has enough is moved to the end, whatever the pieces are. -/
theorem loop_eq {limit : ℕ} {calls : List Call} (hcalls : Moving calls) {left count : ℕ}
    {src : List α} (hsrc : left ≤ src.length) (hlimit : count + left < limit) {more : ℕ}
    (hlen : callsFor left + more ≤ calls.length) :
    ∃ rest, Moving rest ∧ more ≤ rest.length ∧
      loop limit calls left count src = .ok (true, src.take left, src.drop left, rest) := by
  induction calls generalizing left count src with
  | nil =>
    have : 1 ≤ callsFor left := le_max_right left 1
    simp only [List.length_nil] at hlen
    omega
  | cons c calls ih =>
    obtain ⟨n, rfl⟩ := hcalls c List.mem_cons_self
    simp only [callsFor, List.length_cons] at hlen
    have hres : min (n + 1) (min left src.length) = min (n + 1) left := by omega
    rw [loop, hres, if_neg (by omega)]
    by_cases hdone : left ≤ min (n + 1) left
    · -- the last piece
      have hall : min (n + 1) left = left := by omega
      rw [if_pos hdone, hall]
      exact ⟨calls, hcalls.tail, by omega, rfl⟩
    · have hpiece : min (n + 1) left = n + 1 := by omega
      rw [if_neg hdone, hpiece]
      -- the loop goes on with the rest
      have hrest : left - (n + 1) ≤ (src.drop (n + 1)).length := by
        rw [List.length_drop]
        omega
      have hcount : count + (n + 1) + (left - (n + 1)) < limit := by omega
      obtain ⟨rest, hmoving, hmore, hloop⟩ := ih hcalls.tail hrest hcount
        (by rw [callsFor]; omega)
      refine ⟨rest, hmoving, hmore, ?_⟩
      have htake : src.take (n + 1) ++ (src.drop (n + 1)).take (left - (n + 1)) = src.take left := by
        rw [← List.take_add, Nat.add_sub_cancel' (by omega)]
      have hdrop : (src.drop (n + 1)).drop (left - (n + 1)) = src.drop left := by
        rw [List.drop_drop, Nat.add_sub_cancel' (by omega)]
      rw [hloop, htake.symm, hdrop]
      rfl

/-- A loop that comes to an end has moved a first part of the source; that is all it was to
move, if none of the calls it made has failed. -/
theorem loop_made {limit : ℕ} {calls calls' : List Call} {left count : ℕ} {src moved rest : List α}
    {ok : Bool} (h : loop limit calls left count src = .ok (ok, moved, rest, calls')) :
    moved = src.take moved.length ∧ rest = src.drop moved.length ∧
      ∃ made, calls = made ++ calls' ∧
        (ok = true ∧ moved.length = left ∧ count + left < limit ∧ .failed ∉ made ∨
          ok = false ∧ (0 < left → moved.length < left) ∧ .failed ∈ made) := by
  induction calls generalizing left count src moved with
  | nil => cases h
  | cons c calls ih =>
    cases c with
    | failed =>
      cases h
      exact ⟨rfl, rfl, [.failed], rfl, .inr ⟨rfl, id, List.mem_singleton_self _⟩⟩
    | moved n =>
      simp only [loop] at h
      obtain ⟨res, hres⟩ : ∃ res, min n (min left src.length) = res := ⟨_, rfl⟩
      rw [hres] at h
      have hlen : (src.take res).length = res := by
        rw [List.length_take]
        omega
      split_ifs at h with hlimit hdone
      · cases h
        rw [hlen]
        exact ⟨rfl, rfl, [.moved n], rfl, .inl ⟨rfl, by omega, by omega, by simp⟩⟩
      · obtain ⟨⟨ok', moved', rest', calls''⟩, hloop, h⟩ := Transition.bind_eq_ok.mp h
        simp only [pure, Except.pure, Except.ok.injEq, Prod.mk.injEq] at h
        obtain ⟨rfl, rfl, rfl, rfl⟩ := h
        obtain ⟨hmoved, hrest, made, hmade, hok⟩ := ih hloop
        rw [List.length_append, hlen]
        refine ⟨?_, ?_, .moved n :: made, congrArg _ hmade, ?_⟩
        · rw [List.take_add, ← hmoved]
        · rw [← List.drop_drop, ← hrest]
        · refine hok.imp (fun ⟨hok, hall, hcount, hno⟩ => ⟨hok, by omega, by omega, ?_⟩)
            fun ⟨hok, hpart, hfailed⟩ => ⟨hok, by omega, List.mem_cons_of_mem _ hfailed⟩
          simpa using hno

theorem Moving.failed_not_mem {calls : List Call} (h : Moving calls) : .failed ∉ calls := by
  intro hfailed
  obtain ⟨n, hn⟩ := h _ hfailed
  cases hn

/-- A transfer that comes to an end has moved all there was to move, and nothing else. -/
theorem loop_ok {limit : ℕ} {calls calls' : List Call} (hcalls : Moving calls) {left count : ℕ}
    {src moved rest : List α} {ok : Bool}
    (h : loop limit calls left count src = .ok (ok, moved, rest, calls')) :
    ok = true ∧ left ≤ src.length ∧ moved = src.take left ∧ rest = src.drop left ∧
      Moving calls' ∧ count + left < limit := by
  obtain ⟨hmoved, hrest, made, rfl, hok⟩ := loop_made h
  have hno : .failed ∉ made := fun hfailed =>
    hcalls.failed_not_mem (List.mem_append_left calls' hfailed)
  obtain ⟨hok, hall, hcount, -⟩ := hok.resolve_right fun hfailed => hno hfailed.2.2
  have hle : left ≤ src.length := by
    rw [← hall, hmoved, List.length_take]
    exact min_le_right _ _
  rw [hall] at hmoved hrest
  exact ⟨hok, hle, hmoved, hrest, fun c hc => hcalls c (List.mem_append_right made hc), hcount⟩

def first (calls : ℕ → Call) (n : ℕ) : List Call := (List.range n).map calls

def later (calls : ℕ → Call) : ℕ → Call := fun i => calls (i + 1)

theorem first_succ (calls : ℕ → Call) (n : ℕ) :
    first calls (n + 1) = calls 0 :: first (later calls) n := by
  rw [first, List.range_succ_eq_map, List.map_cons, List.map_map]
  rfl

@[simp] theorem first_length (calls : ℕ → Call) (n : ℕ) : (first calls n).length = n := by
  simp [first]

/-- No call fails before `left` elements were moved. -/
inductive Delivers : (ℕ → Call) → ℕ → Prop
  | done (calls : ℕ → Call) : Delivers calls 0
  | moved {calls : ℕ → Call} {left n : ℕ} : calls 0 = .moved n →
      Delivers (later calls) (left - n) → Delivers calls left

theorem delivers_of_le {calls : ℕ → Call} {left n : ℕ} (hcall : calls 0 = .moved n)
    (h : left ≤ n) : Delivers calls left :=
  .moved hcall (Nat.sub_eq_zero_of_le h ▸ .done _)

theorem not_delivers_of_failed {calls : ℕ → Call} (hcall : calls 0 = .failed) {left : ℕ}
    (hpos : 0 < left) : ¬ Delivers calls left := by
  intro h
  cases h with
  | done => exact absurd hpos (lt_irrefl 0)
  | moved hmoved => cases hcall.symm.trans hmoved

/-- From a source that has enough all is moved. -/
theorem Delivers.exists_loop {limit : ℕ} {calls : ℕ → Call} {left : ℕ} (h : Delivers calls left)
    (hpos : 0 < left) {count : ℕ} {src : List α} (hsrc : left ≤ src.length)
    (hlimit : count + left < limit) : ∃ n rest calls',
      loop limit (first calls n) left count src = .ok (true, src.take left, rest, calls') := by
  induction h generalizing count src with
  | done => exact absurd hpos (lt_irrefl 0)
  | @moved calls left n hcall _ ih =>
    have hres : min n (min left src.length) = min n left := by omega
    by_cases hdone : left ≤ n
    · refine ⟨1, src.drop left, [], ?_⟩
      rw [first_succ, hcall, loop, hres, min_eq_right hdone, if_neg (by omega), if_pos le_rfl]
      rfl
    · have hdrop : left - n ≤ (src.drop n).length := by
        rw [List.length_drop]
        omega
      have hcount : count + n + (left - n) < limit := by omega
      obtain ⟨m, rest, calls', hloop⟩ := ih (by omega) hdrop hcount
      refine ⟨m + 1, rest, calls', ?_⟩
      have hpiece : min n left = n := by omega
      rw [first_succ, hcall, loop, hres, hpiece, if_neg (by omega), if_neg hdone, hloop]
      have htake : src.take n ++ (src.drop n).take (left - n) = src.take left := by
        rw [← List.take_add, Nat.add_sub_cancel' (by omega)]
      rw [← htake]
      rfl

/-- A call that fails ends the loop, if nothing else has. -/
theorem exists_loop_of_failed {limit : ℕ} {calls : ℕ → Call} {f : ℕ} (hf : calls f = .failed)
    {left count : ℕ} (src : List α) (hlimit : count + left < limit) :
    ∃ n r, loop limit (first calls n) left count src = .ok r := by
  induction f generalizing calls left count src with
  | zero => exact ⟨1, _, by rw [first_succ, hf]; rfl⟩
  | succ f ih =>
    cases hcall : calls 0 with
    | failed => exact ⟨1, _, by rw [first_succ, hcall]; rfl⟩
    | moved n =>
      by_cases hdone : left ≤ min n (min left src.length)
      · exact ⟨1, _, by rw [first_succ, hcall, loop, if_neg (by omega), if_pos hdone]⟩
      · have hlater : later calls f = .failed := hf
        have hcount : count + min n (min left src.length) + (left - min n (min left src.length)) <
            limit := by omega
        obtain ⟨m, r, hloop⟩ := ih hlater (src.drop (min n (min left src.length))) hcount
        exact ⟨m + 1, _, by rw [first_succ, hcall, loop, if_neg (by omega), if_neg hdone, hloop]; rfl⟩

/-- A loop that ends has moved everything, or a call has failed before. -/
theorem loop_first_ok {limit : ℕ} {calls : ℕ → Call} {n left count : ℕ} {src moved rest : List α}
    {ok : Bool} {calls' : List Call} (hpos : 0 < left)
    (h : loop limit (first calls n) left count src = .ok (ok, moved, rest, calls')) :
    (Delivers calls left ∧ left ≤ src.length ∧ moved = src.take left) ∨
      (∃ f, calls f = .failed) ∧ moved.length < left := by
  induction n generalizing calls left count src moved with
  | zero => cases h
  | succ n ih =>
    rw [first_succ] at h
    cases hcall : calls 0 with
    | failed =>
      rw [hcall] at h
      cases h
      exact .inr ⟨⟨0, hcall⟩, hpos⟩
    | moved m =>
      rw [hcall, loop] at h
      obtain ⟨res, hres⟩ : ∃ res, min m (min left src.length) = res := ⟨_, rfl⟩
      simp only [hres] at h
      split_ifs at h with hlimit hdone
      · cases h
        refine .inl ⟨delivers_of_le hcall (by omega), by omega, ?_⟩
        rw [show res = left by omega]
      · obtain ⟨⟨ok', moved', rest', calls''⟩, hloop, h⟩ := Transition.bind_eq_ok.mp h
        cases h
        rcases ih (by omega) hloop with ⟨hdelivers, hle, rfl⟩ | ⟨⟨f, hf⟩, hlen⟩
        · rw [List.length_drop] at hle
          have hm : res = m := by omega
          rw [hm] at hdelivers ⊢
          refine .inl ⟨.moved hcall hdelivers, by omega, ?_⟩
          rw [← List.take_add, Nat.add_sub_cancel' (by omega)]
        · refine .inr ⟨⟨f + 1, hf⟩, ?_⟩
          simp only [List.length_append, List.length_take]
          omega

end Transfer
