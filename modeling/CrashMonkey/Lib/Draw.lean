import Mathlib.Data.List.GetD
import Mathlib.Data.List.Perm.Subperm
import Mathlib.Data.Stream.Init
import Mathlib.Tactic

/-!
# Draws without replacement

A stream of natural numbers stands for a random generator. `uniform a b` turns
its next number into a value of `[a, b]`; every value is reached by some number,
so a statement about all streams is one about all outcomes.
-/

namespace Draw
open List

section Run

variable {σ α β : Type}

theorem stateT_bind (x : StateT σ Option α) (f : α → StateT σ Option β) (s : σ) :
    (x >>= f) s = (x s).bind fun p => f p.1 p.2 := rfl

theorem stateT_pure (a : α) (s : σ) : (pure a : StateT σ Option α) s = some (a, s) := rfl

theorem stateT_lift (a : α) (s : σ) :
    (liftM (some a) : StateT σ Option α) s = some (a, s) := rfl

theorem stateT_guard {p : Prop} [Decidable p] (h : p) (s : σ) :
    (guard p : StateT σ Option Unit) s = some ((), s) := by
  rw [guard, if_pos h]
  rfl

end Run

variable {α : Type*}

/-- A uniform draw from `[a, b]`; there is none when `b < a`. -/
def uniform (a b : ℕ) : StateT (Stream' ℕ) Option ℕ := fun r =>
  if a ≤ b then some (a + r.head % (b - a + 1), r.tail) else none

theorem uniform_run {a b : ℕ} (h : a ≤ b) (r : Stream' ℕ) :
    uniform a b r = some (a + r.head % (b - a + 1), r.tail) := if_pos h

theorem uniform_run_mem {a b x : ℕ} {r r' : Stream' ℕ} (h : uniform a b r = some (x, r')) :
    a ≤ x ∧ x ≤ b := by
  unfold uniform at h
  split_ifs at h with hab
  have hx : a + r.head % (b - a + 1) = x := by simpa using congrArg (Option.map Prod.fst) h
  have hlt : r.head % (b - a + 1) < b - a + 1 := Nat.mod_lt _ (Nat.succ_pos _)
  omega

/-- Every value of the range is drawn. -/
theorem uniform_cons {a b x : ℕ} (ha : a ≤ x) (hb : x ≤ b) (r : Stream' ℕ) :
    uniform a b (Stream'.cons (x - a) r) = some (x, r) := by
  rw [uniform_run (ha.trans hb), Stream'.head_cons, Stream'.tail_cons,
    Nat.mod_eq_of_lt (by omega), Nat.add_sub_cancel' ha]

/-- `n` elements of the list, one by one and each removed once it is drawn; fewer
if the list runs out. -/
def pick : ℕ → List α → Stream' ℕ → List α × Stream' ℕ
  | 0, _, r => ([], r)
  | _ + 1, [], r => ([], r)
  | n + 1, a :: l, r =>
    let k := r.head % (l.length + 1)
    let rest := pick n ((a :: l).eraseIdx k) r.tail
    ((a :: l).getD k a :: rest.1, rest.2)

theorem pick_length (n : ℕ) (l : List α) (r : Stream' ℕ) :
    (pick n l r).1.length = min n l.length := by
  induction n generalizing l r with
  | zero => simp [pick]
  | succ n ih =>
    cases l with
    | nil => simp [pick]
    | cons a l =>
      have hk : r.head % (l.length + 1) < l.length + 1 := Nat.mod_lt _ (Nat.succ_pos _)
      simp only [pick, List.length_cons, ih, List.length_eraseIdx]
      rw [if_pos hk]
      omega

theorem pick_subperm (n : ℕ) (l : List α) (r : Stream' ℕ) : (pick n l r).1 <+~ l := by
  induction n generalizing l r with
  | zero => exact List.nil_subperm
  | succ n ih =>
    cases l with
    | nil => exact List.nil_subperm
    | cons a l =>
      have hk : r.head % (l.length + 1) < (a :: l).length := Nat.mod_lt _ (Nat.succ_pos _)
      simp only [pick]
      rw [List.getD_eq_getElem _ _ hk]
      have hrest := ih ((a :: l).eraseIdx (r.head % (l.length + 1))) r.tail
      exact ((List.subperm_cons _).mpr hrest).trans (List.getElem_cons_eraseIdx_perm hk).subperm

theorem pick_nodup {l : List α} (h : l.Nodup) (n : ℕ) (r : Stream' ℕ) :
    (pick n l r).1.Nodup := by
  obtain ⟨s, hperm, hsub⟩ := pick_subperm n l r
  exact hperm.nodup_iff.mp (h.sublist hsub)

/-- Every arrangement of a part of the list is drawn, and every arrangement of the
whole list also when more is asked for. -/
theorem exists_pick {p l : List α} {n : ℕ} (h : p <+~ l) (hn : p.length = min n l.length) :
    ∃ xs : List ℕ, ∀ r, pick n l (xs ++ₛ r) = (p, r) := by
  induction p generalizing l n with
  | nil =>
    refine ⟨[], fun r => ?_⟩
    cases n with
    | zero => simp [pick]
    | succ n =>
      cases l with
      | nil => simp [pick]
      | cons a l => simp at hn
  | cons b p ih =>
    obtain ⟨k, hk, hb⟩ := List.getElem_of_mem (h.subset List.mem_cons_self)
    cases l with
    | nil => simp at hk
    | cons a l =>
      cases n with
      | zero => simp at hn
      | succ n =>
        have hperm := List.getElem_cons_eraseIdx_perm hk
        rw [hb] at hperm
        have hp : p <+~ (a :: l).eraseIdx k :=
          (List.subperm_cons b).mp (h.trans hperm.symm.subperm)
        have hlen := List.length_eraseIdx_of_lt hk
        simp only [List.length_cons] at hn hlen
        obtain ⟨xs, hxs⟩ := ih (n := n) hp (by omega)
        refine ⟨k :: xs, fun r => ?_⟩
        have hmod : k % (l.length + 1) = k := Nat.mod_eq_of_lt (by simpa using hk)
        rw [Stream'.cons_append_stream]
        simp only [pick, Stream'.head_cons, Stream'.tail_cons, hmod, hxs]
        rw [List.getD_eq_getElem _ _ hk, hb]

end Draw
