import Mathlib.Data.List.Perm.Subperm
import Mathlib.Data.Nat.Factorial.Basic
import Mathlib.Tactic

/-!
# Arrangements

The ways to take `n` elements of a list one after another, without putting them back.
-/

namespace Arrangements

variable {α : Type*} [DecidableEq α]

def arrangements : ℕ → List α → List (List α)
  | 0, _ => [[]]
  | n + 1, l => l.flatMap fun a => (arrangements n (l.erase a)).map (a :: ·)

theorem cons_subperm_iff {a : α} {p l : List α} :
    (a :: p).Subperm l ↔ a ∈ l ∧ p.Subperm (l.erase a) := by
  constructor
  · intro h
    have hmem : a ∈ l := h.subset List.mem_cons_self
    have hperm := List.perm_cons_erase hmem
    exact ⟨hmem, (List.subperm_cons a).mp (hperm.subperm_left.mp h)⟩
  · rintro ⟨hmem, h⟩
    apply (List.perm_cons_erase hmem).subperm_left.mpr
    exact (List.subperm_cons a).mpr h

theorem mem_arrangements {n : ℕ} {l p : List α} :
    p ∈ arrangements n l ↔ p.length = n ∧ p.Subperm l := by
  induction n generalizing l p with
  | zero =>
    rw [arrangements, List.mem_singleton, List.length_eq_zero_iff]
    exact ⟨fun h => ⟨h, h ▸ List.nil_subperm⟩, And.left⟩
  | succ n ih =>
    rw [arrangements, List.mem_flatMap]
    constructor
    · rintro ⟨a, ha, hp⟩
      obtain ⟨q, hq, rfl⟩ := List.mem_map.mp hp
      obtain ⟨hlen, hsub⟩ := ih.mp hq
      exact ⟨by rw [List.length_cons, hlen], cons_subperm_iff.mpr ⟨ha, hsub⟩⟩
    · rintro ⟨hlen, hsub⟩
      cases p with
      | nil => cases hlen
      | cons a q =>
        obtain ⟨ha, hq⟩ := cons_subperm_iff.mp hsub
        refine ⟨a, ha, List.mem_map_of_mem (ih.mpr ⟨?_, hq⟩)⟩
        rw [List.length_cons] at hlen
        omega

/-- No arrangement is counted twice. -/
theorem nodup_arrangements {l : List α} (h : l.Nodup) (n : ℕ) : (arrangements n l).Nodup := by
  induction n generalizing l with
  | zero => exact List.nodup_singleton _
  | succ n ih =>
    rw [arrangements, List.nodup_flatMap]
    constructor
    · intro a _
      apply (ih (h.erase a)).map
      exact List.cons_injective
    · apply h.imp
      intro a b hab p ha hb
      obtain ⟨q, -, rfl⟩ := List.mem_map.mp ha
      obtain ⟨q', -, heq⟩ := List.mem_map.mp hb
      exact hab (List.cons.inj heq).1.symm

theorem length_arrangements (n : ℕ) (l : List α) :
    (arrangements n l).length = l.length.descFactorial n := by
  induction n generalizing l with
  | zero => rfl
  | succ n ih =>
    have hconst : ∀ a ∈ l, ((arrangements n (l.erase a)).map (a :: ·)).length =
        (l.length - 1).descFactorial n := by
      intro a ha
      rw [List.length_map, ih, List.length_erase_of_mem ha]
    rw [arrangements, List.length_flatMap, List.map_congr_left hconst, List.map_const',
      List.sum_replicate, smul_eq_mul]
    cases l.length with
    | zero => rw [Nat.zero_mul, Nat.zero_descFactorial_succ]
    | succ k => rw [Nat.succ_descFactorial_succ, Nat.add_sub_cancel]

end Arrangements
