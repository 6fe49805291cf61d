import Mathlib.Data.List.Perm.Basic
import Mathlib.Tactic.SplitIfs

/-!
# Overlaying byte ranges

An image maps positions to values. A range write replaces the values of one range
and keeps all others; writes of disjoint ranges commute, in any number.
-/

namespace Image

variable {α β : Type*}

/-- The image with `src 0, …, src (n - 1)` from `start` on. -/
def overlay (img : ℕ → α) (start n : ℕ) (src : ℕ → α) : ℕ → α := fun b =>
  if start ≤ b ∧ b < start + n then src (b - start) else img b

theorem overlay_of_mem {img : ℕ → α} {start n : ℕ} {src : ℕ → α} {b : ℕ}
    (h : start ≤ b ∧ b < start + n) : overlay img start n src b = src (b - start) := if_pos h

theorem overlay_of_not_mem {img : ℕ → α} {start n : ℕ} {src : ℕ → α} {b : ℕ}
    (h : ¬ (start ≤ b ∧ b < start + n)) : overlay img start n src b = img b := if_neg h

/-- Outside of the range only the value at the position counts. -/
theorem overlay_congr {img img' : ℕ → α} {start n : ℕ} (src : ℕ → α) {b : ℕ}
    (h : (start ≤ b ∧ b < start + n) ∨ img b = img' b) :
    overlay img start n src b = overlay img' start n src b := by
  unfold overlay
  split_ifs with hb
  · rfl
  · exact h.resolve_left hb

@[simp] theorem overlay_zero (img : ℕ → α) (start : ℕ) (src : ℕ → α) :
    overlay img start 0 src = img := by
  funext b
  exact overlay_of_not_mem (by omega)

theorem overlay_inj {img : ℕ → α} {start n : ℕ} {f g : ℕ → α} :
    overlay img start n f = overlay img start n g ↔ ∀ i, i < n → f i = g i := by
  constructor
  · intro h i hi
    have hb := congrFun h (start + i)
    rw [overlay_of_mem (by omega), overlay_of_mem (by omega)] at hb
    simpa using hb
  · intro h
    funext b
    unfold overlay
    split_ifs with hb
    · exact h _ (by omega)
    · rfl

/-- Two adjacent writes from one source are one write. -/
theorem overlay_overlay (img : ℕ → α) (start m n : ℕ) (src : ℕ → α) :
    overlay (overlay img start m src) (start + m) n (fun i => src (m + i)) =
      overlay img start (m + n) src := by
  funext b
  have hmem : start ≤ b ∧ b < start + (m + n) ↔
      (start + m ≤ b ∧ b < start + m + n) ∨ (start ≤ b ∧ b < start + m) := by omega
  unfold overlay
  by_cases h₂ : start + m ≤ b ∧ b < start + m + n
  · have hb : m + (b - (start + m)) = b - start := by omega
    rw [if_pos h₂, if_pos (hmem.mpr (.inl h₂))]
    exact congrArg src hb
  · by_cases h₁ : start ≤ b ∧ b < start + m
    · rw [if_neg h₂, if_pos h₁, if_pos (hmem.mpr (.inr h₁))]
    · rw [if_neg h₂, if_neg h₁, if_neg (hmem.not.mpr (not_or.mpr ⟨h₂, h₁⟩))]

def Apart (a m b n : ℕ) : Prop := ∀ x, ¬ ((a ≤ x ∧ x < a + m) ∧ b ≤ x ∧ x < b + n)

theorem Apart.symm {a m b n : ℕ} (h : Apart a m b n) : Apart b n a m := fun x hx => h x hx.symm

theorem overlay_comm {a m b n : ℕ} (h : Apart a m b n) (img f g : ℕ → α) :
    overlay (overlay img a m f) b n g = overlay (overlay img b n g) a m f := by
  funext x
  have hx := h x
  unfold overlay
  split_ifs with hb ha
  · exact absurd ⟨ha, hb⟩ hx
  all_goals rfl

/-- Steps that commute pairwise can be taken in any order. -/
theorem foldl_perm {step : β → α → β} {l l' : List α} (h : l.Perm l')
    (hcomm : l.Pairwise fun x y => ∀ z, step (step z x) y = step (step z y) x) (z : β) :
    l.foldl step z = l'.foldl step z := by
  have hflip := hcomm.imp fun {x y} hxy z => (hxy z).symm
  exact h.foldl_eq' (hcomm.forall_of_forall_of_flip (fun _ _ _ => rfl) hflip) z

end Image
