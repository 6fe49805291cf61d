import Mathlib.Tactic

/-!
# Buffers written in place

A buffer of fixed length that is filled through a moving position.
-/

namespace Buffer

variable {α : Type*}

/-- `*pos = x`; outside the buffer there is nothing to write to. -/
def store (buf : List α) (pos : ℕ) (x : α) : Option (List α) :=
  if pos < buf.length then some (buf.set pos x) else none

def resize (fill : α) (buf : List α) (n : ℕ) : List α :=
  buf.take n ++ List.replicate (n - buf.length) fill

def overwrite (buf : List α) (pos : ℕ) (xs : List α) : List α :=
  buf.take pos ++ xs ++ buf.drop (pos + xs.length)

@[simp] theorem resize_length (fill : α) (buf : List α) (n : ℕ) :
    (resize fill buf n).length = n := by
  simp [resize]
  omega

@[simp] theorem overwrite_nil (buf : List α) (pos : ℕ) : overwrite buf pos [] = buf := by
  simp [overwrite]

theorem overwrite_length {buf : List α} {pos : ℕ} {xs : List α}
    (h : pos + xs.length ≤ buf.length) : (overwrite buf pos xs).length = buf.length := by
  simp [overwrite]
  omega

theorem store_eq {buf : List α} {pos : ℕ} (x : α) (h : pos < buf.length) :
    store buf pos x = some (overwrite buf pos [x]) := by
  rw [store, if_pos h, List.set_eq_take_append_cons_drop, if_pos h]
  simp [overwrite]

/-- Writes that follow each other are one write. -/
theorem overwrite_overwrite {buf : List α} {pos : ℕ} (xs ys : List α)
    (h : pos + xs.length ≤ buf.length) :
    overwrite (overwrite buf pos xs) (pos + xs.length) ys = overwrite buf pos (xs ++ ys) := by
  have hlen : (buf.take pos ++ xs).length = pos + xs.length := by
    simp
    omega
  have htake : (overwrite buf pos xs).take (pos + xs.length) = buf.take pos ++ xs := by
    rw [overwrite, ← hlen, List.take_left]
  have hdrop : (overwrite buf pos xs).drop (pos + xs.length + ys.length) =
      buf.drop (pos + (xs ++ ys).length) := by
    rw [overwrite, ← List.drop_drop, ← hlen, List.drop_left, List.drop_drop, hlen,
      List.length_append, Nat.add_assoc]
  rw [overwrite, htake, hdrop, overwrite, List.append_assoc _ xs ys]

/-- A buffer that is written in full holds nothing else. -/
theorem overwrite_all {buf xs : List α} (h : xs.length = buf.length) :
    overwrite buf 0 xs = xs := by
  simp [overwrite, h]

end Buffer
