import Mathlib.Logic.Function.Iterate
import Mathlib.Tactic

/-!
# While loops

A loop whose condition and turn are functions on its variables. Nothing says that it
ends, so a run has a number of turns it may take at most.
-/

namespace Loop

variable {σ : Type*} {more : σ → Bool} {turn : σ → σ}

/-- `while (more) turn`, with at most `fuel` turns. -/
def run (more : σ → Bool) (turn : σ → σ) : ℕ → σ → Option σ
  | 0, s => if more s then none else some s
  | fuel + 1, s => if more s then run more turn fuel (turn s) else some s

theorem run_of_not_more {s : σ} (h : more s = false) (fuel : ℕ) :
    run more turn fuel s = some s := by
  cases fuel <;> simp [run, h]

theorem run_of_more {s : σ} (h : more s = true) (fuel : ℕ) :
    run more turn (fuel + 1) s = run more turn fuel (turn s) := by
  simp [run, h]

/-- What a turn keeps is there at the end, and the condition does not hold then. -/
theorem run_invariant {I : σ → Prop} (hturn : ∀ s, I s → more s = true → I (turn s)) {fuel : ℕ}
    {s t : σ} (hs : I s) (h : run more turn fuel s = some t) : I t ∧ more t = false := by
  induction fuel generalizing s with
  | zero =>
    rw [run] at h
    split_ifs at h with hmore
    obtain rfl := Option.some.inj h
    exact ⟨hs, Bool.eq_false_iff.mpr hmore⟩
  | succ fuel ih =>
    rw [run] at h
    split_ifs at h with hmore
    · exact ih (hturn s hs hmore) h
    · obtain rfl := Option.some.inj h
      exact ⟨hs, Bool.eq_false_iff.mpr hmore⟩

/-- Some number of turns is enough exactly if the condition fails at some time. -/
theorem exists_run_iff {s : σ} :
    (∃ fuel t, run more turn fuel s = some t) ↔ ∃ n, more (turn^[n] s) = false := by
  constructor
  · rintro ⟨fuel, t, h⟩
    obtain ⟨⟨n, rfl⟩, hmore⟩ := run_invariant (I := fun t => ∃ n, turn^[n] s = t)
      (fun _ ⟨n, hn⟩ _ => ⟨n + 1, by rw [Function.iterate_succ_apply', hn]⟩) ⟨0, rfl⟩ h
    exact ⟨n, hmore⟩
  · rintro ⟨n, hn⟩
    refine ⟨n, ?_⟩
    induction n generalizing s with
    | zero => exact ⟨s, run_of_not_more hn 0⟩
    | succ n ih =>
      cases hmore : more s with
      | false => exact ⟨s, run_of_not_more hmore _⟩
      | true =>
        obtain ⟨t, ht⟩ := ih hn
        exact ⟨t, by rw [run_of_more hmore, ht]⟩

end Loop
