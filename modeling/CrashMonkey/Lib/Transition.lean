import Mathlib.Logic.Basic

/-!
# Runs of a transition system

A step relation on states, labelled by events, and its finite runs; and how a step
that can fail is taken apart.
-/

namespace Transition

variable {σ ε : Type*} {step : σ → ε → σ → Prop}

/-- The states that `es` lead to, one event after the other. -/
inductive Run (step : σ → ε → σ → Prop) : σ → List ε → σ → Prop
  | nil (s : σ) : Run step s [] s
  | cons {s t u : σ} {e : ε} {es : List ε} : step s e t → Run step t es u → Run step s (e :: es) u

theorem Run.append {s t u : σ} {es es' : List ε} (h : Run step s es t) (h' : Run step t es' u) :
    Run step s (es ++ es') u := by
  induction h with
  | nil => exact h'
  | cons hstep _ ih => exact .cons hstep (ih h')

/-- A run over two lists of events comes by a state in between. -/
theorem Run.of_append {s t : σ} {es es' : List ε} (h : Run step s (es ++ es') t) :
    ∃ u, Run step s es u ∧ Run step u es' t := by
  induction es generalizing s with
  | nil => exact ⟨s, .nil s, h⟩
  | cons e es ih =>
    cases h with
    | cons hst hrun =>
      obtain ⟨u, hu, hrest⟩ := ih hrun
      exact ⟨u, .cons hst hu, hrest⟩

theorem Run.mono {step' : σ → ε → σ → Prop} (hstep : ∀ s e t, step s e t → step' s e t) {s t : σ}
    {es : List ε} (h : Run step s es t) : Run step' s es t := by
  induction h with
  | nil s => exact .nil s
  | cons hst _ ih => exact .cons (hstep _ _ _ hst) ih

/-- What each step preserves under a condition on its event holds after a run whose
events all meet the condition. -/
theorem Run.invariant {I : σ → Prop} {C : ε → Prop}
    (hstep : ∀ s e t, I s → C e → step s e t → I t) {s t : σ} {es : List ε}
    (h : Run step s es t) (hes : ∀ e ∈ es, C e) (hs : I s) : I t := by
  induction h with
  | nil => exact hs
  | cons hst _ ih =>
    obtain ⟨he, hes⟩ := List.forall_mem_cons.mp hes
    exact ih hes (hstep _ _ _ hs he hst)

/-- A system whose steps are matched by those of another one has runs that are matched. -/
theorem Run.simulate {τ : Type*} {step' : τ → ε → τ → Prop} {R : σ → τ → Prop} {C : ε → Prop}
    (hstep : ∀ s e t a, R s a → C e → step s e t → ∃ b, step' a e b ∧ R t b) {s t : σ} {a : τ}
    {es : List ε} (h : Run step s es t) (hes : ∀ e ∈ es, C e) (ha : R s a) :
    ∃ b, Run step' a es b ∧ R t b := by
  induction h generalizing a with
  | nil s => exact ⟨a, .nil a, ha⟩
  | cons hfirst _ ih =>
    obtain ⟨b, hb, hR⟩ := hstep _ _ _ _ ha (hes _ List.mem_cons_self) hfirst
    obtain ⟨c, hrest, hR'⟩ := ih (fun e he => hes e (List.mem_cons_of_mem _ he)) hR
    exact ⟨c, .cons hb hrest, hR'⟩

/-- What a step keeps exactly if a condition on it is met holds after a run if and only if
it held before and each step of the run has met the condition. -/
theorem Run.iff_guarded {I P : σ → Prop} {C : σ → ε → Prop}
    (hdet : ∀ s e t u, step s e t → step s e u → t = u)
    (hstep : ∀ s e t, I s → step s e t → I t ∧ (P t ↔ P s ∧ C s e)) {s t : σ} {es : List ε}
    (h : Run step s es t) (hs : I s) :
    I t ∧ (P t ↔ P s ∧ Run (fun s e t => step s e t ∧ C s e) s es t) := by
  induction h with
  | nil s => exact ⟨hs, fun hP => ⟨hP, .nil s⟩, And.left⟩
  | @cons s t u e es hst hrun ih =>
    obtain ⟨ht, hiff⟩ := hstep s e t hs hst
    obtain ⟨hu, hiff'⟩ := ih ht
    refine ⟨hu, fun hP => ?_, fun ⟨hP, hguarded⟩ => ?_⟩
    · obtain ⟨hP, hguarded⟩ := hiff'.mp hP
      obtain ⟨hP, hC⟩ := hiff.mp hP
      exact ⟨hP, .cons ⟨hst, hC⟩ hguarded⟩
    · cases hguarded with
      | cons hst' hguarded =>
        obtain rfl := hdet s e _ _ hst hst'.1
        exact hiff'.mpr ⟨hiff.mpr ⟨hP, hst'.2⟩, hguarded⟩

/-- Each step of a run meets a condition on its state and its event. -/
def Always {σ ε : Type*} (f : σ → ε → σ) (C : σ → ε → Prop) : σ → List ε → Prop
  | _, [] => True
  | s, e :: es => C s e ∧ Always f C (f s e) es

/-- Two conditions on the steps are the same for a run if they are so in all states that
the first of them leads to. -/
theorem always_iff {σ ε : Type*} {f : σ → ε → σ} {I : σ → Prop} {C D : σ → ε → Prop}
    (hiff : ∀ s e, I s → (C s e ↔ D s e)) (hstep : ∀ s e, I s → C s e → I (f s e)) {s : σ}
    (hs : I s) (es : List ε) : Always f C s es ↔ Always f D s es := by
  induction es generalizing s with
  | nil => exact Iff.rfl
  | cons e es ih =>
    rw [Always, Always, ← hiff s e hs]
    exact and_congr_right fun hC => ih (hstep s e hs hC)

/-- What each step preserves under the condition holds after the run. -/
theorem Always.invariant {σ ε : Type*} {f : σ → ε → σ} {I : σ → Prop} {C : σ → ε → Prop}
    (hstep : ∀ s e, I s → C s e → I (f s e)) {s : σ} {es : List ε} (h : Always f C s es)
    (hs : I s) : I (es.foldl f s) := by
  induction es generalizing s with
  | nil => exact hs
  | cons e es ih => exact ih h.2 (hstep s e hs h.1)

/-- A step function that can fail reaches a state with a tested property by a run. -/
theorem exists_run_of_foldlM {σ ε φ : Type} {f : σ → ε → Except φ σ} {s : σ}
    (es : List ε) (P : σ → Bool) (h : (es.foldlM f s).map P = .ok true) :
    ∃ t, Run (fun s e t => f s e = .ok t) s es t ∧ P t = true := by
  induction es generalizing s with
  | nil => exact ⟨s, .nil s, by simpa [Except.map, pure, Except.pure] using h⟩
  | cons e es ih =>
    rw [List.foldlM_cons] at h
    cases he : f s e with
    | error fault => simp [he, bind, Except.bind, Except.map] at h
    | ok t =>
      rw [he] at h
      obtain ⟨u, hrun, hu⟩ := ih h
      exact ⟨u, .cons he hrun, hu⟩

theorem Run.foldlM {σ ε φ : Type} {f : σ → ε → Except φ σ} {s t : σ} {es : List ε}
    (h : Run (fun s e t => f s e = .ok t) s es t) : es.foldlM f s = .ok t := by
  induction h with
  | nil s => rfl
  | cons hst _ ih =>
    rw [List.foldlM_cons, hst]
    exact ih

theorem bind_eq_ok.{u, v} {ε : Type u} {α β : Type v} {x : Except ε α} {f : α → Except ε β} {b : β} :
    (x >>= f) = .ok b ↔ ∃ a, x = .ok a ∧ f a = .ok b := by
  cases x with
  | error e => simp [bind, Except.bind]
  | ok a => simp [bind, Except.bind]

theorem mapError_eq_ok {ε δ α : Type*} {f : ε → δ} {x : Except ε α} {a : α}
    (h : x.mapError f = .ok a) : x = .ok a := by
  cases x with
  | error e => cases h
  | ok b =>
    cases h
    rfl

end Transition
