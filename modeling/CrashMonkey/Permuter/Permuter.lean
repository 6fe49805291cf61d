import Mathlib.Data.Finset.Basic
import CrashMonkey.Permuter.CrashStates

namespace CrashMonkey
open Draw

variable {δ σ : Type}

def kRetryMultiplier : ℕ := 2
def kMinRetries : ℕ := 1000

def maxRetries (completed : Finset (List ℕ)) : ℕ :=
  if kRetryMultiplier * completed.card < kMinRetries then kMinRetries
  else kRetryMultiplier * completed.card

def crashStateHash (crashState : List (EpochOp δ)) : List ℕ := crashState.map EpochOp.absIndex

/-- The retry loop with `left` retries to go, for any `gen_one_state`; returns
`new_state`, the last crash state and whether its key exists. -/
def retryLoop (gen : List (EpochOp δ) → StateT σ Option (Bool × List (EpochOp δ)))
    (completed : Finset (List ℕ)) :
    ℕ → List (EpochOp δ) → StateT σ Option (Bool × List (EpochOp δ) × Bool)
  | 0, _ => failure
  | left + 1, crashState => do
    let (newState, crashState) ← gen crashState
    let exist := decide (crashStateHash crashState ∈ completed)
    if newState = false ∨ left = 0 then return (newState, crashState, exist)
    if exist then retryLoop gen completed left crashState
    else return (newState, crashState, exist)

/-- Returns the result, the crash state in `res` and the new completed set. -/
def generateCrashState (gen : List (EpochOp δ) → StateT σ Option (Bool × List (EpochOp δ)))
    (completed : Finset (List ℕ)) :
    StateT σ Option (Bool × List (DiskWrite δ) × Finset (List ℕ)) := do
  let (newState, crashState, exist) ← retryLoop gen completed (maxRetries completed) []
  let res := crashState.map EpochOp.op
  if exist = false then return (newState, res, insert (crashStateHash crashState) completed)
  return (false, res, completed)

/-- The loop hands out a state of the form, and says whether its key exists. -/
theorem retryLoop_spec {epochs : List (Epoch δ)} (hne : ∀ ep ∈ epochs, ep.ops ≠ [])
    (hnil : epochs ≠ []) {completed : Finset (List ℕ)} {left : ℕ} {old : List (EpochOp δ)}
    {r r' : Stream' ℕ} {x : Bool × List (EpochOp δ) × Bool}
    (h : retryLoop (genOneState epochs) completed left old r = some (x, r')) :
    x.1 = true ∧ CrashForm epochs x.2.1 ∧
      x.2.2 = decide (crashStateHash x.2.1 ∈ completed) := by
  induction left generalizing old r with
  | zero => cases h
  | succ left ih =>
    simp only [retryLoop, stateT_bind, genOneState_eq hne hnil, Option.bind_some] at h
    split_ifs at h
    all_goals first
      | exact ih h
      | obtain ⟨rfl, -⟩ : _ = x ∧ _ = r' := by simpa [stateT_pure] using h
        exact ⟨rfl, drawnState_form hne hnil r, rfl⟩

/-- A call hands out a state of the form: with `true` if its key is new, and the key is
completed then; with `false` and no other effect if it is not. -/
theorem generateCrashState_cases {epochs : List (Epoch δ)} (hne : ∀ ep ∈ epochs, ep.ops ≠ [])
    (hnil : epochs ≠ []) {completed done : Finset (List ℕ)} {r r' : Stream' ℕ} {ret : Bool}
    {R : List (DiskWrite δ)}
    (h : generateCrashState (genOneState epochs) completed r = some ((ret, R, done), r')) :
    ∃ res, CrashForm epochs res ∧ R = res.map EpochOp.op ∧
      ((ret = true ∧ crashStateHash res ∉ completed ∧
          done = insert (crashStateHash res) completed) ∨
        (ret = false ∧ crashStateHash res ∈ completed ∧ done = completed)) := by
  simp only [generateCrashState, stateT_bind] at h
  cases hloop : retryLoop (genOneState epochs) completed (maxRetries completed) [] r with
  | none => simp [hloop] at h
  | some x =>
    obtain ⟨hnew, hform, hexist⟩ := retryLoop_spec hne hnil hloop
    obtain ⟨⟨newState, crashState, exist⟩, r₁⟩ := x
    simp only at hnew hform hexist
    subst hnew
    refine ⟨crashState, hform, ?_⟩
    rw [hloop, Option.bind_some] at h
    cases exist with
    | false =>
      have h : (true = ret ∧ crashState.map EpochOp.op = R ∧
          insert (crashStateHash crashState) completed = done) ∧ r₁ = r' := by
        simpa [stateT_pure] using h
      obtain ⟨⟨rfl, rfl, rfl⟩, -⟩ := h
      exact ⟨rfl, .inl ⟨rfl, of_decide_eq_false hexist.symm, rfl⟩⟩
    | true =>
      have h : (false = ret ∧ crashState.map EpochOp.op = R ∧ completed = done) ∧ r₁ = r' := by
        simpa [stateT_pure] using h
      obtain ⟨⟨rfl, rfl, rfl⟩, -⟩ := h
      exact ⟨rfl, .inr ⟨rfl, of_decide_eq_true hexist.symm, rfl⟩⟩

/-- A state whose key is not completed is handed out at once. -/
theorem retryLoop_fresh {gen : List (EpochOp δ) → StateT σ Option (Bool × List (EpochOp δ))}
    {completed : Finset (List ℕ)} {old res : List (EpochOp δ)} {r r' : σ}
    (h : gen old r = some ((true, res), r')) (hf : crashStateHash res ∉ completed) (left : ℕ) :
    retryLoop gen completed (left + 1) old r = some ((true, res, false), r') := by
  simp only [retryLoop, stateT_bind, h, Option.bind_some, hf, decide_false,
    Bool.false_eq_true, if_false]
  split_ifs <;> rfl

/-- Every sequence of the form is handed out, as long as no state is completed. -/
theorem exists_generateCrashState {epochs : List (Epoch δ)} (hne : ∀ ep ∈ epochs, ep.ops ≠ [])
    {res : List (EpochOp δ)} (h : CrashForm epochs res) :
    ∃ r r' done, generateCrashState (genOneState epochs) ∅ r =
      some ((true, res.map EpochOp.op, done), r') := by
  obtain ⟨r, r', hgen⟩ := (genOneState_iff hne [] res).mpr h
  have hretries : maxRetries ∅ = 999 + 1 := rfl
  refine ⟨r, r', insert (crashStateHash res) ∅, ?_⟩
  rw [generateCrashState, stateT_bind, hretries, retryLoop_fresh hgen (by simp)]
  rfl

theorem generateCrashState_nil (completed : Finset (List ℕ)) (r : Stream' ℕ) :
    generateCrashState (genOneState ([] : List (Epoch δ))) completed r = none := by
  rw [generateCrashState, stateT_bind]
  cases maxRetries completed <;> rfl

end CrashMonkey
