import CrashMonkey.Permuter.Permuter
import CrashMonkey.Permuter.Turns

namespace CrashMonkey
open Draw

variable {δ σ : Type}

structure Permuter (δ : Type) where
  epochs : List (Epoch δ)
  completed : Finset (List ℕ)

/-- What a subclass draws: `gen_one_state` on the epochs and on the old content of its
argument. -/
abbrev Generator (δ σ : Type) :=
  List (Epoch δ) → List (EpochOp δ) → StateT σ Option (Bool × List (EpochOp δ))

/-- `gen_one_state` of a random permuter can produce the state. -/
def Draws (epochs : List (Epoch δ)) (s : List (EpochOp δ)) : Prop :=
  ∃ old r r', genOneState epochs old r = some ((true, s), r')

namespace Permuter

def new (δ : Type) : Permuter δ := ⟨[], ∅⟩

/-- `InitDataVector`; only `epochs_` is cleared. -/
def initDataVector (p : Permuter δ) (u : Uninit) (log : List (DiskWrite δ)) : Permuter δ :=
  { p with epochs := CrashMonkey.initDataVector u log }

def generateCrashState (gen : Generator δ σ) (p : Permuter δ) :
    StateT σ Option ((Bool × List (DiskWrite δ)) × Permuter δ) := do
  let (ret, res, completed) ← CrashMonkey.generateCrashState (gen p.epochs) p.completed
  return ((ret, res), { p with completed := completed })

/-- `n` calls in a row, with what each of them returns and leaves in `res`. -/
def crashStates (gen : Generator δ σ) : ℕ → Permuter δ →
    StateT σ Option (List (Bool × List (DiskWrite δ)) × Permuter δ)
  | 0, p => pure ([], p)
  | n + 1, p => do
    let (x, p) ← generateCrashState gen p
    let (xs, p) ← crashStates gen n p
    return (x :: xs, p)

@[simp] theorem initDataVector_epochs (p : Permuter δ) (u : Uninit) (log : List (DiskWrite δ)) :
    (p.initDataVector u log).epochs = CrashMonkey.initDataVector u log := rfl

/-- The first of several calls, and the others on what it leaves behind. -/
theorem crashStates_succ (gen : Generator δ σ) (n : ℕ) (p : Permuter δ) (r : σ) :
    crashStates gen (n + 1) p r =
      (CrashMonkey.generateCrashState (gen p.epochs) p.completed r).bind fun x =>
        (crashStates gen n ⟨p.epochs, x.1.2.2⟩ x.2).map fun y =>
          (((x.1.1, x.1.2.1) :: y.1.1, y.1.2), y.2) := by
  rw [crashStates, stateT_bind, generateCrashState, stateT_bind]
  cases CrashMonkey.generateCrashState (gen p.epochs) p.completed r with
  | none => rfl
  | some x =>
    obtain ⟨⟨ret, res, done⟩, r'⟩ := x
    simp only [Option.bind_some, stateT_pure, stateT_bind]
    cases crashStates gen n ⟨p.epochs, done⟩ r' <;> rfl

end Permuter

theorem maxRetries_pos (completed : Finset (List ℕ)) : 0 < maxRetries completed := by
  unfold maxRetries kMinRetries
  split_ifs <;> omega

section Success

variable {gen : List (EpochOp δ) → StateT σ Option (Bool × List (EpochOp δ))}

theorem exists_retryLoop (hgen : ∀ old r, ∃ x, gen old r = some x) (completed : Finset (List ℕ))
    (left : ℕ) (old : List (EpochOp δ)) (r : σ) :
    ∃ x, retryLoop gen completed (left + 1) old r = some x := by
  induction left generalizing old r with
  | zero =>
    obtain ⟨⟨⟨newState, state⟩, r'⟩, h⟩ := hgen old r
    refine ⟨⟨⟨newState, state, decide (crashStateHash state ∈ completed)⟩, r'⟩, ?_⟩
    simp [retryLoop, stateT_bind, h, stateT_pure]
  | succ left ih =>
    obtain ⟨⟨⟨newState, state⟩, r'⟩, h⟩ := hgen old r
    rw [retryLoop, stateT_bind, h, Option.bind_some]
    -- either the loop is left here, or it goes on
    simp only [Nat.succ_ne_zero, or_false]
    split_ifs
    · exact ⟨_, rfl⟩
    · exact ih state r'
    · exact ⟨_, rfl⟩

theorem exists_generate (hgen : ∀ old r, ∃ x, gen old r = some x) (completed : Finset (List ℕ))
    (r : σ) : ∃ x, generateCrashState gen completed r = some x := by
  obtain ⟨left, hleft⟩ := Nat.exists_eq_succ_of_ne_zero (maxRetries_pos completed).ne'
  obtain ⟨⟨⟨newState, state, exist⟩, r'⟩, h⟩ := exists_retryLoop hgen completed left [] r
  rw [generateCrashState, stateT_bind, hleft, h, Option.bind_some]
  dsimp only
  split_ifs
  · exact ⟨_, rfl⟩
  · exact ⟨_, rfl⟩

end Success

/-- Whatever numbers of epochs and requests are drawn, the rest of `gen_one_state` writes
every element of the resized result, and none outside: the result is the same for any
old content. -/
def FillsExactly (epochs : List (Epoch δ)) : Prop :=
  ∀ r numEpochs r₁ last numRequests r₂, Draw.uniform 1 epochs.length r = some (numEpochs, r₁) →
    epochs[numEpochs - 1]? = some last →
    Draw.uniform 1 last.ops.length r₁ = some (numRequests, r₂) →
    ∃ res r', res.length = totalOps (epochs.take (numEpochs - 1)) + numRequests ∧
      ∀ buf : List (EpochOp δ), buf.length = res.length →
        placeEpochs epochs numEpochs numRequests numEpochs 0 buf 0 r₂ = some (res, r')

/-- No call draws from an empty range, indexes out of range or fails an assertion. -/
structure Permuter.Safe (p : Permuter δ) : Prop where
  calls : ∀ n r, ∃ x, p.crashStates genOneState n r = some x
  fills : FillsExactly p.epochs

theorem fillsExactly {epochs : List (Epoch δ)} : FillsExactly epochs := by
  intro r numEpochs r₁ last numRequests r₂ h₁ hlast h₂
  obtain ⟨hle, -⟩ := Draw.uniform_run_mem h₁
  obtain ⟨m, rfl⟩ := Nat.exists_eq_add_of_le' hle
  rw [Nat.add_sub_cancel] at hlast ⊢
  have hlt : m < epochs.length := (List.getElem?_eq_some_iff.mp hlast).1
  have heq : epochs[m] = last := (List.getElem?_eq_some_iff.mp hlast).2
  have hk := (Draw.uniform_run_mem h₂).2
  have hlen : (epochs.take m).length = m := by simp; omega
  have hdrop : epochs.drop 0 = epochs.take m ++ last :: epochs.drop (m + 1) := by
    rw [List.drop_zero, ← heq, ← List.drop_eq_getElem_cons hlt, List.take_append_drop]
  have htotal : ((fullBlocks (epochs.take m) r₂).1.flatten ++
      opsAt last (positions last numRequests (fullBlocks (epochs.take m) r₂).2).1).length =
        totalOps (epochs.take m) + numRequests := by
    rw [List.length_append, fullBlocks_flatten_length, opsAt_length (positions_lt hk _),
      positions_length hk]
  refine ⟨_, (positions last numRequests (fullBlocks (epochs.take m) r₂).2).2, htotal,
    fun buf hbuf => ?_⟩
  have hplace := placeEpochs_run epochs (epochs.take m) (epochs.drop (m + 1)) last numRequests 0
    buf 0 r₂ hdrop hk (by omega)
  rw [hlen, Nat.zero_add] at hplace
  rw [hplace, Buffer.overwrite_all hbuf.symm]

theorem Draws.form {epochs : List (Epoch δ)} (hne : ∀ ep ∈ epochs, ep.ops ≠ [])
    {s : List (EpochOp δ)} (h : Draws epochs s) : CrashForm epochs s := by
  obtain ⟨old, r, r', h⟩ := h
  exact (genOneState_iff hne old s).mp ⟨r, r', h⟩

theorem exists_crashStates {epochs : List (Epoch δ)} (hne : ∀ ep ∈ epochs, ep.ops ≠ [])
    (hnil : epochs ≠ []) (n : ℕ) (completed : Finset (List ℕ)) (r : Stream' ℕ) :
    ∃ x, Permuter.crashStates genOneState n ⟨epochs, completed⟩ r = some x := by
  induction n generalizing completed r with
  | zero => exact ⟨_, rfl⟩
  | succ n ih =>
    obtain ⟨⟨⟨ret, res, done⟩, r₁⟩, h⟩ :=
      exists_generate (fun old r => ⟨_, genOneState_eq hne hnil old r⟩) completed r
    obtain ⟨⟨⟨xs, p⟩, r₂⟩, hrest⟩ := ih done r₁
    refine ⟨⟨⟨(ret, res) :: xs, p⟩, r₂⟩, ?_⟩
    rw [Permuter.crashStates_succ, h, Option.bind_some, hrest]
    rfl

theorem initDataVector_eq_nil_iff (u : Uninit) (log : List (DiskWrite δ)) :
    initDataVector u log = [] ↔ log = [] := by
  constructor
  · intro h
    by_contra hlog
    obtain ⟨ep, hep⟩ := exists_epoch u log (List.length_pos_iff.mpr hlog)
    simp [h] at hep
  · rintro rfl
    rw [initDataVector_eq_splitFrom]
    rfl

/-- Only an empty log leaves nothing to draw from. -/
theorem safe_initDataVector_iff (p : Permuter δ) (u : Uninit) (log : List (DiskWrite δ)) :
    (p.initDataVector u log).Safe ↔ log ≠ [] := by
  constructor
  · intro h hlog
    obtain ⟨x, hx⟩ := h.calls 1 (Stream'.const 0)
    rw [Permuter.crashStates_succ, Permuter.initDataVector_epochs,
      (initDataVector_eq_nil_iff u log).mpr hlog, generateCrashState_nil] at hx
    cases hx
  · intro hlog
    have hnil := mt (initDataVector_eq_nil_iff u log).mp hlog
    exact ⟨fun n r => exists_crashStates (initDataVector_ops_ne_nil u log) hnil n p.completed r,
      fillsExactly⟩

theorem not_safe_emptyLog :
    ¬ ((Permuter.new ℕ).initDataVector default []).Safe := by
  intro h
  obtain ⟨x, hx⟩ := h.calls 1 (Stream'.const 0)
  have hnil : initDataVector default ([] : List (DiskWrite ℕ)) = [] := by
    rw [initDataVector_eq_splitFrom]
    rfl
  rw [Permuter.crashStates_succ, Permuter.initDataVector_epochs, hnil,
    generateCrashState_nil] at hx
  cases hx

end CrashMonkey
