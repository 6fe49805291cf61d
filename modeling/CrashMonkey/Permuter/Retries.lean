import CrashMonkey.Permuter.Calls

namespace CrashMonkey
open Draw

variable {δ σ : Type}

/-- A `gen_one_state`: what it returns and the crash state it draws, from the old content
of its argument and a state of its own. -/
abbrev GenOneState (δ σ : Type) := List (EpochOp δ) → σ → (Bool × List (EpochOp δ)) × σ

namespace GenOneState

variable (g : GenOneState δ σ)

def run : List (EpochOp δ) → StateT σ Option (Bool × List (EpochOp δ)) := fun old s =>
  some (g old s)

def recording : GenOneState δ (σ × List (Bool × List (EpochOp δ))) := fun old s =>
  let (x, s') := g old s.1
  (x, s', s.2 ++ [x])

def draw : ℕ → List (EpochOp δ) → σ → Bool × List (EpochOp δ)
  | 0, old, s => (g old s).1
  | n + 1, old, s => draw n (g old s).1.2 (g old s).2

def draws (n : ℕ) (old : List (EpochOp δ)) (s : σ) : List (Bool × List (EpochOp δ)) :=
  (List.range n).map fun i => g.draw i old s

theorem draws_succ (n : ℕ) (old : List (EpochOp δ)) (s : σ) :
    g.draws (n + 1) old s = (g old s).1 :: g.draws n (g old s).1.2 (g old s).2 := by
  rw [draws, List.range_succ_eq_map, List.map_cons, List.map_map]
  rfl

end GenOneState

/-- The draw is called new but its key is completed, so that another one is made. -/
def Repeats (completed : Finset (List ℕ)) (x : Bool × List (EpochOp δ)) : Prop :=
  x.1 = true ∧ crashStateHash x.2 ∈ completed

/-- Of a call with these completed keys: there are at most as many draws as retries, each
but the last one is followed by another because its key is completed, the last one decides
about the result, and its key is completed by the call exactly if it is handed out. -/
def RetryContract (g : GenOneState δ σ) (completed : Finset (List ℕ)) (s : σ) : Prop :=
  ∃ draws last ret res done s',
    generateCrashState g.recording.run completed (s, []) =
      some ((ret, res, done), s', draws ++ [last]) ∧
    generateCrashState g.run completed s = some ((ret, res, done), s') ∧
    (draws ++ [last]).length ≤ max 1000 (2 * completed.card) ∧
    (∀ x ∈ draws, crashStateHash x.2 ∈ completed) ∧
    (ret = true ↔ crashStateHash last.2 ∉ completed ∧ last.1 = true) ∧
    res = last.2.map EpochOp.op ∧
    done = if ret then insert (crashStateHash last.2) completed else completed

theorem maxRetries_eq_max (completed : Finset (List ℕ)) :
    maxRetries completed = max 1000 (2 * completed.card) := by
  unfold maxRetries kRetryMultiplier kMinRetries
  split_ifs <;> omega

section Loop

variable (g : GenOneState δ σ) (completed : Finset (List ℕ))

/-- The loop makes draws that repeat up to one that does not, or up to the last retry. -/
theorem retryLoop_recording (left : ℕ) (old : List (EpochOp δ)) (s : σ)
    (ds : List (Bool × List (EpochOp δ))) :
    ∃ n s', n ≤ left ∧ (∀ i < n, Repeats completed (g.draw i old s)) ∧
      (n = left ∨ ¬ Repeats completed (g.draw n old s)) ∧
      retryLoop g.recording.run completed (left + 1) old (s, ds) =
        some (((g.draw n old s).1, (g.draw n old s).2,
          decide (crashStateHash (g.draw n old s).2 ∈ completed)),
          s', ds ++ g.draws (n + 1) old s) := by
  induction left generalizing old s ds with
  | zero =>
    refine ⟨0, (g old s).2, le_rfl, by simp, .inl rfl, ?_⟩
    rw [retryLoop, stateT_bind]
    simp only [GenOneState.run, GenOneState.recording, Option.bind_some, or_true, if_true]
    rfl
  | succ left ih =>
    by_cases hrepeats : Repeats completed (g old s).1
    · -- the first draw repeats, and the loop goes on
      obtain ⟨n, s', hn, hbefore, hlast, hloop⟩ :=
        ih (g old s).1.2 (g old s).2 (ds ++ [(g old s).1])
      refine ⟨n + 1, s', by omega, ?_, ?_, ?_⟩
      · intro i hi
        cases i with
        | zero => exact hrepeats
        | succ i => exact hbefore i (by omega)
      · exact hlast.imp (congrArg Nat.succ) id
      · rw [retryLoop, stateT_bind, GenOneState.draws_succ, List.append_cons]
        simp only [GenOneState.run, GenOneState.recording, Option.bind_some, hrepeats.1, hrepeats.2,
          Nat.add_one_ne_zero, or_self, Bool.true_eq_false, if_false, decide_true, if_true]
        exact hloop
    · refine ⟨0, (g old s).2, Nat.zero_le _, by simp, .inr hrepeats, ?_⟩
      rw [retryLoop, stateT_bind]
      simp only [GenOneState.run, GenOneState.recording, Option.bind_some, Nat.add_one_ne_zero,
        or_false]
      split_ifs with hnew hexist
      · rfl
      · exact absurd ⟨by simpa using hnew, of_decide_eq_true hexist⟩ hrepeats
      · rfl

/-- The list is kept beside the draws and changes none of them. -/
theorem retryLoop_run (left : ℕ) (old : List (EpochOp δ)) (s : σ)
    (ds : List (Bool × List (EpochOp δ))) :
    retryLoop g.run completed left old s =
      (retryLoop g.recording.run completed left old (s, ds)).map fun x => (x.1, x.2.1) := by
  induction left generalizing old s ds with
  | zero => rfl
  | succ left ih =>
    simp only [retryLoop, stateT_bind, GenOneState.run, GenOneState.recording, Option.bind_some]
    split_ifs
    · rfl
    · exact ih _ _ _
    · rfl

theorem generateCrashState_run (s : σ) :
    generateCrashState g.run completed s =
      (generateCrashState g.recording.run completed (s, [])).map fun x => (x.1, x.2.1) := by
  rw [generateCrashState, generateCrashState, stateT_bind, stateT_bind,
    retryLoop_run g completed _ [] s []]
  cases retryLoop g.recording.run completed (maxRetries completed) [] (s, []) with
  | none => rfl
  | some x =>
    obtain ⟨⟨newState, crashState, exist⟩, s', ds⟩ := x
    cases exist <;> rfl

end Loop

/-- What a call does is decided by the last draw it makes. -/
theorem exists_lastDraw (g : GenOneState δ σ) (completed : Finset (List ℕ)) (s : σ) :
    ∃ n s', n < maxRetries completed ∧ (∀ i < n, Repeats completed (g.draw i [] s)) ∧
      (n + 1 = maxRetries completed ∨ ¬ Repeats completed (g.draw n [] s)) ∧
      generateCrashState g.recording.run completed (s, []) =
        some ((decide (crashStateHash (g.draw n [] s).2 ∉ completed) && (g.draw n [] s).1,
          (g.draw n [] s).2.map EpochOp.op,
          insert (crashStateHash (g.draw n [] s).2) completed),
          s', g.draws n [] s ++ [g.draw n [] s]) := by
  obtain ⟨left, hleft⟩ := Nat.exists_eq_succ_of_ne_zero (maxRetries_pos completed).ne'
  obtain ⟨n, s', hn, hbefore, hlast, hloop⟩ := retryLoop_recording g completed left [] s []
  refine ⟨n, s', by omega, hbefore, ?_, ?_⟩
  · exact hlast.imp (fun h => by omega) id
  · have hdraws : g.draws (n + 1) [] s = g.draws n [] s ++ [g.draw n [] s] := by
      rw [GenOneState.draws, List.range_succ, List.map_append, List.map_singleton]
      rfl
    rw [generateCrashState, stateT_bind, hleft, hloop, Option.bind_some, hdraws, List.nil_append]
    by_cases hkey : crashStateHash (g.draw n [] s).2 ∈ completed
    · simp [hkey, stateT_pure]
    · simp [hkey, stateT_pure]

theorem RetryContract.newState {g : GenOneState δ σ} {completed : Finset (List ℕ)} {s : σ}
    (h : RetryContract g completed s) {n : ℕ} (hn : n < maxRetries completed)
    (hbefore : ∀ i < n, Repeats completed (g.draw i [] s))
    (hkey : crashStateHash (g.draw n [] s).2 ∉ completed) : (g.draw n [] s).1 = true := by
  obtain ⟨draws, last, ret, res, done, s₁, hcall', -, -, -, hret, -, hdone⟩ := h
  obtain ⟨m, s', hm, hbefore', hlast, hcall⟩ := exists_lastDraw g completed s
  have hmn : m = n := by
    rcases lt_trichotomy n m with hlt | rfl | hlt
    · exact absurd (hbefore' n hlt).2 hkey
    · rfl
    · rcases hlast with hlast | hlast
      · omega
      · exact absurd (hbefore m hlt) hlast
  subst hmn
  rw [hcall, Option.some.injEq, Prod.mk.injEq, Prod.mk.injEq, Prod.mk.injEq, Prod.mk.injEq]
    at hcall'
  obtain ⟨⟨-, -, rfl⟩, -, hdraws⟩ := hcall'
  obtain rfl : g.draw m [] s = last := by simpa using (List.append_inj' hdraws rfl).2
  -- the key is completed, so the state was handed out
  have hret' : ret = true := by
    by_contra hfalse
    rw [if_neg hfalse] at hdone
    exact hkey (hdone ▸ Finset.mem_insert_self _ _)
  exact (hret.mp hret').2

/-- The contract fails exactly where a draw with a new key is not called a new state. -/
theorem retryContract_iff (g : GenOneState δ σ) (completed : Finset (List ℕ)) (s : σ) :
    RetryContract g completed s ↔ ∀ n < maxRetries completed,
      (∀ i < n, Repeats completed (g.draw i [] s)) →
      crashStateHash (g.draw n [] s).2 ∉ completed → (g.draw n [] s).1 = true := by
  constructor
  · exact fun h n hn hbefore hkey => h.newState hn hbefore hkey
  · intro h
    obtain ⟨n, s', hn, hbefore, -, hcall⟩ := exists_lastDraw g completed s
    refine ⟨_, _, _, _, _, s', hcall, by rw [generateCrashState_run, hcall]; rfl, ?_, ?_, ?_, rfl, ?_⟩
    · rw [← maxRetries_eq_max]
      simpa [GenOneState.draws] using hn
    · intro x hx
      obtain ⟨i, hi, rfl⟩ := List.mem_map.mp hx
      exact (hbefore i (List.mem_range.mp hi)).2
    · simp
    · by_cases hkey : crashStateHash (g.draw n [] s).2 ∈ completed
      · simp [hkey]
      · simp [hkey, h n hn hbefore hkey]

/-- The permuter has no states at all, and says so. -/
theorem not_retryContract_exhausted :
    ¬ RetryContract (fun _ _ => ((false, []), ()) : GenOneState ℕ Unit) ∅ () := by
  intro h
  have hnew := h.newState (n := 0) (by decide) (by simp) (by simp)
  exact absurd hnew (by decide)

end CrashMonkey
