import CrashMonkey.Permuter.Calls

/-!
# A second log

`InitDataVector` replaces the epochs and keeps the completed keys. A permuter that has
handed out states of one log is compared, on the same states drawn from another log,
with one that starts with it.
-/

namespace CrashMonkey
open Draw

variable {δ : Type}

def fromStream : Generator δ (Stream' (List (EpochOp δ))) := fun _ _ S =>
  some ((true, S.head), S.tail)

def AllDrawn (epochs : List (Epoch δ)) (S : Stream' (List (EpochOp δ))) : Prop :=
  ∀ i, Draws epochs (S.get i)

theorem AllDrawn.tail {epochs : List (Epoch δ)} {S : Stream' (List (EpochOp δ))}
    (h : AllDrawn epochs S) : AllDrawn epochs S.tail := fun i => h (i + 1)

/-- The states that a random permuter draws with the numbers of `r`. -/
def stateStream (epochs : List (Epoch δ)) (r : Stream' ℕ) : Stream' (List (EpochOp δ)) :=
  Stream'.corec (fun r => (drawnState epochs r).1) (fun r => (drawnState epochs r).2) r

theorem stateStream_head (epochs : List (Epoch δ)) (r : Stream' ℕ) :
    (stateStream epochs r).head = (drawnState epochs r).1 := rfl

theorem stateStream_tail (epochs : List (Epoch δ)) (r : Stream' ℕ) :
    (stateStream epochs r).tail = stateStream epochs (drawnState epochs r).2 := by
  rw [stateStream, Stream'.corec_eq, Stream'.tail_cons, stateStream]

section Simulation

variable {epochs : List (Epoch δ)} (hne : ∀ ep ∈ epochs, ep.ops ≠ []) (hnil : epochs ≠ [])
include hne hnil

theorem retryLoop_stateStream (completed : Finset (List ℕ)) (left : ℕ)
    (old old' : List (EpochOp δ)) (r : Stream' ℕ) :
    retryLoop (fromStream epochs) completed left old' (stateStream epochs r) =
      (retryLoop (genOneState epochs) completed left old r).map fun x =>
        (x.1, stateStream epochs x.2) := by
  induction left generalizing old old' r with
  | zero => rfl
  | succ left ih =>
    simp only [retryLoop, stateT_bind, fromStream, genOneState_eq hne hnil, Option.bind_some,
      stateStream_head, stateStream_tail, Bool.true_eq_false, false_or]
    split_ifs
    · rfl
    · exact ih _ _ _
    · rfl

theorem generateCrashState_stateStream (completed : Finset (List ℕ)) (r : Stream' ℕ) :
    generateCrashState (fromStream epochs) completed (stateStream epochs r) =
      (generateCrashState (genOneState epochs) completed r).map fun x =>
        (x.1, stateStream epochs x.2) := by
  rw [generateCrashState, generateCrashState, stateT_bind, stateT_bind,
    retryLoop_stateStream hne hnil completed _ [] []]
  cases retryLoop (genOneState epochs) completed (maxRetries completed) [] r with
  | none => rfl
  | some x =>
    obtain ⟨⟨newState, state, exist⟩, r'⟩ := x
    cases exist <;> rfl

/-- A random permuter is one that is handed the states it draws. -/
theorem crashStates_stateStream (n : ℕ) (completed : Finset (List ℕ)) (r : Stream' ℕ) :
    Permuter.crashStates fromStream n ⟨epochs, completed⟩ (stateStream epochs r) =
      (Permuter.crashStates genOneState n ⟨epochs, completed⟩ r).map fun x =>
        (x.1, stateStream epochs x.2) := by
  induction n generalizing completed r with
  | zero => rfl
  | succ n ih =>
    rw [Permuter.crashStates_succ, Permuter.crashStates_succ,
      generateCrashState_stateStream hne hnil]
    cases generateCrashState (genOneState epochs) completed r with
    | none => rfl
    | some x =>
      simp only [Option.map_some, Option.bind_some, ih]
      cases Permuter.crashStates genOneState n ⟨epochs, x.1.2.2⟩ x.2 <;> rfl

theorem allDrawn_stateStream (r : Stream' ℕ) : AllDrawn epochs (stateStream epochs r) := by
  intro i
  induction i generalizing r with
  | zero => exact ⟨[], r, _, genOneState_eq hne hnil [] r⟩
  | succ i ih =>
    rw [Stream'.get_succ, stateStream_tail]
    exact ih (drawnState epochs r).2

end Simulation

/-- A permuter without epochs hands out nothing. -/
theorem crashStates_none {p : Permuter δ} {u : Uninit} {log : List (DiskWrite δ)}
    (hnil : initDataVector u log = []) {n : ℕ} {r : Stream' ℕ} :
    (p.initDataVector u log).crashStates genOneState (n + 1) r = none := by
  obtain ⟨left, hleft⟩ := Nat.exists_eq_succ_of_ne_zero (maxRetries_pos p.completed).ne'
  have hp : p.initDataVector u log = ⟨[], p.completed⟩ := by rw [← hnil]; rfl
  rw [hp, Permuter.crashStates_succ, generateCrashState, stateT_bind, hleft]
  rfl

/-- From here on the permuter does what a new one does: the same results on the same
states, also for states drawn at random, the same states count as tested, and there are as
many retries. -/
structure StartsAfresh (p : Permuter δ) (u : Uninit) (log : List (DiskWrite δ)) : Prop where
  outputs : ∀ n S, AllDrawn (initDataVector u log) S →
    ((p.initDataVector u log).crashStates fromStream n S).map (·.1.1) =
      (((Permuter.new δ).initDataVector u log).crashStates fromStream n S).map (·.1.1)
  random : ∀ n r, ((p.initDataVector u log).crashStates genOneState n r).map (·.1.1) =
    (((Permuter.new δ).initDataVector u log).crashStates genOneState n r).map (·.1.1)
  bookkeeping : ∀ n S xs ys p' q' S₁ S₂, AllDrawn (initDataVector u log) S →
    (p.initDataVector u log).crashStates fromStream n S = some ((xs, p'), S₁) →
    ((Permuter.new δ).initDataVector u log).crashStates fromStream n S = some ((ys, q'), S₂) →
    (∀ s, Draws (initDataVector u log) s →
      (crashStateHash s ∈ p'.completed ↔ crashStateHash s ∈ q'.completed)) ∧
    maxRetries p'.completed = maxRetries q'.completed

/-- What holds on all drawn states holds on those that are drawn at random. -/
theorem startsAfresh_of_outputs {p : Permuter δ} {u : Uninit} {log : List (DiskWrite δ)}
    (houtputs : ∀ n S, AllDrawn (initDataVector u log) S →
      ((p.initDataVector u log).crashStates fromStream n S).map (·.1.1) =
        (((Permuter.new δ).initDataVector u log).crashStates fromStream n S).map (·.1.1))
    (hbookkeeping : ∀ n S xs ys p' q' S₁ S₂, AllDrawn (initDataVector u log) S →
      (p.initDataVector u log).crashStates fromStream n S = some ((xs, p'), S₁) →
      ((Permuter.new δ).initDataVector u log).crashStates fromStream n S = some ((ys, q'), S₂) →
      (∀ s, Draws (initDataVector u log) s →
        (crashStateHash s ∈ p'.completed ↔ crashStateHash s ∈ q'.completed)) ∧
      maxRetries p'.completed = maxRetries q'.completed) : StartsAfresh p u log := by
  refine ⟨houtputs, fun n r => ?_, hbookkeeping⟩
  rcases eq_or_ne (initDataVector u log) [] with hnil | hnil
  · -- without an epoch no state is drawn
    cases n with
    | zero => rfl
    | succ n => rw [crashStates_none hnil, crashStates_none hnil]
  · have hne := initDataVector_ops_ne_nil u log
    have hrandom (q : Permuter δ) : ((q.initDataVector u log).crashStates fromStream n
        (stateStream (initDataVector u log) r)).map (·.1.1) =
          ((q.initDataVector u log).crashStates genOneState n r).map (·.1.1) := by
      have hq : q.initDataVector u log = ⟨initDataVector u log, q.completed⟩ := rfl
      rw [hq, crashStates_stateStream hne hnil, Option.map_map]
      rfl
    rw [← hrandom, ← hrandom]
    exact houtputs n _ (allDrawn_stateStream hne hnil r)

def IsKey (epochs : List (Epoch δ)) (key : List ℕ) : Prop :=
  ∃ s, Draws epochs s ∧ crashStateHash s = key

/-- The completed keys cannot be told from none: they are no keys of the epochs, and so
few that with all keys of the epochs the number of retries stays at its minimum. -/
def Unnoticed (epochs : List (Epoch δ)) (completed : Finset (List ℕ)) : Prop :=
  completed = ∅ ∨ (∀ key ∈ completed, ¬ IsKey epochs key) ∧
    ∀ keys : Finset (List ℕ), keys.Nonempty → (∀ key ∈ keys, IsKey epochs key) →
      kRetryMultiplier * (completed.card + keys.card) ≤ kMinRetries

theorem maxRetries_eq {completed : Finset (List ℕ)}
    (h : kRetryMultiplier * completed.card ≤ kMinRetries) :
    maxRetries completed = kMinRetries := by
  unfold maxRetries
  split_ifs <;> omega

/-- The bound tells sets of different sizes apart as soon as it leaves its minimum. -/
theorem le_of_maxRetries_eq {C D : Finset (List ℕ)} (hlt : D.card < C.card)
    (h : maxRetries C = maxRetries D) : kRetryMultiplier * C.card ≤ kMinRetries := by
  unfold maxRetries kRetryMultiplier kMinRetries at *
  split_ifs at h <;> omega

/-- Few keys do not change the number of retries, whichever keys of the epochs come on
top of them. -/
theorem maxRetries_union {epochs : List (Epoch δ)} {C : Finset (List ℕ)}
    (hbound : ∀ keys : Finset (List ℕ), keys.Nonempty → (∀ key ∈ keys, IsKey epochs key) →
      kRetryMultiplier * (C.card + keys.card) ≤ kMinRetries)
    {s : List (EpochOp δ)} (hs : Draws epochs s) (D : Finset (List ℕ))
    (hD : ∀ key ∈ D, IsKey epochs key) : maxRetries (C ∪ D) = maxRetries D := by
  -- there is a key, so the bound also holds without any
  have hall : kRetryMultiplier * (C.card + D.card) ≤ kMinRetries := by
    obtain rfl | hne := D.eq_empty_or_nonempty
    · have hone := hbound {crashStateHash s} (Finset.singleton_nonempty _)
        fun key hkey => ⟨s, hs, (Finset.mem_singleton.mp hkey).symm⟩
      rw [Finset.card_singleton] at hone
      rw [Finset.card_empty]
      exact (Nat.mul_le_mul_left _ (by omega)).trans hone
    · exact hbound D hne hD
  have hcard := Finset.card_union_le C D
  rw [maxRetries_eq ((Nat.mul_le_mul_left _ hcard).trans hall),
    maxRetries_eq ((Nat.mul_le_mul_left _ (by omega)).trans hall)]

section Coupling

variable {epochs : List (Epoch δ)} {C : Finset (List ℕ)}

theorem retryLoop_drawn {completed : Finset (List ℕ)} {left : ℕ} {old : List (EpochOp δ)}
    {S S' : Stream' (List (EpochOp δ))} {x : Bool × List (EpochOp δ) × Bool}
    (hS : AllDrawn epochs S)
    (h : retryLoop (fromStream epochs) completed left old S = some (x, S')) :
    Draws epochs x.2.1 ∧ AllDrawn epochs S' := by
  induction left generalizing old S with
  | zero => cases h
  | succ left ih =>
    simp only [retryLoop, stateT_bind, fromStream, Option.bind_some] at h
    split_ifs at h
    all_goals first
      | exact ih hS.tail h
      | obtain ⟨rfl, rfl⟩ : _ = x ∧ _ = S' := by simpa [stateT_pure] using h
        exact ⟨hS 0, hS.tail⟩

theorem generateCrashState_drawn {D done : Finset (List ℕ)}
    {S S' : Stream' (List (EpochOp δ))} {ret : Bool} {R : List (DiskWrite δ)}
    (hS : AllDrawn epochs S) (hD : ∀ key ∈ D, IsKey epochs key)
    (h : generateCrashState (fromStream epochs) D S = some ((ret, R, done), S')) :
    (∀ key ∈ done, IsKey epochs key) ∧ AllDrawn epochs S' := by
  rw [generateCrashState, stateT_bind] at h
  obtain ⟨⟨⟨newState, state, exist⟩, S₁⟩, hloop, h⟩ := Option.bind_eq_some_iff.mp h
  obtain ⟨hdraw, hS₁⟩ := retryLoop_drawn hS hloop
  cases exist with
  | false =>
    have h : some ((newState, state.map EpochOp.op, insert (crashStateHash state) D), S₁) =
        some ((ret, R, done), S') := h
    cases h
    exact ⟨(Finset.forall_mem_insert _ _ _).mpr ⟨⟨state, hdraw, rfl⟩, hD⟩, hS₁⟩
  | true =>
    have h : some ((false, state.map EpochOp.op, D), S₁) = some ((ret, R, done), S') := h
    cases h
    exact ⟨hD, hS₁⟩

variable (hC : ∀ key ∈ C, ¬ IsKey epochs key)
include hC

theorem mem_union_iff (D : Finset (List ℕ)) {s : List (EpochOp δ)} (hs : Draws epochs s) :
    crashStateHash s ∈ C ∪ D ↔ crashStateHash s ∈ D := by
  rw [Finset.mem_union]
  exact or_iff_right fun h => hC _ h ⟨s, hs, rfl⟩

theorem retryLoop_union (D : Finset (List ℕ)) (left : ℕ) (old : List (EpochOp δ))
    {S : Stream' (List (EpochOp δ))} (hS : AllDrawn epochs S) :
    retryLoop (fromStream epochs) (C ∪ D) left old S =
      retryLoop (fromStream epochs) D left old S := by
  induction left generalizing old S with
  | zero => rfl
  | succ left ih =>
    have hhead : crashStateHash S.head ∈ C ∪ D ↔ crashStateHash S.head ∈ D :=
      mem_union_iff hC D (hS 0)
    simp only [retryLoop, stateT_bind, fromStream, Option.bind_some, hhead, Bool.true_eq_false,
      false_or]
    split_ifs
    · rfl
    · exact ih _ hS.tail
    · rfl

theorem generateCrashState_union {D : Finset (List ℕ)}
    (hretries : maxRetries (C ∪ D) = maxRetries D)
    {S : Stream' (List (EpochOp δ))} (hS : AllDrawn epochs S) :
    generateCrashState (fromStream epochs) (C ∪ D) S =
      (generateCrashState (fromStream epochs) D S).map fun x =>
        ((x.1.1, x.1.2.1, C ∪ x.1.2.2), x.2) := by
  rw [generateCrashState, generateCrashState, stateT_bind, stateT_bind, hretries,
    retryLoop_union hC D _ _ hS]
  cases retryLoop (fromStream epochs) D (maxRetries D) [] S with
  | none => rfl
  | some x =>
    obtain ⟨⟨newState, state, exist⟩, S'⟩ := x
    cases exist with
    | false =>
      simp only [Option.bind_some, if_true, stateT_pure, Option.map_some, Finset.union_insert]
    | true => rfl

/-- Both runs go on in step, and what the new permuter completes are keys of the epochs. -/
theorem crashStates_union {D : Finset (List ℕ)} (hD : ∀ key ∈ D, IsKey epochs key)
    (hretries : ∀ D : Finset (List ℕ), (∀ key ∈ D, IsKey epochs key) →
      maxRetries (C ∪ D) = maxRetries D)
    (n : ℕ) {S : Stream' (List (EpochOp δ))} (hS : AllDrawn epochs S) :
    Permuter.crashStates fromStream n ⟨epochs, C ∪ D⟩ S =
        (Permuter.crashStates fromStream n ⟨epochs, D⟩ S).map (fun x =>
          ((x.1.1, ⟨epochs, C ∪ x.1.2.completed⟩), x.2)) ∧
      ∀ x, Permuter.crashStates fromStream n ⟨epochs, D⟩ S = some x →
        ∀ key ∈ x.1.2.completed, IsKey epochs key := by
  induction n generalizing D S with
  | zero =>
    refine ⟨rfl, fun x hx => ?_⟩
    have hx : some (([], ⟨epochs, D⟩), S) = some x := hx
    cases hx
    exact hD
  | succ n ih =>
    rw [Permuter.crashStates_succ, Permuter.crashStates_succ,
      generateCrashState_union hC (hretries D hD) hS]
    cases hcall : generateCrashState (fromStream epochs) D S with
    | none => exact ⟨rfl, fun x hx => by cases hx⟩
    | some y =>
      obtain ⟨⟨ret, R, done⟩, S'⟩ := y
      obtain ⟨hdone, hS'⟩ := generateCrashState_drawn hS hD hcall
      obtain ⟨hsame, hkeys⟩ := ih hdone hS'
      simp only [Option.map_some, Option.bind_some, hsame]
      cases hrest : Permuter.crashStates fromStream n ⟨epochs, done⟩ S' with
      | none => exact ⟨rfl, fun x hx => by cases hx⟩
      | some z =>
        refine ⟨rfl, fun x hx => ?_⟩
        cases hx
        exact hkeys z hrest

end Coupling

/-- States with new keys that differ are all returned with `true`. -/
theorem crashStates_deliver (epochs : List (Epoch δ)) (states : List (List (EpochOp δ)))
    (hnodup : (states.map crashStateHash).Nodup) {E : Finset (List ℕ)}
    (hE : ∀ s ∈ states, crashStateHash s ∉ E) (S : Stream' (List (EpochOp δ))) :
    Permuter.crashStates fromStream states.length ⟨epochs, E⟩ (states ++ₛ S) =
      some ((states.map fun s => (true, s.map EpochOp.op),
        ⟨epochs, E ∪ (states.map crashStateHash).toFinset⟩), S) := by
  induction states generalizing E with
  | nil => simp [Permuter.crashStates, stateT_pure]
  | cons s states ih =>
    obtain ⟨hs, hstates⟩ := List.forall_mem_cons.mp hE
    obtain ⟨hnew, hnodup⟩ := List.nodup_cons.mp hnodup
    have hrest := ih hnodup (E := insert (crashStateHash s) E) fun t ht hin => by
      rcases Finset.mem_insert.mp hin with heq | hin
      · exact hnew (heq ▸ List.mem_map_of_mem ht)
      · exact hstates t ht hin
    have hgen : fromStream epochs [] (s :: states ++ₛ S) = some ((true, s), states ++ₛ S) := rfl
    obtain ⟨left, hleft⟩ := Nat.exists_eq_succ_of_ne_zero (maxRetries_pos E).ne'
    have hcall : generateCrashState (fromStream epochs) E (s :: states ++ₛ S) =
        some ((true, s.map EpochOp.op, insert (crashStateHash s) E), states ++ₛ S) := by
      rw [generateCrashState, stateT_bind, hleft, retryLoop_fresh hgen hs]
      rfl
    rw [List.length_cons, Permuter.crashStates_succ, hcall, Option.bind_some, hrest]
    simp [Finset.insert_union, Finset.union_insert]

/-- Every set of keys is that of some states, one for each. -/
theorem exists_states {epochs : List (Epoch δ)} (keys : Finset (List ℕ))
    (hkeys : ∀ key ∈ keys, IsKey epochs key) :
    ∃ states : List (List (EpochOp δ)), (∀ s ∈ states, Draws epochs s) ∧
      (states.map crashStateHash).Nodup ∧ (states.map crashStateHash).toFinset = keys := by
  induction keys using Finset.induction_on with
  | empty => exact ⟨[], by simp, List.nodup_nil, rfl⟩
  | insert key keys hnew ih =>
    obtain ⟨⟨s, hs, rfl⟩, hrest⟩ := (Finset.forall_mem_insert _ _ _).mp hkeys
    obtain ⟨states, hdraws, hnodup, rfl⟩ := ih hrest
    refine ⟨s :: states, List.forall_mem_cons.mpr ⟨hs, hdraws⟩, ?_, by simp⟩
    exact List.nodup_cons.mpr ⟨fun hin => hnew (List.mem_toFinset.mpr hin), hnodup⟩

theorem allDrawn_append {epochs : List (Epoch δ)} {states : List (List (EpochOp δ))}
    (hstates : ∀ s ∈ states, Draws epochs s) {s : List (EpochOp δ)} (hs : Draws epochs s) :
    AllDrawn epochs (states ++ₛ Stream'.const s) := by
  induction states with
  | nil => exact fun _ => hs
  | cons t states ih =>
    obtain ⟨ht, hstates⟩ := List.forall_mem_cons.mp hstates
    intro i
    cases i with
    | zero => exact ht
    | succ i => exact ih hstates i

/-- A permuter starts afresh on a second log only when its completed keys cannot be
noticed there. -/
theorem startsAfresh_iff (p : Permuter δ) (u : Uninit) (log : List (DiskWrite δ)) :
    StartsAfresh p u log ↔ Unnoticed (initDataVector u log) p.completed := by
  have hused : p.initDataVector u log = ⟨initDataVector u log, p.completed⟩ := rfl
  have hfresh : (Permuter.new δ).initDataVector u log = ⟨initDataVector u log, ∅⟩ := rfl
  constructor
  · intro h
    obtain hC | hC := eq_or_ne p.completed ∅
    · exact .inl hC
    · have hkeys : ∀ key ∈ p.completed, ¬ IsKey (initDataVector u log) key := by
        -- before the first call, the keys count as tested
        rintro key hkey ⟨s, hs, rfl⟩
        have hmem := (h.bookkeeping 0 (Stream'.const s) [] [] _ _ _ _ (fun _ => hs) rfl rfl).1 s hs
        exact absurd (hmem.mp hkey) (Finset.notMem_empty _)
      refine .inr ⟨hkeys, fun keys hne hall => ?_⟩
      obtain ⟨states, hdraws, hnodup, rfl⟩ := exists_states keys hall
      obtain ⟨key, hkey⟩ := hne
      obtain ⟨s, hs, -⟩ := hall key hkey
      have hS := allDrawn_append hdraws hs
      -- once all these states are delivered, the numbers of retries are compared
      have hrun := crashStates_deliver (initDataVector u log) states hnodup (E := p.completed)
        (fun t ht hin => hkeys _ hin ⟨t, hdraws t ht, rfl⟩) (Stream'.const s)
      have hrun' := crashStates_deliver (initDataVector u log) states hnodup (E := ∅)
        (fun t ht => Finset.notMem_empty _) (Stream'.const s)
      have hretries : maxRetries (p.completed ∪ (states.map crashStateHash).toFinset) =
          maxRetries (∅ ∪ (states.map crashStateHash).toFinset) :=
        (h.bookkeeping _ _ _ _ _ _ _ _ hS hrun hrun').2
      have hdisj : Disjoint p.completed (states.map crashStateHash).toFinset :=
        Finset.disjoint_left.mpr fun key hin hin' => hkeys key hin (hall key hin')
      have hcard := Finset.card_union_of_disjoint hdisj
      have hpos := Finset.card_pos.mpr (Finset.nonempty_iff_ne_empty.mpr hC)
      rw [Finset.empty_union] at hretries
      rw [← hcard]
      exact le_of_maxRetries_eq (by omega) hretries
  · rintro (hC | ⟨hC, hbound⟩)
    · rw [hC] at hused
      apply startsAfresh_of_outputs
      · intro n S _
        rw [hused, hfresh]
      · intro n S xs ys p' q' S₁ S₂ _ hp hq
        rw [hused] at hp
        rw [hfresh, hp] at hq
        cases hq
        exact ⟨fun _ _ => Iff.rfl, rfl⟩
    · have hretries {S : Stream' (List (EpochOp δ))} (hS : AllDrawn (initDataVector u log) S) :=
        maxRetries_union hbound (hS 0)
      have hstep (n : ℕ) {S : Stream' (List (EpochOp δ))}
          (hS : AllDrawn (initDataVector u log) S) :=
        crashStates_union hC (D := ∅) (by simp) (hretries hS) n hS
      rw [Finset.union_empty] at hstep
      apply startsAfresh_of_outputs
      · intro n S hS
        rw [hused, hfresh, (hstep n hS).1, Option.map_map]
        rfl
      · intro n S xs ys p' q' S₁ S₂ hS hp hq
        rw [hused, (hstep n hS).1, ← hfresh, hq] at hp
        cases hp
        have hkeys := (hstep n hS).2 _ hq
        exact ⟨fun s hs => mem_union_iff hC _ hs, hretries hS _ hkeys⟩

def sectorZeroLog : List (DiskWrite ℕ) := [⟨⟨0, reqWrite, 0, 512⟩, some 0⟩]

def sectorEightLog : List (DiskWrite ℕ) := [⟨⟨0, reqWrite, 8, 512⟩, some 1⟩]

/-- A permuter that has handed out the one state of the first log does not start afresh
on the second one. -/
theorem not_startsAfresh_sectorEightLog : ∃ xs p r',
    ((Permuter.new ℕ).initDataVector default sectorZeroLog).crashStates genOneState 1
      (Stream'.const 0) = some ((xs, p), r') ∧ ¬ StartsAfresh p default sectorEightLog := by
  have hzero : initDataVector default sectorZeroLog =
      [⟨0, false, false, [⟨0, ⟨⟨0, reqWrite, 0, 512⟩, some 0⟩⟩]⟩] := by
    rw [initDataVector_eq_splitFrom]
    decide
  have height : initDataVector default sectorEightLog =
      [⟨0, false, false, [⟨0, ⟨⟨0, reqWrite, 8, 512⟩, some 1⟩⟩]⟩] := by
    rw [initDataVector_eq_splitFrom]
    decide
  have hrun : ∃ xs p r',
      ((Permuter.new ℕ).initDataVector default sectorZeroLog).crashStates genOneState 1
        (Stream'.const 0) = some ((xs, p), r') ∧ [0] ∈ p.completed := by
    rw [Permuter.initDataVector, hzero]
    exact ⟨_, _, _, rfl, by decide⟩
  obtain ⟨xs, p, r', hrun, hmem⟩ := hrun
  refine ⟨xs, p, r', hrun, fun h => ?_⟩
  -- both logs have a state with the key `[0]`
  have hdraws : Draws (initDataVector default sectorEightLog)
      [⟨0, ⟨⟨0, reqWrite, 8, 512⟩, some 1⟩⟩] := by
    rw [height]
    exact ⟨[], Stream'.const 0, _, rfl⟩
  have htested := (h.bookkeeping 0 (Stream'.const _) [] [] _ _ _ _ (fun _ => hdraws) rfl rfl).1 _
    hdraws
  exact absurd (htested.mp hmem) (Finset.notMem_empty _)

end CrashMonkey
