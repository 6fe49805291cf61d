import CrashMonkey.Permuter.Slots

namespace CrashMonkey
open Draw

variable {δ σ : Type}

/-- The calls of a run complete one new key for each crash state returned with `true`. -/
theorem crashStates_completed {epochs : List (Epoch δ)} (hne : ∀ ep ∈ epochs, ep.ops ≠ [])
    (hnil : epochs ≠ []) {n : ℕ} {completed : Finset (List ℕ)} {r r' : Stream' ℕ}
    {xs : List (Bool × List (DiskWrite δ))} {p : Permuter δ}
    (h : Permuter.crashStates genOneState n ⟨epochs, completed⟩ r = some ((xs, p), r')) :
    ∃ states : List (List (EpochOp δ)), (∀ s ∈ states, CrashForm epochs s) ∧
      (xs.filter Prod.fst).map Prod.snd = states.map (List.map EpochOp.op) ∧
      (states.map crashStateHash).Nodup ∧
      (∀ s ∈ states, crashStateHash s ∉ completed) ∧
      ∀ key, key ∈ p.completed ↔ key ∈ completed ∨ key ∈ states.map crashStateHash := by
  induction n generalizing completed r xs with
  | zero =>
    have h : some (([], ⟨epochs, completed⟩), r) = some ((xs, p), r') := h
    cases h
    exact ⟨[], by simp, rfl, List.nodup_nil, by simp, by simp⟩
  | succ n ih =>
    rw [Permuter.crashStates_succ] at h
    obtain ⟨⟨⟨ret, R, done⟩, r₁⟩, hcall, h⟩ := Option.bind_eq_some_iff.mp h
    obtain ⟨⟨⟨ys, q⟩, r₂⟩, hrest, h⟩ := Option.map_eq_some_iff.mp h
    obtain ⟨⟨rfl, rfl⟩, rfl⟩ : (_ = xs ∧ _ = p) ∧ _ = r' := by simpa using h
    obtain ⟨states, hform, hstates, hnodup, hfresh, hmem⟩ := ih hrest
    obtain ⟨s, hs, rfl, ⟨rfl, hnew, rfl⟩ | ⟨rfl, -, rfl⟩⟩ := generateCrashState_cases hne hnil hcall
    · -- a new state: its key is completed before the other calls
      have hkey : crashStateHash s ∉ states.map crashStateHash := by
        intro hin
        obtain ⟨t, ht, heq⟩ := List.mem_map.mp hin
        exact hfresh t ht (heq ▸ Finset.mem_insert_self _ _)
      refine ⟨s :: states, List.forall_mem_cons.mpr ⟨hs, hform⟩, ?_, ?_, ?_, fun key => ?_⟩
      · simp [hstates]
      · exact List.nodup_cons.mpr ⟨hkey, hnodup⟩
      · refine List.forall_mem_cons.mpr ⟨hnew, fun t ht hin => ?_⟩
        exact hfresh t ht (Finset.mem_insert_of_mem hin)
      · rw [hmem, Finset.mem_insert, List.map_cons, List.mem_cons]
        tauto
    · exact ⟨states, hform, by simpa using hstates, hnodup, hfresh, hmem⟩

def delivered (xs : List (Bool × List (DiskWrite (ℕ × ℕ)))) : List (List (ℕ × ℕ)) :=
  (xs.filter Prod.fst).map fun x => slots x.2

/-- `gen_one_state` with the states it draws kept in a list. -/
def keepDraws (gen : List (EpochOp δ) → StateT σ Option (Bool × List (EpochOp δ))) :
    List (EpochOp δ) → StateT (σ × List (List (EpochOp δ))) Option (Bool × List (EpochOp δ)) :=
  fun old r => (gen old r.1).map fun x => (x.1, x.2, r.2 ++ [x.1.2])

/-- A call after those that returned `xs` discards only states that were delivered. The
last state it draws is in `res`, and is returned with `true` unless it was delivered too. -/
def MergesOnlyDelivered (epochs : List (Epoch (ℕ × ℕ))) (p : Permuter (ℕ × ℕ)) (r : Stream' ℕ)
    (xs : List (Bool × List (DiskWrite (ℕ × ℕ)))) : Prop :=
  ∃ before last ret done r',
    generateCrashState (keepDraws (genOneState epochs)) p.completed (r, []) =
      some ((ret, last.map EpochOp.op, done), r', before ++ [last]) ∧
    generateCrashState (genOneState epochs) p.completed r =
      some ((ret, last.map EpochOp.op, done), r') ∧
    (∀ s ∈ before, slots (s.map EpochOp.op) ∈ delivered xs) ∧
    (ret = true ↔ slots (last.map EpochOp.op) ∉ delivered xs)

/-- Putting the payloads back gives the run of the permuter itself (`labels`). Its keys
tell selections apart, none is returned with `true` twice, and only those that were are
taken for duplicates, by the completed set as well as by the next call. -/
structure SelectionsDistinct (epochs : List (Epoch δ)) : Prop where
  labels : ∀ n r, Permuter.crashStates genOneState n ⟨epochs, ∅⟩ r =
    (Permuter.crashStates genOneState n ⟨slotted epochs, ∅⟩ r).map fun x =>
      ((x.1.1.map fun y => (y.1, y.2.map (DiskWrite.mapData (payloadAt epochs))),
        ⟨epochs, x.1.2.completed⟩), x.2)
  injective : ∀ s t, Draws (slotted epochs) s → Draws (slotted epochs) t →
    crashStateHash s = crashStateHash t → slots (s.map EpochOp.op) = slots (t.map EpochOp.op)
  distinct : ∀ n r xs p r',
    Permuter.crashStates genOneState n ⟨slotted epochs, ∅⟩ r = some ((xs, p), r') →
    (delivered xs).Nodup
  fresh : ∀ n r xs p r',
    Permuter.crashStates genOneState n ⟨slotted epochs, ∅⟩ r = some ((xs, p), r') →
    ∀ s, Draws (slotted epochs) s →
      (crashStateHash s ∈ p.completed ↔ slots (s.map EpochOp.op) ∈ delivered xs)
  calls : epochs ≠ [] → ∀ n r xs p r',
    Permuter.crashStates genOneState n ⟨slotted epochs, ∅⟩ r = some ((xs, p), r') →
    MergesOnlyDelivered (slotted epochs) p r' xs

theorem crashStates_slotted {epochs : List (Epoch δ)} (hne : ∀ ep ∈ epochs, ep.ops ≠ [])
    (n : ℕ) (completed : Finset (List ℕ)) (r : Stream' ℕ) :
    Permuter.crashStates genOneState n ⟨epochs, completed⟩ r =
      (Permuter.crashStates genOneState n ⟨slotted epochs, completed⟩ r).map fun x =>
        ((x.1.1.map fun y => (y.1, y.2.map (DiskWrite.mapData (payloadAt epochs))),
          ⟨epochs, x.1.2.completed⟩), x.2) := by
  induction n generalizing completed r with
  | zero => rfl
  | succ n ih =>
    obtain rfl | hnil := eq_or_ne epochs []
    · have hnil : slotted ([] : List (Epoch δ)) = [] := rfl
      rw [Permuter.crashStates_succ, Permuter.crashStates_succ, hnil, generateCrashState_nil,
        generateCrashState_nil]
      rfl
    · have hcall := generateCrashState_mapData (payloadAt epochs) (slotted_ops_ne_nil hne)
        (by simpa [slotted] using hnil) completed r
      rw [slotted_mapData] at hcall
      rw [Permuter.crashStates_succ, Permuter.crashStates_succ, hcall]
      cases generateCrashState (genOneState (slotted epochs)) completed r with
      | none => rfl
      | some x =>
        simp only [Option.map_some, Option.bind_some, ih]
        cases Permuter.crashStates genOneState n ⟨slotted epochs, x.1.2.2⟩ x.2 <;> rfl

/-- The selections that a run hands out are those of crash states with different keys,
and these keys are all that it completes. -/
theorem exists_delivered {epochs : List (Epoch (ℕ × ℕ))} (hne : ∀ ep ∈ epochs, ep.ops ≠ [])
    {n : ℕ} {r r' : Stream' ℕ} {xs : List (Bool × List (DiskWrite (ℕ × ℕ)))}
    {p : Permuter (ℕ × ℕ)}
    (h : Permuter.crashStates genOneState n ⟨epochs, ∅⟩ r = some ((xs, p), r')) :
    ∃ states : List (List (EpochOp (ℕ × ℕ))), (∀ s ∈ states, CrashForm epochs s) ∧
      delivered xs = states.map (fun s => slots (s.map EpochOp.op)) ∧
      (states.map crashStateHash).Nodup ∧
      ∀ key, key ∈ p.completed ↔ key ∈ states.map crashStateHash := by
  obtain rfl | hnil := eq_or_ne epochs []
  · cases n with
    | zero =>
      have h : some (([], ⟨[], ∅⟩), r) = some ((xs, p), r') := h
      cases h
      exact ⟨[], by simp, rfl, List.nodup_nil, by simp⟩
    | succ n =>
      -- there is nothing to draw from
      rw [Permuter.crashStates_succ, generateCrashState_nil] at h
      cases h
  · obtain ⟨states, hstates, hxs, hkeys, -, hmem⟩ := crashStates_completed hne hnil h
    refine ⟨states, hstates, ?_, hkeys, by simpa using hmem⟩
    have hmap := congrArg (List.map slots) hxs
    rw [List.map_map, List.map_map] at hmap
    exact hmap

section Loop

variable {gen : List (EpochOp δ) → StateT σ Option (Bool × List (EpochOp δ))}
  {completed : Finset (List ℕ)}

/-- All but the last state drawn in the loop have completed keys. -/
theorem retryLoop_keepDraws {left : ℕ} {old last : List (EpochOp δ)} {r r' : σ}
    {newState exist : Bool} {ds ds' : List (List (EpochOp δ))}
    (h : retryLoop (keepDraws gen) completed left old (r, ds) =
      some ((newState, last, exist), r', ds')) :
    retryLoop gen completed left old r = some ((newState, last, exist), r') ∧
      ∃ before, ds' = ds ++ (before ++ [last]) ∧
        (∀ s ∈ before, crashStateHash s ∈ completed) ∧
        ∀ s ∈ before ++ [last], ∃ old r x, gen old r = some x ∧ x.1.2 = s := by
  induction left generalizing old r ds with
  | zero => cases h
  | succ left ih =>
    simp only [retryLoop, stateT_bind] at h ⊢
    obtain ⟨_, hgen, h⟩ := Option.bind_eq_some_iff.mp h
    obtain ⟨⟨⟨isNew, s⟩, r₁⟩, hdraw, rfl⟩ := Option.map_eq_some_iff.mp hgen
    rw [hdraw, Option.bind_some]
    dsimp only at h ⊢
    split_ifs at h ⊢ with hstop hexist
    · obtain ⟨⟨rfl, rfl, rfl⟩, rfl, rfl⟩ :
          (isNew = newState ∧ s = last ∧ _ = exist) ∧ r₁ = r' ∧ ds ++ [s] = ds' := by
        simpa [stateT_pure] using h
      exact ⟨rfl, [], rfl, by simp, List.forall_mem_singleton.mpr ⟨old, r, _, hdraw, rfl⟩⟩
    · -- the state is dropped, and the loop goes on
      obtain ⟨hloop, before, rfl, hbefore, hdrawn⟩ := ih h
      refine ⟨hloop, s :: before, by simp, ?_, ?_⟩
      · exact List.forall_mem_cons.mpr ⟨of_decide_eq_true hexist, hbefore⟩
      · exact List.forall_mem_cons.mpr ⟨⟨old, r, _, hdraw, rfl⟩, hdrawn⟩
    · obtain ⟨⟨rfl, rfl, rfl⟩, rfl, rfl⟩ :
          (isNew = newState ∧ s = last ∧ _ = exist) ∧ r₁ = r' ∧ ds ++ [s] = ds' := by
        simpa [stateT_pure] using h
      exact ⟨rfl, [], rfl, by simp, List.forall_mem_singleton.mpr ⟨old, r, _, hdraw, rfl⟩⟩

/-- What a call leaves in `res` is the last state it draws, and what it drew before has
completed keys. -/
theorem exists_keepDraws (hgen : ∀ old r, ∃ x, gen old r = some x) (completed : Finset (List ℕ))
    (r : σ) :
    ∃ before last ret done r',
      generateCrashState (keepDraws gen) completed (r, []) =
        some ((ret, last.map EpochOp.op, done), r', before ++ [last]) ∧
      generateCrashState gen completed r = some ((ret, last.map EpochOp.op, done), r') ∧
      (∀ s ∈ before, crashStateHash s ∈ completed) ∧
      ∀ s ∈ before ++ [last], ∃ old r x, gen old r = some x ∧ x.1.2 = s := by
  obtain ⟨left, hleft⟩ := Nat.exists_eq_succ_of_ne_zero (maxRetries_pos completed).ne'
  have hkeep (old r) : ∃ x, keepDraws gen old r = some x := by
    obtain ⟨x, hx⟩ := hgen old r.1
    exact ⟨_, by rw [keepDraws, hx]; rfl⟩
  obtain ⟨⟨⟨newState, last, exist⟩, r', ds⟩, hloop⟩ :=
    exists_retryLoop hkeep completed left [] (r, [])
  obtain ⟨hloop', before, hds, hbefore, hdrawn⟩ := retryLoop_keepDraws hloop
  rw [List.nil_append] at hds
  subst hds
  simp only [generateCrashState, stateT_bind, hleft, hloop, hloop', Option.bind_some]
  cases exist with
  | false => exact ⟨before, last, newState, _, r', rfl, rfl, hbefore, hdrawn⟩
  | true => exact ⟨before, last, false, _, r', rfl, rfl, hbefore, hdrawn⟩

end Loop

section Slotted

variable {epochs : List (Epoch δ)} (hne : ∀ ep ∈ slotted epochs, ep.ops ≠ [])
  (hnodup : ∀ ep ∈ slotted epochs, (ep.ops.map EpochOp.absIndex).Nodup)
include hne hnodup

/-- A state has a completed key exactly if its selection was delivered. -/
theorem mem_completed_iff {n : ℕ} {r r' : Stream' ℕ}
    {xs : List (Bool × List (DiskWrite (ℕ × ℕ)))} {p : Permuter (ℕ × ℕ)}
    (h : Permuter.crashStates genOneState n ⟨slotted epochs, ∅⟩ r = some ((xs, p), r'))
    {s : List (EpochOp (ℕ × ℕ))} (hs : CrashForm (slotted epochs) s) :
    crashStateHash s ∈ p.completed ↔ slots (s.map EpochOp.op) ∈ delivered xs := by
  obtain ⟨states, hstates, hxs, -, hmem⟩ := exists_delivered hne h
  rw [hxs, hmem, List.mem_map, List.mem_map]
  constructor
  · rintro ⟨t, ht, hkey⟩
    exact ⟨t, ht, by rw [crashForm_inj hnodup (hstates t ht) hs hkey]⟩
  · rintro ⟨t, ht, hslots⟩
    have hkey : slotKey epochs (slots (t.map EpochOp.op)) =
        slotKey epochs (slots (s.map EpochOp.op)) := by rw [hslots]
    exact ⟨t, ht, by rwa [slotKey_slots (hstates t ht), slotKey_slots hs] at hkey⟩

theorem mergesOnlyDelivered (hnil : slotted epochs ≠ []) {n : ℕ} {r r' : Stream' ℕ}
    {xs : List (Bool × List (DiskWrite (ℕ × ℕ)))} {p : Permuter (ℕ × ℕ)}
    (h : Permuter.crashStates genOneState n ⟨slotted epochs, ∅⟩ r = some ((xs, p), r')) :
    MergesOnlyDelivered (slotted epochs) p r' xs := by
  have hgen := genOneState_eq hne hnil
  obtain ⟨before, last, ret, done, r'', hkept, hcall, hbefore, hdrawn⟩ :=
    exists_keepDraws (fun old r => ⟨_, hgen old r⟩) p.completed r'
  have hform {s} (hs : s ∈ before ++ [last]) : CrashForm (slotted epochs) s := by
    obtain ⟨old, r, x, hx, rfl⟩ := hdrawn s hs
    rw [hgen] at hx
    cases hx
    exact Draws.form hne ⟨old, r, _, hgen old r⟩
  have hlast : CrashForm (slotted epochs) last := hform (by simp)
  refine ⟨before, last, ret, done, r'', hkept, hcall, fun s hs => ?_, ?_⟩
  · exact (mem_completed_iff hne hnodup h (hform (List.mem_append_left _ hs))).mp (hbefore s hs)
  · rw [← mem_completed_iff hne hnodup h hlast]
    obtain ⟨res, hres, hops, hcases⟩ := generateCrashState_cases hne hnil hcall
    -- what is in `res` determines the key
    have hkey : crashStateHash last = crashStateHash res := by
      rw [← slotKey_slots hres, ← slotKey_slots hlast, hops]
    obtain ⟨rfl, hnew, -⟩ | ⟨rfl, hold, -⟩ := hcases
    · simp [hkey, hnew]
    · simp [hkey, hold]

end Slotted

/-- After `InitDataVector` on a fresh permuter no selection is repeated, and none is
merged with another. -/
theorem selectionsDistinct (u : Uninit) (log : List (DiskWrite δ)) :
    SelectionsDistinct ((Permuter.new δ).initDataVector u log).epochs := by
  rw [Permuter.initDataVector_epochs]
  have hne := initDataVector_ops_ne_nil u log
  have hne' := slotted_ops_ne_nil hne
  have hkeys : ∀ ep ∈ initDataVector u log, (ep.ops.map EpochOp.absIndex).Nodup := by
    intro ep hep
    obtain ⟨k, hk⟩ := List.getElem?_of_mem hep
    exact (absIndex_sorted u hk).imp fun h => h.ne
  have hnodup := slotted_nodup hkeys
  constructor
  · exact fun n r => crashStates_slotted hne n ∅ r
  · intro s t hs ht hkey
    rw [crashForm_inj hnodup (hs.form hne') (ht.form hne') hkey]
  · intro n r xs p r' h
    obtain ⟨states, hstates, hxs, hkeys, -⟩ := exists_delivered hne' h
    rw [hxs]
    -- the keys are distinct, and the slots determine them
    apply List.Nodup.of_map (slotKey (initDataVector u log))
    have hmap : states.map (slotKey (initDataVector u log) ∘ fun s => slots (s.map EpochOp.op)) =
        states.map crashStateHash :=
      List.map_congr_left fun s hs => slotKey_slots (hstates s hs)
    rw [List.map_map, hmap]
    exact hkeys
  · exact fun n r xs p r' h s hs => mem_completed_iff hne' hnodup h (hs.form hne')
  · intro hnil n r xs p r' h
    exact mergesOnlyDelivered hne' hnodup (by simpa [slotted] using hnil) h

end CrashMonkey
