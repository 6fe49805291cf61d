import Mathlib.Data.Finset.Basic
import Mathlib.Data.List.Count
import Mathlib.Tactic

/-!
# A ledger of resources

Calls acquire resources and release them. The ledger refuses to acquire what is held
and to release what is not.
-/

namespace Ledger

inductive Call (ρ : Type*) where
  | acquire (r : ρ)
  | release (r : ρ)
deriving DecidableEq

variable {ρ : Type*}

def Call.map {σ : Type*} (f : ρ → σ) : Call ρ → Call σ
  | .acquire r => .acquire (f r)
  | .release r => .release (f r)

@[simp] theorem map_acquire {σ : Type*} (f : ρ → σ) (rs : List ρ) :
    (rs.map Call.acquire).map (Call.map f) = (rs.map f).map .acquire := by
  rw [List.map_map, List.map_map]
  rfl

def acquired (calls : List (Call ρ)) : List ρ :=
  calls.filterMap fun
    | .acquire r => some r
    | .release _ => none

@[simp] theorem acquired_nil : acquired ([] : List (Call ρ)) = [] := rfl

@[simp] theorem acquired_acquire (r : ρ) (calls : List (Call ρ)) :
    acquired (.acquire r :: calls) = r :: acquired calls := rfl

@[simp] theorem acquired_release (r : ρ) (calls : List (Call ρ)) :
    acquired (.release r :: calls) = acquired calls := rfl

@[simp] theorem acquired_append (calls₁ calls₂ : List (Call ρ)) :
    acquired (calls₁ ++ calls₂) = acquired calls₁ ++ acquired calls₂ := List.filterMap_append

@[simp] theorem acquired_map_acquire (rs : List ρ) : acquired (rs.map .acquire) = rs := by
  induction rs with
  | nil => rfl
  | cons r rs ih => exact congrArg (r :: ·) ih

@[simp] theorem acquired_map_release (rs : List ρ) : acquired (rs.map .release) = [] := by
  induction rs with
  | nil => rfl
  | cons r rs ih => exact ih

variable [DecidableEq ρ]

def step (held : Finset ρ) : Call ρ → Option (Finset ρ)
  | .acquire r => if r ∈ held then none else some (insert r held)
  | .release r => if r ∈ held then some (held.erase r) else none

def after (held : Finset ρ) (calls : List (Call ρ)) : Option (Finset ρ) := calls.foldlM step held

variable {held held' : Finset ρ} {calls : List (Call ρ)} {r : ρ}

@[simp] theorem after_nil : after held [] = some held := rfl

@[simp] theorem after_cons (c : Call ρ) :
    after held (c :: calls) = (step held c).bind fun h => after h calls := rfl

theorem after_append (calls₁ calls₂ : List (Call ρ)) :
    after held (calls₁ ++ calls₂) = (after held calls₁).bind fun h => after h calls₂ :=
  List.foldlM_append

theorem after_append_of {calls₁ calls₂ : List (Call ρ)} (h : after held calls₁ = some held') :
    after held (calls₁ ++ calls₂) = after held' calls₂ := by rw [after_append, h, Option.bind_some]

@[simp] theorem step_acquire (h : r ∉ held) : step held (.acquire r) = some (insert r held) :=
  if_neg h

@[simp] theorem step_release (h : r ∈ held) : step held (.release r) = some (held.erase r) :=
  if_pos h

theorem after_acquire {rs : List ρ} (hnodup : rs.Nodup) (hnew : ∀ r ∈ rs, r ∉ held) :
    after held (rs.map .acquire) = some (held ∪ rs.toFinset) := by
  induction rs generalizing held with
  | nil => simp
  | cons r rs ih =>
    rw [List.nodup_cons] at hnodup
    rw [List.forall_mem_cons] at hnew
    have hrest : ∀ q ∈ rs, q ∉ insert r held := by
      intro q hq hmem
      rcases Finset.mem_insert.mp hmem with rfl | hheld
      · exact hnodup.1 hq
      · exact hnew.2 q hq hheld
    rw [List.map_cons, after_cons, step_acquire hnew.1, Option.bind_some, ih hnodup.2 hrest,
      List.toFinset_cons, Finset.union_insert, Finset.insert_union]

theorem after_release {rs : List ρ} (hnodup : rs.Nodup) (hheld : ∀ r ∈ rs, r ∈ held) :
    after held (rs.map .release) = some (held \ rs.toFinset) := by
  induction rs generalizing held with
  | nil => simp
  | cons r rs ih =>
    rw [List.nodup_cons] at hnodup
    rw [List.forall_mem_cons] at hheld
    have hrest : ∀ q ∈ rs, q ∈ held.erase r := fun q hq =>
      Finset.mem_erase.mpr ⟨fun heq => hnodup.1 (heq ▸ hq), hheld.2 q hq⟩
    rw [List.map_cons, after_cons, step_release hheld.1, Option.bind_some, ih hnodup.2 hrest,
      List.toFinset_cons, Finset.sdiff_insert, Finset.erase_sdiff_comm]

/-- Each call that acquires a resource is matched by one that releases it, or the
resource is held. -/
theorem count_of_after (h : after held calls = some held') (r : ρ) :
    calls.count (.acquire r) + (if r ∈ held then 1 else 0) =
      calls.count (.release r) + if r ∈ held' then 1 else 0 := by
  induction calls generalizing held with
  | nil =>
    rw [after_nil, Option.some.injEq] at h
    simp [h]
  | cons c calls ih =>
    obtain ⟨held₁, hstep, hrest⟩ := Option.bind_eq_some_iff.mp h
    have hcount := ih hrest
    cases c with
    | acquire q =>
      simp only [step] at hstep
      split_ifs at hstep with hq
      rw [Option.some.injEq] at hstep
      subst hstep
      by_cases hrq : q = r
      · subst hrq
        simp [hq] at hcount ⊢
        omega
      · have hne : r ≠ q := Ne.symm hrq
        simp [hrq, hne] at hcount ⊢
        omega
    | release q =>
      simp only [step] at hstep
      split_ifs at hstep with hq
      rw [Option.some.injEq] at hstep
      subst hstep
      by_cases hrq : q = r
      · subst hrq
        simp [hq] at hcount ⊢
        omega
      · have hne : r ≠ q := Ne.symm hrq
        simp [hrq, hne] at hcount ⊢
        omega

theorem count_acquire (calls : List (Call ρ)) (r : ρ) :
    calls.count (.acquire r) = (acquired calls).count r := by
  induction calls with
  | nil => rfl
  | cons c calls ih => cases c <;> simp_all [acquired, List.count_cons]

/-- Calls that begin and end with nothing held release each resource once, if they
acquire none twice. -/
theorem count_release_eq_one (h : after ∅ calls = some ∅) (hnodup : (acquired calls).Nodup)
    (hr : .acquire r ∈ calls) : calls.count (.release r) = 1 := by
  have hcount := count_of_after h r
  have hmem : 0 < calls.count (.acquire r) := List.count_pos_iff.mpr hr
  have hle := List.nodup_iff_count_le_one.mp hnodup r
  rw [← count_acquire] at hle
  simp only [Finset.notMem_empty, if_false, Nat.add_zero] at hcount
  omega

/-- The ledger takes the calls, and what is held has the property at each moment. -/
def Keeps (P : Finset ρ → Prop) : Finset ρ → List (Call ρ) → Prop
  | held, [] => P held
  | held, c :: calls => P held ∧ ∃ held', step held c = some held' ∧ Keeps P held' calls

theorem Keeps.append {P : Finset ρ → Prop} {calls' : List (Call ρ)} (h : Keeps P held calls)
    (hafter : after held calls = some held') (h' : Keeps P held' calls') :
    Keeps P held (calls ++ calls') := by
  induction calls generalizing held with
  | nil =>
    rw [after_nil, Option.some.injEq] at hafter
    subst hafter
    exact h'
  | cons c calls ih =>
    obtain ⟨hP, held₁, hstep, hrest⟩ := h
    rw [after_cons, hstep, Option.bind_some] at hafter
    exact ⟨hP, held₁, hstep, ih hrest hafter⟩

end Ledger
