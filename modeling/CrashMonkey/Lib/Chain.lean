import Mathlib.Data.Finmap

/-!
# Linked lists in a heap

A heap maps addresses to nodes, and a node may point to a next one. A list is what is
met when the pointers are followed; nodes are appended to it and freed.
-/

namespace Chain

variable {α ν : Type*} [DecidableEq α] {next : ν → Option α}

theorem keys_erase (heap : Finmap fun _ : α => ν) (a : α) :
    (heap.erase a).keys = heap.keys.erase a := by
  ext b
  rw [Finmap.mem_keys, Finmap.mem_erase, Finset.mem_erase, Finmap.mem_keys]

theorem card_erase_add_one {heap : Finmap fun _ : α => ν} {a : α} {n : ν}
    (h : heap.lookup a = some n) : (heap.erase a).keys.card + 1 = heap.keys.card := by
  have hmem : a ∈ heap.keys := by
    rw [Finmap.mem_keys, ← Finmap.lookup_isSome, h]
    rfl
  rw [keys_erase]
  exact Finset.card_erase_add_one hmem

/-- From `p` on the nodes `l` are met, up to a null pointer. -/
inductive Linked (next : ν → Option α) (heap : Finmap fun _ : α => ν) :
    Option α → List (α × ν) → Prop
  | nil : Linked next heap none []
  | cons {a : α} {n : ν} {l : List (α × ν)} : heap.lookup a = some n →
      Linked next heap (next n) l → Linked next heap (some a) ((a, n) :: l)

variable {heap heap' : Finmap fun _ : α => ν} {p : Option α} {l : List (α × ν)}

theorem Linked.unique {l' : List (α × ν)} (h : Linked next heap p l) (h' : Linked next heap p l') :
    l = l' := by
  induction h generalizing l' with
  | nil =>
    cases h'
    rfl
  | cons hn _ ih =>
    cases h' with
    | cons hn' hrest =>
      rw [hn, Option.some.injEq] at hn'
      subst hn'
      rw [ih hrest]

theorem Linked.head_eq (h : Linked next heap p l) : p = l.head?.map Prod.fst := by
  cases h <;> rfl

theorem Linked.next_eq {a : α} {n : ν} (h : Linked next heap p ((a, n) :: l)) :
    next n = l.head?.map Prod.fst := by
  cases h with
  | cons _ hrest => exact hrest.head_eq

theorem Linked.lookup_eq (h : Linked next heap p l) {a : α} {n : ν} (hmem : (a, n) ∈ l) :
    heap.lookup a = some n := by
  induction h with
  | nil => cases hmem
  | cons hn _ ih =>
    rcases List.mem_cons.mp hmem with heq | hrest
    · rw [Prod.mk.injEq] at heq
      rw [heq.1, heq.2, hn]
    · exact ih hrest

/-- A node points to one of the list, if to any. -/
theorem Linked.next_mem (h : Linked next heap p l) {a b : α} {n : ν} (hmem : (a, n) ∈ l)
    (hb : next n = some b) : b ∈ l.map Prod.fst := by
  induction h with
  | nil => cases hmem
  | cons _ hrest ih =>
    rw [List.map_cons]
    rcases List.mem_cons.mp hmem with heq | hmem
    · rw [Prod.mk.injEq] at heq
      rw [heq.2, hrest.head_eq] at hb
      obtain ⟨m, hm, rfl⟩ := Option.map_eq_some_iff.mp hb
      exact List.mem_cons_of_mem _ (List.mem_map_of_mem (List.mem_of_mem_head? hm))
    · exact List.mem_cons_of_mem _ (ih hmem)

/-- Only the nodes of the list count. -/
theorem Linked.congr (h : Linked next heap p l)
    (heq : ∀ a ∈ l.map Prod.fst, heap'.lookup a = heap.lookup a) : Linked next heap' p l := by
  induction h with
  | nil => exact .nil
  | cons hn _ ih =>
    rw [List.map_cons, List.forall_mem_cons] at heq
    exact .cons (heq.1.trans hn) (ih heq.2)

/-- The last node gets a next one. -/
theorem Linked.append {a b : α} {n n' m : ν} (h : Linked next heap p (l ++ [(a, n)]))
    (heq : ∀ c ∈ l.map Prod.fst, heap'.lookup c = heap.lookup c)
    (ha : heap'.lookup a = some n') (hn' : next n' = some b) (hb : heap'.lookup b = some m)
    (hm : next m = none) : Linked next heap' p (l ++ [(a, n'), (b, m)]) := by
  induction l generalizing p with
  | nil =>
    cases h with
    | cons =>
      refine .cons ha (hn' ▸ .cons hb ?_)
      rw [hm]
      exact .nil
  | cons c l ih =>
    rw [List.map_cons, List.forall_mem_cons] at heq
    cases h with
    | cons hn hrest => exact .cons (heq.1.trans hn) (ih hrest heq.2)

/-- The list without its first nodes. -/
theorem Linked.drop {l₁ l₂ : List (α × ν)} (h : Linked next heap p (l₁ ++ l₂)) :
    Linked next heap (l₂.head?.map Prod.fst) l₂ := by
  induction l₁ generalizing p with
  | nil =>
    have hp := h.head_eq
    rw [List.nil_append] at hp h
    exact hp ▸ h
  | cons c l₁ ih =>
    cases h with
    | cons _ hrest => exact ih hrest

/-- Freeing the first node of a list without repetition keeps the rest. -/
theorem Linked.erase {a : α} {n : ν} (h : Linked next heap p ((a, n) :: l))
    (hnodup : (((a, n) :: l).map Prod.fst).Nodup) : Linked next (heap.erase a) (next n) l := by
  rw [List.map_cons, List.nodup_cons] at hnodup
  cases h with
  | cons _ hrest =>
    refine hrest.congr fun b hb => Finmap.lookup_erase_ne ?_
    rintro rfl
    exact hnodup.1 hb

end Chain
