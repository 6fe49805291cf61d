import Mathlib.Data.List.Basic

/-!
# Servers that follow a script

A server serves one request after the other. It goes through a script of requests, each
with its answer; a request that the script does not come to next is turned down and
changes nothing.
-/

namespace Script

variable {α β : Type*} [DecidableEq α]

def advance (script : List (α × β)) (a : α) : List (α × β) :=
  match script with
  | [] => []
  | (b, d) :: rest => if a = b then rest else (b, d) :: rest

def after (script : List (α × β)) (as : List α) : List (α × β) := as.foldl advance script

def reply (invalid : β) (script : List (α × β)) (a : α) : β :=
  match script with
  | [] => invalid
  | (b, d) :: _ => if a = b then d else invalid

def replies (invalid : β) : List (α × β) → List α → List β
  | _, [] => []
  | script, a :: as => reply invalid script a :: replies invalid (advance script a) as

variable {invalid : β} {script : List (α × β)} {a b : α} {d : β}

@[simp] theorem advance_cons_self : advance ((a, d) :: script) a = script := if_pos rfl

theorem advance_cons_of_ne (h : a ≠ b) : advance ((b, d) :: script) a = (b, d) :: script :=
  if_neg h

@[simp] theorem reply_cons_self : reply invalid ((a, d) :: script) a = d := if_pos rfl

theorem reply_cons_of_ne (h : a ≠ b) : reply invalid ((b, d) :: script) a = invalid := if_neg h

theorem after_cons (script : List (α × β)) (a : α) (as : List α) :
    after script (a :: as) = after (advance script a) as := rfl

theorem after_append_singleton (script : List (α × β)) (as : List α) (a : α) :
    after script (as ++ [a]) = advance (after script as) a := by
  rw [after, List.foldl_append]
  rfl

@[simp] theorem replies_length (invalid : β) (script : List (α × β)) (as : List α) :
    (replies invalid script as).length = as.length := by
  induction as generalizing script with
  | nil => rfl
  | cons a as ih => rw [replies, List.length_cons, ih, List.length_cons]

theorem replies_append_singleton (invalid : β) (script : List (α × β)) (as : List α) (a : α) :
    replies invalid script (as ++ [a]) =
      replies invalid script as ++ [reply invalid (after script as) a] := by
  induction as generalizing script with
  | nil => rfl
  | cons b as ih => rw [List.cons_append, replies, ih, replies, List.cons_append, after_cons]

/-- The answers that do not turn a request down are those of the script in order, as far
as it was gone through. -/
theorem filter_replies (h : ∀ p ∈ script, p.2 ≠ invalid) [DecidableEq β] (as : List α) :
    (replies invalid script as).filter (· ≠ invalid) ++ (after script as).map Prod.snd =
      script.map Prod.snd := by
  induction as generalizing script with
  | nil => rfl
  | cons a as ih =>
    rw [replies, after_cons]
    cases script with
    | nil => simpa [reply, advance] using ih h
    | cons p script =>
      obtain ⟨b, d⟩ := p
      obtain ⟨hd, hscript⟩ := List.forall_mem_cons.mp h
      obtain rfl | hne := eq_or_ne a b
      · rw [reply_cons_self, advance_cons_self, List.filter_cons_of_pos (by simpa using hd),
          List.cons_append, ih hscript, List.map_cons]
      · rw [reply_cons_of_ne hne, advance_cons_of_ne hne, List.filter_cons_of_neg (by simp)]
        exact ih h

/-- Where an entry of the script is in a part of it, the part divides as the script does. -/
theorem sublist_split {γ : Type*} {a : γ} {front rest before behind : List γ}
    (hbefore : a ∉ before) (hbehind : a ∉ behind)
    (h : (front ++ a :: rest).Sublist (before ++ a :: behind)) :
    front.Sublist before ∧ rest.Sublist behind := by
  induction before generalizing front with
  | nil =>
    cases front with
    | nil => exact ⟨List.Sublist.refl _, List.cons_sublist_cons.mp h⟩
    | cons b front =>
      have hin : a ∈ behind := h.of_cons_cons.subset (by simp)
      exact absurd hin hbehind
  | cons b before ih =>
    obtain ⟨hne, hnot⟩ := not_or.mp fun hin => hbefore (List.mem_cons.mpr hin)
    rcases List.sublist_cons_iff.mp h with hskip | ⟨tail, htail, hkeep⟩
    · obtain ⟨hfront, hrest⟩ := ih hnot hskip
      exact ⟨hfront.cons b, hrest⟩
    · cases front with
      | nil => exact absurd (List.cons.inj htail).1 hne
      | cons c front =>
        obtain ⟨rfl, rfl⟩ := List.cons.inj htail
        obtain ⟨hfront, hrest⟩ := ih hnot hkeep
        exact ⟨hfront.cons_cons c, hrest⟩

end Script
