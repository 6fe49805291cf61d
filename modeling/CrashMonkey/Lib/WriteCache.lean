import Mathlib.Data.List.Perm.Subperm
import Mathlib.Data.List.ReduceOption
import CrashMonkey.Lib.Transition

/-!
# Disks with a volatile cache

A disk takes writes into a cache and moves them to its image one by one, in any order it
likes. A write that has to go through is made on the image at once, and a flush is over
once the cache is empty. A crash leaves the image and nothing else.
-/

namespace WriteCache

variable {ω σ : Type*}

inductive Cmd (ω : Type*) where
  | write (w : ω)
  | through (w : ω)
  | flush

structure Disk (ω σ : Type*) where
  image : σ
  cache : List ω

/-- A command that is served, or (`none`) a write that the disk moves to its image. -/
inductive Step (apply : σ → ω → σ) : Disk ω σ → Option (Cmd ω) → Disk ω σ → Prop
  | write (img : σ) (cache : List ω) (w : ω) :
      Step apply ⟨img, cache⟩ (some (.write w)) ⟨img, cache ++ [w]⟩
  | through (img : σ) (cache : List ω) (w : ω) :
      Step apply ⟨img, cache⟩ (some (.through w)) ⟨apply img w, cache⟩
  | flush (img : σ) : Step apply ⟨img, []⟩ (some .flush) ⟨img, []⟩
  | destage (img : σ) (before after : List ω) (w : ω) :
      Step apply ⟨img, before ++ w :: after⟩ none ⟨apply img w, before ++ after⟩

/-- What a crash can leave of `base` when the disk has served some of the commands. -/
def CrashImage (apply : σ → ω → σ) (base : σ) (cmds : List (Cmd ω)) (img : σ) : Prop :=
  ∃ es d, Transition.Run (Step apply) ⟨base, []⟩ es d ∧ es.reduceOption <+: cmds ∧ d.image = img

/-- The writes between one flush and the next; those of the first group go behind `cur`.
A write that goes through is a group of its own. -/
def groups : List ω → List (Cmd ω) → List (List ω)
  | cur, [] => [cur]
  | cur, .write w :: cmds => groups (cur ++ [w]) cmds
  | cur, .through w :: cmds => cur :: [w] :: groups [] cmds
  | cur, .flush :: cmds => cur :: groups [] cmds

/-- A write goes through only where the cache is empty, as it is behind a flush. -/
def ThroughFlushed : Bool → List (Cmd ω) → Prop
  | _, [] => True
  | _, .write _ :: cmds => ThroughFlushed false cmds
  | flushed, .through _ :: cmds => flushed = true ∧ ThroughFlushed true cmds
  | _, .flush :: cmds => ThroughFlushed true cmds

@[simp] theorem groups_nil (cur : List ω) : groups cur [] = [cur] := rfl

@[simp] theorem groups_write (cur : List ω) (w : ω) (cmds : List (Cmd ω)) :
    groups cur (.write w :: cmds) = groups (cur ++ [w]) cmds := rfl

@[simp] theorem groups_through (cur : List ω) (w : ω) (cmds : List (Cmd ω)) :
    groups cur (.through w :: cmds) = cur :: [w] :: groups [] cmds := rfl

@[simp] theorem groups_flush (cur : List ω) (cmds : List (Cmd ω)) :
    groups cur (.flush :: cmds) = cur :: groups [] cmds := rfl

/-- Only the first group depends on what was there before. -/
theorem groups_eq (cmds : List (Cmd ω)) :
    ∃ more rest, ∀ cur, groups cur cmds = (cur ++ more) :: rest := by
  induction cmds with
  | nil => exact ⟨[], [], fun cur => by simp⟩
  | cons c cmds ih =>
    cases c with
    | flush => exact ⟨[], groups [] cmds, fun cur => by simp⟩
    | through w => exact ⟨[], [w] :: groups [] cmds, fun cur => by simp⟩
    | write w =>
      obtain ⟨more, rest, h⟩ := ih
      exact ⟨w :: more, rest, fun cur => by rw [groups_write, h, List.append_assoc]; rfl⟩

/-- The crash is in the first group, of which some writes were made in some order; or that
group was made completely, in some order, and the crash is in a later one. -/
inductive Crashes (apply : σ → ω → σ) : List (List ω) → σ → σ → Prop
  | here {g part : List ω} {gs : List (List ω)} (img : σ) (h : part.Subperm g) :
      Crashes apply (g :: gs) img (part.foldl apply img)
  | later {g block : List ω} {gs : List (List ω)} {img img' : σ} (h : block.Perm g)
      (hrest : Crashes apply gs (block.foldl apply img) img') : Crashes apply (g :: gs) img img'

variable {apply : σ → ω → σ}

theorem crashes_nil {img img' : σ} : ¬ Crashes apply [] img img' := nofun

/-- What later groups allow may be allowed by others. -/
theorem Crashes.tail {g : List ω} {gs gs' : List (List ω)} {img img' : σ}
    (h : Crashes apply (g :: gs) img img')
    (hrest : ∀ img, Crashes apply gs img img' → Crashes apply gs' img img') :
    Crashes apply (g :: gs') img img' := by
  cases h with
  | here _ hpart => exact .here img hpart
  | later hblock h => exact .later hblock (hrest _ h)

/-- Without the flush between them two groups allow more. -/
theorem Crashes.merge {g g' : List ω} {gs : List (List ω)} {img img' : σ}
    (h : Crashes apply (g :: g' :: gs) img img') : Crashes apply ((g ++ g') :: gs) img img' := by
  cases h with
  | @here _ part _ _ hpart =>
    have hsub : part.Subperm (g ++ g') := hpart.trans (List.sublist_append_left g g').subperm
    exact .here img hsub
  | @later _ block _ _ _ hblock hrest =>
    cases hrest with
    | @here _ part _ _ hpart =>
      have hsub : (block ++ part).Subperm (g ++ g') := hblock.subperm.append hpart
      rw [← List.foldl_append]
      exact .here img hsub
    | @later _ block' _ _ _ hblock' hrest =>
      have hperm : (block ++ block').Perm (g ++ g') := hblock.append hblock'
      apply Crashes.later hperm
      rwa [List.foldl_append]

/-- A group without writes can be left out. -/
theorem crashes_empty {g : List ω} {gs : List (List ω)} {img img' : σ} :
    Crashes apply ([] :: g :: gs) img img' ↔ Crashes apply (g :: gs) img img' := by
  constructor
  · exact fun h => h.merge
  · exact .later (List.Perm.refl [])

/-- What was destaged first can be put back into the first group. -/
theorem Crashes.destaged {before after : List ω} {w : ω} {cmds : List (Cmd ω)} {img img' : σ}
    (h : Crashes apply (groups (before ++ after) cmds) (apply img w) img') :
    Crashes apply (groups (before ++ w :: after) cmds) img img' := by
  obtain ⟨more, rest, hgroups⟩ := groups_eq cmds
  have hperm : (before ++ w :: after ++ more).Perm (w :: (before ++ after ++ more)) := by
    rw [List.append_assoc, List.append_assoc, List.cons_append]
    apply List.perm_middle
  rw [hgroups] at h ⊢
  cases h with
  | @here _ part _ _ hpart =>
    have hput : (w :: part).Subperm (before ++ w :: after ++ more) :=
      hperm.subperm_left.mpr ((List.subperm_cons w).mpr hpart)
    exact .here img hput
  | later hblock hrest => exact .later ((hblock.cons w).trans hperm.symm) hrest

/-- If writes only go through an empty cache, a run leaves an image that the groups allow. -/
theorem crashes_of_run {d d' : Disk ω σ} {es : List (Option (Cmd ω))} {cmds : List (Cmd ω)}
    {flushed : Bool} (hrun : Transition.Run (Step apply) d es d') (hes : es.reduceOption <+: cmds)
    (hthrough : ThroughFlushed flushed cmds) (hflushed : flushed = true → d.cache = []) :
    Crashes apply (groups d.cache cmds) d.image d'.image := by
  induction hrun generalizing cmds flushed with
  | nil d =>
    obtain ⟨more, rest, h⟩ := groups_eq cmds
    rw [h]
    have hnone : List.Subperm [] (d.cache ++ more) := List.nil_subperm
    exact .here d.image hnone
  | cons hstep _ ih =>
    cases hstep with
    | destage img before after w =>
      apply Crashes.destaged
      apply ih hes hthrough
      intro h
      have hempty : before ++ w :: after = [] := hflushed h
      simp at hempty
    | write img cache w =>
      obtain ⟨rest, rfl⟩ := hes
      rw [List.reduceOption_cons_of_some, List.cons_append] at hthrough ⊢
      exact ih (List.prefix_append _ _) hthrough nofun
    | through img cache w =>
      obtain ⟨rest, rfl⟩ := hes
      rw [List.reduceOption_cons_of_some, List.cons_append] at hthrough ⊢
      obtain rfl : cache = [] := hflushed hthrough.1
      rw [groups_through, crashes_empty]
      apply Crashes.later (List.Perm.refl [w])
      exact ih (List.prefix_append _ _) hthrough.2 fun _ => rfl
    | flush img =>
      obtain ⟨rest, rfl⟩ := hes
      rw [List.reduceOption_cons_of_some, List.cons_append] at hthrough ⊢
      exact .later (List.Perm.refl _) (ih (List.prefix_append _ _) hthrough fun _ => rfl)

/-- Writes of the cache can be destaged in any order, and the others stay. -/
theorem exists_run_destage (apply : σ → ω → σ) {part : List ω} (cache : List ω) (img : σ)
    (h : part.Subperm cache) :
    ∃ es rest, es.reduceOption = [] ∧ cache.Perm (part ++ rest) ∧
      Transition.Run (Step apply) ⟨img, cache⟩ es ⟨part.foldl apply img, rest⟩ := by
  induction part generalizing cache img with
  | nil => exact ⟨[], cache, rfl, .refl _, .nil _⟩
  | cons w part ih =>
    obtain ⟨before, after, rfl⟩ := List.append_of_mem (h.subset List.mem_cons_self)
    have hpart : part.Subperm (before ++ after) :=
      (List.subperm_cons w).mp (List.perm_middle.subperm_left.mp h)
    obtain ⟨es, rest, hes, hrest, hrun⟩ := ih (before ++ after) (apply img w) hpart
    refine ⟨none :: es, rest, hes, ?_, .cons (.destage img before after w) hrun⟩
    exact List.perm_middle.trans (hrest.cons w)

/-- A block that is the whole cache is destaged, and the cache is empty then. -/
theorem exists_run_destage_all (apply : σ → ω → σ) {block cache : List ω} (img : σ)
    (h : block.Perm cache) : ∃ es, es.reduceOption = [] ∧
      Transition.Run (Step apply) ⟨img, cache⟩ es ⟨block.foldl apply img, []⟩ := by
  obtain ⟨es, rest, hes, hperm, hrun⟩ := exists_run_destage apply cache img h.subperm
  have hnil : rest = [] := by
    have hlen := hperm.length_eq
    rw [List.length_append, h.length_eq] at hlen
    apply List.eq_nil_of_length_eq_zero
    omega
  subst hnil
  exact ⟨es, hes, hrun⟩

/-- A command can be served between two runs. -/
theorem exists_run_cmd {c : Cmd ω} {cmds : List (Cmd ω)} {d d₁ d₂ : Disk ω σ} {img' : σ}
    {es : List (Option (Cmd ω))} (hes : es.reduceOption = [])
    (hrun : Transition.Run (Step apply) d es d₁) (hstep : Step apply d₁ (some c) d₂)
    (hrest : ∃ es d', Transition.Run (Step apply) d₂ es d' ∧ es.reduceOption <+: cmds ∧
      d'.image = img') :
    ∃ es d', Transition.Run (Step apply) d es d' ∧ es.reduceOption <+: c :: cmds ∧
      d'.image = img' := by
  obtain ⟨es', d', hrun', hes', himg⟩ := hrest
  refine ⟨es ++ some c :: es', d', hrun.append (.cons hstep hrun'), ?_, himg⟩
  rw [List.reduceOption_append, hes, List.nil_append, List.reduceOption_cons_of_some]
  exact (List.prefix_cons_inj _).mpr hes'

theorem subperm_singleton {part : List ω} {w : ω} (h : part.Subperm [w]) :
    part = [] ∨ part = [w] := by
  cases part with
  | nil => exact .inl rfl
  | cons v part =>
    have hlen : [w].length ≤ (v :: part).length := Nat.succ_le_succ (Nat.zero_le _)
    exact .inr (List.perm_singleton.mp (h.perm_of_length_le hlen))

/-- An image that the groups allow is left by a run, from any cache on. -/
theorem exists_run_of_crashes {cache : List ω} {cmds : List (Cmd ω)} {img img' : σ}
    (h : Crashes apply (groups cache cmds) img img') :
    ∃ es d, Transition.Run (Step apply) ⟨img, cache⟩ es d ∧ es.reduceOption <+: cmds ∧
      d.image = img' := by
  have hhere {part cache : List ω} {cmds : List (Cmd ω)} (img : σ) (hpart : part.Subperm cache) :
      ∃ es d, Transition.Run (Step apply) ⟨img, cache⟩ es d ∧ es.reduceOption <+: cmds ∧
        d.image = part.foldl apply img := by
    obtain ⟨es, rest, hes, -, hrun⟩ := exists_run_destage apply cache img hpart
    exact ⟨es, _, hrun, hes ▸ List.nil_prefix, rfl⟩
  induction cmds generalizing cache img with
  | nil =>
    cases h with
    | here _ hpart => exact hhere img hpart
    | later _ hrest => exact absurd hrest crashes_nil
  | cons c cmds ih =>
    cases c with
    | write w => exact exists_run_cmd rfl (.nil _) (.write img cache w) (ih h)
    | through w =>
      cases h with
      | here _ hpart => exact hhere img hpart
      | @later _ block _ _ _ hblock hrest =>
        obtain ⟨es, hes, hrun⟩ := exists_run_destage_all apply img hblock
        cases hrest with
        | @here _ part _ _ hpart =>
          rcases subperm_singleton hpart with rfl | rfl
          · exact hhere img hblock.subperm
          · exact exists_run_cmd hes hrun (.through _ [] w) ⟨[], _, .nil _, List.nil_prefix, rfl⟩
        | later hblock' hrest =>
          rw [List.perm_singleton.mp hblock'] at hrest
          exact exists_run_cmd hes hrun (.through _ [] w) (ih hrest)
    | flush =>
      cases h with
      | here _ hpart => exact hhere img hpart
      | later hblock hrest =>
        obtain ⟨es, hes, hrun⟩ := exists_run_destage_all apply img hblock
        exact exists_run_cmd hes hrun (.flush _) (ih hrest)

/-- What the groups allow is left by a crash. -/
theorem crashImage_of_crashes {base : σ} {cmds : List (Cmd ω)} {img : σ}
    (h : Crashes apply (groups [] cmds) base img) : CrashImage apply base cmds img :=
  exists_run_of_crashes h

/-- The images that crashes leave, read off the groups. -/
theorem crashImage_iff {base : σ} {cmds : List (Cmd ω)} {img : σ}
    (h : ThroughFlushed true cmds) :
    CrashImage apply base cmds img ↔ Crashes apply (groups [] cmds) base img := by
  constructor
  · rintro ⟨es, d, hrun, hes, rfl⟩
    exact crashes_of_run hrun hes h fun _ => rfl
  · exact crashImage_of_crashes

end WriteCache
