import CrashMonkey.Permuter.Calls
import CrashMonkey.Permuter.WriteGroups

namespace CrashMonkey

open WriteCache

theorem crashForm_cons {δ : Type} {ep : Epoch δ} {eps : List (Epoch δ)} {res : List (EpochOp δ)} :
    CrashForm (ep :: eps) res ↔
      (∃ ps, 1 ≤ ps.length ∧ Selection ep ps ∧ res = opsAt ep ps) ∨
        ∃ block rest, FullBlock ep block ∧ CrashForm eps rest ∧ res = block ++ rest := by
  constructor
  · rintro ⟨e, last, blocks, ps, he, hlast, hblocks, hps, hsel, rfl⟩
    obtain ⟨m, rfl⟩ := Nat.exists_eq_add_of_le' he
    rw [Nat.add_sub_cancel] at hlast hblocks
    cases m with
    | zero =>
      obtain rfl : ep = last := Option.some.inj hlast
      rw [List.take_zero, List.forall₂_nil_left_iff] at hblocks
      exact .inl ⟨ps, hps, hsel, by rw [hblocks]; rfl⟩
    | succ m =>
      rw [List.take_succ_cons, List.forall₂_cons_left_iff] at hblocks
      obtain ⟨block, blocks', hblock, hblocks', rfl⟩ := hblocks
      refine .inr ⟨block, blocks'.flatten ++ opsAt last ps, hblock, ?_, ?_⟩
      · exact ⟨m + 1, last, blocks', ps, by omega, hlast, hblocks', hps, hsel, rfl⟩
      · rw [List.flatten_cons, List.append_assoc]
  · rintro (⟨ps, hps, hsel, rfl⟩ | ⟨block, rest, hblock, hrest, rfl⟩)
    · exact ⟨1, ep, [], ps, by omega, rfl, .nil, hps, hsel, rfl⟩
    · obtain ⟨e, last, blocks, ps, he, hlast, hblocks, hps, hsel, rfl⟩ := hrest
      obtain ⟨m, rfl⟩ := Nat.exists_eq_add_of_le' he
      refine ⟨m + 2, last, block :: blocks, ps, by omega, hlast, .cons hblock hblocks, hps, hsel,
        ?_⟩
      rw [List.flatten_cons, List.append_assoc]

theorem not_crashForm_nil {δ : Type} {res : List (EpochOp δ)} : ¬ CrashForm [] res := by
  rintro ⟨e, last, blocks, ps, he, hlast, -⟩
  cases hlast

/-- A part of what `f` keeps of a list is what it keeps of a part. -/
theorem exists_subperm_filterMap {α β : Type*} {f : α → Option β} {l : List α} {part : List β}
    (h : part.Subperm (l.filterMap f)) :
    ∃ qs : List α, qs.Subperm l ∧ qs.filterMap f = part := by
  induction part generalizing l with
  | nil => exact ⟨[], List.nil_subperm, rfl⟩
  | cons b part ih =>
    obtain ⟨a, ha, hb⟩ := List.mem_filterMap.mp (h.subset List.mem_cons_self)
    obtain ⟨before, after, rfl⟩ := List.append_of_mem ha
    have hmiddle : ((before ++ a :: after).filterMap f).Perm
        (b :: (before ++ after).filterMap f) := by
      rw [← List.filterMap_cons_some hb]
      exact List.perm_middle.filterMap f
    obtain ⟨qs, hqs, hpart⟩ := ih ((List.subperm_cons b).mp (hmiddle.subperm_left.mp h))
    refine ⟨a :: qs, List.perm_middle.subperm_left.mpr ((List.subperm_cons a).mpr hqs), ?_⟩
    rw [List.filterMap_cons_some hb, hpart]

theorem extents_opsAt (ep : Epoch Payload) (ps : List ℕ) :
    extents (opsAt ep ps) = ps.filterMap fun p => ep.ops[p]?.bind fun o => o.op.extent := by
  rw [extents, opsAt, List.filterMap_filterMap]

theorem opsAt_range_take {δ : Type} (ep : Epoch δ) (n : ℕ) :
    opsAt ep (List.range (min n ep.ops.length)) = ep.ops.take n := by
  have htake : opsAt ep (List.range (min n ep.ops.length)) =
      opsAt ⟨ep.numMeta, false, false, ep.ops.take n⟩ (List.range (ep.ops.take n).length) := by
    rw [List.length_take]
    apply List.filterMap_congr
    intro p hp
    have hlt : p < n := by
      rw [List.mem_range] at hp
      omega
    exact (List.getElem?_take_of_lt hlt).symm
  rw [htake, opsAt_range]

/-- Positions that leave out the barrier are a selection, in any order. -/
theorem selection_of_subperm {δ : Type} {ep : Epoch δ} {n : ℕ} {ps : List ℕ}
    (hb : ep.hasBarrier = true → n < ep.ops.length)
    (h : ps.Subperm (List.range (min n ep.ops.length))) : Selection ep ps := by
  have hlt : ∀ p ∈ ps, p < min n ep.ops.length := fun p hp => List.mem_range.mp (h.subset hp)
  refine ⟨?_, fun p hp => ?_, fun hbarrier hmem => ?_⟩
  · obtain ⟨qs, hperm, hsublist⟩ := h
    exact hperm.nodup_iff.mp (hsublist.nodup List.nodup_range)
  · have := hlt p hp
    omega
  · have := hlt _ hmem
    have := hb hbarrier
    omega

/-- Any part of the first writes of an epoch can be selected. -/
theorem exists_selection_part {ep : Epoch Payload} {n : ℕ} {part : List Extent}
    (hb : ep.hasBarrier = true → n < ep.ops.length)
    (h : part.Subperm (extents (ep.ops.take n))) :
    ∃ ps, Selection ep ps ∧ extents (opsAt ep ps) = part := by
  rw [← opsAt_range_take, extents_opsAt] at h
  obtain ⟨ps, hps, hpart⟩ := exists_subperm_filterMap h
  exact ⟨ps, selection_of_subperm hb hps, by rw [extents_opsAt, hpart]⟩

/-- What is selected among the first operations is a part of their writes. -/
theorem Selection.extents_subperm {ep : Epoch Payload} {ps : List ℕ} {n : ℕ}
    (h : Selection ep ps) (hn : ∀ p ∈ ps, p < n) :
    (extents (opsAt ep ps)).Subperm (extents (ep.ops.take n)) := by
  have hsub : ps.Subperm (List.range (min n ep.ops.length)) := by
    apply List.subperm_of_subset h.nodup
    intro p hp
    have := hn p hp
    have := h.lt p hp
    rw [List.mem_range]
    omega
  obtain ⟨qs, hperm, hsublist⟩ := hsub
  rw [← opsAt_range_take, extents_opsAt, extents_opsAt]
  exact ⟨_, hperm.filterMap _, hsublist.filterMap _⟩

/-- With the barrier, everything before it is selected. -/
theorem Selection.extents_perm {ep : Epoch Payload} {init : List (EpochOp Payload)}
    {b : EpochOp Payload} {ps : List ℕ} (h : Selection ep ps) (hb : ep.hasBarrier = true)
    (hops : ep.ops = init ++ [b]) (hmem : init.length ∈ ps) :
    ∃ block, block.Perm (extents init) ∧ extents (opsAt ep ps) = block ++ extents [b] := by
  have hlen : ep.ops.length - 1 = init.length := by simp [hops]
  obtain ⟨hall, hlast⟩ := h.barrier hb (hlen ▸ hmem)
  rw [hlen] at hlast
  obtain ⟨before, rfl⟩ : ∃ before, before ++ [init.length] = ps :=
    ⟨_, List.dropLast_append_getLast? _ hlast⟩
  have hnodup := List.nodup_append.mp h.nodup
  have hcount : before.length = init.length := by
    rw [hops] at hall
    simpa using hall
  have hbefore : ∀ p ∈ before, p < init.length := by
    intro p hp
    have hlt := h.lt p (List.mem_append_left _ hp)
    have hne := hnodup.2.2 p hp init.length (List.mem_singleton_self _)
    rw [hops, List.length_append, List.length_singleton] at hlt
    omega
  have hperm : before.Perm (List.range init.length) := by
    have hsub := List.subperm_of_subset hnodup.1 fun p hp => List.mem_range.mpr (hbefore p hp)
    apply hsub.perm_of_length_le
    rw [List.length_range, hcount]
  have hinit : opsAt ep (List.range init.length) = init := by
    have h := opsAt_range_take ep init.length
    rwa [hops, List.length_append, min_eq_left (by omega), ← hops, hops, List.take_left] at h
  have hbar : opsAt ep [init.length] = [b] := by
    simp [opsAt, hops]
  refine ⟨extents (opsAt ep before), ?_, ?_⟩
  · rw [← hinit]
    exact (hperm.filterMap _).filterMap _
  · rw [opsAt_append, extents_append, hbar]

theorem crashes_of_crashForm {lost : List Extent} {eps : List (Epoch Payload)}
    {gs : List (List Extent)} (h : Grouped lost eps gs)
    (hoverlaps : ∀ ep ∈ eps, ep.overlaps = false) {res : List (EpochOp Payload)}
    (hform : CrashForm eps res) (img : ℕ → UInt8) :
    Crashes Extent.write gs img ((res.map EpochOp.op).foldl replayOp img) := by
  have hblock {ep : Epoch Payload} {eps : List (Epoch Payload)} {block : List (EpochOp Payload)}
      (hall : ∀ ep' ∈ ep :: eps, ep'.overlaps = false) (hb : FullBlock ep block) :
      block = ep.ops := by
    rwa [FullBlock, hall ep List.mem_cons_self, if_neg Bool.false_ne_true] at hb
  have hwhole {ep : Epoch Payload} {ps : List ℕ} (hsel : Selection ep ps) :
      (extents (opsAt ep ps)).Subperm (extents ep.ops) := by
    have hsub := hsel.extents_subperm hsel.lt
    rwa [List.take_length] at hsub
  rw [foldl_replayOp_eq]
  induction h generalizing res img with
  | nil => exact absurd hform not_crashForm_nil
  | last hb =>
    rcases crashForm_cons.mp hform with ⟨ps, -, hsel, rfl⟩ | ⟨block, rest, -, hrest, -⟩
    · exact .here img (hwhole hsel)
    · exact absurd hrest not_crashForm_nil
  | flush hb _ ih =>
    rcases crashForm_cons.mp hform with ⟨ps, -, hsel, rfl⟩ | ⟨block, rest, hfull, hrest, rfl⟩
    · exact .here img (hwhole hsel)
    · rw [hblock hoverlaps hfull, extents_append, List.foldl_append]
      apply Crashes.later (List.Perm.refl _)
      exact ih (fun ep hep => hoverlaps ep (List.mem_cons_of_mem _ hep)) hrest _
  | @barrier ep eps gs init b hb hops _ ih =>
    rcases crashForm_cons.mp hform with ⟨ps, -, hsel, rfl⟩ | ⟨block, rest, hfull, hrest, rfl⟩
    · by_cases hmem : init.length ∈ ps
      · obtain ⟨block, hperm, hext⟩ := hsel.extents_perm hb hops hmem
        rw [hext, List.foldl_append]
        exact .later hperm (.here _ (List.Subperm.refl _))
      · have hbefore : ∀ p ∈ ps, p < init.length := by
          intro p hp
          have hlt := hsel.lt p hp
          have hne : p ≠ init.length := fun e => hmem (e ▸ hp)
          rw [hops, List.length_append, List.length_singleton] at hlt
          omega
        have hsub := hsel.extents_subperm hbefore
        rw [hops, List.take_left] at hsub
        exact .here img hsub
    · rw [hblock hoverlaps hfull, hops, extents_append, extents_append, List.foldl_append,
        List.foldl_append]
      apply Crashes.later (List.Perm.refl _)
      apply Crashes.later (List.Perm.refl _)
      exact ih (fun ep hep => hoverlaps ep (List.mem_cons_of_mem _ hep)) hrest _

/-- Whatever a call hands out, new or not, its replay is the work of a crash. -/
theorem crashImage_of_generateCrashState {u : Uninit} {log : List (DiskWrite Payload)}
    (hordinary : Ordinary log) (hapart : FlushesApart log) (hquiet : QuietStorage u log)
    {completed done : Finset (List ℕ)} {r r' : Stream' ℕ} {ret : Bool} {R : List (DiskWrite Payload)}
    (h : generateCrashState (genOneState (initDataVector u log)) completed r =
      some ((ret, R, done), r')) (base : ℕ → UInt8) :
    CrashImage Extent.write base (commands log) (R.foldl replayOp base) := by
  have hnil : initDataVector u log ≠ [] := by
    intro hnil
    rw [hnil, generateCrashState_nil] at h
    cases h
  obtain ⟨lost, hgrouped, -⟩ := initDataVector_grouped hapart hquiet
  obtain ⟨res, hform, rfl, -⟩ :=
    generateCrashState_cases (initDataVector_ops_ne_nil u log) hnil h
  apply crashImage_of_crashes
  apply hordinary.crashes
  exact crashes_of_crashForm hgrouped (initDataVector_overlaps u log) hform base

/-- In every run of calls on a permuter, old or new, the replay of each crash state is the
work of a crash. -/
theorem crashImages_replayed {u : Uninit} {log : List (DiskWrite Payload)}
    (hordinary : Ordinary log) (hapart : FlushesApart log) (hquiet : QuietStorage u log)
    {n : ℕ} {p p' : Permuter Payload} {r r' : Stream' ℕ}
    {xs : List (Bool × List (DiskWrite Payload))}
    (h : Permuter.crashStates genOneState n (p.initDataVector u log) r = some ((xs, p'), r')) :
    ∀ x ∈ xs, ∀ base, CrashImage Extent.write base (commands log) (x.2.foldl replayOp base) := by
  have hepochs : (p.initDataVector u log).epochs = initDataVector u log := rfl
  generalize p.initDataVector u log = q at h hepochs
  induction n generalizing q r xs with
  | zero =>
    obtain rfl : [] = xs := congrArg (fun y => y.1.1) (Option.some.inj h)
    exact nofun
  | succ n ih =>
    rw [Permuter.crashStates_succ, hepochs] at h
    obtain ⟨⟨⟨ret, R, done⟩, r₁⟩, hcall, hrest⟩ := Option.bind_eq_some_iff.mp h
    obtain ⟨⟨⟨ys, q'⟩, r₂⟩, hcalls, heq⟩ := Option.map_eq_some_iff.mp hrest
    simp only [Prod.mk.injEq] at heq
    obtain ⟨⟨rfl, rfl⟩, rfl⟩ := heq
    intro x hx
    rcases List.mem_cons.mp hx with rfl | hx
    · exact crashImage_of_generateCrashState hordinary hapart hquiet hcall
    · exact ih ⟨initDataVector u log, done⟩ hcalls rfl x hx

/-- A crash state that is written out completely leaves what a crash can leave of a disk that
was given the commands of the log. -/
theorem crashImages_of_run {u : Uninit} {log : List (DiskWrite Payload)}
    (hordinary : Ordinary log) (hapart : FlushesApart log) (hquiet : QuietStorage u log)
    {n : ℕ} {p p' : Permuter Payload} {r r' : Stream' ℕ}
    {xs : List (Bool × List (DiskWrite Payload))}
    (h : Permuter.crashStates genOneState n (p.initDataVector u log) r = some ((xs, p'), r')) :
    ∀ x ∈ xs, ∀ capacity calls base img rest,
      testWriteData capacity x.2 calls base = some (true, img, rest) →
      CrashImage Extent.write base (commands log) img := by
  intro x hx capacity calls base img rest hwrite
  rw [(testWriteData_true hwrite).1]
  exact crashImages_replayed hordinary hapart hquiet h x hx base

def Extent.Apart (x y : Extent) : Prop := Image.Apart x.start x.length y.start y.length

theorem foldl_write_perm {l l' : List Extent} (h : l.Perm l') (hapart : l'.Pairwise Extent.Apart)
    (img : ℕ → UInt8) : l.foldl Extent.write img = l'.foldl Extent.write img := by
  symm
  apply Image.foldl_perm h.symm
  apply hapart.imp
  intro x y hxy z
  exact Image.overlay_comm hxy z x.bytes y.bytes

/-- A part of the first writes of an epoch, made in any order, is a crash state. -/
theorem exists_crashForm_part {ep : Epoch Payload} {eps : List (Epoch Payload)} {n : ℕ}
    {part : List Extent} (hb : ep.hasBarrier = true → n < ep.ops.length)
    (h : part.Subperm (extents (ep.ops.take n))) (img : ℕ → UInt8) :
    part.foldl Extent.write img = img ∨ ∃ res, CrashForm (ep :: eps) res ∧
      (res.map EpochOp.op).foldl replayOp img = part.foldl Extent.write img := by
  obtain ⟨ps, hsel, rfl⟩ := exists_selection_part hb h
  cases ps with
  | nil => exact .inl rfl
  | cons p ps =>
    refine .inr ⟨opsAt ep (p :: ps), crashForm_cons.mpr (.inl ⟨p :: ps, ?_, hsel, rfl⟩), ?_⟩
    · exact Nat.succ_le_succ (Nat.zero_le _)
    · rw [foldl_replayOp_eq]

/-- A complete epoch is a crash state as well, and so is one of the rest behind it. -/
theorem exists_crashForm_full {ep : Epoch Payload} {eps : List (Epoch Payload)}
    (hne : ep.ops ≠ []) {img img' : ℕ → UInt8}
    (h : img' = (extents ep.ops).foldl Extent.write img ∨ ∃ res, CrashForm eps res ∧
      (res.map EpochOp.op).foldl replayOp ((extents ep.ops).foldl Extent.write img) = img') :
    ∃ res, CrashForm (ep :: eps) res ∧ (res.map EpochOp.op).foldl replayOp img = img' := by
  have hpos := List.length_pos_iff.mpr hne
  rcases h with rfl | ⟨res, hform, rfl⟩
  · have hsel : Selection ep (List.range ep.ops.length) := by
      refine ⟨List.nodup_range, fun p hp => List.mem_range.mp hp, fun _ _ => ?_⟩
      refine ⟨List.length_range, ?_⟩
      rw [List.getLast?_range, if_neg (by omega)]
    refine ⟨ep.ops, crashForm_cons.mpr (.inl ⟨_, ?_, hsel, (opsAt_range ep).symm⟩), ?_⟩
    · rw [List.length_range]
      exact hpos
    · rw [foldl_replayOp_eq]
  · refine ⟨ep.ops ++ res, crashForm_cons.mpr (.inr ⟨_, _, fullBlock_ops hne, hform, rfl⟩), ?_⟩
    rw [List.map_append, List.foldl_append, foldl_replayOp_eq ep.ops]

/-- The barrier of an epoch is a group of one write at most. -/
theorem exists_crashForm_barrier {ep : Epoch Payload} {eps : List (Epoch Payload)}
    {gs : List (List Extent)} {init : List (EpochOp Payload)} {b : EpochOp Payload}
    (hops : ep.ops = init ++ [b]) (hfirst : (extents init).Pairwise Extent.Apart)
    (hsecond : (extents [b]).Pairwise Extent.Apart) {img img' : ℕ → UInt8}
    (ih : Crashes Extent.write gs ((extents ep.ops).foldl Extent.write img) img' →
      img' = (extents ep.ops).foldl Extent.write img ∨ ∃ res, CrashForm eps res ∧
        (res.map EpochOp.op).foldl replayOp ((extents ep.ops).foldl Extent.write img) = img')
    (hcrash : Crashes Extent.write (extents init :: extents [b] :: gs) img img') :
    img' = img ∨ ∃ res, CrashForm (ep :: eps) res ∧
      (res.map EpochOp.op).foldl replayOp img = img' := by
  have htake : ep.ops.take init.length = init := by rw [hops, List.take_left]
  have hlength : ep.ops.length = init.length + 1 := by
    rw [hops, List.length_append, List.length_singleton]
  have hshort : ep.hasBarrier = true → init.length < ep.ops.length := fun _ => by omega
  have hne : ep.ops ≠ [] := List.ne_nil_of_length_pos (by omega)
  have hsplit : (extents [b]).foldl Extent.write ((extents init).foldl Extent.write img) =
      (extents ep.ops).foldl Extent.write img := by
    rw [hops, extents_append, List.foldl_append]
  cases hcrash with
  | here _ hpart =>
    rw [← htake] at hpart
    exact exists_crashForm_part hshort hpart img
  | later hblock hrest =>
    rw [foldl_write_perm hblock hfirst] at hrest
    cases hrest with
    | @here _ part _ _ hpart =>
      have hsingle : (extents [b]).length ≤ 1 := List.length_filterMap_le _ _
      by_cases hall : part.length = (extents [b]).length
      · have hperm := hpart.perm_of_length_le hall.ge
        rw [foldl_write_perm hperm hsecond, hsplit]
        exact .inr (exists_crashForm_full hne (.inl rfl))
      · have hle := hpart.length_le
        obtain rfl : part = [] := by
          apply List.eq_nil_of_length_eq_zero
          omega
        have hinit : (extents init).Subperm (extents (ep.ops.take init.length)) := by rw [htake]
        exact exists_crashForm_part hshort hinit img
    | later hblock' hrest' =>
      rw [foldl_write_perm hblock' hsecond, hsplit] at hrest'
      exact .inr (exists_crashForm_full hne (ih hrest'))

theorem exists_crashForm {eps : List (Epoch Payload)} {gs : List (List Extent)}
    (h : Grouped [] eps gs) (hne : ∀ ep ∈ eps, ep.ops ≠ [])
    (hapart : ∀ g ∈ gs, g.Pairwise Extent.Apart) {img img' : ℕ → UInt8}
    (hcrash : Crashes Extent.write gs img img') :
    img' = img ∨ ∃ res, CrashForm eps res ∧ (res.map EpochOp.op).foldl replayOp img = img' := by
  induction h generalizing img with
  | nil =>
    cases hcrash with
    | here _ hpart =>
      rw [List.subperm_nil] at hpart
      exact .inl (by rw [hpart]; rfl)
    | later _ hrest => exact absurd hrest crashes_nil
  | @last ep hb =>
    cases hcrash with
    | here _ hpart =>
      rw [← List.take_length (l := ep.ops)] at hpart
      exact exists_crashForm_part (fun h => by rw [hb] at h; cases h) hpart img
    | later _ hrest => exact absurd hrest crashes_nil
  | @flush ep eps gs hb _ ih =>
    cases hcrash with
    | here _ hpart =>
      rw [← List.take_length (l := ep.ops)] at hpart
      exact exists_crashForm_part (fun h => by rw [hb] at h; cases h) hpart img
    | later hblock hrest =>
      have hfirst := hapart _ List.mem_cons_self
      rw [foldl_write_perm hblock hfirst] at hrest
      apply Or.inr
      apply exists_crashForm_full (hne ep List.mem_cons_self)
      exact ih (fun ep' hep' => hne ep' (List.mem_cons_of_mem _ hep'))
        (fun g hg => hapart g (List.mem_cons_of_mem _ hg)) hrest
  | @barrier ep eps gs init b _ hops _ ih =>
    refine exists_crashForm_barrier hops (hapart _ List.mem_cons_self)
      (hapart _ (List.mem_cons_of_mem _ List.mem_cons_self)) (fun hrest => ?_) hcrash
    exact ih (fun ep' hep' => hne ep' (List.mem_cons_of_mem _ hep'))
      (fun g hg => hapart g (List.mem_cons_of_mem _ (List.mem_cons_of_mem _ hg))) hrest

/-- Writes that no flush is between are apart. -/
def GroupsApart (log : List (DiskWrite Payload)) : Prop :=
  ∀ g ∈ groups [] (commands log), g.Pairwise Extent.Apart

/-- What crashes can leave is the base image itself, and what the crash states leave. -/
theorem crashImage_iff_crashForm {u : Uninit} {log : List (DiskWrite Payload)}
    (hordinary : Ordinary log) (hbarriers : BarriersFlush log) (hfollowed : FlushesFollowed log)
    (hquiet : QuietStorage u log) (hapart : GroupsApart log) (base img : ℕ → UInt8) :
    CrashImage Extent.write base (commands log) img ↔
      img = base ∨ ∃ res, CrashForm (initDataVector u log) res ∧
        (res.map EpochOp.op).foldl replayOp base = img := by
  obtain ⟨lost, hgrouped, hlost⟩ := initDataVector_grouped hfollowed.apart hquiet
  rw [hlost hfollowed] at hgrouped
  rw [crashImage_iff (hordinary.throughFlushed hbarriers true), hordinary.crashes_iff hbarriers]
  constructor
  · intro h
    apply exists_crashForm hgrouped (initDataVector_ops_ne_nil u log) _ h
    exact fun g hg => hapart g (hordinary.mem_groups hbarriers hg)
  · rintro (rfl | ⟨res, hform, rfl⟩)
    · apply (hordinary.crashes_iff hbarriers).mp
      apply (crashImage_iff (hordinary.throughFlushed hbarriers true)).mp
      exact ⟨[], ⟨img, []⟩, .nil _, List.nil_prefix, rfl⟩
    · exact crashes_of_crashForm hgrouped (initDataVector_overlaps u log) hform base

/-- They are what a permuter can hand out at its first call. -/
theorem crashImage_iff_generateCrashState {u : Uninit} {log : List (DiskWrite Payload)}
    (hordinary : Ordinary log) (hbarriers : BarriersFlush log) (hfollowed : FlushesFollowed log)
    (hquiet : QuietStorage u log) (hapart : GroupsApart log) (base img : ℕ → UInt8) :
    CrashImage Extent.write base (commands log) img ↔
      img = base ∨ ∃ r r' R done, generateCrashState (genOneState (initDataVector u log)) ∅ r =
        some ((true, R, done), r') ∧ R.foldl replayOp base = img := by
  rw [crashImage_iff_crashForm hordinary hbarriers hfollowed hquiet hapart]
  apply or_congr_right
  have hne := initDataVector_ops_ne_nil u log
  constructor
  · rintro ⟨res, hform, himg⟩
    obtain ⟨r, r', done, hrun⟩ := exists_generateCrashState hne hform
    exact ⟨r, r', _, done, hrun, himg⟩
  · rintro ⟨r, r', R, done, hrun, himg⟩
    have hnil : initDataVector u log ≠ [] := by
      intro hnil
      rw [hnil, generateCrashState_nil] at hrun
      cases hrun
    obtain ⟨res, hform, rfl, -⟩ := generateCrashState_cases hne hnil hrun
    exact ⟨res, hform, himg⟩

def flushBetweenLog : List (DiskWrite Payload) :=
  [⟨⟨0, reqWrite, 0, 512⟩, some fun _ => 1⟩, ⟨⟨0, reqWrite ||| reqFlush, 0, 512⟩, some fun _ => 2⟩,
    ⟨⟨0, reqWrite, 1, 512⟩, some fun _ => 3⟩]

theorem flushBetweenLog_ordinary : Ordinary flushBetweenLog := ⟨by decide, by decide⟩

theorem flushBetweenLog_barriers : BarriersFlush flushBetweenLog := by
  unfold BarriersFlush
  decide

theorem flushBetweenLog_followed : FlushesFollowed flushBetweenLog := by
  have hlast : FlushesFollowed ([] : List (DiskWrite Payload)) := nofun
  refine (flushesFollowed_cons _ _).mpr ⟨fun hs => absurd hs (by decide), ?_⟩
  refine (flushesFollowed_cons _ _).mpr ⟨fun _ => ⟨_, rfl, by decide⟩, ?_⟩
  exact (flushesFollowed_cons _ _).mpr ⟨fun hs => absurd hs (by decide), hlast⟩

theorem flushBetweenLog_quiet : QuietStorage default flushBetweenLog := by
  intro b w _ _
  have hdefault : (default : Uninit).flagHalf b = default := rfl
  rw [hdefault]
  decide

theorem flushBetweenLog_apart : GroupsApart flushBetweenLog := by
  have hgroups : groups [] (commands flushBetweenLog) =
      [[⟨0, 512, fun _ => 1⟩], [⟨0, 512, fun _ => 2⟩, ⟨512, 512, fun _ => 3⟩]] := rfl
  intro g hg
  rw [hgroups, List.mem_pair] at hg
  rcases hg with rfl | rfl
  · exact List.pairwise_singleton _ _
  · apply List.pairwise_pair.mpr
    intro x hx
    simp only at hx
    omega

theorem crashImages_flushBetweenLog : ∃ xs p' r',
    Permuter.crashStates genOneState 2 ((Permuter.new Payload).initDataVector default
      flushBetweenLog) (Stream'.const 0) = some ((xs, p'), r') ∧
    ∀ x ∈ xs, ∀ capacity calls base img rest,
      testWriteData capacity x.2 calls base = some (true, img, rest) →
      CrashImage Extent.write base (commands flushBetweenLog) img := by
  have hnil : initDataVector default flushBetweenLog ≠ [] := by
    rw [Ne, initDataVector_eq_nil_iff]
    exact List.cons_ne_nil _ _
  obtain ⟨⟨⟨xs, p'⟩, r'⟩, hrun⟩ :=
    exists_crashStates (initDataVector_ops_ne_nil default flushBetweenLog) hnil 2 ∅
      (Stream'.const 0)
  refine ⟨xs, p', r', hrun, ?_⟩
  apply crashImages_of_run (p := Permuter.new Payload) flushBetweenLog_ordinary
    flushBetweenLog_followed.apart flushBetweenLog_quiet
  exact hrun

theorem crashImage_iff_flushBetweenLog :
    Ordinary flushBetweenLog ∧ BarriersFlush flushBetweenLog ∧ FlushesFollowed flushBetweenLog ∧
    QuietStorage default flushBetweenLog ∧ GroupsApart flushBetweenLog ∧
    ∀ base img, CrashImage Extent.write base (commands flushBetweenLog) img ↔
      img = base ∨ ∃ r r' R done,
        generateCrashState (genOneState (initDataVector default flushBetweenLog)) ∅ r =
          some ((true, R, done), r') ∧ R.foldl replayOp base = img :=
  ⟨flushBetweenLog_ordinary, flushBetweenLog_barriers, flushBetweenLog_followed,
    flushBetweenLog_quiet, flushBetweenLog_apart,
    crashImage_iff_generateCrashState flushBetweenLog_ordinary flushBetweenLog_barriers
      flushBetweenLog_followed flushBetweenLog_quiet flushBetweenLog_apart⟩

end CrashMonkey
