import CrashMonkey.Harness.Failures
import CrashMonkey.Lib.Ledger

namespace CrashMonkey.Resources

def CASE_HANDLE_ERR : Int := -1
def CASE_INIT_ERR : Int := -2
def CASE_DEST_ERR : Int := -3

inductive LoadedClass where
  | test
  | permuter
deriving DecidableEq, Repr

/-- A reference to a library, and an object of the class in it. -/
inductive Resource where
  | library (c : LoadedClass) (handle : ℕ)
  | object (c : LoadedClass) (address : ℕ)
deriving DecidableEq, Repr

def Resource.owner : Resource → LoadedClass
  | library c _ => c
  | object c _ => c

/-- What the dynamic linker finds, and the object that the factory makes. -/
structure LoadResults where
  dlopen : Option ℕ
  factory : Option ℕ
  defactory : Option ℕ
  object : ℕ

inductive ClassFault where
  | main (fault : MainFault)
  | nullFunction
  | nullInstance
deriving DecidableEq, Repr

structure ClassLoader where
  loaderHandle : Option ℕ := none
  factory : Option ℕ := none
  defactory : Option ℕ := none
  inst : Option ℕ := none
deriving DecidableEq, Repr

namespace ClassLoader

def getInstance (l : ClassLoader) : Option ℕ := l.inst

/-- `dlsym` has an error exactly if it finds nothing. -/
def loadClass (c : LoadedClass) (x : LoadResults) (l : ClassLoader) :
    Int × List (Ledger.Call Resource) × ClassLoader :=
  match x.dlopen with
  | none => (CASE_HANDLE_ERR, [], { l with loaderHandle := none })
  | some handle =>
    let closed := [.acquire (.library c handle), .release (.library c handle)]
    let l' := { l with factory := none, defactory := none, loaderHandle := none }
    if x.factory = none then (CASE_INIT_ERR, closed, l')
    else if x.defactory = none then (CASE_DEST_ERR, closed, l')
    else
      (SUCCESS, [.acquire (.library c handle), .acquire (.object c x.object)],
        ⟨some handle, x.factory, x.defactory, some x.object⟩)

def unloadClass (c : LoadedClass) (l : ClassLoader) :
    Except ClassFault (List (Ledger.Call Resource) × ClassLoader) :=
  match l.loaderHandle, l.inst with
  | some handle, some object =>
    if l.defactory = none then .error .nullFunction
    else .ok ([.release (.object c object), .release (.library c handle)], {})
  | _, _ => .ok ([], l)

end ClassLoader

/-- Main with `test_loader` and `permuter_loader`, what was opened, made, deleted and
closed, and the child processes that called a test case through a null pointer. -/
structure Session where
  harness : Harness
  loader : LoadedClass → ClassLoader
  calls : List (Ledger.Call Resource)
  killed : List TesterOp

structure SessionCalls where
  harness : HarnessCalls
  load : LoadResults
  forked : Bool

namespace Session

def start (o : Options) (testDev : String) : Session := ⟨.start o testDev, fun _ => {}, [], []⟩

def loadClass (c : LoadedClass) (x : LoadResults) (s : Session) : Int × Session :=
  let (res, calls, l) := (s.loader c).loadClass c x
  (res, { s with loader := Function.update s.loader c l, calls := s.calls ++ calls })

def unloadClass (c : LoadedClass) (s : Session) : Except ClassFault Session := do
  let (calls, l) ← (s.loader c).unloadClass c
  return { s with loader := Function.update s.loader c l, calls := s.calls ++ calls }

/-- The end of `cleanup_harness`, whatever it could not undo. -/
def unloadClasses (s : Session) : Except ClassFault Session := do
  let s ← s.unloadClass .permuter
  s.unloadClass .test

/-- The child process calls the test case, and main waits for it. -/
def callTest (op : TesterOp) (x : SessionCalls) (s : Session) : Bool × Session :=
  if x.forked then
    match (s.loader .test).getInstance with
    | some _ => (x.harness.calls.ok, s)
    | none => (false, { s with killed := s.killed ++ [op] })
  else (false, s)

/-- The part that the classes have in an operation, and whether it succeeds if all else
does. -/
def classOp (x : SessionCalls) (s : Session) : TesterOp → Except ClassFault (Bool × Session)
  | .testLoadClass =>
    let (res, s) := s.loadClass .test x.load
    .ok (decide (res = SUCCESS), s)
  | .permuterLoadClass =>
    let (res, s) := s.loadClass .permuter x.load
    .ok (decide (res = SUCCESS), s)
  | .testSetup => .ok (s.callTest .testSetup x)
  | .testRun => .ok (s.callTest .testRun x)
  | .testCheckRandomPermutations =>
    match (s.loader .permuter).getInstance, (s.loader .test).getInstance with
    | some _, some _ => .ok (x.harness.calls.ok, s)
    | _, _ => .error .nullInstance
  | .cleanupHarness => do
    let s ← s.unloadClasses
    return (x.harness.calls.ok, s)
  | _ => .ok (x.harness.calls.ok, s)

def operate (x : SessionCalls) (s : Session) : Except ClassFault (Bool × Session) :=
  match nextOp s.harness.main with
  | none => .ok (x.harness.calls.ok, s)
  | some op => s.classOp x op

def step (x : SessionCalls) (s : Session) : Except ClassFault Session := do
  if s.harness.main.exitCode.isSome then .error (.main .exited)
  else
    let (ok, t) ← s.operate x
    let calls := { x.harness with calls := { x.harness.calls with ok } }
    let harness ← (s.harness.step calls).mapError .main
    let t := { t with harness }
    if CleansUp s.harness.main harness.main then t.unloadClasses else return t

end Session

def SessionStep (s : Session) (x : SessionCalls) (t : Session) : Prop := s.step x = .ok t

/-- A loader is as it was made, or has everything of one library. -/
def ClassLoader.Is (l : ClassLoader) : Bool → Prop
  | false => l = {}
  | true => ∃ handle factory defactory object,
      l = ⟨some handle, some factory, some defactory, some object⟩

def ClassLoader.holds (c : LoadedClass) (l : ClassLoader) : Finset Resource :=
  match l.loaderHandle, l.inst with
  | some handle, some object => {.library c handle, .object c object}
  | _, _ => ∅

def held (loader : LoadedClass → ClassLoader) : Finset Resource :=
  (loader .test).holds .test ∪ (loader .permuter).holds .permuter

/-- An object is there only as long as a library of its class. -/
def Linked (held : Finset Resource) : Prop :=
  ∀ c object, .object c object ∈ held → ∃ handle, .library c handle ∈ held

/-- What was opened and made is what the loaders hold, and at each moment the objects had
their libraries. -/
structure Accounted (s : Session) : Prop where
  keeps : Ledger.Keeps Linked ∅ s.calls
  after : Ledger.after ∅ s.calls = some (held s.loader)

section Accounts

variable {c d : LoadedClass} {l : ClassLoader} {s : Session} {handle object : ℕ}

theorem ClassLoader.Is.eq_empty (h : l.Is false) : l = {} := h

theorem ClassLoader.Is.isSome {b : Bool} (h : l.Is b) : l.getInstance.isSome = b := by
  cases b with
  | false => rw [h.eq_empty]; rfl
  | true =>
    obtain ⟨handle, factory, defactory, object, rfl⟩ := h
    rfl

/-- The loader is empty before and after a class that could not be loaded. -/
theorem ClassLoader.loadClass_cases (x : LoadResults) (h : l.Is false) :
    (∃ handle object l', l'.Is true ∧ l'.holds c = {.library c handle, .object c object} ∧
      l.loadClass c x =
        (SUCCESS, [.acquire (.library c handle), .acquire (.object c object)], l')) ∨
    ∃ res, res ≠ SUCCESS ∧ (l.loadClass c x = (res, [], {}) ∨ ∃ handle, l.loadClass c x =
      (res, [.acquire (.library c handle), .release (.library c handle)], {})) := by
  rw [h.eq_empty]
  cases hopen : x.dlopen with
  | none => exact .inr ⟨CASE_HANDLE_ERR, by decide, .inl (by simp [loadClass, hopen])⟩
  | some handle =>
    cases hfactory : x.factory with
    | none =>
      exact .inr ⟨CASE_INIT_ERR, by decide, .inr ⟨handle, by simp [loadClass, hopen, hfactory]⟩⟩
    | some factory =>
      cases hdefactory : x.defactory with
      | none =>
        exact .inr ⟨CASE_DEST_ERR, by decide,
          .inr ⟨handle, by simp [loadClass, hopen, hfactory, hdefactory]⟩⟩
      | some defactory =>
        exact .inl ⟨handle, x.object, ⟨some handle, some factory, some defactory, some x.object⟩,
          ⟨_, _, _, _, rfl⟩, rfl, by simp [loadClass, hopen, hfactory, hdefactory]⟩

/-- A loader that is loaded gives back all it holds, and an empty one does nothing. -/
theorem ClassLoader.unloadClass_cases {b : Bool} (h : l.Is b) :
    (l = {} ∧ l.unloadClass c = .ok ([], {})) ∨
    ∃ handle object, l.holds c = {.library c handle, .object c object} ∧
      l.unloadClass c = .ok ([.release (.object c object), .release (.library c handle)], {}) := by
  cases b with
  | false =>
    rw [h.eq_empty]
    exact .inl ⟨rfl, rfl⟩
  | true =>
    obtain ⟨handle, factory, defactory, object, rfl⟩ := h
    exact .inr ⟨handle, object, rfl, rfl⟩

theorem ClassLoader.owner_of_holds {r : Resource} (h : r ∈ l.holds c) : r.owner = c := by
  unfold holds at h
  split at h
  · simp only [Finset.mem_insert, Finset.mem_singleton] at h
    rcases h with rfl | rfl <;> rfl
  · cases h

theorem mem_held {loader : LoadedClass → ClassLoader} {r : Resource} :
    r ∈ held loader ↔ r ∈ (loader r.owner).holds r.owner := by
  rw [held, Finset.mem_union]
  constructor
  · rintro (h | h) <;> rwa [ClassLoader.owner_of_holds h]
  · intro h
    cases howner : r.owner <;> rw [howner] at h
    · exact .inl h
    · exact .inr h

theorem held_update (loader : LoadedClass → ClassLoader) (c : LoadedClass) (l : ClassLoader) :
    held (Function.update loader c l) = (held loader \ (loader c).holds c) ∪ l.holds c := by
  ext r
  rw [Finset.mem_union, Finset.mem_sdiff, mem_held, mem_held]
  by_cases howner : r.owner = c
  · subst howner
    simp
  · have hnot (l' : ClassLoader) : r ∉ l'.holds c := fun h => howner (l'.owner_of_holds h)
    simp [Function.update_of_ne howner, hnot]

theorem linked_held (loader : LoadedClass → ClassLoader) : Linked (held loader) := by
  intro c object hobject
  rw [mem_held, Resource.owner, ClassLoader.holds] at hobject
  split at hobject
  · rename_i handle object' hhandle hinst
    refine ⟨handle, mem_held.mpr ?_⟩
    rw [Resource.owner, ClassLoader.holds, hhandle, hinst]
    exact Finset.mem_insert_self _ _
  · cases hobject

theorem Linked.insert_library {held : Finset Resource} (h : Linked held) (c : LoadedClass)
    (handle : ℕ) : Linked (insert (.library c handle) held) := by
  intro d object hobject
  rcases Finset.mem_insert.mp hobject with heq | hobject
  · cases heq
  · obtain ⟨k, hk⟩ := h d object hobject
    exact ⟨k, Finset.mem_insert_of_mem hk⟩

theorem Accounted.append {t : Session} {calls : List (Ledger.Call Resource)} (h : Accounted s)
    (hcalls : t.calls = s.calls ++ calls) (hkeeps : Ledger.Keeps Linked (held s.loader) calls)
    (hafter : Ledger.after (held s.loader) calls = some (held t.loader)) : Accounted t where
  keeps := by
    rw [hcalls]
    exact h.keeps.append h.after hkeeps
  after := by rw [hcalls, Ledger.after_append_of h.after, hafter]

theorem notMem_held {r : Resource} (hempty : s.loader r.owner = {}) : r ∉ held s.loader := by
  rw [mem_held, hempty]
  exact Finset.notMem_empty r

/-- The calls that load a class into an empty loader. -/
theorem Accounted.acquire {t : Session} (h : Accounted s) (hempty : s.loader c = {})
    (hholds : l.holds c = {.library c handle, .object c object})
    (hloader : t.loader = Function.update s.loader c l)
    (hcalls : t.calls = s.calls ++ [.acquire (.library c handle), .acquire (.object c object)]) :
    Accounted t := by
  have hlibrary : .library c handle ∉ held s.loader := notMem_held hempty
  have hobject : .object c object ∉ insert (.library c handle) (held s.loader) := by
    rw [Finset.mem_insert, not_or]
    exact ⟨nofun, notMem_held hempty⟩
  have hheld : insert (.object c object) (insert (.library c handle) (held s.loader)) =
      held t.loader := by
    have hnone : (s.loader c).holds c = ∅ := by rw [hempty]; rfl
    rw [hloader, held_update, hnone, hholds, Finset.sdiff_empty]
    ext r
    simp only [Finset.mem_insert, Finset.mem_union, Finset.mem_singleton]
    tauto
  refine h.append hcalls ⟨linked_held _, _, Ledger.step_acquire hlibrary,
    (linked_held _).insert_library c handle, _, Ledger.step_acquire hobject,
    hheld ▸ linked_held _⟩ ?_
  rw [Ledger.after_cons, Ledger.step_acquire hlibrary, Option.bind_some, Ledger.after_cons,
    Ledger.step_acquire hobject, Option.bind_some, Ledger.after_nil, hheld]

/-- The calls for a library that is opened and closed again. -/
theorem Accounted.reopen {t : Session} (h : Accounted s) (hempty : s.loader c = {})
    (hloader : t.loader = s.loader)
    (hcalls : t.calls = s.calls ++ [.acquire (.library c handle), .release (.library c handle)]) :
    Accounted t := by
  have hlibrary : .library c handle ∉ held s.loader := notMem_held hempty
  have hopen : .library c handle ∈ insert (.library c handle) (held s.loader) :=
    Finset.mem_insert_self _ _
  have hclosed := Finset.erase_insert hlibrary
  refine h.append hcalls ⟨linked_held _, _, Ledger.step_acquire hlibrary,
    (linked_held _).insert_library c handle, _, Ledger.step_release hopen, ?_⟩ ?_
  · rw [hclosed]
    exact linked_held _
  · rw [Ledger.after_cons, Ledger.step_acquire hlibrary, Option.bind_some, Ledger.after_cons,
      Ledger.step_release hopen, Option.bind_some, Ledger.after_nil, hclosed, hloader]

/-- The calls that unload a class. -/
theorem Accounted.release {t : Session} (h : Accounted s)
    (hholds : (s.loader c).holds c = {.library c handle, .object c object})
    (hloader : t.loader = Function.update s.loader c {})
    (hcalls : t.calls = s.calls ++ [.release (.object c object), .release (.library c handle)]) :
    Accounted t := by
  have hobject : .object c object ∈ held s.loader :=
    mem_held.mpr (by simp [Resource.owner, hholds])
  have hlibrary : .library c handle ∈ (held s.loader).erase (.object c object) :=
    Finset.mem_erase.mpr ⟨nofun, mem_held.mpr (by simp [Resource.owner, hholds])⟩
  have hheld : ((held s.loader).erase (.object c object)).erase (.library c handle) =
      held t.loader := by
    have hnone : ({} : ClassLoader).holds c = ∅ := rfl
    rw [hloader, held_update, hnone, hholds, Finset.union_empty]
    ext r
    simp only [Finset.mem_erase, Finset.mem_sdiff, Finset.mem_insert, Finset.mem_singleton]
    tauto
  refine h.append hcalls ⟨linked_held _, _, Ledger.step_release hobject, ?_, _,
    Ledger.step_release hlibrary, hheld ▸ linked_held _⟩ ?_
  · intro d i hi
    obtain ⟨k, hk⟩ := linked_held _ d i (Finset.mem_of_mem_erase hi)
    exact ⟨k, Finset.mem_erase.mpr ⟨nofun, hk⟩⟩
  · rw [Ledger.after_cons, Ledger.step_release hobject, Option.bind_some, Ledger.after_cons,
      Ledger.step_release hlibrary, Option.bind_some, Ledger.after_nil, hheld]

/-- A load accounts for what it opens, and the loader is loaded exactly if it succeeds. -/
theorem Accounted.loadClass (h : Accounted s) (hempty : (s.loader c).Is false) (x : LoadResults) :
    Accounted (s.loadClass c x).2 ∧ (s.loadClass c x).2.harness = s.harness ∧
      (∀ d ≠ c, (s.loadClass c x).2.loader d = s.loader d) ∧
      ((s.loadClass c x).2.loader c).Is (decide ((s.loadClass c x).1 = SUCCESS)) := by
  have hother : ∀ d ≠ c, (s.loadClass c x).2.loader d = s.loader d :=
    fun d hd => Function.update_of_ne hd _ _
  have hown : (s.loadClass c x).2.loader c = ((s.loader c).loadClass c x).2.2 :=
    Function.update_self _ _ _
  have hres : (s.loadClass c x).1 = ((s.loader c).loadClass c x).1 := rfl
  have hcalls : (s.loadClass c x).2.calls = s.calls ++ ((s.loader c).loadClass c x).2.1 := rfl
  have hloader : (s.loadClass c x).2.loader =
      Function.update s.loader c ((s.loader c).loadClass c x).2.2 := rfl
  rw [hown, hres]
  rcases ClassLoader.loadClass_cases (c := c) x hempty with
    ⟨handle, object, l, hl, hholds, hload⟩ | ⟨res, hres, hload | ⟨handle, hload⟩⟩
  · rw [hload] at hcalls hloader ⊢
    exact ⟨h.acquire hempty.eq_empty hholds hloader hcalls, rfl, hother, hl⟩
  · rw [hload] at hcalls hloader ⊢
    have hsame : Function.update s.loader c {} = s.loader := by
      rw [← hempty.eq_empty, Function.update_eq_self]
    refine ⟨⟨?_, ?_⟩, rfl, hother, ?_⟩
    · rw [hcalls, List.append_nil]
      exact h.keeps
    · rw [hcalls, List.append_nil, hloader, hsame]
      exact h.after
    · rw [decide_eq_false hres]
      rfl
  · rw [hload] at hcalls hloader ⊢
    have hsame : Function.update s.loader c {} = s.loader := by
      rw [← hempty.eq_empty, Function.update_eq_self]
    refine ⟨h.reopen hempty.eq_empty (hloader.trans hsame) hcalls, rfl, hother, ?_⟩
    rw [decide_eq_false hres]
    rfl

theorem Accounted.unloadClass {b : Bool} (h : Accounted s) (hl : (s.loader c).Is b) :
    ∃ t, s.unloadClass c = .ok t ∧ Accounted t ∧ t.harness = s.harness ∧ t.killed = s.killed ∧
      t.loader = Function.update s.loader c {} := by
  rcases ClassLoader.unloadClass_cases (c := c) hl with
    ⟨hempty, hunload⟩ | ⟨handle, object, hholds, hunload⟩
  · have hsame : Function.update s.loader c {} = s.loader := by
      rw [← hempty, Function.update_eq_self]
    let t := { s with loader := Function.update s.loader c {}, calls := s.calls ++ [] }
    refine ⟨t, by rw [Session.unloadClass, hunload]; rfl, ⟨?_, ?_⟩, rfl, rfl, rfl⟩
    · rw [show t.calls = s.calls from List.append_nil _]
      exact h.keeps
    · rw [show t.calls = s.calls from List.append_nil _, show t.loader = s.loader from hsame]
      exact h.after
  · let calls : List (Ledger.Call Resource) :=
      [.release (.object c object), .release (.library c handle)]
    let t := { s with loader := Function.update s.loader c {}, calls := s.calls ++ calls }
    exact ⟨t, by rw [Session.unloadClass, hunload]; rfl, h.release hholds rfl rfl, rfl, rfl,
      rfl⟩

/-- The end of the cleanup calls no null function and leaves both loaders empty. -/
theorem Accounted.unloadClasses {loaded : LoadedClass → Bool} (h : Accounted s)
    (hl : ∀ c, (s.loader c).Is (loaded c)) :
    ∃ t, s.unloadClasses = .ok t ∧ Accounted t ∧ t.harness = s.harness ∧ t.killed = s.killed ∧
      ∀ c, (t.loader c).Is false := by
  obtain ⟨t, hpermuter, ht, hharness, hkilled, hloader⟩ := h.unloadClass (hl .permuter)
  have htest : (t.loader .test).Is (loaded .test) := by
    rw [hloader, Function.update_of_ne (by decide)]
    exact hl .test
  obtain ⟨u, hunload, hu, hharness', hkilled', hloader'⟩ := ht.unloadClass htest
  refine ⟨u, ?_, hu, hharness'.trans hharness, hkilled'.trans hkilled, fun c => ?_⟩
  · rw [Session.unloadClasses, hpermuter]
    exact hunload
  · rw [hloader', hloader]
    cases c <;> rfl

end Accounts

end CrashMonkey.Resources
