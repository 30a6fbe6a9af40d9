import LintBridge.Proofs.Engine.Recency
import LintBridge.Proofs.Pass.History
/-!
What memory saves and what it leaves as it is. On a machine that does not change, a locator that
remembers a history gives for a search what a new one gives for a search that differs in no more
than the spelling of its paths, and for a module what loading it gives (`memory_transparent`). In a
whole history it asks once for a global directory and loads a module once.
-/
namespace LintBridge

def Lookup.machine : Lookup → Machine
  | locate m _ => m
  | load m _ => m

def Search.missing? (m : Machine) (s : Search) : Option Path :=
  if s.options.allowWorkspace then s.options.nodePath.filter (!m.existsAt ·) else none

namespace Locator

variable {t : Toolchain} {m : Machine} {history : List Lookup}

section Load

variable {l : Locator} {path : Path}

theorem load_of_known {entry : Path × Bool} (known : l.loads.find? (·.1.same path) = some entry) :
    l.load t m path = ⟨if entry.2 then some (t.engine entry.1) else none, l, []⟩ := by
  simp only [load, known]

theorem load_of_unknown (unknown : l.loads.find? (·.1.same path) = none) :
    l.load t m path =
      ⟨if (t.load m path).isOk then some (t.engine path) else none,
        { l with loads := (path, (t.load m path).isOk) :: l.loads }, [.loaded path]⟩ := by
  simp only [load, unknown]

end Load

section Warnings

variable (l : Locator)

theorem amongGlobal_warnings (manager : PackageManager) (dir : Option Path) :
    (l.amongGlobal t m manager dir).warnings = [] := by
  unfold amongGlobal
  split <;> rfl

theorem fromDirectory_warnings (manager : PackageManager) (dir : Path) :
    (l.fromDirectory t m manager dir).warnings = [] := by
  unfold fromDirectory
  split
  · rfl
  · exact l.amongGlobal_warnings manager (some dir)

theorem search_warnings (s : Search) : (l.search t m s.file s.options).warnings =
    ((s.missing? m).map fun path => (LintError.invalidNodePath path).message).toList := by
  unfold search Search.missing?
  split
  · cases s.options.nodePath with
    | none => exact l.fromDirectory_warnings _ _
    | some path =>
      by_cases there : m.existsAt path = true
      · simp only [there, if_true, Option.filter_some]
        split
        · rfl
        · exact l.amongGlobal_warnings _ _
      · have plain := l.fromDirectory_warnings (t := t) (m := m) s.options.packageManager
          (startOf s.file)
        simp [there, Located.after, plain, Option.filter_some]
  · exact l.amongGlobal_warnings _ _

theorem locate_warnings (s : Search) : (l.locate t m s.file s.options).warnings =
    if l.serves s then []
    else ((s.missing? m).map fun path => (LintError.invalidNodePath path).message).toList := by
  cases served : l.serves s with
  | true =>
    obtain ⟨library, eq⟩ := locate_of_serves (t := t) (m := m) served
    rw [eq]
    rfl
  | false =>
    rw [locate_of_not_serves served]
    exact l.search_warnings s

end Warnings

section Trace

def managers (l : Locator) : List PackageManager := l.roots.map (·.1)

def modules (l : Locator) : List Path := l.loads.map (·.1)

def asks (t : Toolchain) (l : Locator) : Lookup → List Event
  | .locate m s => (l.locate t m s.file s.options).events
  | .load m path => (l.load t m path).events

def trace (t : Toolchain) : Locator → List Lookup → List Event
  | _, [] => []
  | l, first :: rest => asks t l first ++ trace t (l.step t first) rest

/-- If each lookup adds to what is known what it asks for, and nothing twice, then nothing is asked
for twice in a history. -/
theorem trace_pairwise {β : Type} (asked? : Event → Option β) (known : Locator → List β)
    (apart : β → β → Prop) (symm : ∀ {a b}, apart a b → apart b a)
    (adds : ∀ l x, known (step t l x) = (asks t l x).filterMap asked? ++ known l)
    (keeps : ∀ l x, (known l).Pairwise apart → (known (step t l x)).Pairwise apart)
    {l : Locator} (start : (known l).Pairwise apart) (history : List Lookup) :
    ((trace t l history).filterMap asked? ++ known l).Pairwise apart := by
  induction history generalizing l with
  | nil => exact start
  | cons first rest ih =>
    have later := ih (keeps l first start)
    have perm : ((trace t l (first :: rest)).filterMap asked? ++ known l).Perm
        ((trace t (step t l first) rest).filterMap asked? ++ known (step t l first)) := by
      rw [trace, List.filterMap_append, adds, ← List.append_assoc]
      exact List.perm_append_comm.append_right _
    exact (perm.pairwise_iff symm).mpr later

theorem root_adds (l : Locator) (manager : PackageManager) :
    (l.root t m manager).2.1.managers = rootsAsked (l.root t m manager).2.2 ++ l.managers ∧
      (l.managers.Nodup → (l.root t m manager).2.1.managers.Nodup) := by
  unfold root
  cases known : l.roots.lookup manager with
  | some found => exact ⟨rfl, id⟩
  | none =>
    have unknown : manager ∉ l.managers := by
      rw [List.lookup_eq_none_iff] at known
      simpa [managers] using fun root member => known (manager, root) member
    exact ⟨by simp [managers, rootsAsked, Event.root?], fun nodup => nodup.cons unknown⟩

theorem step_roots (l : Locator) (x : Lookup) :
    (step t l x).managers = rootsAsked (asks t l x) ++ l.managers ∧
      (l.managers.Nodup → (step t l x).managers.Nodup) := by
  cases x with
  | load m path =>
    rw [step, asks]
    cases known : l.loads.find? (·.1.same path) with
    | some entry =>
      rw [load_of_known known]
      exact ⟨rfl, id⟩
    | none =>
      rw [load_of_unknown known]
      exact ⟨rfl, id⟩
  | locate m s =>
    rw [step, asks]
    cases served : l.serves s with
    | true =>
      obtain ⟨library, eq⟩ := locate_of_serves (t := t) (m := m) served
      rw [eq]
      exact ⟨rfl, id⟩
    | false =>
      obtain ⟨adds, keeps⟩ := root_adds (t := t) (m := m) l s.options.packageManager
      obtain ⟨-, ⟨left, asked⟩ | ⟨left, asked⟩, -⟩ := l.search_leaves (t := t) (m := m) s
      · simp only [locate_of_not_serves served, left, asked]
        exact ⟨rfl, id⟩
      · simp only [locate_of_not_serves served, left, asked]
        exact ⟨adds, keeps⟩

theorem locate_modulesLoaded (l : Locator) (s : Search) :
    modulesLoaded (l.locate t m s.file s.options).events = [] := by
  cases served : l.serves s with
  | true =>
    obtain ⟨library, eq⟩ := locate_of_serves (t := t) (m := m) served
    rw [eq]
    rfl
  | false =>
    rw [locate_of_not_serves served]
    exact (l.search_leaves s).loads

theorem step_loads (l : Locator) (x : Lookup) :
    (step t l x).modules = modulesLoaded (asks t l x) ++ l.modules ∧
      (l.modules.Pairwise (fun p q => p.same q = false) →
        (step t l x).modules.Pairwise fun p q => p.same q = false) := by
  cases x with
  | locate m s =>
    rw [step, asks, locate_modulesLoaded, modules, locate_loads]
    exact ⟨rfl, id⟩
  | load m path =>
    rw [step, asks]
    cases known : l.loads.find? (·.1.same path) with
    | some entry =>
      rw [load_of_known known]
      exact ⟨rfl, id⟩
    | none =>
      rw [load_of_unknown known]
      refine ⟨rfl, fun apart => List.Pairwise.cons (fun other member => ?_) apart⟩
      obtain ⟨e, listed, rfl⟩ := List.mem_map.mp member
      rw [Path.same_comm]
      simpa using List.find?_eq_none.mp known e listed

theorem rootsAsked_trace (t : Toolchain) (history : List Lookup) :
    (rootsAsked (trace t .new history)).Nodup := by
  have once := trace_pairwise (t := t) Event.root? managers (· ≠ ·) Ne.symm
    (fun l x => (step_roots l x).1) (fun l x => (step_roots l x).2) (l := .new) .nil history
  exact (List.pairwise_append.mp once).1

theorem modulesLoaded_trace (t : Toolchain) (history : List Lookup) :
    (modulesLoaded (trace t .new history)).Pairwise fun p q => p.same q = false := by
  have once := trace_pairwise (t := t) Event.module? modules (fun p q => p.same q = false)
    (fun {p q} => (Path.same_comm q p).trans)
    (fun l x => (step_loads l x).1) (fun l x => (step_loads l x).2) (l := .new) .nil history
  exact (List.pairwise_append.mp once).1

end Trace

theorem after_remembers (t : Toolchain) (history : List Lookup) :
    Remembers t (fun m s => .locate m s ∈ history) (after t history) := by
  induction history using List.reverseRecOn with
  | nil => exact remembers_new _
  | append_singleton history last ih =>
    have before : Remembers t (fun m s => .locate m s ∈ history ++ [last]) (after t history) :=
      ih.mono fun _ _ member => List.mem_append_left _ member
    rw [after_append]
    cases last with
    | locate m s => exact (locate_remembers before (by simp)).2
    | load m path =>
      rw [step]
      cases known : (after t history).loads.find? (·.1.same path) with
      | some entry => rwa [load_of_known known]
      | none =>
        rw [load_of_unknown known]
        exact ⟨before.roots, before.recent⟩

theorem after_loads (t : Toolchain) (history : List Lookup) :
    ∀ e ∈ (after t history).loads, ∃ m, .load m e.1 ∈ history ∧ e.2 = (t.load m e.1).isOk := by
  induction history using List.reverseRecOn with
  | nil => simp [after, new]
  | append_singleton history last ih =>
    have before : ∀ e ∈ (after t history).loads,
        ∃ m, .load m e.1 ∈ history ++ [last] ∧ e.2 = (t.load m e.1).isOk := by
      intro e member
      obtain ⟨m, loaded, ok⟩ := ih e member
      exact ⟨m, List.mem_append_left _ loaded, ok⟩
    rw [after_append]
    cases last with
    | locate m s =>
      rw [step, locate_loads]
      exact before
    | load m path =>
      rw [step]
      cases known : (after t history).loads.find? (·.1.same path) with
      | some entry => rwa [load_of_known known]
      | none =>
        rw [load_of_unknown known]
        intro e member
        rcases List.mem_cons.mp member with rfl | member
        · exact ⟨m, by simp, rfl⟩
        · exact before e member

theorem new_locate_library (t : Toolchain) (m : Machine) (s : Search) :
    (new.locate t m s.file s.options).library = s.foundAfresh t m := by
  have unserved : new.serves s = false := rfl
  rw [locate_of_not_serves unserved]
  exact (new.search_leaves s).library

structure Transparent (t : Toolchain) (m : Machine) (history : List Lookup) : Prop where
  /-- What is found is what a new locator finds for the search, or for one of the history that
  differs in no more than the spelling of its paths. -/
  located : ∀ s, ∃ origin, origin.same s = true ∧ (origin = s ∨ .locate m origin ∈ history) ∧
    ((after t history).locate t m s.file s.options).library =
      (new.locate t m origin.file origin.options).library
  warned : ∀ s, ((after t history).locate t m s.file s.options).warnings =
    if (after t history).serves s then []
    else ((s.missing? m).map fun path => (LintError.invalidNodePath path).message).toList
  loaded : ∀ path, ∃ origin, origin.same path = true ∧ (origin = path ∨ .load m origin ∈ history) ∧
    ((after t history).load t m path).engine =
      if (t.load m origin).isOk then some (t.engine origin) else none
  rootsOnce : (rootsAsked (trace t .new history)).Nodup
  loadsOnce : (modulesLoaded (trace t .new history)).Pairwise fun p q => p.same q = false

/-- On a machine that does not change, memory is transparent up to the spelling of paths. -/
theorem memory_transparent (unchanging : ∀ x ∈ history, x.machine = m) :
    Transparent t m history := by
  refine ⟨fun s => ?_, fun s => locate_warnings _ s, fun path => ?_, rootsAsked_trace t history,
    modulesLoaded_trace t history⟩
  · have remembers : Remembers t (fun m' s' => .locate m' s' ∈ history ++ [.locate m s])
        (after t history) :=
      (after_remembers t history).mono fun _ _ member => List.mem_append_left _ member
    obtain ⟨⟨origin, gives, same⟩, -⟩ := locate_remembers remembers (m := m) (s := s) (by simp)
    have unchanging' : ∀ m' s', .locate m' s' ∈ history ++ [.locate m s] → m' = m := by
      intro m' s' member
      rcases List.mem_append.mp member with member | member
      · exact unchanging _ member
      · exact (Lookup.locate.inj (List.mem_singleton.mp member)).1
    obtain ⟨member, found⟩ := gives.afresh unchanging'
    refine ⟨origin, same, ?_, found.trans (new_locate_library t m origin).symm⟩
    rcases List.mem_append.mp member with member | member
    · exact Or.inr member
    · exact Or.inl (Lookup.locate.inj (List.mem_singleton.mp member)).2
  · cases known : (after t history).loads.find? (·.1.same path) with
    | none => exact ⟨path, path.same_refl, Or.inl rfl, by rw [load_of_unknown known]⟩
    | some entry =>
      obtain ⟨m', member, ok⟩ := after_loads t history entry (List.mem_of_find?_eq_some known)
      have on : m' = m := unchanging _ member
      rw [on] at member ok
      have same := List.find?_some known
      exact ⟨entry.1, same, Or.inr member, by rw [load_of_known known, ok]⟩

theorem memory_transparent_simple :
    let s (nodePath : String) : Search := ⟨⟨"/w/a.ts"⟩, ⟨some ⟨nodePath⟩, .npm, true⟩⟩
    let history : List Lookup :=
      [.locate .simple (s "/nowhere"), .load .simple ⟨"/w/node_modules/tslint"⟩,
        .locate .simple (s "/w"), .locate .simple (s "/nowhere")]
    (∀ x ∈ history, x.machine = .simple) ∧ Transparent .simple .simple history := by
  intro s history
  have unchanging : ∀ x ∈ history, x.machine = .simple := by simp [history, Lookup.machine]
  exact ⟨unchanging, memory_transparent unchanging⟩

/-- A file is found as a path of the settings, but not with a slash behind it: what is then found
differs, and memory does not tell the two apart. -/
theorem located_ne_afresh :
    let s (nodePath : String) : Search := ⟨⟨"/w/b.ts"⟩, ⟨some ⟨nodePath⟩, .npm, true⟩⟩
    let l := after .simple [.locate .simple (s "/w/a.ts")]
    (s "/w/a.ts").same (s "/w/a.ts/") = true ∧
      (l.locate .simple .simple (s "/w/a.ts/").file (s "/w/a.ts/").options).library =
        some ⟨⟨"/w/node_modules/tslint"⟩, .global⟩ ∧
      (new.locate .simple .simple (s "/w/a.ts/").file (s "/w/a.ts/").options).library =
        some ⟨⟨"/w/node_modules/tslint"⟩, .workspace⟩ := by
  decide

end Locator
end LintBridge
