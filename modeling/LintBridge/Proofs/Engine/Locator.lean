import LintBridge.Engine.Locator
import LintBridge.Proofs.Path.Parent
/-!
What a locator remembers. `Search.found` is what a search finds with nothing remembered but the global
directory; a locator that is `Faithful` to the searches made so far gives, for each search, what one of
them that is the same up to the spelling of its paths has found (`locate_faithful`).
-/
namespace LintBridge

theorem samePath?_refl (p : Option Path) : samePath? p p = true := by
  cases p <;> simp [samePath?, Path.same_refl]

theorem samePath?_trans {p q r : Option Path} (first : samePath? p q = true)
    (second : samePath? q r = true) : samePath? p r = true := by
  cases p <;> cases q <;> cases r <;> simp_all [samePath?, Path.same_iff]

structure Search where
  file : Path
  options : LocateOptions

namespace Search

def same (a b : Search) : Bool := a.file.same b.file && a.options.same b.options

theorem same_iff {a b : Search} : a.same b = true ↔
    a.file.same b.file = true ∧ samePath? a.options.nodePath b.options.nodePath = true ∧
      a.options.packageManager = b.options.packageManager ∧
      a.options.allowWorkspace = b.options.allowWorkspace := by
  simp [same, LocateOptions.same, and_assoc]

theorem same_refl (s : Search) : s.same s = true := by
  simp [same_iff, Path.same_refl, samePath?_refl]

theorem same_trans {a b c : Search} (first : a.same b = true) (second : b.same c = true) :
    a.same c = true := by
  rw [same_iff] at *
  obtain ⟨file, path, manager, allow⟩ := first
  obtain ⟨file', path', manager', allow'⟩ := second
  rw [Path.same_iff] at *
  exact ⟨file.trans file', samePath?_trans path path', manager.trans manager', allow.trans allow'⟩

section Found

variable (t : Toolchain) (m : Machine)

def foundGlobal (root dir : Option Path) : Option Library :=
  root.bind fun root =>
    (t.resolveModule m (some root) (dir.getD root)).1.map fun path => ⟨path, .global⟩

def foundFrom (root : Option Path) (dir : Path) : Option Library :=
  match (t.resolveModule m none dir).1 with
  | some path => some ⟨path, if isWorkspaceModule path dir then .workspace else .global⟩
  | none => foundGlobal t m root (some dir)

def nodePath? (s : Search) : Option Path := s.options.nodePath.filter m.existsAt

def found (s : Search) (root : Option Path) : Option Library :=
  if s.options.allowWorkspace then
    match s.nodePath? m with
    | none => foundFrom t m root (Locator.startOf s.file)
    | some path =>
      match (t.resolveModule m (some path) path).1 with
      | some found => some ⟨found, .searchPath⟩
      | none => foundGlobal t m root (some (Locator.startOf s.file))
  else foundGlobal t m root none

def foundAfresh (s : Search) : Option Library :=
  s.found t m (t.globalRoot m s.options.packageManager).1

end Found

/-- What a search can give once some were made: what it finds on the machine that it was made on, with
the global directory of a machine that was seen. -/
def Gives (t : Toolchain) (asked : Machine → Search → Prop) (s : Search) (library : Option Library) :
    Prop :=
  ∃ m m' other, asked m s ∧ asked m' other ∧
    library = s.found t m (t.globalRoot m' s.options.packageManager).1

variable {t : Toolchain} {m : Machine} {asked asked' : Machine → Search → Prop} {s : Search}
  {library : Option Library}

theorem Gives.mono (gives : Gives t asked s library) (more : ∀ m s, asked m s → asked' m s) :
    Gives t asked' s library := by
  obtain ⟨m, m', other, first, second, eq⟩ := gives
  exact ⟨m, m', other, more _ _ first, more _ _ second, eq⟩

theorem Gives.afresh (gives : Gives t asked s library) (unchanging : ∀ m' s, asked m' s → m' = m) :
    asked m s ∧ library = s.foundAfresh t m := by
  obtain ⟨first, second, other, asks, asks', eq⟩ := gives
  obtain rfl := unchanging _ _ asks
  obtain rfl := unchanging _ _ asks'
  exact ⟨asks, eq⟩

end Search

/-- Whether an event belongs to finding and loading, not to the work of an engine. -/
def Event.IsLookup : Event → Prop
  | .resolved .. | .globalRoot _ | .loaded _ | .called _ => True
  | .configured .. | .linted .. => False

instance : DecidablePred Event.IsLookup
  | .resolved .. | .globalRoot _ | .loaded _ | .called _ => .isTrue trivial
  | .configured .. | .linted .. => .isFalse id

def Event.root? : Event → Option PackageManager
  | .globalRoot manager => some manager
  | _ => none

def Event.module? : Event → Option Path
  | .loaded modulePath => some modulePath
  | _ => none

def rootsAsked (events : List Event) : List PackageManager := events.filterMap Event.root?

def modulesLoaded (events : List Event) : List Path := events.filterMap Event.module?

theorem rootsAsked_append (events more : List Event) :
    rootsAsked (events ++ more) = rootsAsked events ++ rootsAsked more := List.filterMap_append

theorem modulesLoaded_append (events more : List Event) :
    modulesLoaded (events ++ more) = modulesLoaded events ++ modulesLoaded more := List.filterMap_append

namespace Locator

variable {t : Toolchain} {m : Machine}

section Search

variable (l : Locator)

/-- What a search leaves: the library, and nothing new in memory but a global directory that was asked
for. It loads nothing. -/
structure Leaves (t : Toolchain) (m : Machine) (l : Locator) (manager : PackageManager)
    (library : Option Library) (found : Located) : Prop where
  library : found.library = library
  locator : found.locator = l ∧ rootsAsked found.events = [] ∨
    found.locator = (l.root t m manager).2.1 ∧
      rootsAsked found.events = rootsAsked (l.root t m manager).2.2
  loads : modulesLoaded found.events = []

variable {l} in
theorem Leaves.after {manager : PackageManager} {library : Option Library} {found : Located}
    (leaves : Leaves t m l manager library found) (warnings : List String) {events : List Event}
    (no_root : rootsAsked events = []) (no_load : modulesLoaded events = []) :
    Leaves t m l manager library (found.after warnings events) := by
  have roots : rootsAsked (found.after warnings events).events = rootsAsked found.events := by
    rw [Located.after, rootsAsked_append, no_root, List.nil_append]
  have loads : modulesLoaded (found.after warnings events).events = modulesLoaded found.events := by
    rw [Located.after, modulesLoaded_append, no_load, List.nil_append]
  exact ⟨leaves.library, by rw [roots]; exact leaves.locator, loads.trans leaves.loads⟩

theorem ask_rootsAsked (search : Option Path) (dir : Path) :
    rootsAsked (ask t m search dir).2 = [] := by
  simp [ask, rootsAsked, Event.root?]

theorem ask_modulesLoaded (search : Option Path) (dir : Path) :
    modulesLoaded (ask t m search dir).2 = [] := by
  simp [ask, modulesLoaded, Event.module?]

theorem root_modulesLoaded (manager : PackageManager) :
    modulesLoaded (l.root t m manager).2.2 = [] := by
  unfold root
  split <;> simp [modulesLoaded, Event.module?]

theorem amongGlobal_leaves (manager : PackageManager) (dir : Option Path) :
    Leaves t m l manager (Search.foundGlobal t m (l.root t m manager).1 dir)
      (l.amongGlobal t m manager dir) := by
  have no_load := l.root_modulesLoaded (t := t) (m := m) manager
  unfold amongGlobal Search.foundGlobal
  generalize reply : l.root t m manager = known at no_load
  rcases known with ⟨_ | root, after, events⟩
  · exact ⟨rfl, Or.inr (by rw [reply]; exact ⟨rfl, rfl⟩), no_load⟩
  · have roots : rootsAsked (events ++ (ask t m (some root) (dir.getD root)).2) = rootsAsked events := by
      rw [rootsAsked_append, ask_rootsAsked, List.append_nil]
    have loads : modulesLoaded (events ++ (ask t m (some root) (dir.getD root)).2) = [] := by
      rw [modulesLoaded_append, ask_modulesLoaded, List.append_nil, no_load]
    exact ⟨rfl, Or.inr (by rw [reply]; exact ⟨rfl, roots⟩), loads⟩

theorem fromDirectory_leaves (manager : PackageManager) (dir : Path) :
    Leaves t m l manager (Search.foundFrom t m (l.root t m manager).1 dir)
      (l.fromDirectory t m manager dir) := by
  have answer : (ask t m none dir).1 = (t.resolveModule m none dir).1 := rfl
  have no_root := ask_rootsAsked (t := t) (m := m) none dir
  have no_load := ask_modulesLoaded (t := t) (m := m) none dir
  unfold fromDirectory Search.foundFrom
  rw [← answer]
  generalize ask t m none dir = reply at no_root no_load
  rcases reply with ⟨_ | path, events⟩
  · exact (l.amongGlobal_leaves manager (some dir)).after _ no_root no_load
  · exact ⟨rfl, Or.inl ⟨rfl, no_root⟩, no_load⟩

theorem search_leaves (s : Search) :
    Leaves t m l s.options.packageManager
      (s.found t m (l.root t m s.options.packageManager).1) (l.search t m s.file s.options) := by
  unfold search Search.found Search.nodePath?
  split
  · cases s.options.nodePath with
    | none => exact l.fromDirectory_leaves _ _
    | some path =>
      by_cases there : m.existsAt path = true
      · have answer : (ask t m (some path) path).1 = (t.resolveModule m (some path) path).1 := rfl
        have no_root := ask_rootsAsked (t := t) (m := m) (some path) path
        have no_load := ask_modulesLoaded (t := t) (m := m) (some path) path
        simp only [there, if_true, Option.filter_some]
        rw [← answer]
        generalize ask t m (some path) path = reply at no_root no_load
        rcases reply with ⟨_ | found, events⟩
        · exact (l.amongGlobal_leaves _ _).after _ no_root no_load
        · exact ⟨rfl, Or.inl ⟨rfl, no_root⟩, no_load⟩
      · simp only [there, Option.filter_some]
        exact (l.fromDirectory_leaves _ _).after _ rfl rfl
  · exact l.amongGlobal_leaves _ _

end Search

section Events

variable (l : Locator)

theorem ask_events (search : Option Path) (dir : Path) :
    ∀ e ∈ (ask t m search dir).2, e.IsLookup := by
  simp [ask, Event.IsLookup]

theorem root_events (manager : PackageManager) : ∀ e ∈ (l.root t m manager).2.2, e.IsLookup := by
  unfold root
  split <;> simp [Event.IsLookup]

theorem root_not_resolved (manager : PackageManager) (search : Option Path)
    (dir : Path) : .resolved search dir ∉ (l.root t m manager).2.2 := by
  unfold root
  split <;> simp

theorem amongGlobal_events (manager : PackageManager) (dir : Option Path) :
    ∀ e ∈ (l.amongGlobal t m manager dir).events, e.IsLookup := by
  have lookups := l.root_events (t := t) (m := m) manager
  unfold amongGlobal
  generalize l.root t m manager = reply at lookups
  rcases reply with ⟨_ | root, l, events⟩
  · exact lookups
  · intro e member
    exact (List.mem_append.mp member).elim (lookups e) (ask_events _ _ e)

theorem after_events {found : Located} {events : List Event} (warnings : List String)
    (first : ∀ e ∈ events, e.IsLookup) (second : ∀ e ∈ found.events, e.IsLookup) :
    ∀ e ∈ (found.after warnings events).events, e.IsLookup := by
  intro e member
  exact (List.mem_append.mp member).elim (first e) (second e)

theorem fromDirectory_events (manager : PackageManager) (dir : Path) :
    ∀ e ∈ (l.fromDirectory t m manager dir).events, e.IsLookup := by
  have lookups := ask_events (t := t) (m := m) none dir
  unfold fromDirectory
  generalize ask t m none dir = reply at lookups
  rcases reply with ⟨_ | path, events⟩
  · exact after_events _ lookups (l.amongGlobal_events manager (some dir))
  · exact lookups

theorem search_events (file : Path) (o : LocateOptions) :
    ∀ e ∈ (l.search t m file o).events, e.IsLookup := by
  unfold search
  split
  · split
    · exact l.fromDirectory_events _ _
    · rename_i path _
      split
      · have lookups := ask_events (t := t) (m := m) (some path) path
        generalize ask t m (some path) path = reply at lookups
        rcases reply with ⟨_ | found, events⟩
        · exact after_events _ lookups (l.amongGlobal_events _ _)
        · exact lookups
      · exact after_events _ (by simp) (l.fromDirectory_events _ _)
  · exact l.amongGlobal_events _ _

theorem locate_events (file : Path) (o : LocateOptions) :
    ∀ e ∈ (l.locate t m file o).events, e.IsLookup := by
  unfold locate
  split
  · simp
  · exact l.search_events file o

theorem load_events (path : Path) : ∀ e ∈ (l.load t m path).events, e = .loaded path := by
  unfold load
  split <;> simp

end Events

/-- What is remembered of searches goes back to those that were made, on the machines they were made
on. -/
structure Remembers (t : Toolchain) (asked : Machine → Search → Prop) (l : Locator) : Prop where
  roots : ∀ manager root, l.roots.lookup manager = some root →
    ∃ m s, asked m s ∧ root = (t.globalRoot m manager).1
  recent : ∀ e ∈ l.recent.entries, ∃ s, Search.Gives t asked s e.2.2 ∧ s.same ⟨e.1, e.2.1⟩ = true

/-- All that is remembered goes back to searches that were made: modules are loaded once they were
found. -/
structure Faithful (t : Toolchain) (asked : Machine → Search → Prop) (l : Locator) : Prop
    extends Remembers t asked l where
  loads : ∀ e ∈ l.loads, (∃ m s, asked m s ∧ e.2 = (t.load m e.1).isOk) ∧
    ∃ s library, Search.Gives t asked s (some library) ∧ library.modulePath = e.1

variable {asked asked' : Machine → Search → Prop} {l : Locator} {s : Search}

theorem remembers_new (asked : Machine → Search → Prop) : Remembers t asked .new :=
  ⟨by simp [new], by simp [new, Recent.empty]⟩

theorem faithful_new (asked : Machine → Search → Prop) : Faithful t asked .new :=
  ⟨remembers_new asked, by simp [new]⟩

theorem Remembers.mono (remembers : Remembers t asked l) (more : ∀ m s, asked m s → asked' m s) :
    Remembers t asked' l := by
  refine ⟨fun manager root known => ?_, fun e member => ?_⟩
  · obtain ⟨m, s, asks, eq⟩ := remembers.roots manager root known
    exact ⟨m, s, more m s asks, eq⟩
  · obtain ⟨s, gives, same⟩ := remembers.recent e member
    exact ⟨s, gives.mono more, same⟩

theorem Faithful.mono (faithful : Faithful t asked l) (more : ∀ m s, asked m s → asked' m s) :
    Faithful t asked' l := by
  refine ⟨faithful.toRemembers.mono more, fun e member => ?_⟩
  obtain ⟨⟨m, s, asks, ok⟩, origin, library, gives, path⟩ := faithful.loads e member
  exact ⟨⟨m, s, more m s asks, ok⟩, origin, library, gives.mono more, path⟩

theorem root_remembers (remembers : Remembers t asked l) (asks : asked m s)
    (manager : PackageManager) :
    (∃ m' other, asked m' other ∧ (l.root t m manager).1 = (t.globalRoot m' manager).1) ∧
      Remembers t asked (l.root t m manager).2.1 := by
  unfold root
  cases known : l.roots.lookup manager with
  | some found => exact ⟨remembers.roots manager found known, remembers⟩
  | none =>
    refine ⟨⟨m, s, asks, rfl⟩, fun other root found => ?_, remembers.recent⟩
    simp only [List.lookup_cons] at found
    split at found
    · rename_i same
      obtain rfl : other = manager := by simpa using same
      exact ⟨m, s, asks, (Option.some.inj found).symm⟩
    · exact remembers.roots other root found

theorem search_remembers (remembers : Remembers t asked l) (asks : asked m s) :
    Search.Gives t asked s (l.search t m s.file s.options).library ∧
      Remembers t asked (l.search t m s.file s.options).locator := by
  obtain ⟨⟨m', other, asks', root⟩, kept⟩ := root_remembers remembers asks s.options.packageManager
  obtain ⟨library, left, -⟩ := l.search_leaves (t := t) (m := m) s
  refine ⟨⟨m, m', other, asks, asks', by rw [library, root]⟩, ?_⟩
  rcases left with ⟨left, -⟩ | ⟨left, -⟩ <;> rw [left]
  · exact remembers
  · exact kept

theorem mem_of_remembered? {file : Path} {o : LocateOptions} {library : Option Library}
    (known : l.remembered? file o = some library) :
    ∃ e ∈ l.recent.entries, e.1.same file = true ∧ e.2.1.same o = true ∧ e.2.2 = library := by
  unfold remembered? at known
  cases got : l.recent.get? file with
  | none => simp [got] at known
  | some value =>
    obtain ⟨e, found, rfl⟩ := Option.map_eq_some_iff.mp got
    rw [got] at known
    by_cases options : e.2.1.same o = true
    · simp only [options, if_true, Option.some.injEq] at known
      have same := List.find?_some found
      exact ⟨e, List.mem_of_find?_eq_some found, same, options, known⟩
    · simp [options] at known

theorem remembered_remembers (remembers : Remembers t asked l) {library : Option Library}
    (known : l.remembered? s.file s.options = some library) :
    ∃ origin, Search.Gives t asked origin library ∧ origin.same s = true := by
  obtain ⟨e, member, file, options, rfl⟩ := mem_of_remembered? known
  obtain ⟨origin, gives, same⟩ := remembers.recent e member
  exact ⟨origin, gives, Search.same_trans same (by simp [Search.same, file, options])⟩

theorem remember_remembers {origin : Search} {library : Option Library}
    (remembers : Remembers t asked l) (gives : Search.Gives t asked origin library)
    (same : origin.same s = true) : Remembers t asked (l.remember s.file s.options library) := by
  refine ⟨remembers.roots, fun e member => ?_⟩
  rcases Recent.mem_put member with rfl | ⟨member, -⟩
  · exact ⟨origin, gives, same⟩
  · exact remembers.recent e member

theorem locate_remembers (remembers : Remembers t asked l) (asks : asked m s) :
    (∃ origin, Search.Gives t asked origin (l.locate t m s.file s.options).library ∧
        origin.same s = true) ∧
      Remembers t asked (l.locate t m s.file s.options).locator := by
  unfold locate
  cases known : l.remembered? s.file s.options with
  | some library =>
    obtain ⟨origin, gives, same⟩ := remembered_remembers remembers known
    exact ⟨⟨origin, gives, same⟩, remember_remembers remembers gives same⟩
  | none =>
    obtain ⟨gives, kept⟩ := search_remembers remembers asks
    exact ⟨⟨s, gives, Search.same_refl s⟩, remember_remembers kept gives (Search.same_refl s)⟩

theorem locate_loads (l : Locator) (s : Search) :
    (l.locate t m s.file s.options).locator.loads = l.loads := by
  unfold locate
  cases l.remembered? s.file s.options with
  | some library => rfl
  | none =>
    obtain ⟨-, ⟨left, -⟩ | ⟨left, -⟩, -⟩ := l.search_leaves (t := t) (m := m) s
    · simp only [left]
      rfl
    · simp only [left, root]
      split <;> rfl

theorem locate_faithful (faithful : Faithful t asked l) (asks : asked m s) :
    (∃ origin, Search.Gives t asked origin (l.locate t m s.file s.options).library ∧
        origin.same s = true) ∧
      Faithful t asked (l.locate t m s.file s.options).locator := by
  obtain ⟨gives, kept⟩ := locate_remembers faithful.toRemembers asks
  exact ⟨gives, kept, by rw [locate_loads]; exact faithful.loads⟩

theorem load_faithful {library : Library} (faithful : Faithful t asked l) (asks : asked m s)
    {source : Search} (found : Search.Gives t asked source (some library)) :
    (∃ m' s' origin library', asked m' s' ∧ Search.Gives t asked origin (some library') ∧
        library'.modulePath.same library.modulePath = true ∧
        (l.load t m library.modulePath).engine =
          if (t.load m' library'.modulePath).isOk then some (t.engine library'.modulePath)
          else none) ∧
      Faithful t asked (l.load t m library.modulePath).locator := by
  unfold load
  cases known : l.loads.find? (·.1.same library.modulePath) with
  | some entry =>
    obtain ⟨⟨m', s', asks', ok⟩, origin, library', gives, path⟩ :=
      faithful.loads entry (List.mem_of_find?_eq_some known)
    have same := List.find?_some known
    simp only [← path] at same
    refine ⟨⟨m', s', origin, library', asks', gives, same, ?_⟩, faithful⟩
    simp only [ok, path]
  | none =>
    refine ⟨⟨m, s, source, library, asks, found, Path.same_refl _, rfl⟩,
      ⟨faithful.roots, faithful.recent⟩, fun e member => ?_⟩
    rcases List.mem_cons.mp member with rfl | member
    · exact ⟨⟨m, s, asks, rfl⟩, source, library, found, rfl⟩
    · exact faithful.loads e member

theorem load_engine_of_loads {l l' : Locator} (loads : l.loads = l'.loads) (path : Path) :
    (l.load t m path).engine = (l'.load t m path).engine := by
  unfold load
  rw [loads]
  split <;> rfl

section Global

variable (elsewhere : s.options.allowWorkspace = false)
include elsewhere

theorem found_global (root : Option Path) : s.found t m root = Search.foundGlobal t m root none := by
  simp [Search.found, elsewhere]

theorem locate_global (faithful : Faithful t asked l) (asks : asked m s)
    (unchanging : ∀ m' s, asked m' s → m' = m) :
    (l.locate t m s.file s.options).library =
      Search.foundGlobal t m (t.globalRoot m s.options.packageManager).1 none := by
  obtain ⟨⟨origin, gives, same⟩, -⟩ := locate_faithful faithful asks
  obtain ⟨-, -, manager, allow⟩ := Search.same_iff.mp same
  rw [(gives.afresh unchanging).2, Search.foundAfresh, found_global (allow.trans elsewhere), manager]

theorem locate_global_warnings : (l.locate t m s.file s.options).warnings = [] := by
  unfold locate
  split
  · rfl
  · simp only [search, elsewhere, Bool.false_eq_true, if_false, amongGlobal]
    split <;> rfl

/-- Without the engines of workspaces, only the global directory is asked, from itself. -/
theorem locate_global_resolved (faithful : Faithful t asked l) (asks : asked m s)
    (unchanging : ∀ m' s, asked m' s → m' = m) {search : Option Path} {dir : Path}
    (resolved : .resolved search dir ∈ (l.locate t m s.file s.options).events) :
    (t.globalRoot m s.options.packageManager).1 = some dir ∧ search = some dir := by
  obtain ⟨⟨m', other, asks', answer⟩, -⟩ :=
    root_remembers faithful.toRemembers asks s.options.packageManager
  obtain rfl := unchanging _ _ asks'
  have silent := l.root_not_resolved (t := t) (m := m') s.options.packageManager search dir
  unfold locate at resolved
  split at resolved
  · contradiction
  · simp only [Locator.search, elsewhere, Bool.false_eq_true, if_false, amongGlobal] at resolved
    generalize l.root t m' s.options.packageManager = reply at resolved answer silent
    rcases reply with ⟨_ | root, after, events⟩
    · exact absurd resolved silent
    · rcases List.mem_append.mp resolved with member | member
      · exact absurd member silent
      · obtain ⟨rfl, rfl⟩ : search = some root ∧ dir = root := by simpa [ask] using member
        exact ⟨answer.symm, rfl⟩

end Global

end Locator
end LintBridge
