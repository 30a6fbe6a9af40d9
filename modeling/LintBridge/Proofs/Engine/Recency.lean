import LintBridge.Proofs.Engine.Locator
import LintBridge.Proofs.Recent
/-!
Which searches a locator remembers. Every search puts its file in front, whether it is answered from
memory or made (`locate_recent`), so after any history the locator holds, for the files that were
searched for last, the options and the outcome of the last search (`holds_last_searches`).
-/
namespace LintBridge

inductive Lookup where
  | locate (m : Machine) (s : Search)
  | load (m : Machine) (modulePath : Path)

def Lookup.file? : Lookup → Option Path
  | locate _ s => some s.file
  | load _ _ => none

def filesSearched (history : List Lookup) : Finset (List Path.Component) :=
  ((history.filterMap Lookup.file?).map Path.components).toFinset

theorem mem_filesSearched {history : List Lookup} {key : List Path.Component} :
    key ∈ filesSearched history ↔ ∃ m s, .locate m s ∈ history ∧ s.file.components = key := by
  simp only [filesSearched, List.mem_toFinset, List.mem_map, List.mem_filterMap]
  constructor
  · rintro ⟨file, ⟨lookup, member, eq⟩, rfl⟩
    cases lookup with
    | locate m s => exact ⟨m, s, member, congrArg _ (Option.some.inj eq)⟩
    | load m path => contradiction
  · rintro ⟨m, s, member, rfl⟩
    exact ⟨s.file, ⟨_, member, rfl⟩, rfl⟩

/-- The last search for a file, with what was before and after it. -/
structure LastSearch (history : List Lookup) (file : Path) (before : List Lookup) (m : Machine)
    (s : Search) (rest : List Lookup) : Prop where
  split : history = before ++ .locate m s :: rest
  same : s.file.same file = true
  last : file.components ∉ filesSearched rest

theorem exists_lastSearch {history : List Lookup} {file : Path}
    (searched : file.components ∈ filesSearched history) :
    ∃ before m s rest, LastSearch history file before m s rest := by
  induction history using List.reverseRecOn with
  | nil => contradiction
  | append_singleton history next ih =>
    by_cases now : file.components ∈ filesSearched [next]
    · obtain ⟨m, s, member, same⟩ := mem_filesSearched.mp now
      obtain rfl := List.mem_singleton.mp member
      exact ⟨history, m, s, [], rfl, Path.same_iff.mpr same, Finset.notMem_empty _⟩
    · have appended (some_lookups : List Lookup) :
          file.components ∈ filesSearched (some_lookups ++ [next]) →
            file.components ∈ filesSearched some_lookups := by
        simp only [mem_filesSearched, List.mem_append] at now ⊢
        rintro ⟨m, s, member | member, same⟩
        · exact ⟨m, s, member, same⟩
        · exact absurd ⟨m, s, member, same⟩ now
      obtain ⟨before, m, s, rest, found⟩ := ih (appended history searched)
      exact ⟨before, m, s, rest ++ [next], by simp [found.split], found.same,
        fun member => found.last (appended rest member)⟩

namespace Locator

def step (t : Toolchain) (l : Locator) : Lookup → Locator
  | .locate m s => (l.locate t m s.file s.options).locator
  | .load m modulePath => (l.load t m modulePath).locator

def after (t : Toolchain) (history : List Lookup) : Locator := history.foldl (step t) .new

theorem after_append (t : Toolchain) (history : List Lookup) (last : Lookup) :
    after t (history ++ [last]) = step t (after t history) last := by
  simp [after]

def serves (l : Locator) (s : Search) : Bool := (l.remembered? s.file s.options).isSome

variable {t : Toolchain} {m : Machine} {l : Locator} {s : Search}

theorem locate_of_serves (served : l.serves s = true) :
    ∃ library, l.locate t m s.file s.options =
      ⟨library, l.remember s.file s.options library, [], []⟩ := by
  obtain ⟨library, known⟩ := Option.isSome_iff_exists.mp served
  exact ⟨library, by simp only [locate, known]⟩

theorem locate_of_not_serves (unserved : l.serves s = false) :
    l.locate t m s.file s.options =
      { l.search t m s.file s.options with
        locator := (l.search t m s.file s.options).locator.remember s.file s.options
          (l.search t m s.file s.options).library } := by
  have unknown := Option.not_isSome_iff_eq_none.mp (Bool.not_eq_true _ ▸ unserved)
  simp only [locate, unknown]

theorem serves_iff : l.serves s = true ↔
    ∃ held, l.recent.get? s.file = some held ∧ held.1.same s.options = true := by
  unfold serves remembered?
  cases l.recent.get? s.file with
  | none => simp
  | some held => by_cases same : held.1.same s.options = true <;> simp [same]

theorem search_recent (l : Locator) (s : Search) :
    (l.search t m s.file s.options).locator.recent = l.recent := by
  obtain ⟨-, ⟨left, -⟩ | ⟨left, -⟩, -⟩ := l.search_leaves (t := t) (m := m) s
  · rw [left]
  · rw [left, root]
    split <;> rfl

theorem locate_recent (l : Locator) (s : Search) :
    (l.locate t m s.file s.options).locator.recent =
      l.recent.put s.file (s.options, (l.locate t m s.file s.options).library) := by
  cases served : l.serves s with
  | true =>
    obtain ⟨library, eq⟩ := locate_of_serves (t := t) (m := m) served
    rw [eq]
    rfl
  | false =>
    rw [locate_of_not_serves served]
    simp only [remember, search_recent]

theorem load_recent (l : Locator) (path : Path) : (l.load t m path).locator.recent = l.recent := by
  unfold load
  split <;> rfl

def outcomes (t : Toolchain) : Locator → List Lookup → List (Path × LocateOptions × Option Library)
  | _, [] => []
  | l, .locate m s :: rest =>
    (s.file, s.options, (l.locate t m s.file s.options).library) ::
      outcomes t (l.step t (.locate m s)) rest
  | l, .load m path :: rest => outcomes t (l.step t (.load m path)) rest

theorem outcomes_append (l : Locator) (history more : List Lookup) :
    outcomes t l (history ++ more) =
      outcomes t l history ++ outcomes t (history.foldl (step t) l) more := by
  induction history generalizing l with
  | nil => rfl
  | cons first rest ih => cases first <;> simp [outcomes, ih]

theorem keys_outcomes (l : Locator) (history : List Lookup) :
    Recent.keys (outcomes t l history) = filesSearched history := by
  have files : (outcomes t l history).map (·.1) = history.filterMap Lookup.file? := by
    induction history generalizing l with
    | nil => rfl
    | cons first rest ih =>
      cases first with
      | locate m s => exact congrArg (s.file :: ·) (ih _)
      | load m path => exact ih _
  rw [Recent.keys, filesSearched, ← files, List.map_map]
  rfl

theorem foldl_step_recent (l : Locator) (history : List Lookup) :
    (history.foldl (step t) l).recent =
      (outcomes t l history).foldl (fun r e => r.put e.1 e.2) l.recent := by
  induction history generalizing l with
  | nil => rfl
  | cons first rest ih =>
    rw [List.foldl_cons, ih]
    cases first with
    | locate m s => rw [step, locate_recent]; rfl
    | load m path => rw [step, load_recent]; rfl

theorem after_recent (t : Toolchain) (history : List Lookup) :
    (after t history).recent = Recent.ofPuts locatorCapacity (outcomes t .new history) :=
  foldl_step_recent .new history

/-- The last search for a file is held as long as fewer than so many other files are searched for
after it. -/
theorem get?_recent_of_lastSearch {history before rest : List Lookup} {file : Path}
    (found : LastSearch history file before m s rest) :
    (after t history).recent.get? file =
      if (filesSearched rest).card < locatorCapacity then
        some (s.options, ((after t before).locate t m s.file s.options).library)
      else none := by
  let own : Path × LocateOptions × Option Library :=
    (s.file, s.options, ((after t before).locate t m s.file s.options).library)
  have shape : outcomes t .new history = outcomes t .new before ++
      own :: outcomes t ((after t before).step t (.locate m s)) rest := by
    rw [found.split, outcomes_append]
    rfl
  have last : ∀ later ∈ outcomes t ((after t before).step t (.locate m s)) rest,
      later.1.same own.1 = false := by
    rw [← Recent.not_mem_keys, keys_outcomes, Path.same_iff.mp found.same]
    exact found.last
  have same : own.1.same file = true := found.same
  rw [after_recent, shape, Recent.get?_ofPuts last same, keys_outcomes]

theorem get?_recent_of_not_mem {history : List Lookup} {file : Path}
    (never : file.components ∉ filesSearched history) :
    (after t history).recent.get? file = none := by
  rw [after_recent]
  exact Recent.get?_ofPuts_of_not_mem (by rwa [keys_outcomes])

/-- A locator holds the searches for the hundred files that were searched for last: for each of them
the options and the outcome of its last search, which answer a search with the same options. -/
theorem holds_last_searches (t : Toolchain) (history : List Lookup) :
    let l := after t history
    l.recent.size = min 100 (filesSearched history).card ∧
      (∀ file held, l.recent.get? file = some held ↔
        ∃ before m s rest, LastSearch history file before m s rest ∧
          (filesSearched rest).card < 100 ∧
          held = (s.options, ((after t before).locate t m s.file s.options).library)) ∧
      ∀ s, l.serves s = true ↔
        (l.recent.get? s.file).isSome = true ∧
          ∃ before m last rest, LastSearch history s.file before m last rest ∧
            last.options.same s.options = true := by
  intro l
  have size : l.recent.size = min 100 (filesSearched history).card := by
    rw [after_recent, Recent.size_ofPuts, keys_outcomes]
    rfl
  have holds (file : Path) (held : LocateOptions × Option Library) :
      l.recent.get? file = some held ↔
        ∃ before m s rest, LastSearch history file before m s rest ∧
          (filesSearched rest).card < 100 ∧
          held = (s.options, ((after t before).locate t m s.file s.options).library) := by
    constructor
    · intro known
      have searched : file.components ∈ filesSearched history := by
        by_contra never
        rw [get?_recent_of_not_mem never] at known
        contradiction
      obtain ⟨before, m, s, rest, found⟩ := exists_lastSearch searched
      rw [get?_recent_of_lastSearch found, Option.ite_none_right_eq_some] at known
      exact ⟨before, m, s, rest, found, known.1, (Option.some.inj known.2).symm⟩
    · rintro ⟨before, m, s, rest, found, few, rfl⟩
      rw [get?_recent_of_lastSearch found]
      exact if_pos few
  refine ⟨size, holds, fun s => ?_⟩
  rw [serves_iff]
  constructor
  · rintro ⟨held, known, same⟩
    obtain ⟨before, m, last, rest, found, -, rfl⟩ := (holds s.file held).mp known
    exact ⟨Option.isSome_of_eq_some known, before, m, last, rest, found, same⟩
  · rintro ⟨some_held, before, m, last, rest, found, same⟩
    obtain ⟨held, known⟩ := Option.isSome_iff_exists.mp some_held
    have own := known
    rw [get?_recent_of_lastSearch found, Option.ite_none_right_eq_some, Option.some.injEq] at own
    obtain ⟨-, rfl⟩ := own
    exact ⟨_, known, same⟩

end Locator
end LintBridge
