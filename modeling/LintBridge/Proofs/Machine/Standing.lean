import LintBridge.Machine.Basic
import LintBridge.Proofs.Machine.Walk
import LintBridge.Proofs.Path.Location
import Mathlib.Data.List.Infix
/-!
Machines that stand somewhere. Where the files are a tree (`FileSystem.IsTree`), the path of a place
leads to the place from anywhere, so a machine goes back to the directory that it stands in if no
directory has been taken out and the process may search that directory and all above it, and else it
stays where it is (`Machine.Sound.goBack`).
-/
namespace LintBridge
open LintBridge.Path

namespace FileSystem

/-- Every place where something is has names, and stands in a directory. -/
structure IsTree (fs : FileSystem) : Prop where
  named : ∀ place, (fs.entry? place).isSome → ∀ name ∈ place, IsName name
  closed : ∀ place, (fs.entry? place).isSome → fs.entry? place.dropLast = some .directory

variable {fs : FileSystem}

theorem mem_entries_of_isSome {place : Location} (below : place ≠ [])
    (there : (fs.entry? place).isSome) : ∃ entry, (place, entry) ∈ fs.entries := by
  obtain ⟨entry, found⟩ := Option.isSome_iff_exists.mp there
  unfold FileSystem.entry? at found
  rw [if_neg (by simpa using below), List.lookup_eq_some_iff] at found
  obtain ⟨before, after, cut, -⟩ := found
  exact ⟨entry, by simp [cut]⟩

theorem isTree_of_entries (entries : ∀ e ∈ fs.entries, (∀ name ∈ e.1, IsName name) ∧
    fs.entry? e.1.dropLast = some .directory) : fs.IsTree := by
  constructor
  · intro place there
    by_cases root : place = []
    · simp [root]
    · obtain ⟨entry, member⟩ := mem_entries_of_isSome root there
      exact (entries _ member).1
  · intro place there
    by_cases root : place = []
    · rw [root]
      rfl
    · obtain ⟨entry, member⟩ := mem_entries_of_isSome root there
      exact (entries _ member).2

@[simp] theorem lookup_root (fs : FileSystem) : fs.entry? [] = some .directory := rfl

theorem IsTree.above (tree : fs.IsTree) {place names : Location} (below : names ≠ [])
    (there : (fs.entry? (place ++ names)).isSome) : fs.entry? place = some .directory := by
  induction names using List.reverseRecOn with
  | nil => contradiction
  | append_singleton names last ih =>
    have parent := tree.closed _ there
    rw [← List.append_assoc, List.dropLast_concat] at parent
    cases names with
    | nil => simpa using parent
    | cons first more => exact ih (by simp) (by simp [parent])

def Searchable (fs : FileSystem) (place : Location) : Prop :=
  ∀ before, before <+: place → before ∉ fs.locked

instance (fs : FileSystem) : DecidablePred fs.Searchable := fun place =>
  decidable_of_iff (place.inits.all fun before => !fs.locked.contains before) (by simp [Searchable])

theorem walk_name {place : Location} {name : String} (is_name : IsName name)
    (here : fs.entry? place = some .directory)
    (next : fs.entry? (place ++ [name]) = some .directory) (rest : List (List Char)) :
    fs.walk place (name.toList :: rest) =
      if place ∈ fs.locked then .error .denied else fs.walk (place ++ [name]) rest := by
  have given : name.toList ≠ [] := by
    intro empty
    simpa [empty, isIdle] using is_name.busy
  rw [walk, here]
  simp [given, is_name.busy, is_name.noParent, next]

/-- Along names of directories a walk leads as far as all directories on the way may be searched. -/
theorem walk_names_eq_ok_iff {place names : Location} (is_names : ∀ name ∈ names, IsName name)
    (directories : ∀ before, before <+: names → fs.entry? (place ++ before) = some .directory)
    {found : Location} : fs.walk place (names.map String.toList) = .ok found ↔
      (∀ before, before <+: names → before ≠ names → place ++ before ∉ fs.locked) ∧
        found = place ++ names := by
  induction names generalizing place with
  | nil => simp [walk, eq_comm]
  | cons name rest ih =>
    have here : fs.entry? place = some .directory := by simpa using directories [] List.nil_prefix
    have next : fs.entry? (place ++ [name]) = some .directory := directories [name] (by simp)
    have onwards := @ih (place ++ [name])
      (fun other member => is_names other (List.mem_cons_of_mem _ member))
      fun before beginning => by simpa using directories (name :: before) (by simpa using beginning)
    have unlocked : (∀ before, before <+: name :: rest → before ≠ name :: rest →
        place ++ before ∉ fs.locked) ↔
        place ∉ fs.locked ∧ ∀ before, before <+: rest → before ≠ rest →
          place ++ [name] ++ before ∉ fs.locked := by
      simp only [List.prefix_cons_iff]
      constructor
      · intro all
        exact ⟨by simpa using all [] (Or.inl rfl) (by simp), fun before beginning shorter => by
          simpa using all (name :: before) (Or.inr ⟨before, rfl, beginning⟩) (by simpa using shorter)⟩
      · rintro ⟨first, below⟩ _ (rfl | ⟨before, rfl, beginning⟩) shorter
        · simpa using first
        · simpa using below before beginning (by simpa using shorter)
    rw [List.map_cons, walk_name (is_names name List.mem_cons_self) here next, unlocked]
    by_cases locked : place ∈ fs.locked
    · simp [locked]
    · simp [locked, onwards]

theorem locate_path_eq_ok_iff {place : Location} (names : ∀ name ∈ place, IsName name)
    (directories : ∀ before, before <+: place → fs.entry? before = some .directory)
    {workingDirectory : Option Location} {found : Location} :
    fs.locate workingDirectory place.path = .ok found ↔
      (∀ before, before <+: place → before ≠ place → before ∉ fs.locked) ∧ found = place := by
  have walked : fs.walk [] (place.map String.toList) = .ok found ↔ _ :=
    walk_names_eq_ok_iff names (by simpa using directories)
  rw [locate_of_isAbsolute (isAbsolute_path place), pieces_path names, walk, lookup_root]
  by_cases root : place = []
  · subst root
    simp [walk, isIdle, eq_comm]
  · simpa [root, isIdle] using walked

end FileSystem

namespace Machine

/-- The files are a tree, and the working directory, where it is known, is one of its directories. -/
structure Sound (m : Machine) : Prop where
  tree : m.files.IsTree
  standing : ∀ place, m.workingDirectory = some place → m.files.entry? place = some .directory

def CanReturn (m : Machine) : Prop := ∀ start ∈ m.workingDirectory, m.files.Searchable start

instance (m : Machine) : Decidable m.CanReturn :=
  inferInstanceAs (Decidable (∀ start ∈ m.workingDirectory, m.files.Searchable start))

/-- Whether a machine enters a folder, at a place, if it may. It only does so if it knows where it
stands, to come back. -/
structure Enters (m : Machine) (folder : Option Path) (allowed : Bool) (start place : Location) :
    Prop where
  allowed : allowed = true
  known : m.workingDirectory = some start
  entered : ∃ dir, folder = some dir ∧
    m.changeDirectory dir = .ok { m with workingDirectory := some place }

theorem hold_eq_ok_iff {m : Machine} {dir : Path} {held : HeldDirectory} :
    m.hold dir = .ok held ↔ ∃ start place, m.Enters (some dir) true start place ∧
      held = ⟨{ m with workingDirectory := some place }, start.path⟩ := by
  cases working : m.workingDirectory with
  | none =>
    have lost : m.hold dir = .error .notFound := by
      simp [hold, currentDirectory, currentDirectory?, working, bind, Except.bind]
    simp only [lost, reduceCtorEq, false_iff]
    rintro ⟨start, place, ⟨-, known, -⟩, -⟩
    simp [working] at known
  | some start =>
    have onwards : m.hold dir = (m.changeDirectory dir).map (⟨·, start.path⟩) := by
      simp only [hold, currentDirectory, currentDirectory?, working, Option.map_some, bind, Except.bind,
        pure, Except.pure]
      cases m.changeDirectory dir <;> rfl
    rw [onwards]
    constructor
    · intro holds
      cases changed : m.changeDirectory dir with
      | error e => simp [changed, Except.map] at holds
      | ok moved =>
        obtain ⟨place, -, -, -, rfl⟩ := changeDirectory_eq_ok changed
        refine ⟨start, place, ⟨rfl, working, dir, rfl, changed⟩, ?_⟩
        rw [changed] at holds
        exact (Except.ok.inj holds).symm
    · rintro ⟨start', place, ⟨-, known, _, same, entered⟩, rfl⟩
      obtain rfl := Option.some.inj same
      obtain rfl := Option.some.inj (working.symm.trans known)
      rw [entered]
      rfl

theorem Sound.directories {m : Machine} (sound : m.Sound) {place : Location}
    (standing : m.workingDirectory = some place) :
    ∀ before, before <+: place → m.files.entry? before = some .directory := by
  rintro before ⟨names, rfl⟩
  have here := sound.standing _ standing
  cases names with
  | nil => simpa using here
  | cons first more =>
    exact sound.tree.above (List.cons_ne_nil first more) (Option.isSome_of_eq_some here)

theorem isAbsolute_foldl_child_of_absolute (steps : List Component) {base : Path}
    (absolute : base.isAbsolute = true) :
    (steps.foldl (fun dir c => dir.child c.text) base).isAbsolute = true := by
  induction steps generalizing base with
  | nil => exact absolute
  | cons c rest ih => exact ih (isAbsolute_join absolute _)

theorem isAbsolute_of_absolute {m : Machine} {p path : Path} (made : m.absolute p = .ok path) :
    path.isAbsolute = true := by
  have based {base : Path} (absolute : base.isAbsolute = true) (steps : List Component) {slash : Prop}
      [Decidable slash] (made : (if slash then
        (steps.foldl (fun dir c => dir.child c.text) base).child ""
        else steps.foldl (fun dir c => dir.child c.text) base) = path) : path.isAbsolute = true := by
    have below := isAbsolute_foldl_child_of_absolute steps absolute
    rw [← made]
    split
    · exact isAbsolute_join below _
    · exact below
  unfold absolute at made
  cases rooted : p.isAbsolute with
  | true =>
    rw [rooted] at made
    refine based ?_ _ (Except.ok.inj made)
    split <;> decide
  | false =>
    rw [rooted] at made
    cases working : m.workingDirectory with
    | none => simp [currentDirectory, currentDirectory?, working, bind, Except.bind] at made
    | some start =>
      simp only [currentDirectory, currentDirectory?, working, Option.map_some] at made
      exact based (isAbsolute_path start) _ (Except.ok.inj made)

theorem changeDirectory_path_eq_ok_iff {m moved : Machine} {place : Location}
    (names : ∀ name ∈ place, IsName name)
    (directories : ∀ before, before <+: place → m.files.entry? before = some .directory) :
    m.changeDirectory place.path = .ok moved ↔
      m.files.Searchable place ∧ moved = { m with workingDirectory := some place } := by
  have above : m.files.Searchable place ↔
      (∀ before, before <+: place → before ≠ place → before ∉ m.files.locked) ∧
        place ∉ m.files.locked := by
    constructor
    · exact fun all => ⟨fun before beginning _ => all before beginning, all place (List.prefix_refl _)⟩
    · rintro ⟨above, here⟩ before beginning
      by_cases same : before = place
      · exact same ▸ here
      · exact above before beginning same
  have there := directories place (List.prefix_refl _)
  have located (found : Location) : m.locate place.path = .ok found ↔ _ :=
    FileSystem.locate_path_eq_ok_iff names directories
  rw [above]
  constructor
  · intro changed
    obtain ⟨found, found_at, -, unlocked, moved_eq⟩ := changeDirectory_eq_ok changed
    obtain ⟨searchable, rfl⟩ := (located found).mp found_at
    exact ⟨⟨searchable, unlocked⟩, moved_eq⟩
  · rintro ⟨⟨searchable, unlocked⟩, moved_eq⟩
    rw [changeDirectory_of_locate ((located place).mpr ⟨searchable, rfl⟩)]
    exact enter_eq_ok_iff.mpr ⟨there, unlocked, moved_eq⟩

/-- A machine goes back to a directory that is still there with all directories above it, if the
process may search them all. -/
theorem goBack_path {m : Machine} {place : Location} (names : ∀ name ∈ place, IsName name)
    (directories : ∀ before, before <+: place → m.files.entry? before = some .directory) :
    m.goBack place.path =
      if m.files.Searchable place then { m with workingDirectory := some place } else m := by
  have back (moved : Machine) : m.changeDirectory place.path = .ok moved ↔ _ :=
    changeDirectory_path_eq_ok_iff names directories
  unfold goBack
  by_cases searchable : m.files.Searchable place
  · rw [(back _).mpr ⟨searchable, rfl⟩, if_pos searchable]
  · rw [if_neg searchable]
    split
    · rename_i moved changed
      exact absurd ((back moved).mp changed).1 searchable
    · rfl

theorem Sound.goBack {m after : Machine} (sound : m.Sound) {start : Location}
    (standing : m.workingDirectory = some start)
    (kept : ∀ place, m.files.entry? place = some .directory →
      after.files.entry? place = some .directory) :
    after.goBack start.path =
      if after.files.Searchable start then { after with workingDirectory := some start }
      else after := by
  have here := sound.standing start standing
  exact goBack_path (sound.tree.named start (Option.isSome_of_eq_some here))
    fun before beginning => kept before (sound.directories standing before beginning)

end Machine
end LintBridge
