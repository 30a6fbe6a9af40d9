import LintBridge.Machine.Process
import LintBridge.Proofs.Dictionary
import LintBridge.Proofs.Machine.Standing
/-!
Machines that differ in the contents of their files alone. Reading a file is the only way to tell them
apart: paths lead to the same places and name the same kinds of things, and programs are found, called
and answer alike (`Alike.run`). Writing a text to a file that is there leaves a machine alike
(`alike_withText`).
-/
namespace LintBridge

inductive EntryKind where
  | directory
  | file
  | program
deriving DecidableEq

def Entry.kind : Entry → EntryKind
  | directory => .directory
  | file _ => .file
  | program => .program

theorem Entry.kind_eq_directory_iff {e : Entry} : e.kind = .directory ↔ e = .directory := by
  cases e <;> simp [kind]

theorem Entry.kind_eq_program_iff {e : Entry} : e.kind = .program ↔ e = .program := by
  cases e <;> simp [kind]

/-! ### Files -/

namespace FileSystem

structure SameKinds (fs fs' : FileSystem) : Prop where
  kind : ∀ place, (fs'.entry? place).map Entry.kind = (fs.entry? place).map Entry.kind
  locked : fs'.locked = fs.locked

variable {fs fs' : FileSystem} (same : fs.SameKinds fs')
include same

theorem SameKinds.isSome (place : Location) :
    (fs'.entry? place).isSome = (fs.entry? place).isSome := by
  rw [← Option.isSome_map, same.kind place, Option.isSome_map]

theorem SameKinds.directory_iff (place : Location) :
    fs'.entry? place = some .directory ↔ fs.entry? place = some .directory := by
  have directory (entry : Option Entry) :
      entry.map Entry.kind = some .directory ↔ entry = some .directory := by
    cases entry <;> simp [Entry.kind_eq_directory_iff]
  rw [← directory, same.kind place, directory]

theorem SameKinds.walk (place : Location) (pieces : List (List Char)) :
    fs'.walk place pieces = fs.walk place pieces := by
  induction pieces generalizing place with
  | nil => rfl
  | cons piece rest ih =>
    have kinds := same.kind place
    rw [FileSystem.walk, FileSystem.walk]
    simp only [ih, same.isSome, same.locked]
    cases here : fs.entry? place with
    | none => rw [here, Option.map_none, Option.map_eq_none_iff] at kinds; rw [kinds]
    | some entry =>
      obtain ⟨entry', here', kind⟩ : ∃ entry', fs'.entry? place = some entry' ∧
          entry'.kind = entry.kind := by simpa [here] using kinds
      rw [here']
      cases entry <;> cases entry' <;> first | rfl | contradiction

theorem SameKinds.locate (workingDirectory : Option Location) (p : Path) :
    fs'.locate workingDirectory p = fs.locate workingDirectory p := by
  unfold FileSystem.locate
  simp only [same.walk]

end FileSystem

theorem lookup_map_put (place other : Location) (entry : Entry) (entries : List (Location × Entry)) :
    (entries.map fun e => if e.1 = place then (place, entry) else e).lookup other =
      if other = place then (entries.lookup place).map fun _ => entry else entries.lookup other := by
  induction entries with
  | nil => simp
  | cons first rest ih =>
    rw [List.map_cons, lookup_cons_eq, ih, lookup_cons_eq, lookup_cons_eq]
    by_cases here : first.1 = place
    · by_cases same : other = place <;> simp [here, same]
    · by_cases same : other = place
      · subst same
        simp [here, Ne.symm here]
      · simp [here, same]

theorem FileSystem.entry?_put (fs : FileSystem) {place : Location} (below : place ≠ []) (entry : Entry)
    (other : Location) :
    FileSystem.entry? (fs.put place entry) other = if other = place then some entry else fs.entry? other := by
  have root : ¬([] : Location) = place := Ne.symm below
  unfold FileSystem.entry? put
  cases other with
  | nil => simp [root]
  | cons name names =>
    simp only [List.isEmpty_cons, Bool.false_eq_true, if_false]
    split
    · rename_i there
      obtain ⟨old, found⟩ := Option.isSome_iff_exists.mp there
      simp [lookup_map_put, found]
    · rw [lookup_cons_eq]

/-! ### Machines -/

namespace Machine

/-- Whether two machines differ in the contents of files alone. -/
structure Alike (m m' : Machine) : Prop where
  kinds : m.files.SameKinds m'.files
  workingDirectory : m'.workingDirectory = m.workingDirectory
  environment : m'.environment = m.environment
  respond : m'.respond = m.respond

theorem Alike.refl (m : Machine) : m.Alike m := ⟨⟨fun _ => rfl, rfl⟩, rfl, rfl, rfl⟩

theorem Alike.symm {m m' : Machine} (alike : m.Alike m') : m'.Alike m where
  kinds := ⟨fun place => (alike.kinds.kind place).symm, alike.kinds.locked.symm⟩
  workingDirectory := alike.workingDirectory.symm
  environment := alike.environment.symm
  respond := alike.respond.symm

theorem Alike.trans {m m' m'' : Machine} (first : m.Alike m') (second : m'.Alike m'') :
    m.Alike m'' where
  kinds := ⟨fun place => (second.kinds.kind place).trans (first.kinds.kind place),
    second.kinds.locked.trans first.kinds.locked⟩
  workingDirectory := second.workingDirectory.trans first.workingDirectory
  environment := second.environment.trans first.environment
  respond := second.respond.trans first.respond

section Same

variable {m m' : Machine} (alike : m.Alike m')
include alike

theorem Alike.standing (place : Option Location) :
    Machine.Alike { m with workingDirectory := place } { m' with workingDirectory := place } :=
  ⟨alike.kinds, rfl, alike.environment, alike.respond⟩

theorem Alike.locate (p : Path) : m'.locate p = m.locate p := by
  unfold Machine.locate
  rw [alike.kinds.locate, alike.workingDirectory]

theorem Alike.kind (p : Path) : (m'.entry? p).map Entry.kind = (m.entry? p).map Entry.kind := by
  unfold Machine.entry?
  rw [alike.locate]
  split
  · exact alike.kinds.kind _
  · rfl

theorem Alike.existsAt (p : Path) : m'.existsAt p = m.existsAt p := by
  unfold Machine.existsAt
  rw [← Option.isSome_map, alike.kind, Option.isSome_map]

theorem Alike.isDirectory (p : Path) : m'.isDirectory p = m.isDirectory p := by
  have directory (m : Machine) :
      m.isDirectory p = decide ((m.entry? p).map Entry.kind = some .directory) := by
    unfold Machine.isDirectory
    cases m.entry? p <;> simp [Entry.kind_eq_directory_iff]
  rw [directory, alike.kind, directory]

theorem Alike.isProgram (p : Path) : m'.isProgram p = m.isProgram p := by
  have program (m : Machine) :
      m.isProgram p = decide ((m.entry? p).map Entry.kind = some .program) := by
    unfold Machine.isProgram
    cases m.entry? p <;> simp [Entry.kind_eq_program_iff]
  rw [program, alike.kind, program]

theorem Alike.isFile (p : Path) : m'.isFile p = m.isFile p := by
  have file (m : Machine) : m.isFile p =
      ((m.entry? p).map Entry.kind).any fun kind => kind = .file || kind = .program := by
    unfold Machine.isFile
    rcases m.entry? p with _ | _ | _ | _ <;> rfl
  rw [file, alike.kind, file]

theorem Alike.environmentValue? (name : String) :
    m'.environmentValue? name = m.environmentValue? name := by
  rw [Machine.environmentValue?, alike.environment, Machine.environmentValue?]

theorem Alike.home? : m'.home? = m.home? := by
  simp only [Machine.home?, alike.environmentValue?]

theorem Alike.searchDirectories : m'.searchDirectories = m.searchDirectories := by
  simp only [Machine.searchDirectories, alike.environmentValue?]

theorem Alike.findProgram (name : String) : m'.findProgram name = m.findProgram name := by
  have programs : m'.isProgram = m.isProgram := funext alike.isProgram
  simp only [Machine.findProgram, Machine.expandHome, alike.searchDirectories, alike.home?, programs]

theorem Alike.currentDirectory : m'.currentDirectory = m.currentDirectory := by
  simp only [Machine.currentDirectory, Machine.currentDirectory?, alike.workingDirectory]

theorem Alike.absolute (p : Path) : m'.absolute p = m.absolute p := by
  simp only [Machine.absolute, alike.currentDirectory]

/-! ### Going elsewhere -/

/-- They cannot go to a directory for the same reason, or they go to the same place. -/
theorem Alike.changeDirectory (dir : Path) :
    (∃ e, m.changeDirectory dir = .error e ∧ m'.changeDirectory dir = .error e) ∨
      ∃ place, m.changeDirectory dir = .ok { m with workingDirectory := some place } ∧
        m'.changeDirectory dir = .ok { m' with workingDirectory := some place } := by
  cases located : m.locate dir with
  | error e =>
    have lost' : m'.locate dir = .error e := by rw [alike.locate]; exact located
    exact Or.inl ⟨e, changeDirectory_of_locate_error located, changeDirectory_of_locate_error lost'⟩
  | ok place =>
    have located' : m'.locate dir = .ok place := by rw [alike.locate]; exact located
    rw [changeDirectory_of_locate located, changeDirectory_of_locate located']
    simp only [enter, alike.kinds.directory_iff, alike.kinds.locked]
    split
    · split
      · exact Or.inl ⟨.denied, rfl, rfl⟩
      · exact Or.inr ⟨place, rfl, rfl⟩
    · exact Or.inl ⟨.notDirectory, rfl, rfl⟩

theorem Alike.directoryOf (c : Command) : m'.directoryOf c = m.directoryOf c := by
  unfold Machine.directoryOf
  cases c.directory with
  | none => rw [alike.workingDirectory]
  | some dir =>
    rcases alike.changeDirectory dir with ⟨e, refused, refused'⟩ | ⟨place, gone, gone'⟩
    · simp [refused, refused', Except.map]
    · simp [gone, gone', Except.map]

theorem Alike.enters {folder : Option Path} {allowed : Bool} {start place : Location}
    (enters : m.Enters folder allowed start place) : m'.Enters folder allowed start place := by
  obtain ⟨allowed, known, dir, folder, entered⟩ := enters
  refine ⟨allowed, alike.workingDirectory.trans known, dir, folder, ?_⟩
  rcases alike.changeDirectory dir with ⟨e, refused, -⟩ | ⟨other, gone, gone'⟩
  · simp [refused] at entered
  · obtain rfl : other = place := by simpa [gone] using entered
    exact gone'

theorem Alike.goBack (previous : Path) : ∃ dir,
    m.goBack previous = { m with workingDirectory := dir } ∧
      m'.goBack previous = { m' with workingDirectory := dir } := by
  unfold Machine.goBack
  rcases alike.changeDirectory previous with ⟨e, refused, refused'⟩ | ⟨place, gone, gone'⟩
  · rw [refused, refused']
    refine ⟨m.workingDirectory, rfl, ?_⟩
    simp only [← alike.workingDirectory]
  · rw [gone, gone']
    exact ⟨some place, rfl, rfl⟩

/-! ### Programs -/

theorem Alike.checkProgram (p : Path) : m'.checkProgram p = m.checkProgram p := by
  have check (m : Machine) : m.checkProgram p = m.locate p >>= fun _ =>
      if m.isProgram p then .ok () else .error .denied := by
    unfold Machine.checkProgram Machine.isProgram Machine.entry?
    cases m.locate p with
    | error e => rfl
    | ok place =>
      simp only [bind, Except.bind]
      split
      · rename_i program
        rw [if_pos (decide_eq_true program)]
        rfl
      · rename_i other
        rw [if_neg (by simpa using other)]
        rfl
  rw [check, alike.locate, alike.isProgram, check]

theorem Alike.checkSearched (name : String) (dirs : List Path) (reason : SystemError) :
    m'.checkSearched name dirs reason = m.checkSearched name dirs reason := by
  induction dirs generalizing reason with
  | nil => rfl
  | cons dir rest ih =>
    simp only [Machine.checkSearched, alike.checkProgram, ih]

theorem Alike.checkCommand (program : Path) : m'.checkCommand program = m.checkCommand program := by
  unfold Machine.checkCommand
  simp only [alike.checkProgram, alike.checkSearched, alike.environmentValue?, alike.searchDirectories]

theorem Alike.start (c : Command) (input : Option String) : m'.start c input = m.start c input := by
  unfold Machine.start
  rw [alike.directoryOf]
  cases m.directoryOf c with
  | error e => rfl
  | ok directory =>
    have checked := (alike.standing directory).checkCommand c.program
    simp only [bind, Except.bind]
    rw [checked, alike.environment]

theorem Alike.run (c : Command) (input : Option String) (limit : Option Nat) :
    m'.run c input limit = m.run c input limit := by
  unfold Machine.run
  rw [alike.start, alike.respond]

end Same

/-! ### Writing -/

def withText (m : Machine) (place : Location) (text : String) : Machine :=
  { m with files := m.files.put place (.file (.text text)) }

variable {m : Machine} {p : Path} {place : Location} {old text : String}

theorem writeText_of_readText (located : m.locate p = .ok place)
    (entry : m.files.entry? place = some (.file (.text old))) (text : String) :
    m.writeText p text = .ok (m.withText place text) := by
  simp [writeText, located, entry, withText]

theorem entry?_withText (entry : m.files.entry? place = some (.file (.text old))) (text : String)
    (other : Location) : FileSystem.entry? (m.withText place text).files other =
      if other = place then some (.file (.text text)) else m.files.entry? other := by
  have below : place ≠ [] := by
    rintro rfl
    simp at entry
  exact m.files.entry?_put below _ other

theorem alike_withText (entry : m.files.entry? place = some (.file (.text old))) (text : String) :
    m.Alike (m.withText place text) := by
  refine ⟨⟨fun other => ?_, rfl⟩, rfl, rfl, rfl⟩
  rw [entry?_withText entry]
  split
  · rename_i here
    rw [here, entry]
    rfl
  · rfl

end Machine
end LintBridge
