import LintBridge.Machine.Basic
import LintBridge.Proofs.Path.Resolve
import LintBridge.Proofs.Text.Pieces
/-!
Where paths lead. The place that is found by walking a path is where its components move to
(`FileSystem.locate_ok`), and a file that is read is among the entries (`Machine.readText_ok`). A
relative path leads from a directory to where its join with the path of the directory leads
(`locate_join`).
-/
namespace LintBridge
open LintBridge.Path

def Path.Component.move (place : Location) : Component → Location
  | name text => place ++ [text]
  | parent => place.dropLast
  | _ => place

theorem Path.move_names (place : Location) (names : List String) :
    (names.map Component.name).foldl Component.move place = place ++ names := by
  induction names generalizing place with
  | nil => simp
  | cons name names ih => simp [ih, Component.move]

theorem Path.move_leading (place : Location) (pieces : List (List Char)) :
    (leading pieces).foldl Component.move place = place := by
  unfold leading
  split <;> rfl

namespace FileSystem

theorem walk_ok {fs : FileSystem} {place found : Location} {pieces : List (List Char)}
    (walked : fs.walk place pieces = .ok found) :
    found = (steps pieces).foldl Component.move place := by
  induction pieces generalizing place with
  | nil => exact (Except.ok.inj walked).symm
  | cons piece rest ih =>
    unfold walk at walked
    split at walked
    · contradiction
    · split at walked
      · contradiction
      · split at walked
        · rename_i idle
          rw [ih walked, steps_cons_of_idle idle]
        · rename_i busy
          rw [steps_cons_of_busy (by simpa using busy), List.foldl_cons]
          split at walked
          · rename_i parent
            rw [ih walked, step, if_pos parent]
            rfl
          · rename_i no_parent
            simp only at walked
            split at walked
            · rw [ih walked, step, if_neg no_parent]
              rfl
            · contradiction
    · contradiction

theorem walk_append (fs : FileSystem) (place : Location) (pieces more : List (List Char)) :
    fs.walk place (pieces ++ more) =
      (fs.walk place pieces).bind fun reached => fs.walk reached more := by
  induction pieces generalizing place with
  | nil => rfl
  | cons piece rest ih =>
    rw [List.cons_append, walk, walk]
    split
    · rfl
    · split
      · rfl
      · split
        · exact ih place
        · split
          · exact ih place.dropLast
          · simp only
            split
            · exact ih _
            · rfl
    · rfl

theorem walk_blank {fs : FileSystem} {place reached : Location}
    (walked : fs.walk place [[]] = .ok reached) : place = reached := by
  rw [walk_ok walked]
  rfl

theorem locate_of_isAbsolute {p : Path} (absolute : p.isAbsolute = true) (fs : FileSystem)
    (workingDirectory : Option Location) :
    fs.locate workingDirectory p = fs.walk [] (Text.pieces '/' p.text.toList) := by
  have named : p.text.isEmpty = false := by
    rw [Bool.eq_false_iff, ne_eq, String.isEmpty_iff]
    intro empty
    simp [isAbsolute, empty] at absolute
  rw [locate.eq_def, if_neg (by simp [named]), if_pos absolute]

/-- A relative path leads from a place to where its join with a path of the place leads. -/
theorem locate_join {fs : FileSystem} {place : Location} {dir p : Path} (absolute : dir.isAbsolute = true)
    (relative : p.isAbsolute = false) (named : p.text.isEmpty = false)
    {workingDirectory : Option Location} (located : fs.locate workingDirectory dir = .ok place) :
    fs.locate workingDirectory (dir.join p) = fs.locate (some place) p := by
  have onwards : fs.locate (some place) p = fs.walk place (Text.pieces '/' p.text.toList) := by
    rw [locate.eq_def, if_neg (by simp [named]), if_neg (by simp [relative])]
  obtain ⟨rest, text⟩ := text_of_isAbsolute absolute
  rw [locate_of_isAbsolute absolute] at located
  rw [locate_of_isAbsolute (isAbsolute_join absolute p), onwards, join, if_neg (by simp [relative])]
  have nonempty : dir.text.isEmpty = false := by
    rw [Bool.eq_false_iff, ne_eq, String.isEmpty_iff]
    intro empty
    simp [empty] at text
  by_cases ends : dir.text.toList.getLast? = some '/'
  · obtain ⟨front, split_off⟩ := List.getLast?_eq_some_iff.mp ends
    rw [if_pos (by simp [ends]), String.toList_append, split_off, List.append_assoc,
      List.singleton_append, Text.pieces_append_separator, walk_append]
    rw [split_off, Text.pieces_append_separator, walk_append] at located
    cases reached : fs.walk [] (Text.pieces '/' front) with
    | error e => simp [reached, Except.bind] at located
    | ok reached_place =>
      rw [reached] at located
      obtain rfl := walk_blank located
      rfl
  · rw [if_neg (by simp [nonempty, ends]), String.toList_append, String.toList_append,
      List.append_assoc]
    have slash : "/".toList ++ p.text.toList = '/' :: p.text.toList := rfl
    rw [slash, Text.pieces_append_separator, walk_append, located]
    rfl

theorem locate_ok {fs : FileSystem} {workingDirectory : Option Location} {p : Path} {found : Location}
    (located : fs.locate workingDirectory p = .ok found) :
    ∃ start, found = p.components.foldl Component.move start := by
  have walked_from {start : Location}
      (walked : fs.walk start (Text.pieces '/' p.text.toList) = .ok found) :
      ∃ start, found = p.components.foldl Component.move start := by
    refine ⟨start, ?_⟩
    rw [components_of_pieces, List.foldl_append, move_leading]
    exact walk_ok walked
  unfold locate at located
  split at located
  · contradiction
  · split at located
    · exact walked_from located
    · split at located
      · contradiction
      · exact walked_from located

end FileSystem

namespace Machine

variable {m : Machine} {p : Path} {place : Location}

theorem locate_standing (absolute : p.isAbsolute = true) (dir : Option Location) :
    Machine.locate { m with workingDirectory := dir } p = m.locate p := by
  simp only [locate, FileSystem.locate_of_isAbsolute absolute]

theorem readText_eq_ok_iff {text : String} : m.readText p = .ok text ↔
    ∃ place, m.locate p = .ok place ∧ m.files.entry? place = some (.file (.text text)) := by
  unfold readText
  cases m.locate p with
  | error e => simp [bind, Except.bind]
  | ok place =>
    simp only [bind, Except.bind, Except.ok.injEq, exists_eq_left']
    generalize m.files.entry? place = entry
    rcases entry with _ | _ | (_ | _) | _ <;>
      simp [pure, Except.pure, throw, throwThe, MonadExceptOf.throw]

theorem readText_ok {content : String} (read : m.readText p = .ok content) :
    ∃ place, m.locate p = .ok place ∧ (place, .file (.text content)) ∈ m.files.entries := by
  obtain ⟨place, located, entry⟩ := readText_eq_ok_iff.mp read
  refine ⟨place, located, ?_⟩
  unfold FileSystem.entry? at entry
  split at entry
  · simp at entry
  · obtain ⟨before, after, eq, -⟩ := List.lookup_eq_some_iff.mp entry
    simp [eq]

theorem isFile_of_readText {content : String} (read : m.readText p = .ok content) :
    m.isFile p = true := by
  obtain ⟨place, located, entry⟩ := readText_eq_ok_iff.mp read
  simp [isFile, Machine.entry?, located, entry]

theorem changeDirectory_of_locate (located : m.locate p = .ok place) :
    m.changeDirectory p = m.enter place := by
  simp [changeDirectory, located, bind, Except.bind]

theorem changeDirectory_of_locate_error {e : SystemError} (lost : m.locate p = .error e) :
    m.changeDirectory p = .error e := by
  simp [changeDirectory, lost, bind, Except.bind]

theorem enter_eq_ok_iff {moved : Machine} : m.enter place = .ok moved ↔
    m.files.entry? place = some .directory ∧ place ∉ m.files.locked ∧
      moved = { m with workingDirectory := some place } := by
  unfold enter
  by_cases there : m.files.entry? place = some .directory
  · by_cases shut : place ∈ m.files.locked <;> simp [there, shut, eq_comm]
  · simp [there]

theorem changeDirectory_eq_ok {moved : Machine} {dir : Path}
    (changed : m.changeDirectory dir = .ok moved) :
    ∃ place, m.locate dir = .ok place ∧ m.files.entry? place = some .directory ∧
      place ∉ m.files.locked ∧ moved = { m with workingDirectory := some place } := by
  cases located : m.locate dir with
  | error e =>
    rw [changeDirectory_of_locate_error located] at changed
    contradiction
  | ok place =>
    rw [changeDirectory_of_locate located] at changed
    exact ⟨place, rfl, enter_eq_ok_iff.mp changed⟩

end Machine
end LintBridge
