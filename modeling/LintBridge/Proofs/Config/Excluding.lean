import LintBridge.Config.Resolver
import LintBridge.Glob.Match
import LintBridge.Proofs.Config.Chain
import LintBridge.Proofs.Glob.Reading
import LintBridge.Proofs.Path.Location
/-!
What the exclusion patterns of a configuration file leave out. A relative pattern is glued to the path
of the file's directory, and the whole is read as a pattern: it matches what the directory, taken as a
pattern, takes, followed by the name (`excluded_beside_iff`). Only where the directory has no special
characters is this the file of that name next to the configuration, and nothing else.
-/
namespace LintBridge
open LintBridge.Path LintBridge.Glob

theorem isExcluded_singleton {pattern : String} (start : pattern.toList.head? = some '/') (p : Path)
    (dir : Option Path) :
    isExcluded [pattern] p dir = true ↔ TextTakes pattern (bytes p.text.toList) := by
  cases parsed : parse? pattern with
  | none =>
    simp only [isExcluded, compilePatterns, List.filterMap_cons, parsed, List.filterMap_nil, List.any_nil,
      Bool.and_false, Bool.or_false, TextTakes]
    split <;> simp
  | some tokens =>
    have whole (text : String) := isMatch_iff_textTakes start parsed text
    have unseen (relative : Path) (found : dir.bind p.relativeTo? = some relative) :
        (!relative.same p && Glob.isMatch tokens relative.text) = false := by
      rw [Bool.and_eq_false_imp]
      intro other
      obtain ⟨dir, -, seen⟩ := Option.bind_eq_some_iff.mp found
      have no_slash := isAbsolute_of_relativeTo? seen (by simpa using other)
      rw [Bool.eq_false_iff, ne_eq, whole]
      intro takes
      simp [isAbsolute, takes.head? start] at no_slash
    simp only [isExcluded, compilePatterns, List.filterMap_cons, parsed, List.filterMap_nil, List.any_cons,
      List.any_nil, Bool.or_false]
    cases found : dir.bind p.relativeTo? with
    | none => simp [whole]
    | some relative => simp [unseen relative found, whole]

namespace Configuration

variable {m : Machine} {dir names : Location}

theorem findSome?_parents {β : Type} {look : Path → Option β} {found : β}
    (is_names : ∀ name ∈ dir ++ names, IsName name) (below : names ≠ []) (here : look dir.path = some found)
    (nearest : ∀ inner, inner ≠ [] → inner <+: names.dropLast → look (dir ++ inner).path = none) :
    (dir ++ names).path.parents.findSome? look = some found := by
  -- From the last name on: what is above it is the directory itself or one in between.
  induction names using List.reverseRecOn with
  | nil => contradiction
  | append_singleton names last ih =>
    rw [← List.append_assoc] at is_names ⊢
    rw [parents_path is_names, List.findSome?_cons]
    rw [List.dropLast_concat] at nearest
    by_cases directly : names = []
    · simp [directly, here]
    · rw [nearest names directly (List.prefix_refl _)]
      refine ih (fun name listed => is_names name (List.mem_append_left _ listed)) directly ?_
      exact fun inner some_inner beginning =>
        nearest inner some_inner (beginning.trans (List.dropLast_prefix _))

theorem load_of_alone {file : Path} {own : Configuration} (read : ofFile m file = .ok own)
    (alone : entries own.bases = []) : load m file = .ok ((ownPart file own).extending blank) := by
  have none_extended : extendedFiles m (directoryOf file) own = [] := by simp [extendedFiles, alone]
  have loaded (fuel : Nat) : loadWithin m (fuel + 1) [] file =
      some (.ok ((ownPart file own).extending blank)) := by
    simp [loadWithin, read, none_extended, loadEach]
  unfold load usualChain
  rw [loaded 63]

theorem excludedPatterns_ownPart (file : Path) (own : Configuration) :
    ((ownPart file own).extending blank).excludedPatterns =
      own.excludedPatterns.map (directoryOf file).resolve := by
  cases options : own.linterOptions with
  | none => simp [excludedPatterns, extending, ownPart, resolvePaths, options, blank]
  | some options' => simp [excludedPatterns, extending, ownPart, resolvePaths, options, blank]

theorem getLast?_folder (dir : Location) : dir.folder.toList.getLast? = some '/' := by
  unfold Location.folder
  split <;> simp

theorem plain_intercalate (plain : ∀ name ∈ names, Plain name.toList) :
    Plain (String.intercalate "/" names).toList := by
  intro c member
  by_cases slash : c = '/'
  · subst slash
    decide
  · rw [toList_intercalate_names, Text.mem_join_iff slash] at member
    obtain ⟨_, part, inside⟩ := member
    obtain ⟨name, listed, rfl⟩ := List.mem_map.mp part
    exact plain name listed c inside

theorem plain_folder (plain : ∀ name ∈ dir, Plain name.toList) : Plain dir.folder.toList := by
  have slash : '/' ∉ specialChars := by decide
  unfold Location.folder
  split
  · intro c member
    obtain rfl : c = '/' := by simpa using member
    exact slash
  · intro c member
    rw [String.toList_append, text_path, ← toList_intercalate_names] at member
    rcases List.mem_append.mp member with inside | last
    · rcases List.mem_cons.mp inside with rfl | below
      · exact slash
      · exact plain_intercalate plain c below
    · obtain rfl : c = '/' := by simpa using last
      exact slash

theorem findFor_beside {own : Configuration} (is_names : ∀ name ∈ dir ++ names, IsName name)
    (below : names ≠ []) (read : ofFile m (dir ++ ["tslint.json"]).path = .ok own)
    (alone : entries own.bases = [])
    (nearest : ∀ inner, inner ≠ [] → inner <+: names.dropLast →
      inDirectory? m (dir ++ inner).path = none) :
    ∃ c, findFor m none (dir ++ names).path = .ok ⟨some c, some (dir ++ ["tslint.json"]).path⟩ ∧
      c.excludedPatterns = own.excludedPatterns.map dir.path.resolve := by
  obtain ⟨content, -, text, -⟩ := ofFile_ok read
  have is_file := Machine.isFile_of_readText text
  have file_names : ∀ name ∈ dir ++ ["tslint.json"], IsName name := by
    have file_name : IsName "tslint.json" := by decide
    have dir_names : ∀ name ∈ dir, IsName name := fun name listed =>
      is_names name (List.mem_append_left _ listed)
    simpa [or_imp, forall_and, file_name] using dir_names
  have here : inDirectory? m dir.path = some (dir ++ ["tslint.json"]).path := by
    simp [inDirectory?, fileNames, child_path file_names, is_file]
  have found : pathFor? m none (dir ++ names).path = some (dir ++ ["tslint.json"]).path := by
    rw [pathFor?, findSome?_parents is_names below here nearest, Option.some_or]
  have directory : directoryOf (dir ++ ["tslint.json"]).path = dir.path := by
    rw [directoryOf, parent?, parents_path file_names]
    rfl
  refine ⟨(ownPart (dir ++ ["tslint.json"]).path own).extending blank, ?_, ?_⟩
  · simp [findFor, found, is_file, load_of_alone read alone, Except.map]
  · rw [excludedPatterns_ownPart, directory]

/-- The path of plain names below a directory leaves out what the directory, taken as a pattern, takes,
followed by the names. -/
theorem isExcluded_path_iff (below : names ≠ []) (plain : ∀ name ∈ names, Plain name.toList) (p : Path)
    (seen_from : Option Path) :
    isExcluded [(dir ++ names).path.text] p seen_from = true ↔
      ∃ taken, TextTakes dir.folder taken ∧
        bytes p.text.toList = taken ++ bytes (String.intercalate "/" names).toList := by
  rw [isExcluded_singleton (by simp [text_path]), path_append below,
    textTakes_append (getLast?_folder dir) (plain_intercalate plain)]

/-- A relative pattern of a configuration leaves out the files that are named as the directory, taken as
a pattern, and then the pattern say. So the file of that name next to the configuration is left out if
the directory takes itself, and it alone if the directory has no special characters. -/
theorem excluded_beside_iff {pattern : String} {own : Configuration}
    (dir_names : ∀ name ∈ dir, IsName name)
    (steps : (Path.mk pattern).components = names.map .name) (below : names ≠ [])
    (literal : Plain pattern.toList)
    (read : ofFile m (dir ++ ["tslint.json"]).path = .ok own)
    (excludes : own.excludedPatterns = [pattern]) (alone : entries own.bases = [])
    (nearest : ∀ inner, inner ≠ [] → inner <+: names.dropLast →
      inDirectory? m (dir ++ inner).path = none) :
    ∃ c, (Discovery.inFiles.find m none (dir ++ names).path).1 =
        .ok ⟨some c, some (dir ++ ["tslint.json"]).path⟩ ∧
      (∀ p : Path, isExcluded c.excludedPatterns p (some dir.path) = true ↔
        ∃ taken, TextTakes dir.folder taken ∧
          bytes p.text.toList = taken ++ bytes (String.intercalate "/" names).toList) ∧
      (isExcluded c.excludedPatterns (dir ++ names).path (some dir.path) = true ↔
        TextTakes dir.folder (bytes dir.folder.toList)) ∧
      ((∀ name ∈ dir, Plain name.toList) → ∀ p,
        isExcluded c.excludedPatterns p (some dir.path) = true ↔ p = (dir ++ names).path) := by
  have listed {name : String} (inside : name ∈ names) : .name name ∈ (Path.mk pattern).components := by
    rw [steps]
    exact List.mem_map_of_mem inside
  have is_names : ∀ name ∈ dir ++ names, IsName name := fun name member =>
    (List.mem_append.mp member).elim (dir_names name) fun inside =>
      isName_of_mem_components (listed inside)
  have plain : ∀ name ∈ names, Plain name.toList := fun name inside c in_name =>
    literal c (mem_text_of_mem_name (listed inside) in_name)
  obtain ⟨c, found, patterns⟩ := findFor_beside is_names below read alone nearest
  rw [excludes, List.map_singleton, resolve_path is_names steps] at patterns
  have excluded (p : Path) (seen_from : Option Path) :=
    @isExcluded_path_iff dir names below plain p seen_from
  refine ⟨c, found, ?_⟩
  rw [patterns]
  refine ⟨fun p => excluded p _, ?_, fun plain_dir p => ?_⟩
  · rw [excluded, path_append below, String.toList_append, bytes_append]
    simp only [List.append_cancel_right_eq, exists_eq_right']
  · simp only [excluded, textTakes_plain (plain_folder plain_dir), exists_eq_left, ← bytes_append,
      bytes_inj, ← String.toList_append, ← path_append below, String.toList_inj]
    exact ⟨congrArg Path.mk, congrArg Path.text⟩

def excluding (dir : String) : Machine where
  files := ⟨[([dir], .directory),
    ([dir, "tslint.json"], .file (.text "\x7b\"linterOptions\": \x7b\"exclude\": [\"a.ts\"]\x7d\x7d"))], []⟩
  workingDirectory := none
  environment := []
  respond _ := .hangs

theorem excluded_beside_iff_plain :
    ∃ c, (Discovery.inFiles.find (excluding "w") none ⟨"/w/a.ts"⟩).1 =
        .ok ⟨some c, some ⟨"/w/tslint.json"⟩⟩ ∧
      ∀ p, isExcluded c.excludedPatterns p (some ⟨"/w"⟩) = true ↔ p = ⟨"/w/a.ts"⟩ := by
  have own_entries : (ofFile (excluding "w") ⟨"/w/tslint.json"⟩).toOption.map
      (fun own => (own.excludedPatterns, entries own.bases)) = some (["a.ts"], []) := by decide +kernel
  obtain ⟨own, read, eq⟩ := Option.map_eq_some_iff.mp own_entries
  obtain ⟨excludes, alone⟩ := Prod.mk.inj eq
  have read_ok : ofFile (excluding "w") ⟨"/w/tslint.json"⟩ = .ok own := by
    cases result : ofFile (excluding "w") ⟨"/w/tslint.json"⟩ with
    | error e => simp [result, Except.toOption] at read
    | ok c => simpa [result, Except.toOption] using read
  have nearest (inner : Location) (some_inner : inner ≠ []) (beginning : inner <+: ["a.ts"].dropLast) :
      inDirectory? (excluding "w") (Location.path ("w" :: inner)) = none :=
    absurd (List.prefix_nil.mp beginning) some_inner
  obtain ⟨c, found, -, -, only⟩ := @excluded_beside_iff (excluding "w") ["w"] ["a.ts"] "a.ts" own
    (by decide) (by decide) (by decide) (by simp [Plain, specialChars]) read_ok excludes alone nearest
  exact ⟨c, found, only (by simp [Plain, specialChars])⟩

def leavesOut? (dir : String) (file : Location) : Option Bool :=
  (Discovery.inFiles.find (excluding dir) none (Location.path [dir, "a.ts"])).1.toOption.bind fun found =>
    found.configuration.map fun c =>
      isExcluded c.excludedPatterns (Location.path (dir :: file)) (some (Location.path [dir]))

/-- Brackets in the name of the directory stand for one byte, and stars for any directories. -/
theorem excluded_beside_special :
    leavesOut? "[w]" ["a.ts"] = some false ∧ leavesOut? "**" ["sub", "a.ts"] = some true := by
  decide +kernel

end Configuration
end LintBridge
