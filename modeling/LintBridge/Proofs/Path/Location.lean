import LintBridge.Machine.FileSystem
import LintBridge.Path.Basic
import LintBridge.Proofs.Path.Resolve
/-!
The paths of places: what they are cut into, what is above them (`parents_path`), and what names lead
to from them (`resolve_path`). Seen from a directory, a path is relative or itself
(`isAbsolute_of_relativeTo?`).
-/
namespace LintBridge
open LintBridge.Path

theorem Path.IsName.relative {name : String} (is_name : IsName name) :
    (Path.mk name).isAbsolute = false := by
  rw [Bool.eq_false_iff]
  intro absolute
  exact is_name.noSlash (List.mem_of_head? (of_decide_eq_true absolute))

section Place

variable {place : Location}

theorem toList_intercalate_names (names : List String) :
    (String.intercalate "/" names).toList = Text.join '/' (names.map String.toList) := by
  rw [String.toList_intercalate, Text.join_eq_intercalate]
  rfl

theorem text_path (place : Location) :
    place.path.text.toList = '/' :: Text.join '/' (place.map String.toList) := by
  rw [Location.path, String.toList_append, toList_intercalate_names]
  rfl

theorem isAbsolute_path (place : Location) : place.path.isAbsolute = true := by
  simp [isAbsolute, text_path]

theorem pieces_join_names (names : ∀ name ∈ place, IsName name) :
    Text.pieces '/' (Text.join '/' (place.map String.toList)) =
      if place = [] then [[]] else place.map String.toList := by
  by_cases root : place = []
  · simp [root, Text.join, Text.pieces]
  · rw [if_neg root, Text.pieces_join (by simpa using root)]
    intro piece member
    obtain ⟨name, listed, rfl⟩ := List.mem_map.mp member
    exact (names name listed).noSlash

theorem pieces_path (names : ∀ name ∈ place, IsName name) :
    Text.pieces '/' place.path.text.toList =
      [] :: if place = [] then [[]] else place.map String.toList := by
  rw [text_path, Text.pieces, if_pos rfl, pieces_join_names names]

theorem parts_path (names : ∀ name ∈ place, IsName name) :
    place.path.parts = (.root, if place = [] then [[]] else place.map String.toList) := by
  rw [← pieces_join_names names, parts, text_path]
  rfl

theorem ofParts_path (place : Location) : ofParts .root (place.map String.toList) = place.path := by
  rw [ofParts, Start.chars, List.singleton_append, ← text_path, String.ofList_toList]

theorem parents_path {name : String} (names : ∀ n ∈ place ++ [name], IsName n) :
    (place ++ [name]).path.parents = place.path :: place.path.parents := by
  have above : ∀ n ∈ place, IsName n := fun n listed => names n (List.mem_append_left _ listed)
  have is_name := names name (by simp)
  have last_busy : (place.map String.toList).reverse.dropWhile isIdle =
      (place.map String.toList).reverse := by
    rcases List.eq_nil_or_concat place with rfl | ⟨before, last, rfl⟩
    · rfl
    · simp [(above last (by simp)).busy]
  have parted := parts_path names
  rw [if_neg (by simp), List.map_append] at parted
  have first : (place ++ [name]).path.parents = place.path ::
      (shortened (place.map String.toList).reverse).map fun left => ofParts .root left.reverse := by
    rw [parents_eq, parted]
    simp [shortened, is_name.busy, last_busy, ofParts_path]
  rw [first, parents_eq, parts_path above]
  by_cases root : place = []
  · simp [root, shortened, isIdle]
  · simp [root]

theorem getLast?_text_path (names : ∀ name ∈ place, IsName name) :
    place.path.text.toList.getLast? = some '/' ↔ place = [] := by
  constructor
  · intro slash
    by_contra below
    -- A slash at the end would leave an empty last piece.
    obtain ⟨before, cut⟩ := List.getLast?_eq_some_iff.mp slash
    obtain ⟨above, name, rfl⟩ := (List.eq_nil_or_concat place).resolve_left below
    have last_piece := congrArg List.getLast? (pieces_path names)
    rw [cut, Text.pieces_append_separator, if_neg below] at last_piece
    have nothing : name = "" := by simpa [Text.pieces, List.getLast?_cons] using last_piece.symm
    have busy := (names name (by simp)).busy
    simp [nothing, isIdle] at busy
  · rintro rfl
    rfl

def Location.folder (place : Location) : String :=
  if place = [] then "/" else place.path.text ++ "/"

theorem path_append {names : Location} (below : names ≠ []) :
    (place ++ names).path.text = place.folder ++ String.intercalate "/" names := by
  rw [← String.toList_inj, text_path, String.toList_append, toList_intercalate_names, List.map_append,
    Location.folder]
  by_cases root : place = []
  · simp [root]
  · rw [if_neg root, String.toList_append, text_path,
      Text.join_append '/' (by simpa using root) (by simpa using below)]
    simp

theorem child_path {name : String} (names : ∀ n ∈ place ++ [name], IsName n) :
    place.path.child name = (place ++ [name]).path := by
  have relative : (Path.mk name).isAbsolute = false := (names name (by simp)).relative
  have last := getLast?_text_path fun n listed => names n (List.mem_append_left [name] listed)
  have some_text : place.path.text.isEmpty = false := by simp [Location.path]
  have text : (place.path.child name).text = (place ++ [name]).path.text := by
    rw [path_append (List.cons_ne_nil name []), child, join, relative, some_text, Location.folder,
      if_neg Bool.false_ne_true, Bool.false_or]
    by_cases root : place = []
    · rw [if_pos (decide_eq_true (last.mpr root)), if_pos root, root]
      simp [Location.path]
    · rw [if_neg (by simpa using mt last.mp root), if_neg root]
      simp
  exact congrArg Path.mk text

theorem foldl_child_path {names : Location} (is_names : ∀ name ∈ place ++ names, IsName name) :
    names.foldl child place.path = (place ++ names).path := by
  induction names generalizing place with
  | nil => simp
  | cons name rest ih =>
    have below : place ++ name :: rest = place ++ [name] ++ rest := by simp
    rw [below] at is_names ⊢
    rw [List.foldl_cons, child_path fun n listed => is_names n (List.mem_append_left _ listed)]
    exact ih is_names

theorem resolve_path {names : Location} (is_names : ∀ name ∈ place ++ names, IsName name) {p : String}
    (steps : (Path.mk p).components = names.map .name) :
    place.path.resolve p = (place ++ names).path.text := by
  have relative : (Path.mk p).isAbsolute = false := by
    rw [Bool.eq_false_iff, ne_eq, isAbsolute_iff, steps]
    simp
  unfold resolve
  rw [if_neg (by simp [relative]), steps, List.foldl_map, ← foldl_child_path is_names]
  rfl

end Place

namespace Path

/-! ### Paths as seen from a directory -/

theorem mem_of_afterParting {file base steps : List Component}
    (found : afterParting file base = some steps) :
    ∀ c ∈ steps, c = .parent ∨ c ∈ file := by
  have of_up {base : List Component} {c : Component} (member : c ∈ up base) : c = .parent := by
    obtain ⟨_, -, rfl⟩ := List.mem_map.mp member
    rfl
  induction base generalizing file steps with
  | nil =>
    obtain rfl : file = steps := by cases file <;> exact Option.some.inj found
    exact fun c member => Or.inr member
  | cons b base ih =>
    cases file with
    | nil =>
      obtain rfl := Option.some.inj found
      exact fun c member => Or.inl (of_up member)
    | cons a file =>
      cases b with
      | current =>
        obtain ⟨rest, found_rest, rfl⟩ := Option.map_eq_some_iff.mp found
        intro c member
        rcases List.mem_cons.mp member with rfl | later
        · exact Or.inr List.mem_cons_self
        · exact (ih found_rest c later).imp_right (List.mem_cons_of_mem _)
      | parent => contradiction
      | _ =>
        obtain rfl := Option.some.inj found
        intro c member
        exact (List.mem_append.mp member).imp_left of_up

theorem mem_of_stepsFrom {file base steps : List Component} (found : stepsFrom file base = some steps) :
    ∀ c ∈ steps, c = .parent ∨ c ∈ file := by
  fun_induction stepsFrom file base with
  | case1 a file base ih =>
    exact fun c member => (ih found c member).imp_right (List.mem_cons_of_mem _)
  | case2 => exact mem_of_afterParting found
  | case3 => exact mem_of_afterParting found

theorem isAbsolute_foldl_child {steps : List Component}
    (relative : ∀ c ∈ steps, (Path.mk c.text).isAbsolute = false) {p : Path}
    (start : p.isAbsolute = false) :
    (steps.foldl (fun path c => path.child c.text) p).isAbsolute = false := by
  induction steps generalizing p with
  | nil => exact start
  | cons c steps ih =>
    apply ih fun d member => relative d (List.mem_cons_of_mem _ member)
    have step := relative c List.mem_cons_self
    change (p.child c.text).isAbsolute = false
    rw [child, isAbsolute, text_join step]
    cases text : p.text.toList with
    | nil => simpa [isAbsolute] using step
    | cons d rest =>
      have other : d ≠ '/' := by simpa [isAbsolute, text] using start
      split <;> simp [other]

theorem isAbsolute_of_relativeTo? {file base relative : Path}
    (seen : file.relativeTo? base = some relative) (other : relative.same file = false) :
    relative.isAbsolute = false := by
  unfold relativeTo? at seen
  split at seen
  · rename_i both
    obtain ⟨steps, found, rfl⟩ := Option.map_eq_some_iff.mp seen
    apply isAbsolute_foldl_child _ rfl
    have no_root : .root ∉ steps := by
      cases absolute : file.isAbsolute with
      | true =>
        obtain ⟨pieces, file_components⟩ := components_of_isAbsolute absolute
        obtain ⟨pieces', base_components⟩ := components_of_isAbsolute (both.symm.trans absolute)
        rw [file_components, base_components, stepsFrom, if_pos rfl] at found
        intro member
        exact (mem_of_stepsFrom found _ member).elim (by simp) (root_not_mem_steps pieces)
      | false =>
        intro member
        exact (mem_of_stepsFrom found _ member).elim (by simp) (root_not_mem_components absolute)
    intro c member
    cases c with
    | root => exact absurd member no_root
    | current => decide
    | parent => decide
    | name text =>
      have listed := (mem_of_stepsFrom found _ member).resolve_left (by simp)
      exact (isName_of_mem_components listed).relative
  · split at seen
    · obtain rfl := Option.some.inj seen
      rw [same_refl] at other
      contradiction
    · contradiction

end Path
end LintBridge
