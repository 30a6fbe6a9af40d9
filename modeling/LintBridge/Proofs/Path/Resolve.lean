import LintBridge.Proofs.Path.Parent
import Mathlib.Data.List.Induction
/-!
Where resolving leads. Going down by a name adds one component (`components_child`) and going up takes
one off, so a path that is resolved step by step from another, or from a directory above it, is a
beginning of that path with names after it (`NamedFrom.resolve`).
-/
namespace LintBridge.Path
open Text

theorem isIdle_iff {piece : List Char} : isIdle piece = true ↔ piece = [] ∨ piece = ['.'] := by
  simp [isIdle]

/-- The component that pieces of a whole text begin with: a root if the first one is empty and others
follow, a dot if it is one. -/
def leading : List (List Char) → List Component
  | [] :: _ :: _ => [.root]
  | ['.'] :: _ => [.current]
  | _ => []

theorem leading_of_busy {first : List Char} (busy : isIdle first = false)
    (more : List (List Char)) : leading (first :: more) = [] := by
  unfold leading
  split
  · rename_i h
    obtain ⟨rfl, -⟩ := List.cons.inj h
    contradiction
  · rename_i h
    obtain ⟨rfl, -⟩ := List.cons.inj h
    contradiction
  · rfl

theorem leading_cons_cons (first second second' : List Char) (more more' : List (List Char)) :
    leading (first :: second :: more) = leading (first :: second' :: more') := by
  by_cases busy : isIdle first = false
  · rw [leading_of_busy busy, leading_of_busy busy]
  · rcases isIdle_iff.mp (Bool.not_eq_false _ ▸ busy) with rfl | rfl <;> rfl

theorem leading_append {before : List (List Char)} (nonempty : before ≠ [])
    (piece piece' : List Char) : leading (before ++ [piece]) = leading (before ++ [piece']) := by
  cases before with
  | nil => contradiction
  | cons first more => cases more <;> apply leading_cons_cons

theorem leading_append_of_ne {before : List (List Char)} (nonempty : before ≠ [])
    (several : before ≠ [[]]) (piece : List Char) : leading (before ++ [piece]) = leading before := by
  cases before with
  | nil => contradiction
  | cons first more =>
    cases more with
    | nil =>
      by_cases busy : isIdle first = false
      · rw [List.cons_append, leading_of_busy busy, leading_of_busy busy]
      · rcases isIdle_iff.mp (Bool.not_eq_false _ ▸ busy) with rfl | rfl
        · contradiction
        · rfl
    | cons second more => apply leading_cons_cons

theorem parts_cases (p : Path) :
    (∃ rest, p.text.toList = '/' :: rest ∧ p.parts = (.root, Text.pieces '/' rest)) ∨
    (∃ rest, p.text.toList = '.' :: '/' :: rest ∧
      p.parts = (.current, [] :: Text.pieces '/' rest)) ∨
    (p.text.toList = ['.'] ∧ p.parts = (.current, [])) ∨
    p.parts = (.plain, Text.pieces '/' p.text.toList) := by
  unfold parts
  generalize p.text.toList = text
  split
  · exact Or.inl ⟨_, rfl, rfl⟩
  · exact Or.inr (Or.inl ⟨_, rfl, rfl⟩)
  · exact Or.inr (Or.inr (Or.inl ⟨rfl, rfl⟩))
  · exact Or.inr (Or.inr (Or.inr rfl))

theorem components_of_pieces (p : Path) :
    p.components =
      leading (Text.pieces '/' p.text.toList) ++ steps (Text.pieces '/' p.text.toList) := by
  rw [components_eq]
  rcases parts_cases p with ⟨rest, text, parts⟩ | ⟨rest, text, parts⟩ | ⟨text, parts⟩ | parts
  · rw [parts, text, Text.pieces, if_pos rfl]
    cases cut : Text.pieces '/' rest with
    | nil => exact absurd cut (pieces_ne_nil _ _)
    | cons first more => rfl
  · have clean : '/' ∉ ['.'] := by simp
    have dot : Text.pieces '/' ('.' :: '/' :: rest) = ['.'] :: Text.pieces '/' rest :=
      pieces_append clean rest
    rw [parts, text, dot]
    rfl
  · rw [parts, text]
    rfl
  · rw [parts]
    by_cases empty : p.text.toList = []
    · rw [empty]
      rfl
    · have plain := (wellCut_parts empty).plain
      rw [parts] at plain
      cases cut : Text.pieces '/' p.text.toList with
      | nil => exact absurd cut (pieces_ne_nil _ _)
      | cons first more =>
        rw [leading_of_busy (plain rfl first (by simp [cut]))]
        rfl

structure IsName (name : String) : Prop where
  noSlash : '/' ∉ name.toList
  busy : isIdle name.toList = false
  noParent : name.toList ≠ ['.', '.']

theorem isName_iff {name : String} : IsName name ↔
    '/' ∉ name.toList ∧ isIdle name.toList = false ∧ name.toList ≠ ['.', '.'] :=
  ⟨fun h => ⟨h.noSlash, h.busy, h.noParent⟩, fun ⟨clean, busy, other⟩ => ⟨clean, busy, other⟩⟩

instance (name : String) : Decidable (IsName name) := decidable_of_iff' _ isName_iff

theorem IsName.steps {name : String} (is_name : IsName name) :
    Path.steps [name.toList] = [.name name] := by
  simp [Path.steps, is_name.busy, Path.step, is_name.noParent]

theorem isName_of_mem_steps {pieces : List (List Char)} (clean : ∀ piece ∈ pieces, '/' ∉ piece)
    {name : String} (member : .name name ∈ Path.steps pieces) : IsName name := by
  obtain ⟨piece, kept, eq⟩ := List.mem_map.mp member
  obtain ⟨cut, busy⟩ := List.mem_filter.mp kept
  unfold Path.step at eq
  split at eq
  · contradiction
  · rename_i no_parent
    obtain rfl := Component.name.inj eq
    refine ⟨?_, ?_, ?_⟩ <;> rw [String.toList_ofList]
    · exact clean piece cut
    · simpa using busy
    · exact no_parent

theorem isName_of_mem_components {p : Path} {name : String} (member : .name name ∈ p.components) :
    IsName name := by
  rw [components_of_pieces] at member
  rcases List.mem_append.mp member with leads | stepped
  · unfold leading at leads
    split at leads <;> simp at leads
  · exact isName_of_mem_steps (fun _ => not_mem_of_mem_pieces) stepped

theorem mem_text_of_mem_name {p : Path} {name : String} (listed : .name name ∈ p.components) {c : Char}
    (inside : c ∈ name.toList) : c ∈ p.text.toList := by
  have piece : name.toList ∈ Text.pieces '/' p.text.toList := by
    rw [components_of_pieces] at listed
    rcases List.mem_append.mp listed with leads | stepped
    · unfold leading at leads
      split at leads <;> simp at leads
    · obtain ⟨piece, kept, eq⟩ := List.mem_map.mp stepped
      unfold step at eq
      split at eq
      · contradiction
      · obtain rfl := Component.name.inj eq
        rw [String.toList_ofList]
        exact (List.mem_filter.mp kept).1
  have other : c ≠ '/' := by
    rintro rfl
    exact not_mem_of_mem_pieces piece inside
  rw [← join_pieces '/' p.text.toList, mem_join_iff other]
  exact ⟨name.toList, piece, inside⟩

theorem root_not_mem_steps (pieces : List (List Char)) : .root ∉ steps pieces := by
  intro member
  obtain ⟨piece, -, eq⟩ := List.mem_map.mp member
  exact step_ne_root piece eq

theorem root_not_mem_components {p : Path} (relative : p.isAbsolute = false) :
    .root ∉ p.components := by
  rw [components_eq]
  rcases parts_cases p with ⟨rest, text, parts⟩ | ⟨rest, text, parts⟩ | ⟨text, parts⟩ | parts
  · simp [isAbsolute, text] at relative
  all_goals simp [parts, Start.components, root_not_mem_steps]

theorem text_of_isAbsolute {p : Path} (absolute : p.isAbsolute = true) :
    ∃ rest, p.text.toList = '/' :: rest := by
  cases text : p.text.toList with
  | nil => simp [isAbsolute, text] at absolute
  | cons c rest =>
    obtain rfl : c = '/' := by simpa [isAbsolute, text] using absolute
    exact ⟨rest, rfl⟩

theorem components_of_isAbsolute {p : Path} (absolute : p.isAbsolute = true) :
    ∃ pieces, p.components = .root :: steps pieces := by
  obtain ⟨rest, text⟩ := text_of_isAbsolute absolute
  exact ⟨Text.pieces '/' rest, by rw [components_eq, parts, text]; rfl⟩

theorem isAbsolute_iff {p : Path} : p.isAbsolute = true ↔ .root ∈ p.components := by
  constructor
  · intro absolute
    obtain ⟨pieces, components⟩ := components_of_isAbsolute absolute
    rw [components]
    exact List.mem_cons_self
  · intro member
    by_contra relative
    exact root_not_mem_components (by simpa using relative) member

theorem text_join {dir p : Path} (relative : p.isAbsolute = false) :
    (dir.join p).text.toList =
      if dir.text.toList = [] ∨ dir.text.toList.getLast? = some '/' then
        dir.text.toList ++ p.text.toList
      else dir.text.toList ++ '/' :: p.text.toList := by
  unfold join
  rw [relative, if_neg Bool.false_ne_true]
  by_cases glued : dir.text.toList = [] ∨ dir.text.toList.getLast? = some '/'
  · rw [if_pos glued, if_pos (by simpa [String.isEmpty_iff] using glued)]
    simp
  · rw [if_neg glued, if_neg (by simpa [String.isEmpty_iff] using glued)]
    simp

theorem isAbsolute_join {dir : Path} (absolute : dir.isAbsolute = true) (p : Path) :
    (dir.join p).isAbsolute = true := by
  obtain ⟨rest, text⟩ := text_of_isAbsolute absolute
  cases relative : p.isAbsolute with
  | true => simp [join, relative]
  | false =>
    rw [isAbsolute, text_join relative, text]
    split <;> rfl

theorem components_child {dir : Path} {name : String} (is_name : IsName name) :
    (dir.child name).components = dir.components ++ [.name name] := by
  have alone := pieces_of_not_mem is_name.noSlash
  have adds (before : List (List Char)) : steps (before ++ [name.toList]) =
      steps before ++ [.name name] := by
    rw [steps_append, is_name.steps]
  have relative : (Path.mk name).isAbsolute = false := by
    have no_slash := is_name.noSlash
    cases text : name.toList with
    | nil => simp [isAbsolute, text]
    | cons c rest =>
      rw [text, List.mem_cons, not_or] at no_slash
      simp [isAbsolute, text, Ne.symm no_slash.1]
  rw [components_of_pieces, child, text_join relative, components_of_pieces dir]
  by_cases empty : dir.text.toList = []
  · have nothing : leading (Text.pieces '/' []) ++ steps (Text.pieces '/' []) = [] := rfl
    have busy := leading_of_busy is_name.busy []
    rw [if_pos (Or.inl empty), empty, nothing, List.nil_append, alone, busy]
    exact adds []
  by_cases slash : dir.text.toList.getLast? = some '/'
  · obtain ⟨before, cut⟩ := List.getLast?_eq_some_iff.mp slash
    have same := leading_append (pieces_ne_nil '/' before) name.toList []
    have idle : steps (Text.pieces '/' before ++ [[]]) = steps (Text.pieces '/' before) := by
      simp [steps, isIdle]
    rw [if_pos (Or.inr slash), cut, List.append_assoc, List.singleton_append,
      pieces_append_separator, pieces_append_separator, alone, adds, same, Text.pieces, idle]
    simp
  · have several : Text.pieces '/' dir.text.toList ≠ [[]] := by
      intro one
      have joined := join_pieces '/' dir.text.toList
      rw [one] at joined
      exact empty joined.symm
    have same := leading_append_of_ne (pieces_ne_nil '/' dir.text.toList) several name.toList
    rw [if_neg (by simp [empty, slash]), pieces_append_separator, alone, adds, same,
      List.append_assoc]

theorem WellCut.replace_last {start : Start} {above idle : List (List Char)} {last piece : List Char}
    (well : WellCut start (above ++ last :: idle)) (busy : isIdle last = false)
    (clean : '/' ∉ piece) (busy' : isIdle piece = false) : WellCut start (above ++ [piece]) := by
  refine ⟨fun part member => ?_, fun dot => ?_, fun plain => ?_⟩
  · rcases List.mem_append.mp member with member | member
    · exact well.clean part (List.mem_append_left _ member)
    · rwa [List.mem_singleton.mp member]
  · have first := well.current dot
    cases above with
    | nil =>
      obtain rfl : last = [] := by simpa using first
      contradiction
    | cons _ _ => exact Or.inr (by simpa using first)
  · have first := well.plain plain
    cases above with
    | nil => simpa using busy'
    | cons _ _ => simpa using first

theorem splitName_begins (name : String) : (splitName name).1.toList <+: name.toList := by
  have joined := join_pieces '.' name.toList
  unfold splitName
  split
  · exact List.prefix_refl _
  · exact List.prefix_refl _
  · rename_i last cut
    rw [List.reverse_eq_iff.mp cut] at joined
    simp [← joined, Text.join]
  · rename_i last stem several _ cut
    rw [List.reverse_eq_iff.mp cut, List.reverse_cons, join_append] at joined
    · simp [← joined]
    · simpa using several
    · exact List.cons_ne_nil _ _

theorem isName_append {stem extension : String} (clean : '/' ∉ stem.toList)
    (is_name : IsName extension) : IsName (stem ++ "." ++ extension) := by
  have text : (stem ++ "." ++ extension).toList = stem.toList ++ '.' :: extension.toList := by simp
  have busy := is_name.busy
  refine ⟨?_, ?_, ?_⟩ <;> rw [text]
  · simp [clean, is_name.noSlash]
  · cases chars : extension.toList <;> cases stem.toList <;> simp_all [isIdle]
  · intro parent
    cases chars : stem.toList with
    | nil => simp_all [isIdle]
    | cons c rest => cases rest <;> simp_all [isIdle]

theorem components_withExtension {p : Path} {name extension : String}
    (named : p.fileName? = some name) (is_name : IsName extension) :
    ∃ name', (p.withExtension extension).components = p.components.dropLast ++ [.name name'] := by
  have last_name : p.components.getLast? = some (.name name) := by
    unfold fileName? at named
    split at named
    · rename_i text last
      rw [last, Option.some.inj named]
    · contradiction
  have clean := (isName_of_mem_components (List.mem_of_getLast? last_name)).noSlash
  have is_name' : IsName ((splitName name).1 ++ "." ++ extension) :=
    isName_append (fun member => clean ((splitName_begins name).mem member)) is_name
  refine ⟨(splitName name).1 ++ "." ++ extension, ?_⟩
  cases busy : p.parts.2.reverse.dropWhile isIdle with
  | nil =>
    have no_steps := steps_of_dropWhile_isIdle p.parts.2.reverse
    rw [busy, List.reverse_reverse] at no_steps
    rw [components_eq, ← no_steps] at last_name
    cases start : p.parts.1 <;> simp [start, Start.components, steps] at last_name
  | cons last above =>
    obtain ⟨not_idle, all, idle, cut⟩ := steps_of_dropWhile busy
    have nonempty : p.text.toList ≠ [] := by
      intro empty
      have : steps p.parts.2 = [] := by simp [parts, empty, Text.pieces, steps, isIdle]
      simp [this] at all
    have well := wellCut_parts nonempty
    rw [cut] at well
    have made := components_ofParts (well.replace_last not_idle is_name'.noSlash is_name'.busy)
    have extended : p.withExtension extension = ofParts p.parts.1
        (above.reverse ++ [((splitName name).1 ++ "." ++ extension).toList]) := by
      simp only [withExtension, named, busy, List.reverse_cons]
    rw [extended, made, components_eq p, all, steps_append, is_name'.steps, ← List.append_assoc,
      ← List.append_assoc, List.dropLast_concat]

/-- Whether some components are a beginning of those of a path with names after it. -/
def NamedFrom (origin : Path) (components : List Component) : Prop :=
  ∃ (before : List Component) (names : List String), before <+: origin.components ∧
    components = before ++ names.map Component.name

namespace NamedFrom

variable {origin p dir : Path} {components : List Component}

theorem refl (origin : Path) : NamedFrom origin origin.components :=
  ⟨origin.components, [], List.prefix_refl _, by simp⟩

theorem nil (origin : Path) : NamedFrom origin [] := ⟨[], [], List.nil_prefix, rfl⟩

theorem dropLast (named : NamedFrom origin components) : NamedFrom origin components.dropLast := by
  obtain ⟨before, names, beginning, rfl⟩ := named
  cases names using List.reverseRecOn with
  | nil =>
    refine ⟨before.dropLast, [], (List.dropLast_prefix before).trans beginning, ?_⟩
    simp
  | append_singleton names last =>
    refine ⟨before, names, beginning, ?_⟩
    rw [List.map_append, ← List.append_assoc]
    exact List.dropLast_concat

theorem append_name (named : NamedFrom origin components) (name : String) :
    NamedFrom origin (components ++ [.name name]) := by
  obtain ⟨before, names, beginning, rfl⟩ := named
  exact ⟨before, names ++ [name], beginning, by simp⟩

theorem parent? (named : NamedFrom origin p.components) (above : p.parent? = some dir) :
    NamedFrom origin dir.components := by
  rw [components_of_parent? above]
  exact named.dropLast

theorem withExtension (named : NamedFrom origin p.components) {extension : String}
    (is_name : IsName extension) : NamedFrom origin (p.withExtension extension).components := by
  cases found : p.fileName? with
  | none => simpa [Path.withExtension, found] using named
  | some name =>
    obtain ⟨name', components⟩ := components_withExtension found is_name
    rw [components]
    exact named.dropLast.append_name name'

theorem resolve (named : NamedFrom origin dir.components) {name : String}
    (relative : (Path.mk name).isAbsolute = false) :
    NamedFrom origin (Path.mk (dir.resolve name)).components := by
  have no_root := root_not_mem_components relative
  have names (text : String) (member : .name text ∈ (Path.mk name).components) : IsName text :=
    isName_of_mem_components member
  unfold Path.resolve
  rw [if_neg (by simp [relative])]
  refine List.foldlRecOn (motive := fun dir : Path => NamedFrom origin dir.components) _ _ named
    fun dir named c member => ?_
  cases c with
  | root => exact absurd member no_root
  | current => exact named
  | parent =>
    cases above : dir.parent? with
    | none => simpa [above] using named
    | some up => simpa [above] using named.parent? above
  | name text =>
    have below : (dir.child text).components = dir.components ++ [.name text] :=
      components_child (names text member)
    exact below ▸ named.append_name text

end NamedFrom

end LintBridge.Path
