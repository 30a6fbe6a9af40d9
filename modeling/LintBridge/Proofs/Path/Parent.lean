import LintBridge.Path.Basic
import LintBridge.Proofs.Text.Pieces
/-!
The components of parents. The directory above a path has the components of the path without the last
one (`components_of_parent?`), so paths that are the same have the same directory above them.
-/
namespace LintBridge.Path
open Text

theorem same_iff {p q : Path} : p.same q = true ↔ p.components = q.components := by
  simp [same]

theorem same_refl (p : Path) : p.same p = true := same_iff.mpr rfl

theorem same_symm {p q : Path} (same : p.same q = true) : q.same p = true :=
  same_iff.mpr (same_iff.mp same).symm

theorem same_trans {p q r : Path} (first : p.same q = true) (second : q.same r = true) :
    p.same r = true :=
  same_iff.mpr ((same_iff.mp first).trans (same_iff.mp second))

def Start.components : Start → List Component
  | root => [.root]
  | current => [.current]
  | plain => []

def steps (pieces : List (List Char)) : List Component := (pieces.filter (!isIdle ·)).map step

theorem step_ne_root (piece : List Char) : step piece ≠ .root := by
  unfold step
  split <;> simp

theorem components_eq (p : Path) : p.components = p.parts.1.components ++ steps p.parts.2 := by
  unfold components
  cases p.parts with
  | mk start pieces => cases start <;> rfl

/-- What pieces after a start look like: after a dot the first one is empty, and a path without root
or dot starts with a piece that is neither empty nor a dot. -/
structure WellCut (start : Start) (pieces : List (List Char)) : Prop where
  clean : ∀ piece ∈ pieces, '/' ∉ piece
  current : start = .current → pieces = [] ∨ pieces.head? = some []
  plain : start = .plain → ∀ first ∈ pieces.head?, isIdle first = false

theorem head_of_pieces {c : Char} {rest : List Char} (other : c ≠ '/') :
    ∃ first more, Text.pieces '/' (c :: rest) = (c :: first) :: more ∧
      rest = Text.join '/' (first :: more) := by
  rw [Text.pieces, if_neg other]
  have joined := join_pieces '/' rest
  cases cut : Text.pieces '/' rest with
  | nil => exact absurd cut (pieces_ne_nil _ _)
  | cons first more => exact ⟨first, more, rfl, by rw [← cut, joined]⟩

theorem wellCut_parts {p : Path} (nonempty : p.text.toList ≠ []) :
    WellCut p.parts.1 p.parts.2 := by
  unfold parts
  generalize p.text.toList = text at nonempty
  split
  · exact ⟨fun _ => not_mem_of_mem_pieces, by simp, by simp⟩
  · refine ⟨fun piece member => ?_, by simp, by simp⟩
    rcases List.mem_cons.mp member with rfl | member
    · simp
    · exact not_mem_of_mem_pieces member
  · exact ⟨by simp, by simp, by simp⟩
  · rename_i no_root no_dot_slash no_dot
    refine ⟨fun _ => not_mem_of_mem_pieces, by simp, fun _ first head => ?_⟩
    cases text with
    | nil => contradiction
    | cons c rest =>
      have other : c ≠ '/' := by
        rintro rfl
        exact no_root rest rfl
      obtain ⟨tail, more, cut, joined⟩ : ∃ first more, _ = (c :: first) :: more ∧ rest = _ :=
        head_of_pieces other
      simp only [cut, List.head?_cons, Option.mem_def, Option.some.injEq] at head
      subst head
      simp only [isIdle, List.isEmpty_cons, Bool.false_or, decide_eq_false_iff_not]
      intro dot
      obtain ⟨rfl, rfl⟩ := List.cons.inj dot
      cases more with
      | nil => exact no_dot (by rw [joined]; rfl)
      | cons second more =>
        exact no_dot_slash (Text.join '/' (second :: more)) (by rw [joined]; rfl)

theorem components_of_empty {p : Path} (empty : p.text.toList = []) : p.components = [] := by
  simp [components, parts, empty, Text.pieces, isIdle]

theorem steps_append (before after : List (List Char)) :
    steps (before ++ after) = steps before ++ steps after := by
  simp [steps]

theorem steps_cons_of_idle {piece : List Char} (idle : isIdle piece = true)
    (rest : List (List Char)) : steps (piece :: rest) = steps rest := by
  simp [steps, idle]

theorem steps_cons_of_busy {piece : List Char} (busy : isIdle piece = false)
    (rest : List (List Char)) : steps (piece :: rest) = step piece :: steps rest := by
  simp [steps, busy]

theorem parts_of_pieces {p : Path} {first : List Char} {more : List (List Char)}
    (cut : Text.pieces '/' p.text.toList = first :: more) (busy : isIdle first = false) :
    p.parts = (.plain, first :: more) := by
  unfold parts
  generalize p.text.toList = text at cut
  split
  · obtain ⟨rfl, -⟩ : [] = first ∧ _ := by simpa [Text.pieces] using cut
    contradiction
  · obtain ⟨rfl, -⟩ : ['.'] = first ∧ _ := by simpa [Text.pieces] using cut
    contradiction
  · obtain ⟨rfl, -⟩ : ['.'] = first ∧ _ := by simpa [Text.pieces] using cut
    contradiction
  · rw [cut]

/-- Well-cut parts are the parts of the path made of them, up to idle pieces. -/
theorem components_ofParts {start : Start} {pieces : List (List Char)}
    (well : WellCut start pieces) :
    (ofParts start pieces).components = start.components ++ steps pieces := by
  have text : (ofParts start pieces).text.toList = start.chars ++ Text.join '/' pieces := by
    simp [ofParts]
  cases pieces with
  | nil =>
    cases start <;>
      simp [components, parts, text, Start.chars, Text.join, Text.pieces, isIdle, steps,
        Start.components]
  | cons first more =>
    have cut := pieces_join (List.cons_ne_nil first more) well.clean
    cases start with
    | root =>
      simp [components, parts, text, Start.chars, cut, steps, Start.components]
    | current =>
      obtain rfl : first = [] := by simpa using well.current rfl
      cases more with
      | nil =>
        simp [components, parts, text, Start.chars, Text.join, isIdle, steps, Start.components]
      | cons second more =>
        have cut' := pieces_join (List.cons_ne_nil second more)
          fun piece member => well.clean piece (List.mem_cons_of_mem _ member)
        simp [components, parts, text, Start.chars, Text.join, cut', steps, Start.components,
          isIdle]
    | plain =>
      have busy := well.plain rfl first rfl
      have same : (ofParts .plain (first :: more)).parts = (.plain, first :: more) :=
        parts_of_pieces (by rw [text]; exact cut) busy
      rw [components_eq, same]

theorem shortened_head? (reversed : List (List Char)) :
    (shortened reversed).head? =
      match reversed.dropWhile isIdle with
      | [] => none
      | _ :: rest => some (rest.dropWhile isIdle) := by
  induction reversed with
  | nil => rfl
  | cons piece rest ih =>
    rw [shortened, List.dropWhile_cons]
    split
    · exact ih
    · rfl

theorem WellCut.beginning {start : Start} {left pieces : List (List Char)}
    (well : WellCut start pieces) (beginning : left <+: pieces) : WellCut start left := by
  obtain ⟨rest, rfl⟩ := beginning
  refine ⟨fun piece member => well.clean piece (List.mem_append_left _ member), ?_, ?_⟩
  · intro dot
    cases left with
    | nil => exact Or.inl rfl
    | cons first more => exact Or.inr (by simpa using well.current dot)
  · intro plain first head
    cases left with
    | nil => contradiction
    | cons _ more => exact well.plain plain first head

theorem steps_of_dropWhile_isIdle (reversed : List (List Char)) :
    steps (reversed.dropWhile isIdle).reverse = steps reversed.reverse := by
  induction reversed with
  | nil => rfl
  | cons piece rest ih =>
    rw [List.dropWhile_cons]
    split
    · rename_i idle
      rw [ih, List.reverse_cons, steps_append]
      simp [steps, idle]
    · rfl

/-- The last step of pieces is their last one that is not idle. -/
theorem steps_of_dropWhile {pieces above : List (List Char)} {last : List Char}
    (busy : pieces.reverse.dropWhile isIdle = last :: above) :
    isIdle last = false ∧ steps pieces = steps above.reverse ++ [step last] ∧
      ∃ idle, pieces = above.reverse ++ last :: idle := by
  have not_idle : isIdle last = false := by
    have := List.head?_dropWhile_not isIdle pieces.reverse
    simpa [busy] using this
  have all := steps_of_dropWhile_isIdle pieces.reverse
  rw [busy, List.reverse_reverse, List.reverse_cons, steps_append] at all
  obtain ⟨idle, cut⟩ := List.dropWhile_suffix isIdle (l := pieces.reverse)
  refine ⟨not_idle, ?_, idle.reverse, ?_⟩
  · rw [← all]
    simp [steps, not_idle]
  · rw [busy] at cut
    rw [← List.reverse_reverse pieces, ← cut]
    simp

theorem parents_eq (p : Path) :
    p.parents = ((shortened p.parts.2.reverse).map fun left : List (List Char) =>
      ofParts p.parts.1 left.reverse) ++ if p.parts.1 = .current then [(⟨""⟩ : Path)] else [] := by
  unfold parents
  cases p.parts with
  | mk start pieces => by_cases dot : start = .current <;> simp [dot]

/-- Nothing stands above the empty path and the root, and the empty path above a dot. Otherwise the
parent is what stands before the last piece that is a step, without idle pieces at its end. -/
theorem parent?_cases (p : Path) :
    (steps p.parts.2 = [] ∧
      p.parent? = if p.parts.1 = .current then some ⟨""⟩ else none) ∨
    ∃ left last, left <+: p.parts.2 ∧ steps p.parts.2 = steps left ++ [step last] ∧
      p.parent? = some (ofParts p.parts.1 left) := by
  have parent : p.parent? = _ := congrArg List.head? (parents_eq p)
  have first := shortened_head? p.parts.2.reverse
  cases busy : p.parts.2.reverse.dropWhile isIdle with
  | nil =>
    have none := steps_of_dropWhile_isIdle p.parts.2.reverse
    rw [busy, List.reverse_reverse] at none
    rw [busy] at first
    rw [List.head?_eq_none_iff.mp first] at parent
    refine Or.inl ⟨none.symm, parent.trans ?_⟩
    split <;> rfl
  | cons last above =>
    obtain ⟨-, all, idle, cut⟩ := steps_of_dropWhile busy
    rw [busy] at first
    obtain ⟨more, found⟩ := List.head?_eq_some_iff.mp first
    rw [found] at parent
    refine Or.inr ⟨(above.dropWhile isIdle).reverse, last, ?_, ?_, parent⟩
    · have beginning := List.reverse_prefix.mpr (List.dropWhile_suffix isIdle (l := above))
      exact beginning.trans (cut ▸ List.prefix_append _ _)
    · rw [all, steps_of_dropWhile_isIdle]

theorem components_of_parent? {p dir : Path} (above : p.parent? = some dir) :
    dir.components = p.components.dropLast := by
  rw [components_eq p]
  rcases parent?_cases p with ⟨none, parent⟩ | ⟨left, last, beginning, all, parent⟩
  · rw [above] at parent
    split at parent
    · rename_i dot
      obtain rfl := Option.some.inj parent
      rw [none, dot]
      exact components_of_empty rfl
    · contradiction
  · obtain rfl := Option.some.inj (above.symm.trans parent)
    have nonempty : p.text.toList ≠ [] := by
      intro empty
      have : steps p.parts.2 = [] := by simp [parts, empty, Text.pieces, steps, isIdle]
      simp [this] at all
    rw [components_ofParts ((wellCut_parts nonempty).beginning beginning), all,
      ← List.append_assoc, List.dropLast_concat]

theorem parent?_eq_none_iff {p : Path} :
    p.parent? = none ↔ p.components = [] ∨ p.components = [.root] := by
  rw [components_eq p]
  rcases parent?_cases p with ⟨none, parent⟩ | ⟨left, last, beginning, all, parent⟩
  · rw [parent, none]
    cases p.parts.1 <;> simp [Start.components]
  · have no_root : steps left ++ [step last] ≠ [.root] := by
      intro alone
      have := congrArg List.getLast? alone
      simp [step_ne_root] at this
    rw [parent, all]
    cases p.parts.1 <;> simp [Start.components, no_root]

theorem same_parent? {p q : Path} (same : p.same q = true) :
    (p.parent? = none ∧ q.parent? = none) ∨
      ∃ above above', p.parent? = some above ∧ q.parent? = some above' ∧
        above.same above' = true := by
  rw [same_iff] at same
  cases p_above : p.parent? with
  | none =>
    have : q.parent? = none := by rwa [parent?_eq_none_iff, ← same, ← parent?_eq_none_iff]
    exact Or.inl ⟨rfl, this⟩
  | some above =>
    cases q_above : q.parent? with
    | none =>
      rw [parent?_eq_none_iff, ← same, ← parent?_eq_none_iff, p_above] at q_above
      contradiction
    | some above' =>
      refine Or.inr ⟨above, above', rfl, rfl, ?_⟩
      rw [same_iff, components_of_parent? p_above, components_of_parent? q_above, same]

end LintBridge.Path
