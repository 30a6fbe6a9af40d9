import LintBridge.Text.Pieces
/-!
Pieces hold no separator, and pieces that hold none are what their joined text is cut into.
-/
namespace LintBridge.Text

theorem not_mem_of_mem_pieces {separator : Char} {text piece : List Char}
    (member : piece ∈ pieces separator text) : separator ∉ piece := by
  induction text generalizing piece with
  | nil =>
    obtain rfl : piece = [] := by simpa [pieces] using member
    simp
  | cons c rest ih =>
    unfold pieces at member
    split at member
    · rcases List.mem_cons.mp member with rfl | member
      · simp
      · exact ih member
    · rename_i other
      cases cut : pieces separator rest with
      | nil => exact absurd cut (pieces_ne_nil _ _)
      | cons first more =>
        rw [cut] at member
        rcases List.mem_cons.mp member with rfl | member
        · have := ih (by rw [cut]; exact List.mem_cons_self)
          simp [this, Ne.symm other]
        · exact ih (by rw [cut]; exact List.mem_cons_of_mem _ member)

theorem pieces_of_not_mem {separator : Char} {piece : List Char} (clean : separator ∉ piece) :
    pieces separator piece = [piece] := by
  induction piece with
  | nil => rfl
  | cons c piece ih =>
    simp only [List.mem_cons, not_or] at clean
    obtain ⟨other, clean⟩ := clean
    rw [pieces, if_neg (Ne.symm other), ih clean]

theorem pieces_append_separator (separator : Char) (before after : List Char) :
    pieces separator (before ++ separator :: after) =
      pieces separator before ++ pieces separator after := by
  induction before with
  | nil => simp [pieces]
  | cons c rest ih =>
    rw [List.cons_append, pieces, pieces, ih]
    split
    · rfl
    · cases cut : pieces separator rest with
      | nil => exact absurd cut (pieces_ne_nil _ _)
      | cons first more => rfl

theorem pieces_append {separator : Char} {piece : List Char} (clean : separator ∉ piece)
    (rest : List Char) :
    pieces separator (piece ++ separator :: rest) = piece :: pieces separator rest := by
  rw [pieces_append_separator, pieces_of_not_mem clean, List.singleton_append]

theorem pieces_join {separator : Char} {parts : List (List Char)} (nonempty : parts ≠ [])
    (clean : ∀ piece ∈ parts, separator ∉ piece) : pieces separator (join separator parts) = parts := by
  induction parts using join.induct with
  | case1 => contradiction
  | case2 last => exact pieces_of_not_mem (clean last List.mem_cons_self)
  | case3 first second more ih =>
    rw [join, pieces_append (clean first List.mem_cons_self), ih (by simp)
      fun piece member => clean piece (List.mem_cons_of_mem _ member)]

theorem join_append (separator : Char) {before after : List (List Char)} (some_before : before ≠ [])
    (some_after : after ≠ []) :
    join separator (before ++ after) = join separator before ++ separator :: join separator after := by
  induction before using join.induct with
  | case1 => contradiction
  | case2 last =>
    obtain ⟨first, more, rfl⟩ := List.exists_cons_of_ne_nil some_after
    rfl
  | case3 first second more ih =>
    have rest := ih (List.cons_ne_nil second more)
    rw [List.cons_append, List.cons_append, join, ← List.cons_append, rest, join]
    simp

theorem mem_join_iff {separator c : Char} (other : c ≠ separator) (parts : List (List Char)) :
    c ∈ join separator parts ↔ ∃ part ∈ parts, c ∈ part := by
  induction parts using join.induct with
  | case1 => simp [join]
  | case2 last => simp [join]
  | case3 first second more ih => simp [join, ih, other]

theorem join_eq_intercalate (separator : Char) (texts : List (List Char)) :
    join separator texts = [separator].intercalate texts := by
  induction texts using join.induct with
  | case1 => rfl
  | case2 last => simp [join, List.intercalate]
  | case3 first second more ih => simp [join, List.intercalate, ih]

end LintBridge.Text
