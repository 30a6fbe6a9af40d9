import LintBridge.Proofs.Path.Parent
import Mathlib.Data.List.Infix
/-!
The directories above a path, all of them. They have the beginnings of the path's components
(`exists_mem_ancestors_iff`), and a nearer one has more of them (`pairwise_ancestors`), so the first
directory with a property is the one with the longest beginning.
-/
namespace LintBridge.Path
open Text

theorem suffix_of_mem_shortened {reversed left : List (List Char)}
    (listed : left ∈ shortened reversed) : left <:+ reversed := by
  induction reversed with
  | nil => simp [shortened] at listed
  | cons piece rest ih =>
    rw [shortened] at listed
    split at listed
    · exact (ih listed).trans (List.suffix_cons piece rest)
    · rcases List.mem_cons.mp listed with rfl | later
      · exact (List.dropWhile_suffix isIdle).trans (List.suffix_cons piece rest)
      · exact (ih later).trans (List.suffix_cons piece rest)

theorem exists_mem_shortened_iff {reversed : List (List Char)} {begun : List Component} :
    (∃ left ∈ shortened reversed, steps left.reverse = begun) ↔
      begun <+: steps reversed.reverse ∧ begun ≠ steps reversed.reverse := by
  induction reversed with
  | nil => simp [shortened, steps]
  | cons piece rest ih =>
    rw [shortened, List.reverse_cons, steps_append]
    by_cases idle : isIdle piece = true
    · have nothing : steps [piece] = [] := steps_cons_of_idle idle []
      rw [if_pos idle, nothing, List.append_nil, ih]
    · have last : steps [piece] = [step piece] := steps_cons_of_busy (by simpa using idle) []
      rw [if_neg idle, last, List.prefix_concat_iff, List.exists_mem_cons_iff,
        steps_of_dropWhile_isIdle, ih]
      constructor
      · rintro (rfl | ⟨begins, -⟩)
        · exact ⟨Or.inr List.prefix_rfl, by simp⟩
        · refine ⟨Or.inr begins, ?_⟩
          rintro rfl
          have shorter := begins.length_le
          rw [List.length_append, List.length_singleton] at shorter
          omega
      · rintro ⟨whole | begins, other⟩
        · exact absurd whole other
        · exact (eq_or_ne _ _).imp Eq.symm fun shorter => ⟨begins, shorter⟩

theorem pairwise_shortened (reversed : List (List Char)) : (shortened reversed).Pairwise
    fun left left' => steps left'.reverse <+: steps left.reverse := by
  induction reversed with
  | nil => exact List.Pairwise.nil
  | cons piece rest ih =>
    rw [shortened]
    split
    · exact ih
    · refine List.Pairwise.cons (fun left listed => ?_) ih
      rw [steps_of_dropWhile_isIdle]
      exact (exists_mem_shortened_iff.mp ⟨left, listed, rfl⟩).1

theorem components_of_mem_shortened {p : Path} {left : List (List Char)}
    (listed : left ∈ shortened p.parts.2.reverse) :
    (ofParts p.parts.1 left.reverse).components = p.parts.1.components ++ steps left.reverse := by
  have nonempty : p.text.toList ≠ [] := by
    intro empty
    simp [parts, empty, Text.pieces, shortened, isIdle] at listed
  have begins := List.reverse_prefix.mpr (suffix_of_mem_shortened listed)
  rw [List.reverse_reverse] at begins
  exact components_ofParts ((wellCut_parts nonempty).beginning begins)

theorem components_parents (p : Path) : p.parents.map components =
    ((shortened p.parts.2.reverse).map fun left => p.parts.1.components ++ steps left.reverse) ++
      if p.parts.1 = .current then [[]] else [] := by
  rw [parents_eq, List.map_append, List.map_map]
  congr 1
  · exact List.map_congr_left fun left listed => components_of_mem_shortened listed
  · split <;> rfl

theorem prefix_start_append_iff {start : Start} {pieces : List (List Char)}
    {begun : List Component} (some_step : begun ≠ []) :
    begun <+: start.components ++ steps pieces ↔
      ∃ rest, start.components ++ rest = begun ∧ rest <+: steps pieces := by
  obtain ⟨first, more, rfl⟩ := List.exists_cons_of_ne_nil some_step
  cases start with
  | plain => simp [Start.components]
  | _ =>
    simp only [Start.components, List.singleton_append, List.cons_prefix_cons, List.cons.injEq]
    grind

/-- The directories above a path have the beginnings of its components, but the whole. -/
theorem exists_mem_parents_iff {p : Path} {begun : List Component} (some_step : begun ≠ []) :
    (∃ dir ∈ p.parents, dir.components = begun) ↔
      begun <+: p.components ∧ begun ≠ p.components := by
  have above : (∃ dir ∈ p.parents, dir.components = begun) ↔
      ∃ left ∈ shortened p.parts.2.reverse, p.parts.1.components ++ steps left.reverse = begun := by
    rw [← List.mem_map, components_parents, List.mem_append, List.mem_map, or_iff_left]
    split <;> simp [some_step]
  rw [above, components_eq p, prefix_start_append_iff some_step]
  constructor
  · rintro ⟨left, listed, rfl⟩
    obtain ⟨begins, shorter⟩ := exists_mem_shortened_iff.mp ⟨left, listed, rfl⟩
    rw [List.reverse_reverse] at begins shorter
    exact ⟨⟨_, rfl, begins⟩, fun whole => shorter (List.append_cancel_left whole)⟩
  · rintro ⟨⟨rest, rfl, begins⟩, shorter⟩
    obtain ⟨left, listed, rfl⟩ : ∃ left ∈ shortened p.parts.2.reverse, steps left.reverse = rest :=
      exists_mem_shortened_iff.mpr (by
        rw [List.reverse_reverse]
        exact ⟨begins, fun whole => shorter (by rw [whole])⟩)
    exact ⟨left, listed, rfl⟩

theorem exists_mem_ancestors_iff {p : Path} {begun : List Component} (some_step : begun ≠ []) :
    (∃ dir ∈ p.ancestors, dir.components = begun) ↔ begun <+: p.components := by
  rw [ancestors, List.exists_mem_cons_iff, exists_mem_parents_iff some_step]
  constructor
  · rintro (rfl | ⟨begins, -⟩)
    · exact List.prefix_rfl
    · exact begins
  · intro begins
    exact (eq_or_ne _ _).imp Eq.symm fun shorter => ⟨begins, shorter⟩

theorem pairwise_ancestors (p : Path) :
    p.ancestors.Pairwise fun near far => far.components <+: near.components := by
  have parents : p.parents.Pairwise fun near far => far.components <+: near.components := by
    rw [← List.pairwise_map (f := components) (R := fun near far => far <+: near),
      components_parents]
    refine List.pairwise_append.mpr ⟨?_, ?_, fun near _ far last => ?_⟩
    · refine List.pairwise_map.mpr ((pairwise_shortened _).imp fun longer => ?_)
      exact (List.prefix_append_right_inj _).mpr longer
    · split <;> simp
    · split at last
      · obtain rfl := List.mem_singleton.mp last
        exact List.nil_prefix
      · contradiction
  refine List.Pairwise.cons (fun far above => ?_) parents
  by_cases empty : far.components = []
  · rw [empty]
    exact List.nil_prefix
  · exact ((exists_mem_parents_iff empty).mp ⟨far, above, rfl⟩).1

end LintBridge.Path
