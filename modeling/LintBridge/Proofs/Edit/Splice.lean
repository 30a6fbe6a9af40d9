/-!
Patches of a sequence, made all at once. `splice` reads the ranges of all patches as positions of the
sequence it is given, so no patch moves another. `splice_cons` takes the first patch off when the
others start after it: what stands before it stays, and the others are made in what stands after it.
-/
namespace LintBridge

structure Patch (α : Type) where
  start : Nat
  stop : Nat
  insert : List α

namespace Patch

variable {α : Type}

def covers (p : Patch α) (position : Nat) : Bool := p.start ≤ position && position < p.stop

def insertedAt (patches : List (Patch α)) (position : Nat) : List α :=
  (patches.filter (·.start = position)).flatMap insert

/-- A sequence that begins at a position, with all patches made: at each position first what is
inserted there, then what stands there, unless a patch covers it. -/
def splice (patches : List (Patch α)) : Nat → List α → List α
  | position, [] => insertedAt patches position
  | position, a :: rest =>
    insertedAt patches position ++ (if patches.any (·.covers position) then [] else [a])
      ++ splice patches (position + 1) rest

theorem insertedAt_of_lt {patches : List (Patch α)} {position : Nat}
    (later : ∀ p ∈ patches, position < p.start) : insertedAt patches position = [] := by
  have none : patches.filter (·.start = position) = [] := by
    refine List.filter_eq_nil_iff.mpr fun p member => ?_
    have := later p member
    simp only [decide_eq_true_eq]
    omega
  rw [insertedAt, none]
  rfl

theorem any_covers_of_lt {patches : List (Patch α)} {position : Nat}
    (later : ∀ p ∈ patches, position < p.start) : patches.any (·.covers position) = false := by
  refine List.any_eq_false.mpr fun p member => ?_
  have := later p member
  simp only [covers, Bool.and_eq_true, decide_eq_true_eq]
  omega

theorem splice_nil (position : Nat) (xs : List α) : splice [] position xs = xs := by
  induction xs generalizing position with
  | nil => rfl
  | cons a xs ih => simp [splice, insertedAt, ih]

theorem splice_append {patches : List (Patch α)} {position : Nat} (before after : List α)
    (later : ∀ p ∈ patches, position + before.length ≤ p.start) :
    splice patches position (before ++ after) =
      before ++ splice patches (position + before.length) after := by
  induction before generalizing position with
  | nil => rfl
  | cons a before ih =>
    have here : ∀ p ∈ patches, position < p.start := by
      intro p member
      have := later p member
      simp only [List.length_cons] at this
      omega
    have next : position + 1 + before.length = position + (a :: before).length := by
      simp only [List.length_cons]
      omega
    rw [List.cons_append, splice, insertedAt_of_lt here, any_covers_of_lt here,
      ih (by rwa [next]), next]
    rfl

theorem insert_isPrefix_splice (p : Patch α) (patches : List (Patch α)) (xs : List α) :
    p.insert <+: splice (p :: patches) p.start xs := by
  have first : insertedAt (p :: patches) p.start = p.insert ++ insertedAt patches p.start := by
    simp [insertedAt]
  cases xs with
  | nil => exact ⟨_, first.symm⟩
  | cons a xs =>
    rw [splice, first, List.append_assoc, List.append_assoc]
    exact List.prefix_append _ _

section First

variable {p : Patch α} {patches : List (Patch α)} {position : Nat}

theorem splice_cons_of_stop_le (passed : p.start < position) (stopped : p.stop ≤ position)
    (xs : List α) : splice (p :: patches) position xs = splice patches position xs := by
  induction xs generalizing position with
  | nil =>
    have elsewhere : p.start ≠ position := by omega
    simp [splice, insertedAt, elsewhere]
  | cons a xs ih =>
    have elsewhere : p.start ≠ position := by omega
    have uncovered : p.covers position = false := by simp [covers]; omega
    rw [splice, splice, ih (by omega) (by omega)]
    simp [insertedAt, elsewhere, uncovered]

theorem splice_cons_of_covered (passed : p.start < position)
    (later : ∀ q ∈ patches, p.stop ≤ q.start) (removed after : List α)
    (length : position + removed.length = p.stop) :
    splice (p :: patches) position (removed ++ after) = splice patches p.stop after := by
  induction removed generalizing position with
  | nil =>
    obtain rfl : position = p.stop := by simpa using length
    exact splice_cons_of_stop_le passed (Nat.le_refl _) after
  | cons a removed ih =>
    simp only [List.length_cons] at length
    have here : ∀ q ∈ patches, position < q.start := by
      intro q member
      have := later q member
      omega
    have elsewhere : p.start ≠ position := by omega
    have covered : p.covers position = true := by simp [covers]; omega
    rw [List.cons_append, splice, ih (by omega) (by omega)]
    have nothing : insertedAt (p :: patches) position = [] := by
      have := insertedAt_of_lt here
      simpa [insertedAt, elsewhere] using this
    simp [nothing, covered]

theorem splice_cons_at_start (later : ∀ q ∈ patches, p.stop ≤ q.start ∧ p.start < q.start)
    (removed after : List α) (length : p.start + removed.length = p.stop) :
    splice (p :: patches) p.start (removed ++ after) =
      p.insert ++ splice patches p.stop after := by
  have here : ∀ q ∈ patches, p.start < q.start := fun q member => (later q member).2
  have inserted : insertedAt (p :: patches) p.start = p.insert := by
    have := insertedAt_of_lt here
    simpa [insertedAt] using this
  cases removed with
  | nil =>
    obtain stopped : p.start = p.stop := by simpa using length
    have uncovered : p.covers p.stop = false := by simp [covers]
    have none := insertedAt_of_lt here
    rw [stopped] at inserted here none ⊢
    cases after with
    | nil => simp [splice, inserted, none]
    | cons a after =>
      rw [List.nil_append, splice, splice, inserted, none,
        splice_cons_of_stop_le (by omega) (by omega)]
      simp [uncovered]
  | cons a removed =>
    simp only [List.length_cons] at length
    have covered : p.covers p.start = true := by simp [covers]; omega
    rw [List.cons_append, splice, inserted, splice_cons_of_covered (by omega)
      (fun q member => (later q member).1) removed after (by omega)]
    simp [covered]

theorem splice_cons (later : ∀ q ∈ patches, p.stop ≤ q.start ∧ p.start < q.start)
    (before removed after : List α) (start : position + before.length = p.start)
    (stop : p.start + removed.length = p.stop) :
    splice (p :: patches) position (before ++ (removed ++ after)) =
      before ++ (p.insert ++ splice patches p.stop after) := by
  have ahead : ∀ q ∈ p :: patches, position + before.length ≤ q.start := by
    intro q member
    rcases List.mem_cons.mp member with rfl | member
    · exact Nat.le_of_eq start
    · have := (later q member).2
      omega
  rw [splice_append before _ ahead, start, splice_cons_at_start later removed after stop]

end First

end Patch
end LintBridge
