import LintBridge.Proofs.Edit.Choice
/-!
Overlap of the replacements that are chosen. A fix is taken if it starts behind the last replacement of
the one taken before it, so only a replacement that lies before the first or behind the last of its fix
can overlap another one (`reconcile_pairwise_iff`). Fixes that list such replacements are chosen side by
side though they overlap (`reconcile_overlap`).
-/
namespace LintBridge

namespace Replacement

def Disjoint (a b : Replacement) : Prop :=
  ∀ offset, ¬ ((a.start ≤ offset ∧ offset < a.stop) ∧ b.start ≤ offset ∧ offset < b.stop)

theorem disjoint_of_stop_le {a b : Replacement} (le : a.stop ≤ b.start) : a.Disjoint b := by
  rintro offset ⟨⟨-, before⟩, after, -⟩
  exact UInt32.lt_irrefl _ (UInt32.lt_of_lt_of_le before (UInt32.le_trans le after))

theorem Disjoint.symm {a b : Replacement} (disjoint : a.Disjoint b) : b.Disjoint a :=
  fun offset ⟨in_b, in_a⟩ => disjoint offset ⟨in_a, in_b⟩

theorem Apart.disjoint {a b : Replacement} (apart : a.Apart b) : a.Disjoint b := by
  rcases apart with first | second
  · exact disjoint_of_stop_le (Precedes.keepsGaps.stop_le first)
  · exact (disjoint_of_stop_le (Precedes.keepsGaps.stop_le second)).symm

theorem apart_of_gap (a b : Replacement) (gap : a.stop < b.start) : a.Apart b :=
  .inl (Precedes.keepsGaps.of_gap gap)

end Replacement

/-- Whether the first replacement of a fix starts first and the last one ends last. -/
def Framed (fix : List Replacement) : Prop :=
  ∀ r ∈ fix, firstStart fix ≤ r.start ∧ r.stop ≤ lastStop fix

instance (fix : List Replacement) : Decidable (Framed fix) :=
  inferInstanceAs (Decidable (∀ _ ∈ _, _ ∧ _))

theorem pairwise_gap {order : List Candidate} (gaps : order.IsChain fun c d => c.stop < d.start)
    (sorted : order.Pairwise fun c d => c.start ≤ d.start) :
    order.Pairwise fun c d => c.stop < d.start := by
  induction order with
  | nil => exact .nil
  | cons c order ih =>
    obtain ⟨next, gaps⟩ := List.isChain_cons.mp gaps
    obtain ⟨-, sorted⟩ := List.pairwise_cons.mp sorted
    refine List.pairwise_cons.mpr ⟨fun d member => ?_, ih gaps sorted⟩
    cases order with
    | nil => contradiction
    | cons b order =>
      have gap : c.stop < b.start := next b rfl
      rcases List.mem_cons.mp member with rfl | member
      · exact gap
      · exact UInt32.lt_of_lt_of_le gap (List.rel_of_pairwise_cons sorted member)

theorem taken_pairwise (failures : List Failure) :
    (taken failures).Pairwise fun c d => c.stop < d.start :=
  pairwise_gap (taken_greedily failures).apart
    ((candidates_ranked failures).start_le.sublist (taken_greedily failures).sublist)

/-- Let the replacements of each fix not overlap, in any sense in which a gap between two keeps them
from overlapping. Then those that are chosen do not overlap exactly if this holds, between two fixes,
for a replacement that ends behind the last of its fix or starts before the first of its fix. There is
no such replacement where the first of a fix starts first and the last ends last. -/
theorem reconcile_pairwise_iff {R : Replacement → Replacement → Prop}
    (of_gap : ∀ a b : Replacement, a.stop < b.start → R a b) {failures : List Failure}
    (each : ∀ f ∈ failures, f.replacements.Pairwise R) :
    ((reconcile failures).Pairwise R ↔
      (taken failures).Pairwise fun c d =>
        ∀ r ∈ c.fix, ∀ s ∈ d.fix, c.stop < r.stop ∨ s.start < d.start → R r s) ∧
    ((∀ f ∈ failures, Framed f.replacements) → (reconcile failures).Pairwise R) := by
  have whole : (reconcile failures).Pairwise R ↔
      (taken failures).Pairwise fun c d => ∀ r ∈ c.fix, ∀ s ∈ d.fix, R r s := by
    rw [reconcile_eq_taken, List.pairwise_flatMap]
    exact and_iff_right fun c member => each _ (fixable_of_taken member).1
  have only_beside : (reconcile failures).Pairwise R ↔
      (taken failures).Pairwise fun c d =>
        ∀ r ∈ c.fix, ∀ s ∈ d.fix, c.stop < r.stop ∨ s.start < d.start → R r s := by
    rw [whole]
    constructor
    · exact List.Pairwise.imp fun all r r_member s s_member _ => all r r_member s s_member
    · intro beside
      refine beside.imp₂ (fun c d rest gap r r_member s s_member => ?_) (taken_pairwise failures)
      by_cases within : r.stop ≤ c.stop ∧ d.start ≤ s.start
      · exact of_gap r s
          (UInt32.lt_of_le_of_lt within.1 (UInt32.lt_of_lt_of_le gap within.2))
      · rw [not_and_or, UInt32.not_le, UInt32.not_le] at within
        exact rest r r_member s s_member within
  refine ⟨only_beside, fun framed => only_beside.mpr ?_⟩
  refine List.Pairwise.imp_of_mem (R := fun c d => c.stop < d.start) ?_ (taken_pairwise failures)
  rintro c d c_taken d_taken - r r_member s s_member (behind | before)
  · have := (framed _ (fixable_of_taken c_taken).1 r r_member).2
    exact absurd behind (UInt32.not_lt.mpr this)
  · have := (framed _ (fixable_of_taken d_taken).1 s s_member).1
    exact absurd before (UInt32.not_lt.mpr this)

def backward : List Failure :=
  [⟨"a.ts", 0, 15, "m", none, none, some [⟨10, 5, "x"⟩, ⟨0, 1, "y"⟩]⟩,
    ⟨"a.ts", 12, 13, "m", none, none, some [⟨12, 1, "z"⟩]⟩]

theorem reconcile_overlap :
    (∀ f ∈ backward, f.replacements.Pairwise Replacement.Apart) ∧
      ¬ (reconcile backward).Pairwise Replacement.Disjoint := by
  refine ⟨by decide, fun disjoint => ?_⟩
  have chosen : reconcile backward = [⟨10, 5, "x"⟩, ⟨0, 1, "y"⟩, ⟨12, 1, "z"⟩] := by
    rw [reconcile, byFirstStart, List.mergeSort_of_pairwise (by decide)]
    decide
  rw [chosen] at disjoint
  have first : Replacement.Disjoint ⟨10, 5, "x"⟩ ⟨12, 1, "z"⟩ :=
    List.rel_of_pairwise_cons disjoint (by simp)
  exact first 12 (by decide)

def inward : List Failure :=
  [⟨"a.ts", 0, 9, "m", none, none, some [⟨0, 1, "a"⟩, ⟨6, 1, "b"⟩, ⟨3, 2, "c"⟩, ⟨8, 1, "d"⟩]⟩,
    ⟨"a.ts", 12, 13, "m", none, none, some [⟨12, 1, "e"⟩]⟩]

theorem reconcile_pairwise_inward :
    (∀ f ∈ inward, f.replacements.Pairwise Replacement.Apart) ∧
      (∀ f ∈ inward, Framed f.replacements) ∧ (reconcile inward).Pairwise Replacement.Apart ∧
      (reconcile inward).Pairwise Replacement.Disjoint := by
  have each : ∀ f ∈ inward, f.replacements.Pairwise Replacement.Apart := by decide
  have framed : ∀ f ∈ inward, Framed f.replacements := by decide
  have disjoint : ∀ f ∈ inward, f.replacements.Pairwise Replacement.Disjoint :=
    fun f member => (each f member).imp Replacement.Apart.disjoint
  exact ⟨each, framed, (reconcile_pairwise_iff Replacement.apart_of_gap each).2 framed,
    (reconcile_pairwise_iff
      (fun _ _ gap => Replacement.disjoint_of_stop_le (UInt32.le_of_lt gap)) disjoint).2 framed⟩

end LintBridge
