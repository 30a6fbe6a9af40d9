import LintBridge.Edit.Failure
import LintBridge.Proofs.StableSort
import Mathlib.Data.List.Chain
/-!
The order of reconciled replacements. When each fix lists its replacements from left to right, so does
what is chosen among the fixes: what holds of the replacements of each fix, and of any two with a gap
between them, holds of all that are chosen (`reconcile_pairwise_of_gap`). Where no two fixes start at
the same place, it makes no difference in which order they are given (`reconcile_eq_of_perm`).
-/
namespace LintBridge

/-- Whether a replacement starts before another one and ends before it or where it starts. -/
def Replacement.Before (a b : Replacement) : Prop := a.start < b.start ∧ a.stop ≤ b.start

instance (a b : Replacement) : Decidable (a.Before b) := inferInstanceAs (Decidable (_ ∧ _))

theorem Replacement.Before.trans {a b c : Replacement} (first : a.Before b) (second : b.Before c) :
    a.Before c :=
  ⟨UInt32.lt_trans first.1 second.1, UInt32.le_trans first.2 (UInt32.le_of_lt second.1)⟩

instance : Trans Replacement.Before Replacement.Before Replacement.Before := ⟨.trans⟩

def LeftToRight (replacements : List Replacement) : Prop :=
  replacements.IsChain Replacement.Before

instance (replacements : List Replacement) : Decidable (LeftToRight replacements) :=
  inferInstanceAs (Decidable (replacements.IsChain _))

theorem LeftToRight.pairwise {replacements : List Replacement} (h : LeftToRight replacements) :
    replacements.Pairwise Replacement.Before := List.isChain_iff_pairwise.mp h

theorem mem_fixesOf {failures : List Failure} {fix : List Replacement}
    (member : fix ∈ fixesOf failures) : ∃ f ∈ failures, f.replacements = fix :=
  List.mem_map.mp (List.mem_filter.mp member).1

def Replacement.Precedes (a b : Replacement) : Prop :=
  a.start.toNat + a.length.toNat ≤ b.start.toNat

instance (a b : Replacement) : Decidable (a.Precedes b) := inferInstanceAs (Decidable (_ ≤ _))

theorem Replacement.Precedes.trans {a b c : Replacement} (first : a.Precedes b)
    (second : b.Precedes c) : a.Precedes c := by
  unfold Precedes at *
  omega

instance : Trans Replacement.Precedes Replacement.Precedes Replacement.Precedes := ⟨.trans⟩

def InOrder (replacements : List Replacement) : Prop := replacements.IsChain Replacement.Precedes

instance (replacements : List Replacement) : Decidable (InOrder replacements) :=
  inferInstanceAs (Decidable (replacements.IsChain _))

theorem InOrder.pairwise {replacements : List Replacement} (h : InOrder replacements) :
    replacements.Pairwise Replacement.Precedes := List.isChain_iff_pairwise.mp h

def Replacement.Apart (a b : Replacement) : Prop := a.Precedes b ∨ b.Precedes a

instance (a b : Replacement) : Decidable (a.Apart b) := inferInstanceAs (Decidable (_ ∨ _))

theorem Replacement.Apart.symm {a b : Replacement} (apart : a.Apart b) : b.Apart a := Or.symm apart

/-- An order of replacements that a gap between two of them is enough for, and that keeps the end of
the first from going past the start of the second. -/
structure KeepsGaps (R : Replacement → Replacement → Prop) : Prop where
  of_gap : ∀ {a b}, a.stop < b.start → R a b
  stop_le : ∀ {a b}, R a b → a.stop ≤ b.start

theorem Replacement.Before.keepsGaps : KeepsGaps Replacement.Before where
  of_gap {a _} gap :=
    ⟨UInt32.lt_of_le_of_lt (UInt32.le_iff_toNat_le.mpr a.start_le_stop) gap, UInt32.le_of_lt gap⟩
  stop_le before := before.2

theorem Replacement.Precedes.keepsGaps : KeepsGaps Replacement.Precedes where
  of_gap {a b} gap := by
    have := b.start.toNat_lt
    rw [UInt32.lt_iff_toNat_lt, toNat_stop, UInt32.size] at gap
    unfold Precedes
    omega
  stop_le {a b} precedes := by
    rw [UInt32.le_iff_toNat_le, toNat_stop]
    exact Nat.le_trans (Nat.min_le_left _ _) precedes

section Gaps

variable {R : Replacement → Replacement → Prop} (keeps : KeepsGaps R)
include keeps

theorem firstStart_le {fix : List Replacement} (sorted : fix.Pairwise R) {r : Replacement}
    (member : r ∈ fix) : firstStart fix ≤ r.start := by
  cases fix with
  | nil => contradiction
  | cons first rest =>
    rcases List.mem_cons.mp member with rfl | member
    · exact UInt32.le_refl _
    · exact UInt32.le_trans (UInt32.le_iff_toNat_le.mpr first.start_le_stop)
        (keeps.stop_le (List.rel_of_pairwise_cons sorted member))

theorem stop_le_getLast {taken : List Replacement} (sorted : taken.Pairwise R) {r last : Replacement}
    (member : r ∈ taken) (ends : taken.getLast? = some last) : r.stop ≤ last.stop := by
  obtain ⟨front, rfl⟩ := List.getLast?_eq_some_iff.mp ends
  rcases List.mem_append.mp member with member | member
  · have before := (List.pairwise_append.mp sorted).2.2 r member last (by simp)
    have := UInt32.le_iff_toNat_le.mpr last.start_le_stop
    exact UInt32.le_trans (keeps.stop_le before) this
  · obtain rfl := List.mem_singleton.mp member
    exact UInt32.le_refl _

theorem gap_of_fitsAfter {taken fix : List Replacement} (taken_sorted : taken.Pairwise R)
    (fix_sorted : fix.Pairwise R) (fits : fitsAfter taken fix = true) {a b : Replacement}
    (a_member : a ∈ taken) (b_member : b ∈ fix) : a.stop < b.start := by
  cases ends : taken.getLast? with
  | none =>
    rw [List.getLast?_eq_none_iff.mp ends] at a_member
    contradiction
  | some last =>
    simp only [fitsAfter, ends, decide_eq_true_eq] at fits
    exact UInt32.lt_of_le_of_lt (stop_le_getLast keeps taken_sorted a_member ends)
      (UInt32.lt_of_lt_of_le fits (firstStart_le keeps fix_sorted b_member))

theorem takeFix_pairwise {taken fix : List Replacement} (taken_sorted : taken.Pairwise R)
    (fix_sorted : fix.Pairwise R) : (takeFix taken fix).Pairwise R := by
  unfold takeFix
  split
  · rename_i fits
    exact List.pairwise_append.mpr ⟨taken_sorted, fix_sorted, fun a a_member b b_member =>
      keeps.of_gap (gap_of_fitsAfter keeps taken_sorted fix_sorted fits a_member b_member)⟩
  · exact taken_sorted

theorem foldl_takeFix_pairwise {fixes : List (List Replacement)} {taken : List Replacement}
    (taken_sorted : taken.Pairwise R) (sorted : ∀ fix ∈ fixes, fix.Pairwise R) :
    (fixes.foldl takeFix taken).Pairwise R := by
  induction fixes generalizing taken with
  | nil => exact taken_sorted
  | cons fix fixes ih =>
    exact ih (takeFix_pairwise keeps taken_sorted (sorted fix List.mem_cons_self))
      fun other member => sorted other (List.mem_cons_of_mem _ member)

theorem reconcile_pairwise_of_gap {failures : List Failure}
    (sorted : ∀ f ∈ failures, f.replacements.Pairwise R) : (reconcile failures).Pairwise R := by
  refine foldl_takeFix_pairwise keeps .nil fun fix member => ?_
  obtain ⟨f, f_member, rfl⟩ := mem_fixesOf (List.mem_mergeSort.mp member)
  exact sorted f f_member

end Gaps

theorem reconcile_pairwise {failures : List Failure}
    (ordered : ∀ f ∈ failures, LeftToRight f.replacements) :
    (reconcile failures).Pairwise Replacement.Before :=
  reconcile_pairwise_of_gap Replacement.Before.keepsGaps fun f member => (ordered f member).pairwise

/-! ### The order in which failures are given -/

def DistinctStarts (failures : List Failure) : Prop := ((fixesOf failures).map firstStart).Nodup

instance (failures : List Failure) : Decidable (DistinctStarts failures) :=
  inferInstanceAs (Decidable (List.Nodup _))

theorem byFirstStart_eq_of_perm {fixes fixes' : List (List Replacement)}
    (distinct : (fixes.map firstStart).Nodup) (same : fixes.Perm fixes') :
    byFirstStart fixes = byFirstStart fixes' := by
  refine mergeSort_eq_of_perm (le_key_trans firstStart) (le_key_total firstStart) ?_ distinct same
  intro a b ab ba
  exact UInt32.le_antisymm (of_decide_eq_true ab) (of_decide_eq_true ba)

/-- Where no two fixes start at the same place, what is chosen does not depend on the order in which
the failures are given. -/
theorem reconcile_eq_of_perm {failures failures' : List Failure} (distinct : DistinctStarts failures)
    (same : (fixesOf failures).Perm (fixesOf failures')) :
    reconcile failures = reconcile failures' := by
  rw [reconcile, byFirstStart_eq_of_perm distinct same, reconcile]

theorem fixesOf_filter_isFixable (failures : List Failure) :
    fixesOf (failures.filter Failure.isFixable) = fixesOf failures := by
  rw [fixesOf, fixesOf, List.filter_map, List.filter_map, List.filter_filter]
  simp [Failure.isFixable, Function.comp_def]

theorem fixesOf_perm {failures failures' : List Failure} (same : failures.Perm failures') :
    (fixesOf failures).Perm (fixesOf failures') :=
  (same.map _).filter _

end LintBridge
