import Mathlib.Data.List.Nodup
import Mathlib.Data.List.Sort
/-!
Stable sorting. A sorted list keeps what compares equal in the order in which it was given. Where the
elements are numbered by their places this leaves one outcome, and sorting commutes with leaving
elements out (`mergeSort_filter`); where their keys are distinct, the outcome does not depend on the
order in which they are given (`mergeSort_eq_of_perm`). A list is sorted part by part where its second
part belongs before its first (`mergeSort_append`).
-/
namespace LintBridge

theorem le_key_trans {α : Type} (key : α → UInt32) (a b c : α) (ab : decide (key a ≤ key b) = true)
    (bc : decide (key b ≤ key c) = true) : decide (key a ≤ key c) = true := by
  simp only [decide_eq_true_eq] at *
  exact UInt32.le_trans ab bc

theorem le_key_total {α : Type} (key : α → UInt32) (a b : α) :
    (decide (key a ≤ key b) || decide (key b ≤ key a)) = true := by
  simpa using UInt32.le_total (key a) (key b)

section StableSort

variable {α : Type} {le : α → α → Bool} (trans : ∀ a b c, le a b = true → le b c = true → le a c = true)
  (total : ∀ a b, (le a b || le b a) = true)
include trans total

theorem mergeSort_cons_eq (a : α) (l : List α) :
    (a :: l).mergeSort le = (l.mergeSort le).takeWhile (!le a ·) ++
      a :: (l.mergeSort le).dropWhile (!le a ·) := by
  obtain ⟨front, back, sorted, split, less⟩ := List.mergeSort_cons trans total a l
  have ordered : (front ++ a :: back).Pairwise (le · · = true) :=
    sorted ▸ List.pairwise_mergeSort trans total (a :: l)
  have above := (List.pairwise_append.mp ordered).2.1
  rw [sorted, split, List.takeWhile_append_of_pos less, List.dropWhile_append_of_pos less]
  cases back with
  | nil => simp
  | cons b back =>
    have : le a b = true := List.rel_of_pairwise_cons above List.mem_cons_self
    simp [this]

theorem mergeSort_append {l m : List α} (before : ∀ a ∈ l, ∀ b ∈ m, le a b = false) :
    (l ++ m).mergeSort le = m.mergeSort le ++ l.mergeSort le := by
  induction l with
  | nil => simp
  | cons a l ih =>
    have first : ∀ b ∈ m.mergeSort le, (!le a b) = true := by
      intro b member
      simp [before a List.mem_cons_self b (List.mem_mergeSort.mp member)]
    rw [List.cons_append, mergeSort_cons_eq trans total,
      ih fun a member => before a (List.mem_cons_of_mem _ member),
      List.takeWhile_append_of_pos first, List.dropWhile_append_of_pos first,
      mergeSort_cons_eq trans total a l, List.append_assoc]

/-- What is sorted is in order, and what compares equal is in the order of its places. -/
theorem mergeSort_pairwise_place {place : α → Nat} {l : List α}
    (numbered : l.Pairwise (place · < place ·)) :
    (l.mergeSort le).Pairwise fun a b => le a b = true ∧ (le b a = true → place a < place b) := by
  induction l with
  | nil => simp
  | cons a l ih =>
    obtain ⟨first, numbered⟩ := List.pairwise_cons.mp numbered
    obtain ⟨front, back, sorted, split, less⟩ := List.mergeSort_cons trans total a l
    have ordered : (front ++ a :: back).Pairwise (le · · = true) :=
      sorted ▸ List.pairwise_mergeSort trans total (a :: l)
    have above := (List.pairwise_append.mp ordered).2.1
    obtain ⟨front_ordered, back_ordered, across⟩ := List.pairwise_append.mp (split ▸ ih numbered)
    rw [sorted]
    refine List.pairwise_append.mpr ⟨front_ordered, List.pairwise_cons.mpr ⟨?_, back_ordered⟩, ?_⟩
    · intro b member
      have given : b ∈ l.mergeSort le := split ▸ List.mem_append_right front member
      exact ⟨List.rel_of_pairwise_cons above member, fun _ => first b (List.mem_mergeSort.mp given)⟩
    · intro b b_member c c_member
      rcases List.mem_cons.mp c_member with rfl | c_member
      · have strict := less b b_member
        have := total b c
        simp_all
      · exact across b b_member c c_member

theorem mergeSort_filter {place : α → Nat} {l : List α} (numbered : l.Pairwise (place · < place ·))
    (keep : α → Bool) : (l.filter keep).mergeSort le = (l.mergeSort le).filter keep := by
  refine List.Perm.eq_of_pairwise (fun a b _ _ ab ba => ?_)
    (mergeSort_pairwise_place trans total (numbered.filter keep))
    ((mergeSort_pairwise_place trans total numbered).filter keep)
    ((List.mergeSort_perm _ _).trans ((List.mergeSort_perm _ _).symm.filter keep))
  have := ab.2 ba.1
  have := ba.2 ab.1
  omega

theorem mergeSort_eq_of_perm {κ : Type} {key : α → κ} {l m : List α}
    (antisymm : ∀ a b, le a b = true → le b a = true → key a = key b) (distinct : (l.map key).Nodup)
    (same : l.Perm m) : l.mergeSort le = m.mergeSort le := by
  refine List.Perm.eq_of_pairwise (fun a b a_member b_member ab ba => ?_)
    (List.pairwise_mergeSort trans total l) (List.pairwise_mergeSort trans total m)
    ((List.mergeSort_perm _ _).trans (same.trans (List.mergeSort_perm _ _).symm))
  have a_given : a ∈ l := List.mem_mergeSort.mp a_member
  have b_given : b ∈ l := same.mem_iff.mpr (List.mem_mergeSort.mp b_member)
  exact List.inj_on_of_nodup_map distinct a_given b_given (antisymm a b ab ba)

end StableSort
end LintBridge
