import Mathlib.Data.List.Nodup
/-!
Searching a table of words by halving. In an ascending table the search gives the place of the word, or
else the place where it could be put in (`binarySearch_eq_ite`).
-/
namespace LintBridge

/-- Halves the part of a table from `low` up to `high`: every word before it is below the one that is
searched for, every word after it is above. -/
def halve (values : List UInt32) (target : UInt32) (low high : Nat) : Except Nat Nat :=
  if low < high then
    let middle := low + (high - low) / 2
    match values[middle]? with
    | none => .error low
    | some value =>
      if value = target then .ok middle
      else if value < target then halve values target (middle + 1) high
      else halve values target low middle
  else .error low
termination_by high - low

def binarySearch (values : List UInt32) (target : UInt32) : Except Nat Nat :=
  halve values target 0 values.length

theorem lt_countP_iff {α : Type} {p : α → Bool} {values : List α}
    (front : values.Pairwise fun a b => p b = true → p a = true) {i : Nat}
    (inside : i < values.length) : i < values.countP p ↔ p values[i] = true := by
  induction values generalizing i with
  | nil => simp at inside
  | cons first rest ih =>
    obtain ⟨above, front⟩ := List.pairwise_cons.mp front
    rw [List.countP_cons]
    cases counted : p first with
    | true =>
      cases i with
      | zero => simp [counted]
      | succ i =>
        have later := ih front (by simpa using inside)
        simpa using later
    | false =>
      have beyond (value : α) (member : value ∈ first :: rest) : p value = false := by
        rcases List.mem_cons.mp member with rfl | member
        · exact counted
        · by_contra has
          exact absurd (above value member (by simpa using has)) (by simp [counted])
      have none : rest.countP p = 0 :=
        List.countP_eq_zero.mpr fun value member => by
          simp [beyond value (List.mem_cons_of_mem _ member)]
      have out := beyond _ (List.getElem_mem inside)
      simp [none, out]

section Ascending

variable {values : List UInt32} (ascending : values.Pairwise (· < ·)) (target : UInt32)
include ascending

theorem lt_countP_le_iff {i : Nat} (inside : i < values.length) :
    i < values.countP (· ≤ target) ↔ values[i] ≤ target := by
  have front : values.Pairwise fun a b => decide (b ≤ target) = true → decide (a ≤ target) = true :=
    ascending.imp fun {a b} below le => by
      simp only [decide_eq_true_eq] at le ⊢
      exact UInt32.le_trans (UInt32.le_of_lt below) le
  simpa using lt_countP_iff front inside

theorem lt_countP_lt_iff {i : Nat} (inside : i < values.length) :
    i < values.countP (· < target) ↔ values[i] < target := by
  have front : values.Pairwise fun a b => decide (b < target) = true → decide (a < target) = true :=
    ascending.imp fun {a b} below lt => by
      simp only [decide_eq_true_eq] at lt ⊢
      exact UInt32.lt_trans below lt
  simpa using lt_countP_iff front inside

omit ascending in
theorem countP_le_eq (values : List UInt32) :
    values.countP (· ≤ target) = values.countP (· < target) + values.count target := by
  induction values with
  | nil => rfl
  | cons first rest ih =>
    have split : first ≤ target ↔ first < target ∨ first = target := UInt32.le_iff_lt_or_eq
    rw [List.countP_cons, List.countP_cons, List.count_cons, ih]
    by_cases same : first = target
    · subst same
      simp [UInt32.lt_irrefl, Nat.add_assoc]
    · by_cases below : first < target
      · simp [split, below, same]
        omega
      · simp [split, below, same]

theorem count_eq_ite : values.count target = if target ∈ values then 1 else 0 := by
  have nodup : values.Nodup := ascending.imp UInt32.ne_of_lt
  split
  · rename_i member
    exact List.count_eq_one_of_mem nodup member
  · rename_i missing
    exact List.count_eq_zero_of_not_mem missing

theorem countP_lt_getElem {i : Nat} (there : i < values.length) :
    values.countP (· < values[i]) = i := by
  have count := countP_le_eq values[i] values
  rw [count_eq_ite ascending, if_pos (List.getElem_mem there)] at count
  have reached := (lt_countP_le_iff ascending _ there).mpr (UInt32.le_refl _)
  have not_passed := (lt_countP_lt_iff ascending _ there).not.mpr (UInt32.lt_irrefl _)
  omega

/-- The induction is over the halves. It is carried by what is known of the words outside. -/
theorem halve_eq {low high : Nat} (below : low ≤ values.countP (· < target))
    (above : values.countP (· ≤ target) ≤ high) (inside : high ≤ values.length) :
    halve values target low high =
      if target ∈ values then .ok (values.countP (· < target))
      else .error (values.countP (· < target)) := by
  have count := countP_le_eq target values
  rw [count_eq_ite ascending] at count
  fun_induction halve values target low high with
  | case1 low high some_left middle missing =>
    have there : middle < values.length := by omega
    simp [there] at missing
  | case2 low high some_left middle found =>
    obtain ⟨there, rfl⟩ := List.getElem?_eq_some_iff.mp found
    rw [if_pos (List.getElem_mem there), countP_lt_getElem ascending there]
  | case3 low high some_left middle value found other smaller ih =>
    obtain ⟨there, rfl⟩ := List.getElem?_eq_some_iff.mp found
    have reached := (lt_countP_lt_iff ascending target there).mpr smaller
    exact ih reached above inside
  | case4 low high some_left middle value found other greater ih =>
    obtain ⟨there, rfl⟩ := List.getElem?_eq_some_iff.mp found
    have beyond : ¬ values[middle] ≤ target := fun le =>
      (UInt32.le_iff_lt_or_eq.mp le).elim greater other
    have not_reached := (lt_countP_le_iff ascending target there).not.mpr beyond
    exact ih below (by omega) (by omega)
  | case5 low high none_left =>
    by_cases member : target ∈ values
    · rw [if_pos member] at count
      omega
    · rw [if_neg member]
      exact congrArg Except.error (by omega)

/-- In an ascending table a word is found where it is, and otherwise missed where it could be put in:
before it come the smaller words. -/
theorem binarySearch_eq_ite : binarySearch values target =
    if target ∈ values then .ok (values.countP (· < target))
    else .error (values.countP (· < target)) :=
  halve_eq ascending target (Nat.zero_le _) List.countP_le_length (Nat.le_refl _)

theorem getElem?_eq_some_iff_countP {i : Nat} :
    values[i]? = some target ↔ target ∈ values ∧ i = values.countP (· < target) := by
  constructor
  · intro found
    obtain ⟨there, rfl⟩ := List.getElem?_eq_some_iff.mp found
    exact ⟨List.getElem_mem there, (countP_lt_getElem ascending there).symm⟩
  · rintro ⟨member, rfl⟩
    obtain ⟨i, there, rfl⟩ := List.getElem_of_mem member
    rw [countP_lt_getElem ascending there, List.getElem?_eq_getElem there]

theorem binarySearch_eq_ok_iff {i : Nat} :
    binarySearch values target = .ok i ↔ values[i]? = some target := by
  rw [binarySearch_eq_ite ascending, getElem?_eq_some_iff_countP ascending]
  split <;> simp_all [eq_comm]

end Ascending

end LintBridge
