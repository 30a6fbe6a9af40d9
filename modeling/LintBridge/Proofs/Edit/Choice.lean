import LintBridge.Proofs.Edit.Reconcile
/-!
Which fixes are chosen. The failures that can be fixed are gone through in the order in which their
fixes start (`candidates`), and each is taken or left out as a whole (`taken`). One is left out only
for another that is taken before it and ends at its start or behind it (`reconcile_greedy`).
-/
namespace LintBridge

def lastStop (fix : List Replacement) : UInt32 := (fix.getLastD default).stop

structure Candidate where
  failure : Failure
  place : Nat
deriving DecidableEq

namespace Candidate

def fix (c : Candidate) : List Replacement := c.failure.replacements

def start (c : Candidate) : UInt32 := firstStart c.fix

def stop (c : Candidate) : UInt32 := lastStop c.fix

end Candidate

def numbered (failures : List Failure) : List Candidate :=
  failures.zipIdx.map fun (failure, place) => ⟨failure, place⟩

def byStart (order : List Candidate) : List Candidate := order.mergeSort fun a b => a.start ≤ b.start

def candidates (failures : List Failure) : List Candidate :=
  byStart ((numbered failures).filter (·.failure.isFixable))

/-- The candidates that are taken from left to right, each if its fix starts behind what has been
reached. -/
def takenFrom : Option UInt32 → List Candidate → List Candidate
  | _, [] => []
  | reached, c :: rest =>
    if reached.all (· < c.start) then c :: takenFrom (some c.stop) rest else takenFrom reached rest

def taken (failures : List Failure) : List Candidate := takenFrom none (candidates failures)

/-! ### The order of candidates -/

@[simp] theorem map_failure_numbered (failures : List Failure) :
    (numbered failures).map Candidate.failure = failures := by
  simp [numbered, Function.comp_def]

theorem numbered_pairwise (failures : List Failure) :
    (numbered failures).Pairwise (·.place < ·.place) := by
  have places : (numbered failures).map Candidate.place = List.range' 0 failures.length := by
    simp [numbered, Function.comp_def]
  rw [← List.pairwise_map, places]
  exact List.pairwise_lt_range'

structure Ranked (failures : List Failure) (order : List Candidate) : Prop where
  all : order.Perm ((numbered failures).filter (·.failure.isFixable))
  sorted : order.Pairwise fun a b => a.start < b.start ∨ a.start = b.start ∧ a.place < b.place

theorem candidates_ranked (failures : List Failure) : Ranked failures (candidates failures) := by
  refine ⟨List.mergeSort_perm _ _, ?_⟩
  have sorted := mergeSort_pairwise_place (le_key_trans Candidate.start)
    (le_key_total Candidate.start) ((numbered_pairwise failures).filter (·.failure.isFixable))
  refine sorted.imp fun {a b} ranked => ?_
  simp only [decide_eq_true_eq] at ranked
  rcases UInt32.lt_or_eq_of_le ranked.1 with less | same
  · exact .inl less
  · exact .inr ⟨same, ranked.2 (UInt32.le_of_eq same.symm)⟩

namespace Ranked

variable {failures : List Failure} {order : List Candidate} (ranked : Ranked failures order)
include ranked

theorem start_le : order.Pairwise fun a b => a.start ≤ b.start :=
  ranked.sorted.imp fun before =>
    before.elim UInt32.le_of_lt fun tie => UInt32.le_of_eq tie.1

theorem nodup : order.Nodup := by
  refine ranked.sorted.imp fun before same => ?_
  subst same
  rcases before with less | tie
  · exact UInt32.lt_irrefl _ less
  · exact Nat.lt_irrefl _ tie.2

theorem mem_iff {c : Candidate} : c ∈ order ↔ c ∈ numbered failures ∧ c.failure.isFixable = true := by
  rw [ranked.all.mem_iff, List.mem_filter]

end Ranked

theorem failure_mem_of_numbered {failures : List Failure} {c : Candidate}
    (member : c ∈ numbered failures) : c.failure ∈ failures := by
  rw [← map_failure_numbered failures]
  exact List.mem_map_of_mem member

/-! ### Going through the candidates -/

theorem fitsAfter_eq (taken fix : List Replacement) :
    fitsAfter taken fix = (taken.getLast?.map Replacement.stop).all (· < firstStart fix) := by
  unfold fitsAfter
  cases taken.getLast? <;> rfl

theorem getLast?_append_fix (taken : List Replacement) {fix : List Replacement} (nonempty : fix ≠ []) :
    (taken ++ fix).getLast?.map Replacement.stop = some (lastStop fix) := by
  rw [List.getLast?_append_of_ne_nil _ nonempty, List.getLast?_eq_some_getLast nonempty, lastStop,
    List.getLastD_eq_getLast?, List.getLast?_eq_some_getLast nonempty]
  rfl

theorem foldl_takeFix_eq {order : List Candidate} (fixable : ∀ c ∈ order, c.failure.isFixable = true)
    (done : List Replacement) :
    (order.map Candidate.fix).foldl takeFix done =
      done ++ (takenFrom (done.getLast?.map Replacement.stop) order).flatMap Candidate.fix := by
  induction order generalizing done with
  | nil => simp [takenFrom]
  | cons c order ih =>
    have nonempty : c.fix ≠ [] := by
      simpa [Failure.isFixable, Candidate.fix] using fixable c List.mem_cons_self
    have ih := ih fun other member => fixable other (List.mem_cons_of_mem _ member)
    rw [List.map_cons, List.foldl_cons, takenFrom, takeFix, fitsAfter_eq, Candidate.start]
    split
    · rw [ih, getLast?_append_fix done nonempty, List.flatMap_cons, List.append_assoc, Candidate.stop]
    · exact ih done

theorem takenFrom_sublist (reached : Option UInt32) (order : List Candidate) :
    (takenFrom reached order).Sublist order := by
  induction order generalizing reached with
  | nil => exact .slnil
  | cons c order ih =>
    unfold takenFrom
    split
    · exact (ih _).cons_cons c
    · exact (ih _).cons c

/-- What is left out starts before the end of what has been reached at first, or of a candidate that is
taken before it. -/
theorem reached_of_not_taken {reached : Option UInt32} {before after : List Candidate} {c : Candidate}
    (left_out : c ∉ takenFrom reached (before ++ c :: after)) :
    (∃ stop, reached = some stop ∧ c.start ≤ stop) ∨
      ∃ g ∈ before, g ∈ takenFrom reached (before ++ c :: after) ∧ c.start ≤ g.stop := by
  induction before generalizing reached with
  | nil =>
    rw [List.nil_append, takenFrom] at left_out
    split at left_out
    · simp at left_out
    · rename_i late
      cases reached with
      | none => simp at late
      | some stop => exact .inl ⟨stop, rfl, by simpa using late⟩
  | cons b before ih =>
    rw [List.cons_append, takenFrom] at left_out ⊢
    split at left_out
    · rename_i fits
      rw [if_pos fits]
      rcases ih fun member => left_out (List.mem_cons_of_mem _ member) with
        ⟨stop, same, le⟩ | ⟨g, member, is_taken, le⟩
      · obtain rfl := Option.some.inj same
        exact .inr ⟨b, List.mem_cons_self, List.mem_cons_self, le⟩
      · exact .inr ⟨g, List.mem_cons_of_mem _ member, List.mem_cons_of_mem _ is_taken, le⟩
    · rename_i late
      rw [if_neg late]
      rcases ih left_out with ends | ⟨g, member, is_taken, le⟩
      · exact .inl ends
      · exact .inr ⟨g, List.mem_cons_of_mem _ member, is_taken, le⟩

theorem takenFrom_isChain (reached : Option UInt32) (order : List Candidate) :
    (∀ c ∈ (takenFrom reached order).head?, reached.all (· < c.start) = true) ∧
      (takenFrom reached order).IsChain fun a b => a.stop < b.start := by
  induction order generalizing reached with
  | nil => simp [takenFrom]
  | cons c order ih =>
    unfold takenFrom
    split
    · rename_i fits
      obtain ⟨next, chain⟩ := ih (some c.stop)
      refine ⟨by simpa using fits, List.isChain_cons.mpr ⟨fun b head => ?_, chain⟩⟩
      simpa using next b head
    · exact ih reached

theorem takenFrom_takenFrom (reached : Option UInt32) (order : List Candidate) :
    takenFrom reached (takenFrom reached order) = takenFrom reached order := by
  induction order generalizing reached with
  | nil => rfl
  | cons c order ih =>
    by_cases fits : reached.all (· < c.start) = true
    · simp only [takenFrom, if_pos fits, ih]
    · simp only [takenFrom, if_neg fits, ih]

structure TakenGreedily (order chosen : List Candidate) : Prop where
  sublist : chosen.Sublist order
  first : chosen.head? = order.head?
  left_out : ∀ before c after, order = before ++ c :: after → c ∉ chosen →
    ∃ g ∈ before, g ∈ chosen ∧ g.start ≤ c.start ∧ c.start ≤ g.stop
  apart : chosen.IsChain fun g c => g.stop < c.start

theorem taken_greedily (failures : List Failure) :
    TakenGreedily (candidates failures) (taken failures) where
  sublist := takenFrom_sublist _ _
  first := by
    unfold taken
    cases candidates failures <;> simp [takenFrom]
  left_out before c after split left_out := by
    rw [taken, split] at left_out ⊢
    rcases reached_of_not_taken left_out with ⟨_, impossible, _⟩ | ⟨g, member, is_taken, le⟩
    · contradiction
    · have sorted := (candidates_ranked failures).start_le
      rw [split] at sorted
      have before_c := (List.pairwise_append.mp sorted).2.2 g member c List.mem_cons_self
      exact ⟨g, member, is_taken, before_c, le⟩
  apart := (takenFrom_isChain _ _).2

/-! ### The outcome -/

theorem map_fix_byStart (order : List Candidate) :
    (byStart order).map Candidate.fix = byFirstStart (order.map Candidate.fix) :=
  List.map_mergeSort fun _ _ _ _ => rfl

theorem fixesOf_map_failure (order : List Candidate) :
    fixesOf (order.map Candidate.failure) =
      (order.filter (·.failure.isFixable)).map Candidate.fix := by
  simp only [fixesOf, List.map_map, List.filter_map]
  rfl

theorem reconcile_map_failure (order : List Candidate) :
    reconcile (order.map Candidate.failure) =
      (takenFrom none (byStart (order.filter (·.failure.isFixable)))).flatMap Candidate.fix := by
  have fixable : ∀ c ∈ byStart (order.filter (·.failure.isFixable)), c.failure.isFixable = true :=
    fun c member => (List.mem_filter.mp (List.mem_mergeSort.mp member)).2
  rw [reconcile, fixesOf_map_failure, ← map_fix_byStart, foldl_takeFix_eq fixable]
  rfl

theorem reconcile_eq_taken (failures : List Failure) :
    reconcile failures = (taken failures).flatMap Candidate.fix := by
  conv_lhs => rw [← map_failure_numbered failures]
  exact reconcile_map_failure (numbered failures)

theorem filter_mem_taken (failures : List Failure) :
    (candidates failures).filter (· ∈ taken failures) = taken failures := by
  have nodup := (candidates_ranked failures).nodup
  have sublist : (taken failures).Sublist (candidates failures) := takenFrom_sublist _ _
  refine (nodup.perm_iff_eq_of_sublist List.filter_sublist sublist).mp ?_
  refine (List.perm_ext_iff_of_nodup (nodup.filter _) (sublist.nodup nodup)).mpr fun c => ?_
  simpa using fun member => sublist.mem member

theorem fixable_of_taken {failures : List Failure} {c : Candidate} (member : c ∈ taken failures) :
    c.failure ∈ failures ∧ c.failure.isFixable = true := by
  have candidate := (takenFrom_sublist _ _).mem member
  obtain ⟨given, fixable⟩ := (candidates_ranked failures).mem_iff.mp candidate
  exact ⟨failure_mem_of_numbered given, fixable⟩

def kept (failures : List Failure) : List Candidate := (numbered failures).filter (· ∈ taken failures)

theorem byStart_kept (failures : List Failure) : byStart (kept failures) = taken failures := by
  have among : kept failures =
      ((numbered failures).filter (·.failure.isFixable)).filter (· ∈ taken failures) := by
    rw [kept, List.filter_filter]
    refine List.filter_congr fun c _ => ?_
    simpa using fun member => (fixable_of_taken member).2
  rw [among, byStart, mergeSort_filter (le_key_trans Candidate.start)
    (le_key_total Candidate.start) ((numbered_pairwise failures).filter _)]
  exact filter_mem_taken failures

theorem byStart_taken (failures : List Failure) : byStart (taken failures) = taken failures := by
  have sorted := (candidates_ranked failures).start_le.sublist (taken_greedily failures).sublist
  exact List.mergeSort_of_pairwise (sorted.imp fun le => by simpa using le)

section Taken

variable {failures : List Failure} {order : List Candidate} (sorted : byStart order = taken failures)
include sorted

theorem filter_isFixable_of_byStart : order.filter (·.failure.isFixable) = order := by
  refine List.filter_eq_self.mpr fun c member => ?_
  have is_taken : c ∈ taken failures := sorted ▸ List.mem_mergeSort.mpr member
  exact (fixable_of_taken is_taken).2

theorem reconcile_of_byStart :
    reconcile (order.map Candidate.failure) = reconcile failures := by
  rw [reconcile_map_failure, filter_isFixable_of_byStart sorted, sorted, reconcile_eq_taken, taken,
    takenFrom_takenFrom]

end Taken

theorem reconcile_of_perm_taken {failures given : List Failure}
    (distinct : ((taken failures).map Candidate.start).Nodup)
    (shuffled : given.Perm ((taken failures).map Candidate.failure)) :
    reconcile given = reconcile failures := by
  have sorted := byStart_taken failures
  have apart : DistinctStarts ((taken failures).map Candidate.failure) := by
    rw [DistinctStarts, fixesOf_map_failure, filter_isFixable_of_byStart sorted, List.map_map]
    exact distinct
  rw [← reconcile_of_byStart sorted]
  exact (reconcile_eq_of_perm apart (fixesOf_perm shuffled.symm)).symm

/-- Fixes are taken whole, in the order in which they start, the first of them always. One is left out
only for another that is taken before it and ends at its start or behind it, and one that is taken
starts behind the end of the one taken before it. Failures that have nothing to replace make no
difference, and those that are taken lead to the same choice on their own: in the order in which they
are taken, in the order of the list, and in any order if no two of them start at one place. -/
theorem reconcile_greedy (failures : List Failure) :
    Ranked failures (candidates failures) ∧
      TakenGreedily (candidates failures) (taken failures) ∧
      reconcile failures = (taken failures).flatMap Candidate.fix ∧
      (∀ others : List Failure,
        others.filter Failure.isFixable = failures.filter Failure.isFixable →
          reconcile others = reconcile failures) ∧
      reconcile ((taken failures).map Candidate.failure) = reconcile failures ∧
      reconcile ((kept failures).map Candidate.failure) = reconcile failures ∧
      (((taken failures).map Candidate.start).Nodup →
        ∀ given : List Failure, given.Perm ((taken failures).map Candidate.failure) →
          reconcile given = reconcile failures) := by
  refine ⟨candidates_ranked failures, taken_greedily failures, reconcile_eq_taken failures,
    fun others same => ?_, reconcile_of_byStart (byStart_taken failures),
    reconcile_of_byStart (byStart_kept failures),
    fun distinct given shuffled => reconcile_of_perm_taken distinct shuffled⟩
  rw [reconcile, ← fixesOf_filter_isFixable, same, fixesOf_filter_isFixable, reconcile]

end LintBridge
