import LintBridge.Edit.Problems
import LintBridge.Proofs.Dictionary
import Mathlib.Data.List.Induction
import Mathlib.Data.List.Nodup
/-!
Look-ups in stores of problems. What a store has for a range is what was recorded for that very range
last, and of failures with ranges of their own it has every one (`entries_ofFailures`). Look-ups tell
the entries of a store up to their order (`entries_perm_iff`).
-/
namespace LintBridge

def Problem.range (p : Problem) : Range := (p.failure.start, p.failure.stop)

namespace ProblemStore

@[simp] theorem get?_empty (range : Range) : empty.get? range = none := rfl

theorem get?_set (store : ProblemStore) (range other : Range) (problem : Problem) :
    (store.set range problem).get? other =
      if other = range then some problem else store.get? other := by
  unfold get? set
  rw [List.lookup_append, lookup_filter_ne, lookup_cons_eq]
  by_cases here : other = range <;> simp [here]

theorem get?_foldl_set (failures : List Failure) (store : ProblemStore) (range : Range) :
    (failures.foldl (fun store f => store.set (f.start, f.stop) (Problem.ofFailure f)) store).get?
        range =
      ((failures.reverse.find? fun f => range = (f.start, f.stop)).map Problem.ofFailure).or
        (store.get? range) := by
  induction failures generalizing store with
  | nil => rfl
  | cons f rest ih =>
    rw [List.foldl_cons, ih, get?_set, List.reverse_cons, List.find?_append]
    by_cases here : range = (f.start, f.stop)
    · cases rest.reverse.find? fun f => range = (f.start, f.stop) <;> simp [here]
    · simp [here]

/-- The store of failures has the last failure of each range, and nothing for other ranges. -/
theorem get?_ofFailures (failures : List Failure) (range : Range) :
    (ofFailures failures).get? range =
      (failures.reverse.find? fun f => range = (f.start, f.stop)).map Problem.ofFailure := by
  rw [ofFailures, get?_foldl_set, get?_empty, Option.or_none]

theorem get?_ofFailures_isSome {failures : List Failure} {f : Failure} (member : f ∈ failures) :
    ((ofFailures failures).get? (f.start, f.stop)).isSome = true := by
  rw [get?_ofFailures, Option.isSome_map, List.find?_isSome]
  exact ⟨f, List.mem_reverse.mpr member, by simp⟩

theorem mem_values_of_get? {store : ProblemStore} {range : Range} {problem : Problem}
    (found : store.get? range = some problem) : problem ∈ store.values := by
  obtain ⟨before, after, entries, -⟩ := List.lookup_eq_some_iff.mp found
  rw [values, entries]
  simp

/-! ### Failures with ranges of their own -/

def DistinctRanges (failures : List Failure) : Prop :=
  (failures.map fun f => (f.start, f.stop)).Nodup

instance (failures : List Failure) : Decidable (DistinctRanges failures) :=
  inferInstanceAs (Decidable (List.Nodup _))

theorem entries_set_of_new {store : ProblemStore} {range : Range} (new : range ∉ store.entries.map (·.1))
    (problem : Problem) : (store.set range problem).entries = store.entries ++ [(range, problem)] := by
  have kept : store.entries.filter (·.1 != range) = store.entries := by
    refine List.filter_eq_self.mpr fun entry member => ?_
    have different : entry.1 ≠ range := fun same => new (same ▸ List.mem_map_of_mem member)
    simpa using different
  exact congrArg (· ++ [(range, problem)]) kept

theorem entries_ofFailures {failures : List Failure} (distinct : DistinctRanges failures) :
    (ofFailures failures).entries =
      failures.map fun f => ((f.start, f.stop), Problem.ofFailure f) := by
  induction failures using List.reverseRecOn with
  | nil => rfl
  | append_singleton failures f ih =>
    rw [DistinctRanges, List.map_append, List.nodup_append] at distinct
    obtain ⟨before, -, apart⟩ := distinct
    have recorded := ih before
    have new : (f.start, f.stop) ∉ (ofFailures failures).entries.map (·.1) := by
      rw [recorded, List.map_map]
      intro member
      exact apart _ member _ (List.mem_singleton_self _) rfl
    have last : ofFailures (failures ++ [f]) =
        (ofFailures failures).set (f.start, f.stop) (Problem.ofFailure f) := by
      simp [ofFailures]
    rw [last, entries_set_of_new new, recorded, List.map_append]
    rfl

theorem fixable_perm_of_entries {failures : List Failure} (distinct : DistinctRanges failures)
    {store : ProblemStore} (same : store.entries.Perm (ofFailures failures).entries) :
    (store.fixable.map (·.failure)).Perm (failures.filter Failure.isFixable) := by
  have values : store.values.Perm (failures.map Problem.ofFailure) := by
    have mapped := same.map (·.2)
    rwa [entries_ofFailures distinct, List.map_map] at mapped
  have fixable := (values.filter (·.fixable)).map (·.failure)
  rw [List.filter_map, List.map_map] at fixable
  simpa [ProblemStore.fixable, Problem.ofFailure, Function.comp_def] using fixable

/-! ### Entries -/

theorem mem_entries_iff {store : ProblemStore} {range : Range} {problem : Problem} :
    (range, problem) ∈ store.entries ↔ store.get? range = some problem := by
  rw [get?, List.lookup_eq_some_iff]
  constructor
  · intro member
    obtain ⟨before, after, split⟩ := List.append_of_mem member
    refine ⟨before, after, split, fun entry earlier => ?_⟩
    have distinct := store.distinct
    rw [split, List.map_append, List.nodup_append] at distinct
    have apart := distinct.2.2 entry.1 (List.mem_map_of_mem earlier) range (by simp)
    simpa using Ne.symm apart
  · rintro ⟨before, after, split, -⟩
    rw [split]
    simp

theorem entries_perm_iff {store other : ProblemStore} :
    store.entries.Perm other.entries ↔ ∀ range, store.get? range = other.get? range := by
  have nodup (s : ProblemStore) : s.entries.Nodup := .of_map (·.1) s.distinct
  rw [List.perm_ext_iff_of_nodup (nodup store) (nodup other)]
  constructor
  · intro same range
    refine Option.ext fun problem => ?_
    rw [← mem_entries_iff, ← mem_entries_iff]
    exact same (range, problem)
  · rintro same ⟨range, problem⟩
    rw [mem_entries_iff, mem_entries_iff, same]

def OwnRanges (store : ProblemStore) : Prop := ∀ entry ∈ store.entries, entry.1 = entry.2.range

theorem OwnRanges.set {store : ProblemStore} (own : store.OwnRanges) (problem : Problem) :
    (store.set problem.range problem).OwnRanges := by
  intro entry member
  rcases List.mem_append.mp member with kept | new
  · exact own entry (List.mem_filter.mp kept).1
  · rw [List.mem_singleton.mp new]

theorem OwnRanges.of_perm {store other : ProblemStore} (own : store.OwnRanges)
    (same : other.entries.Perm store.entries) : other.OwnRanges :=
  fun entry member => own entry (same.mem_iff.mp member)

theorem OwnRanges.nodup {store : ProblemStore} (own : store.OwnRanges) :
    (store.values.map Problem.range).Nodup := by
  have ranges : store.values.map Problem.range = store.entries.map (·.1) := by
    rw [values, List.map_map]
    exact List.map_congr_left fun entry member => (own entry member).symm
  rw [ranges]
  exact store.distinct

def ofHistory (history : List Problem) : ProblemStore :=
  history.foldl (fun store problem => store.set problem.range problem) empty

theorem ofHistory_ownRanges (history : List Problem) : (ofHistory history).OwnRanges := by
  induction history using List.reverseRecOn with
  | nil => simp [ofHistory, empty, OwnRanges]
  | append_singleton history problem ih =>
    have last : ofHistory (history ++ [problem]) =
        (ofHistory history).set problem.range problem := by
      simp [ofHistory]
    rw [last]
    exact ih.set problem

end ProblemStore
end LintBridge
