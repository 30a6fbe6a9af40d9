import LintBridge.Proofs.Edit.Problems
import LintBridge.Proofs.StableSort
import LintBridge.Service.FixAction
/-!
Actions for all problems of a file, or all of a rule, go through the problems in the order of the source.
Problems with ranges of their own have one such order (`inSourceOrder_eq_of_perm`), so it makes no
difference in which order a store holds them, nor what it held before (`actions_of_history`).
-/
namespace LintBridge
open FixAction

theorem isBefore_iff {a b : Problem} :
    isBefore a b = true ↔ a.failure.start.toNat < b.failure.start.toNat ∨
      a.failure.start = b.failure.start ∧ a.failure.stop.toNat ≤ b.failure.stop.toNat := by
  unfold isBefore
  split
  · rename_i same
    simp [same, UInt32.le_iff_toNat_le]
  · rename_i apart
    rw [decide_eq_true_eq, UInt32.le_iff_toNat_le, Nat.le_iff_lt_or_eq]
    simp [apart, UInt32.toNat_inj]

theorem isBefore_trans (a b c : Problem) (ab : isBefore a b = true) (bc : isBefore b c = true) :
    isBefore a c = true := by
  rw [isBefore_iff] at *
  rcases ab with ab | ⟨ab, ab'⟩ <;> rcases bc with bc | ⟨bc, bc'⟩
  · exact .inl (Nat.lt_trans ab bc)
  · exact .inl (bc ▸ ab)
  · exact .inl (ab ▸ bc)
  · exact .inr ⟨ab.trans bc, Nat.le_trans ab' bc'⟩

theorem isBefore_total (a b : Problem) : (isBefore a b || isBefore b a) = true := by
  rw [Bool.or_eq_true, isBefore_iff, isBefore_iff]
  rcases Nat.lt_trichotomy a.failure.start.toNat b.failure.start.toNat with less | same | greater
  · exact .inl (.inl less)
  · have same := UInt32.toNat_inj.mp same
    rcases Nat.le_total a.failure.stop.toNat b.failure.stop.toNat with le | ge
    · exact .inl (.inr ⟨same, le⟩)
    · exact .inr (.inr ⟨same.symm, ge⟩)
  · exact .inr (.inl greater)

theorem range_eq_of_isBefore {a b : Problem} (ab : isBefore a b = true) (ba : isBefore b a = true) :
    a.range = b.range := by
  rw [isBefore_iff] at ab ba
  rcases ab with ab | ⟨same, ab⟩
  · rcases ba with ba | ⟨same, -⟩
    · omega
    · rw [same] at ab
      omega
  · have stop : a.failure.stop.toNat = b.failure.stop.toNat := by
      rcases ba with ba | ⟨-, ba⟩
      · rw [same] at ba
        omega
      · omega
    rw [Problem.range, Problem.range, same, UInt32.toNat_inj.mp stop]

theorem inSourceOrder_eq_of_perm {problems others : List Problem}
    (distinct : (problems.map Problem.range).Nodup) (same : problems.Perm others) :
    inSourceOrder problems = inSourceOrder others :=
  mergeSort_eq_of_perm isBefore_trans isBefore_total (fun _ _ => range_eq_of_isBefore) distinct same

theorem inSourceOrder_filter_eq {store other : ProblemStore} (own : store.OwnRanges)
    (same : store.entries.Perm other.entries) (wanted : Problem → Bool) :
    inSourceOrder (store.values.filter wanted) = inSourceOrder (other.values.filter wanted) := by
  have values : store.values.Perm other.values := same.map Prod.snd
  refine inSourceOrder_eq_of_perm ?_ (values.filter wanted)
  exact (List.filter_sublist.map Problem.range).nodup own.nodup

theorem actions_eq_of_perm {store other : ProblemStore} (own : store.OwnRanges)
    (same : store.entries.Perm other.entries) (file : String) :
    fixAll store file = fixAll other file ∧ ∀ rule,
      ruleChanges store rule file = ruleChanges other rule file ∧
        fixRule? store rule file = fixRule? other rule file := by
  have all : inSourceOrder store.fixable = inSourceOrder other.fixable :=
    inSourceOrder_filter_eq own same _
  have changes (rule : String) : ruleChanges store rule file = ruleChanges other rule file := by
    have ruled : inSourceOrder (store.fixableFor rule) = inSourceOrder (other.fixableFor rule) :=
      inSourceOrder_filter_eq own same _
    rw [ruleChanges, ruled, ruleChanges]
  refine ⟨?_, fun rule => ⟨changes rule, ?_⟩⟩
  · rw [fixAll, all, fixAll]
  · rw [fixRule?, changes, fixRule?]

/-- Problems are recorded for their own ranges. However two histories went, if they end with the same
look-ups, all stores with these entries in any order lead to the same actions. -/
theorem actions_of_history {history history' : List Problem}
    (same : ∀ range, (ProblemStore.ofHistory history).get? range =
      (ProblemStore.ofHistory history').get? range) {store store' : ProblemStore}
    (order : store.entries.Perm (ProblemStore.ofHistory history).entries)
    (order' : store'.entries.Perm (ProblemStore.ofHistory history').entries) (file : String) :
    fixAll store file = fixAll store' file ∧ ∀ rule,
      ruleChanges store rule file = ruleChanges store' rule file ∧
        fixRule? store rule file = fixRule? store' rule file := by
  have own : store.OwnRanges := (ProblemStore.ofHistory_ownRanges history).of_perm order
  have entries := order.trans ((ProblemStore.entries_perm_iff.mpr same).trans order'.symm)
  exact actions_eq_of_perm own entries file

def tiedProblem (stop : UInt32) (text : String) : Problem :=
  .ofFailure ⟨"a.ts", 0, stop, "m", some "quotes", none, some [⟨5, 1, text⟩]⟩

theorem actions_of_history_tied :
    let history := [tiedProblem 2 "old", tiedProblem 3 "b", tiedProblem 2 "a"]
    let history' := [tiedProblem 2 "a", tiedProblem 3 "b"]
    let store := ProblemStore.ofHistory history
    let store' := ProblemStore.ofHistory history'
    (∀ range, store.get? range = store'.get? range) ∧ store.values ≠ store'.values ∧
      fixAll store "a.ts" = fixAll store' "a.ts" ∧
      fixRule? store "quotes" "a.ts" = fixRule? store' "quotes" "a.ts" := by
  intro history history' store store'
  have same : ∀ range, store.get? range = store'.get? range :=
    ProblemStore.entries_perm_iff.mp (by decide)
  obtain ⟨all, ruled⟩ := actions_of_history same (.refl _) (.refl _) "a.ts"
  exact ⟨same, by decide, all, (ruled "quotes").2⟩

end LintBridge
