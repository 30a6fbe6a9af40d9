import LintBridge.Proofs.Edit.Reconcile
import LintBridge.Proofs.Service.Conflicts
import LintBridge.Proofs.Service.Diagnostics
/-!
The action that fixes everything, beside the fixes of a whole list of failures. The action chooses among
the problems of a store, which holds them in an order of its own and hands them out in the order of
their ranges. Where neither ranges nor starts of fixes coincide, none of this makes a difference
(`fixAll_eq_reconcile`).
-/
namespace LintBridge
open FixAction

theorem inSourceOrder_perm (problems : List Problem) : (inSourceOrder problems).Perm problems :=
  List.mergeSort_perm _ _

theorem changes_fixAll {failures given : List Failure}
    (ranges : ProblemStore.DistinctRanges failures) (starts : DistinctStarts failures)
    {store : ProblemStore} (same : store.entries.Perm (ProblemStore.ofFailures failures).entries)
    (shuffled : given.Perm failures) (file : String) :
    (fixAll store file).changes = [⟨file, reconcile given⟩] := by
  have candidates : ((inSourceOrder store.fixable).map (·.failure)).Perm
      (failures.filter Failure.isFixable) :=
    ((inSourceOrder_perm _).map _).trans (ProblemStore.fixable_perm_of_entries ranges same)
  have fixes : (fixesOf failures).Perm
      (fixesOf ((inSourceOrder store.fixable).map (·.failure))) := by
    rw [← fixesOf_filter_isFixable failures]
    exact (fixesOf_perm candidates).symm
  have stored := reconcile_eq_of_perm starts fixes
  have listed := reconcile_eq_of_perm starts (fixesOf_perm shuffled.symm)
  exact congrArg (fun chosen => [FileChanges.mk file chosen]) (stored.symm.trans listed)

/-- A request for diagnostics records the failures in the file. If no two of them have one range and
no two of their fixes start at one place, fixing everything makes the replacements that are chosen
among the failures themselves, whatever the order in which the store holds its problems and whatever
the order in which the failures are listed. -/
theorem fixAll_eq_reconcile (p : Plugin) (c : DiagnosticsCall) (real : isInMemory c.file = false)
    (heard : p.suppresses c.hostReported = false) {result : PassResult}
    (passes : p.result? c = some result) :
    let failures := failuresOf c.file result.output.failures
    ProblemStore.DistinctRanges failures → DistinctStarts failures →
      ∃ store, (p.diagnosticsFor c).plugin.problems.get? c.file = some store ∧
        ∀ other : ProblemStore, other.entries.Perm store.entries →
          ∀ given, given.Perm failures →
            (fixAll other c.file).changes = [⟨c.file, reconcile given⟩] := by
  intro failures ranges starts
  have recorded := ((p.diagnosticsFor_answers c).of_recorded real heard passes).2
  exact ⟨_, recorded, fun other same given shuffled =>
    changes_fixAll ranges starts same shuffled c.file⟩

theorem fixAll_eq_reconcile_overlapping :
    let c := Plugin.simpleCall overlapping.reverse
    let p := Plugin.new { Settings.standard with allowWorkspaceLibraryExecution := .allow }
    isInMemory c.file = false ∧ p.suppresses c.hostReported = false ∧
      ProblemStore.DistinctRanges overlapping.reverse ∧ DistinctStarts overlapping.reverse ∧
      ∃ store, (p.diagnosticsFor c).plugin.problems.get? "/w/a.ts" = some store ∧
        (fixAll store "/w/a.ts").changes = [⟨"/w/a.ts", [⟨0, 10, "x"⟩]⟩] := by
  intro c p
  have real : isInMemory c.file = false := by decide
  have heard : p.suppresses c.hostReported = false := by decide
  have ranges : ProblemStore.DistinctRanges overlapping.reverse := by decide
  have starts : DistinctStarts overlapping.reverse := by decide
  have reported : (p.result? c).map (fun result => failuresOf c.file result.output.failures) =
      some overlapping.reverse := by decide +kernel
  have chosen : reconcile overlapping = [⟨0, 10, "x"⟩] := by
    rw [reconcile, byFirstStart, List.mergeSort_of_pairwise (by decide)]
    decide
  refine ⟨real, heard, ranges, starts, ?_⟩
  cases passes : p.result? c with
  | none => simp [passes] at reported
  | some result =>
    have chooses := fixAll_eq_reconcile p c real heard passes
    simp only [passes, Option.map_some, Option.some.injEq] at reported
    simp only [reported] at chooses
    obtain ⟨store, recorded, made⟩ := chooses ranges starts
    refine ⟨store, recorded, ?_⟩
    rw [← chosen]
    exact made store (.refl _) overlapping (List.reverse_perm overlapping).symm

end LintBridge
