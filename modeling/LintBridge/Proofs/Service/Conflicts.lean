import LintBridge.Proofs.Edit.Problems
import LintBridge.Proofs.Edit.Reconcile
import LintBridge.Proofs.Service.Actions
/-!
Conflicts within one action. Where each fix lists its replacements from left to right, the changes of
an action that fixes one problem, fixes everything or disables a rule do not overlap. Those that fix
all problems of a rule are the fixes of its problems side by side, so they do not overlap exactly if no
two of these fixes do (`ruleChanges_noConflict_iff`).
-/
namespace LintBridge
open FixAction

namespace FileChanges

def made (file : String) (changes : List FileChanges) : List Replacement :=
  (changes.filter (·.fileName = file)).flatMap (·.changes)

def NoConflict (file : String) (changes : List FileChanges) : Prop :=
  (made file changes).Pairwise Replacement.Apart

@[simp] theorem made_singleton (file : String) (replacements : List Replacement) :
    made file [⟨file, replacements⟩] = replacements := by
  simp [made]

theorem made_map_changesOf (file : String) (problems : List Problem) :
    made file (problems.map (changesOf file)) = problems.flatMap (·.failure.replacements) := by
  simp [made, changesOf, List.filter_map, Function.comp_def, List.flatMap_map]

theorem noConflict_of_precedes {file : String} {replacements : List Replacement}
    (sorted : replacements.Pairwise Replacement.Precedes) :
    NoConflict file [⟨file, replacements⟩] := by
  rw [NoConflict, made_singleton]
  exact sorted.imp Or.inl

end FileChanges

open FileChanges

def Problem.Apart (a b : Problem) : Prop :=
  ∀ r ∈ a.failure.replacements, ∀ s ∈ b.failure.replacements, r.Apart s

instance (a b : Problem) : Decidable (a.Apart b) :=
  inferInstanceAs (Decidable (∀ _ ∈ _, ∀ _ ∈ _, _))

theorem Problem.Apart.symm {a b : Problem} (apart : a.Apart b) : b.Apart a :=
  fun r r_member s s_member => (apart s s_member r r_member).symm

def ProblemStore.Ordered (store : ProblemStore) : Prop :=
  ∀ problem ∈ store.values, InOrder problem.failure.replacements

instance (store : ProblemStore) : Decidable store.Ordered :=
  inferInstanceAs (Decidable (∀ _ ∈ _, InOrder _))

section

variable {store : ProblemStore} (ordered : store.Ordered) {problem : Problem} (file : String)
include ordered

theorem fixProblem_noConflict (member : problem ∈ store.values) :
    NoConflict file (fixProblem problem file).changes :=
  noConflict_of_precedes (ordered problem member).pairwise

theorem fixAll_noConflict : NoConflict file (fixAll store file).changes := by
  apply noConflict_of_precedes
  apply reconcile_pairwise_of_gap Replacement.Precedes.keepsGaps
  intro f member
  obtain ⟨problem, fixable, rfl⟩ := List.mem_map.mp member
  have member : problem ∈ store.fixable := List.mem_mergeSort.mp fixable
  exact (ordered problem (List.mem_filter.mp member).1).pairwise

theorem ruleChanges_noConflict_iff (rule : String) :
    NoConflict file (ruleChanges store rule file) ↔
      (store.fixableFor rule).Pairwise Problem.Apart := by
  have same := List.mergeSort_perm (store.fixableFor rule) isBefore
  rw [NoConflict, ruleChanges, made_map_changesOf, List.pairwise_flatMap]
  constructor
  · rintro ⟨-, across⟩
    exact (same.pairwise_iff Problem.Apart.symm).mp across
  · intro across
    refine ⟨fun problem member => ?_, (same.pairwise_iff Problem.Apart.symm).mpr across⟩
    have stored := (List.mem_filter.mp (List.mem_mergeSort.mp member)).1
    exact (ordered problem stored).pairwise.imp Or.inl

omit ordered in
theorem disableRule_noConflict (problem : Problem) (text : SourceText) :
    NoConflict file (disableRule problem file text).changes :=
  noConflict_of_precedes (List.pairwise_singleton _ _)

/-- An action for a problem on record does not conflict with itself unless it fixes all problems of a
rule. Such an action, and the answer to a request for its identifier, conflicts with itself exactly if
the fixes of two problems of the rule do. -/
theorem offered_noConflict {p : Plugin} (recorded : p.problems.get? file = some store) :
    (∀ project own start stop actions,
      p.fixes project own file start stop = own.fixes file start stop ++ actions →
      ∀ a ∈ actions, (a.fixId = none → NoConflict file a.changes) ∧
        ∀ id, a.fixId = some id → ∃ rule, id = ruleFixId rule ∧
          (NoConflict file a.changes ↔ (store.fixableFor rule).Pairwise Problem.Apart)) ∧
      ∀ own id rule, ruleOfFixId? id = some rule →
        (NoConflict file (p.combinedFix own file id) ↔
          (store.fixableFor rule).Pairwise Problem.Apart) := by
  refine ⟨fun project own start stop actions fixes a member => ?_, fun own id rule names => ?_⟩
  · obtain ⟨store', problem, recorded', found, offered⟩ := Plugin.recorded_of_mem_fixes fixes member
    obtain rfl := Option.some.inj (recorded.symm.trans recorded')
    cases offered with
    | fixProblem =>
      have stored := ProblemStore.mem_values_of_get? found
      exact ⟨fun _ => fixProblem_noConflict ordered file stored, fun id named => by contradiction⟩
    | fixAll =>
      exact ⟨fun _ => fixAll_noConflict ordered file, fun id named => by contradiction⟩
    | disableRule text =>
      exact ⟨fun _ => disableRule_noConflict file problem text, fun id named => by contradiction⟩
    | fixRule fixable several =>
      obtain ⟨changes, -, own_id⟩ := fixRule?_eq_some several
      refine ⟨fun unnamed => ?_, fun id named => ⟨problem.rule, ?_, ?_⟩⟩
      · simp [own_id] at unnamed
      · exact (Option.some.inj (own_id.symm.trans named)).symm
      · rw [changes]
        exact ruleChanges_noConflict_iff ordered file problem.rule
  · rw [Plugin.combinedFix_of_ruleOfFixId? names own recorded]
    exact ruleChanges_noConflict_iff ordered file rule

end

def overlapping : List Failure :=
  [⟨"/w/a.ts", 0, 10, "m", some "quotes", none, some [⟨0, 10, "x"⟩]⟩,
    ⟨"/w/a.ts", 5, 15, "m", some "quotes", none, some [⟨5, 10, "y"⟩]⟩]

theorem ruleChanges_conflict :
    let p := Plugin.recording overlapping
    (ProblemStore.ofFailures overlapping).Ordered ∧
      (∃ a ∈ p.fixes .blank .silent "/w/a.ts" 0 10, ¬ NoConflict "/w/a.ts" a.changes) ∧
      ¬ NoConflict "/w/a.ts" (p.combinedFix .silent "/w/a.ts" "tslint:quotes") := by
  intro p
  have ordered : (ProblemStore.ofFailures overlapping).Ordered := by decide
  have conflict :
      ¬ NoConflict "/w/a.ts" (ruleChanges (.ofFailures overlapping) "quotes" "/w/a.ts") := by
    rw [ruleChanges_noConflict_iff ordered]
    decide
  refine ⟨ordered, ?_, conflict⟩
  have two : 2 ≤ ((ProblemStore.ofFailures overlapping).fixableFor "quotes").length := by decide
  obtain ⟨a, several⟩ := exists_fixRule? two "/w/a.ts"
  have member : a ∈ p.fixes .blank .silent "/w/a.ts" 0 10 :=
    Plugin.mem_fixes_of_fixRule? (by decide) rfl rfl rfl rfl several .blank
  exact ⟨a, member, by rwa [(fixRule?_eq_some several).1]⟩

theorem offered_noConflict_overlapping :
    let p := Plugin.recording overlapping
    let store := ProblemStore.ofFailures overlapping
    store.Ordered ∧ p.problems.get? "/w/a.ts" = some store ∧
      NoConflict "/w/a.ts" (fixAll store "/w/a.ts").changes ∧
      (NoConflict "/w/a.ts" (p.combinedFix .silent "/w/a.ts" "tslint:quotes") ↔
        (store.fixableFor "quotes").Pairwise Problem.Apart) := by
  intro p store
  have ordered : store.Ordered := by decide
  have recorded : p.problems.get? "/w/a.ts" = some store := rfl
  obtain ⟨offered, combined⟩ := offered_noConflict ordered "/w/a.ts" recorded
  refine ⟨ordered, recorded, ?_, combined .silent "tslint:quotes" "quotes" (by decide)⟩
  have found : store.get? (0, 10) =
      some (.ofFailure ⟨"/w/a.ts", 0, 10, "m", some "quotes", none, some [⟨0, 10, "x"⟩]⟩) := rfl
  have heard : p.suppresses (!(LanguageService.silent.fixes "/w/a.ts" 0 10).isEmpty) = false := rfl
  have fixes := Plugin.fixes_of_problem (by decide) recorded found heard .blank
  exact (offered .blank .silent 0 10 _ fixes _ (Plugin.fixAll_mem_actionsFor _ _ _ _)).1 rfl

end LintBridge
