import LintBridge.Service.Plugin
/-!
The actions that are offered for a range of a file. They are for the problem that is recorded for that
very range (`recorded_of_mem_fixes`), and each is one of four (`mem_actionsFor`). One that has an
identifier fixes all problems of a rule, and a host that asks for the identifier gets the changes of
the action, unless other actions go by that name (`combinedFix_of_fixId`).
-/
namespace LintBridge

namespace FixAction

theorem startsWith_append (start rest : String) : startsWith (start ++ rest) start = true := by
  simp [startsWith, String.toList_append]

def IsLint (a : FixAction) : Prop := startsWith a.fixName namePrefix = true

inductive Offered (store : ProblemStore) (problem : Problem) (file : String) : FixAction → Prop
  | fixProblem (fixable : problem.fixable = true) :
      Offered store problem file (fixProblem problem file)
  | fixRule (fixable : problem.fixable = true) {a : FixAction}
      (several : fixRule? store problem.rule file = some a) : Offered store problem file a
  | fixAll : Offered store problem file (fixAll store file)
  | disableRule (text : SourceText) : Offered store problem file (disableRule problem file text)

theorem fixRule?_eq_some {store : ProblemStore} {rule file : String} {a : FixAction}
    (several : fixRule? store rule file = some a) :
    a.changes = ruleChanges store rule file ∧ a.fixName = ruleFixId rule ∧
      a.fixId = some (ruleFixId rule) := by
  unfold fixRule? at several
  simp only at several
  split at several
  · contradiction
  · obtain rfl := Option.some.inj several
    exact ⟨rfl, rfl, rfl⟩

theorem exists_fixRule? {store : ProblemStore} {rule : String}
    (several : 2 ≤ (store.fixableFor rule).length) (file : String) :
    ∃ a, fixRule? store rule file = some a := by
  have changes : ¬ (ruleChanges store rule file).length < 2 := by
    rw [ruleChanges, List.length_map, inSourceOrder, List.length_mergeSort]
    omega
  exact ⟨_, if_neg changes⟩

theorem Offered.isLint {store : ProblemStore} {problem : Problem} {file : String} {a : FixAction}
    (offered : Offered store problem file a) : a.IsLint := by
  cases offered with
  | fixProblem => exact startsWith_append _ _
  | fixRule _ several =>
    rw [IsLint, (fixRule?_eq_some several).2.1]
    exact startsWith_append _ _
  | fixAll =>
    show startsWith fixAllName namePrefix = true
    decide
  | disableRule text =>
    show startsWith (disablePrefix ++ problem.rule) namePrefix = true
    simp [startsWith, disablePrefix, namePrefix, String.toList_append]

def isReserved (rule : String) : Bool := rule = "fix-all" || startsWith rule "disable:"

theorem ruleFixId_eq_fixAllName (rule : String) : ruleFixId rule = fixAllName ↔ rule = "fix-all" := by
  have name : fixAllName = namePrefix ++ "fix-all" := by decide
  rw [ruleFixId, name, ← String.toList_inj, ← String.toList_inj, String.toList_append,
    String.toList_append]
  exact List.append_right_inj _

theorem startsWith_ruleFixId (rule : String) :
    startsWith (ruleFixId rule) disablePrefix = startsWith rule "disable:" := by
  have name : disablePrefix = namePrefix ++ "disable:" := by decide
  rw [Bool.eq_iff_iff, startsWith, startsWith, List.isPrefixOf_iff_prefix, List.isPrefixOf_iff_prefix,
    ruleFixId, name, String.toList_append, String.toList_append]
  exact List.prefix_append_right_inj _

/-- Of the identifier of a rule the rule can be read, unless it is empty or other actions go by that
name. -/
theorem ruleOfFixId?_ruleFixId (rule : String) :
    ruleOfFixId? (ruleFixId rule) = if isReserved rule || rule.isEmpty then none else some rule := by
  have tagged : startsWith (ruleFixId rule) namePrefix = true := startsWith_append _ _
  have rest : String.ofList ((ruleFixId rule).toList.drop namePrefix.toList.length) = rule := by
    rw [ruleFixId, String.toList_append, List.drop_left, String.ofList_toList]
  simp only [ruleOfFixId?, ruleFixId_eq_fixAllName, startsWith_ruleFixId, tagged, rest, isReserved]
  by_cases all : rule = "fix-all"
  · simp [all]
  · by_cases disables : startsWith rule "disable:" = true <;> simp [all, disables]

end FixAction

def LanguageService.silent : LanguageService := ⟨fun _ => [], fun _ _ _ => [], fun _ _ => []⟩

def Project.blank : Project := ⟨⟨"/w"⟩, fun _ => none, fun _ => none, none, none⟩

namespace Plugin
open FixAction

def suppresses (p : Plugin) (hostReported : Bool) : Bool :=
  p.settings.suppressWhileTypeErrorsPresent && hostReported

theorem mem_actionsFor {project : Project} {store : ProblemStore} {problem : Problem} {file : String}
    {a : FixAction} (member : a ∈ actionsFor project store problem file) :
    Offered store problem file a := by
  unfold actionsFor at member
  rcases List.mem_append.mp member with fix | others
  · split at fix
    · rename_i fixable
      rcases List.mem_cons.mp fix with rfl | rule
      · exact .fixProblem fixable
      · exact .fixRule fixable (Option.mem_toList.mp rule)
    · contradiction
  · rcases List.mem_cons.mp others with rfl | disable
    · exact .fixAll
    · split at disable
      · obtain rfl := List.mem_singleton.mp disable
        exact .disableRule _
      · contradiction

theorem fixAll_mem_actionsFor (project : Project) (store : ProblemStore) (problem : Problem)
    (file : String) : fixAll store file ∈ actionsFor project store problem file :=
  List.mem_append_right _ List.mem_cons_self

variable {p : Plugin} {project : Project} {own : LanguageService} {file : String}
  {start stop : UInt32} {actions : List FixAction} {a : FixAction}

theorem fixes_of_problem {store : ProblemStore} {problem : Problem} (real : isInMemory file = false)
    (recorded : p.problems.get? file = some store) (found : store.get? (start, stop) = some problem)
    (heard : p.suppresses (!(own.fixes file start stop).isEmpty) = false) (project : Project) :
    p.fixes project own file start stop =
      own.fixes file start stop ++ actionsFor project store problem file := by
  have actions : p.lintFixes project file start stop (!(own.fixes file start stop).isEmpty) =
      actionsFor project store problem file := by
    unfold suppresses at heard
    simp only [lintFixes, heard, Bool.false_eq_true, if_false, recorded, found]
  simp only [fixes, real, Bool.false_eq_true, if_false, actions]

theorem mem_fixes_of_fixRule? {store : ProblemStore} {problem : Problem}
    (real : isInMemory file = false) (recorded : p.problems.get? file = some store)
    (found : store.get? (start, stop) = some problem)
    (heard : p.suppresses (!(own.fixes file start stop).isEmpty) = false)
    (fixable : problem.fixable = true) (several : fixRule? store problem.rule file = some a)
    (project : Project) : a ∈ p.fixes project own file start stop := by
  rw [fixes_of_problem real recorded found heard project, actionsFor, several, if_pos fixable]
  simp

theorem recorded_of_mem_fixes
    (fixes : p.fixes project own file start stop = own.fixes file start stop ++ actions)
    (member : a ∈ actions) :
    ∃ store problem, p.problems.get? file = some store ∧ store.get? (start, stop) = some problem ∧
      Offered store problem file a := by
  unfold Plugin.fixes at fixes
  simp only at fixes
  split at fixes
  · obtain rfl : actions = [] := by simpa using fixes
    contradiction
  · obtain rfl := List.append_cancel_left fixes
    unfold lintFixes at member
    split at member
    · contradiction
    · split at member
      · contradiction
      · rename_i store recorded
        split at member
        · contradiction
        · rename_i problem found
          exact ⟨store, problem, recorded, found, mem_actionsFor member⟩

theorem combinedFix_of_ruleOfFixId? {id rule : String} (names : ruleOfFixId? id = some rule)
    (own : LanguageService) {store : ProblemStore} (recorded : p.problems.get? file = some store) :
    p.combinedFix own file id = ruleChanges store rule file := by
  simp only [combinedFix, names, recorded]

theorem combinedFix_of_not_ruleOfFixId? {id : String} (names : ruleOfFixId? id = none)
    (own : LanguageService) : p.combinedFix own file id = own.combined file id := by
  simp only [combinedFix, names]

/-- An action with an identifier is for the rule of the problem at its range. A host that asks for the
identifier gets the changes of the action, whatever its own service would answer; only the names of
other actions are for its own service. -/
theorem combinedFix_of_fixId
    (fixes : p.fixes project own file start stop = own.fixes file start stop ++ actions)
    (member : a ∈ actions) {id : String} (named : a.fixId = some id) :
    ∃ store problem, p.problems.get? file = some store ∧ store.get? (start, stop) = some problem ∧
      id = ruleFixId problem.rule ∧
      (problem.rule ≠ "" → isReserved problem.rule = false →
        ∀ other, p.combinedFix other file id = a.changes) ∧
      (isReserved problem.rule = true →
        ∀ other, p.combinedFix other file id = other.combined file id) := by
  obtain ⟨store, problem, recorded, found, offered⟩ := recorded_of_mem_fixes fixes member
  cases offered with
  | fixProblem => contradiction
  | fixAll => contradiction
  | disableRule => contradiction
  | fixRule fixable several =>
    obtain ⟨changes, -, own_id⟩ := fixRule?_eq_some several
    obtain rfl : ruleFixId problem.rule = id := Option.some.inj (own_id.symm.trans named)
    have names := ruleOfFixId?_ruleFixId problem.rule
    refine ⟨store, problem, recorded, found, rfl, fun given free other => ?_, fun taken other => ?_⟩
    · have ruled : ruleOfFixId? (ruleFixId problem.rule) = some problem.rule := by
        simpa [free, given] using names
      rw [changes, combinedFix_of_ruleOfFixId? ruled other recorded]
    · apply combinedFix_of_not_ruleOfFixId?
      simpa [taken] using names

def recording (failures : List Failure) : Plugin :=
  { new .standard with problems := Dictionary.empty.insert "/w/a.ts" (.ofFailures failures) }

def deletions (ruleName : Option String) : List Failure :=
  [⟨"/w/a.ts", 0, 2, "m", ruleName, none, some [⟨0, 2, ""⟩]⟩,
    ⟨"/w/a.ts", 4, 6, "m", ruleName, none, some [⟨4, 2, ""⟩]⟩]

def fixBoth (rule : String) : FixAction :=
  ⟨"Fix all '" ++ rule ++ "'", ruleFixId rule,
    [⟨"/w/a.ts", [⟨0, 2, ""⟩]⟩, ⟨"/w/a.ts", [⟨4, 2, ""⟩]⟩], some (ruleFixId rule),
    some ("Fix all '" ++ rule ++ "'")⟩

theorem fixBoth_mem_fixes (ruleName : Option String) :
    fixBoth (ruleName.getD "") ∈
      (recording (deletions ruleName)).fixes .blank .silent "/w/a.ts" 0 2 := by
  have of_rule : (ProblemStore.ofFailures (deletions ruleName)).fixableFor (ruleName.getD "") =
      (deletions ruleName).map Problem.ofFailure := by
    simp [ProblemStore.fixableFor, ProblemStore.values, ProblemStore.ofFailures, ProblemStore.set,
      ProblemStore.empty, deletions, Problem.ofFailure, Problem.rule, Failure.rule, Failure.isFixable,
      Failure.replacements]
  have order : inSourceOrder ((deletions ruleName).map Problem.ofFailure) =
      (deletions ruleName).map Problem.ofFailure :=
    List.mergeSort_of_pairwise (by simp [deletions, isBefore, Problem.ofFailure])
  have several : fixRule? (.ofFailures (deletions ruleName)) (ruleName.getD "") "/w/a.ts" =
      some (fixBoth (ruleName.getD "")) := by
    rw [fixRule?, ruleChanges, of_rule, order]
    rfl
  have found : (ProblemStore.ofFailures (deletions ruleName)).get? (0, 2) =
      some (.ofFailure ⟨"/w/a.ts", 0, 2, "m", ruleName, none, some [⟨0, 2, ""⟩]⟩) := rfl
  exact mem_fixes_of_fixRule? (by decide) rfl found rfl rfl several .blank

theorem combinedFix_of_fixId_semicolon :
    let p := recording (deletions (some "semicolon"))
    let a := fixBoth "semicolon"
    (∃ actions, p.fixes .blank .silent "/w/a.ts" 0 2 = [] ++ actions ∧ a ∈ actions) ∧
      a.fixId = some "tslint:semicolon" ∧
      ∀ other, p.combinedFix other "/w/a.ts" "tslint:semicolon" = a.changes := by
  intro p a
  have member : a ∈ p.fixes .blank .silent "/w/a.ts" 0 2 := fixBoth_mem_fixes (some "semicolon")
  have all : p.fixes .blank .silent "/w/a.ts" 0 2 = LanguageService.silent.fixes "/w/a.ts" 0 2 ++
      p.fixes .blank .silent "/w/a.ts" 0 2 := rfl
  have named : a.fixId = some "tslint:semicolon" := by decide
  obtain ⟨store, problem, recorded, found, -, honoured, -⟩ := combinedFix_of_fixId all member named
  obtain rfl := Option.some.inj recorded
  obtain rfl := Option.some.inj found
  exact ⟨⟨_, all, member⟩, named, honoured (by decide) (by decide)⟩

def Delegated (ruleName : Option String) : Prop :=
  ∃ a ∈ (recording (deletions ruleName)).fixes .blank .silent "/w/a.ts" 0 2, ∃ id,
    a.fixId = some id ∧
      (recording (deletions ruleName)).combinedFix .silent "/w/a.ts" id ≠ a.changes ∧
      ∀ other, (recording (deletions ruleName)).combinedFix other "/w/a.ts" id =
        other.combined "/w/a.ts" id

theorem delegated_of_not_ruleOfFixId? {ruleName : Option String}
    (foreign : ruleOfFixId? (ruleFixId (ruleName.getD "")) = none) : Delegated ruleName := by
  refine ⟨fixBoth (ruleName.getD ""), fixBoth_mem_fixes ruleName, _, rfl, ?_,
    fun other => combinedFix_of_not_ruleOfFixId? foreign other⟩
  rw [combinedFix_of_not_ruleOfFixId? foreign]
  simp [LanguageService.silent, fixBoth]

/-- The identifiers of rules that have the name of another action, or no name, lead to the host. -/
theorem combinedFix_delegates :
    Delegated (some "fix-all") ∧ Delegated (some "disable:semicolon") ∧ Delegated none := by
  refine ⟨?_, ?_, ?_⟩ <;>
  · apply delegated_of_not_ruleOfFixId?
    decide

end Plugin
end LintBridge
