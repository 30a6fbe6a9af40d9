import LintBridge.Proofs.Service.Diagnostics
import Mathlib.Data.List.Induction
/-!
Where offered fixes come from. What is recorded for a file was recorded by the last request for its
diagnostics that was not suppressed (`recorded_by_last`), and a request that records a failure shows
it. So a fix is offered for a failure that the user was shown, and was not shown again only because
its diagnostics have been suppressed since (`fixes_shown`).
-/
namespace LintBridge.Plugin

def Quiet (p : Plugin) (file : String) (a : Act) : Prop :=
  ∀ c, a = .diagnose c → c.file = file → p.suppresses c.hostReported = true

def Suppressed (file : String) : Plugin → List Act → Prop
  | _, [] => True
  | p, a :: rest => p.Quiet file a ∧ Suppressed file (p.act a) rest

theorem Suppressed.append {p : Plugin} {file : String} {history : List Act}
    (suppressed : Suppressed file p history) {a : Act} (quiet : (p.after history).Quiet file a) :
    Suppressed file p (history ++ [a]) := by
  induction history generalizing p with
  | nil => exact ⟨quiet, trivial⟩
  | cons first rest ih => exact ⟨suppressed.1, ih suppressed.2 quiet⟩

theorem act_quiet {p : Plugin} {file : String} {a : Act} (quiet : p.Quiet file a) :
    (p.act a).problems.get? file = p.problems.get? file := by
  by_cases concerns : ∃ c, a = .diagnose c ∧ c.file = file
  · obtain ⟨c, rfl, here⟩ := concerns
    have answers := diagnosticsFor_answers p c
    exact congrArg (·.problems.get? file) (answers.of_idle (Or.inr (quiet c rfl here)))
  · exact act_other fun c request here => concerns ⟨c, request, here.symm⟩

/-- A request of a history records a result for a file, and all later ones for the file are
suppressed. -/
structure RecordedBy (p : Plugin) (file : String) (history before : List Act) (c : DiagnosticsCall)
    (later : List Act) (result : PassResult) : Prop where
  splits : history = before ++ .diagnose c :: later
  here : c.file = file
  heard : (p.after before).suppresses c.hostReported = false
  passes : (p.after before).result? c = some result
  suppressed : Suppressed file ((p.after before).act (.diagnose c)) later

theorem RecordedBy.append {p : Plugin} {file : String} {history before : List Act}
    {c : DiagnosticsCall} {later : List Act} {result : PassResult}
    (recorded : RecordedBy p file history before c later result) {a : Act}
    (quiet : (p.after history).Quiet file a) :
    RecordedBy p file (history ++ [a]) before c (later ++ [a]) result := by
  obtain ⟨splits, here, heard, passes, suppressed⟩ := recorded
  refine ⟨by rw [splits, List.append_assoc, List.cons_append], here, heard, passes,
    suppressed.append ?_⟩
  rw [splits, after_append] at quiet
  exact quiet

theorem recorded_by_last {p : Plugin} {file : String} (real : isInMemory file = false)
    (nothing : p.problems.get? file = none) {history : List Act} {store : ProblemStore}
    (recorded : (p.after history).problems.get? file = some store) :
    ∃ before c later result, RecordedBy p file history before c later result ∧
      store = .ofFailures (failuresOf file result.output.failures) := by
  induction history using List.reverseRecOn with
  | nil =>
    rw [show p.after [] = p from rfl, nothing] at recorded
    contradiction
  | append_singleton history a ih =>
    rw [after_append] at recorded
    change ((p.after history).act a).problems.get? file = some store at recorded
    -- Either the act leaves what is recorded for the file, or it is a request that is heard.
    by_cases quiet : (p.after history).Quiet file a
    · rw [act_quiet quiet] at recorded
      obtain ⟨before, c, later, result, by_last, store_eq⟩ := ih recorded
      exact ⟨before, c, _, result, by_last.append quiet, store_eq⟩
    · simp only [Quiet, not_forall, Bool.not_eq_true] at quiet
      obtain ⟨c, rfl, rfl, heard⟩ := quiet
      have answers := diagnosticsFor_answers (p.after history) c
      cases passes : (p.after history).result? c with
      | none =>
        have none := (answers.of_failed real heard passes).2
        simp [act, none] at recorded
      | some result =>
        have some := (answers.of_recorded real heard passes).2
        refine ⟨history, c, [], result, ⟨rfl, rfl, heard, passes, trivial⟩, ?_⟩
        exact Option.some.inj (recorded.symm.trans some)

theorem failure_of_recorded {failures : List Failure} {start stop : UInt32} {problem : Problem}
    (found : (ProblemStore.ofFailures failures).get? (start, stop) = some problem) :
    ∃ f ∈ failures, f.start = start ∧ f.stop = stop := by
  rw [ProblemStore.get?_ofFailures, Option.map_eq_some_iff] at found
  obtain ⟨f, last, -⟩ := found
  obtain ⟨rfl, rfl⟩ : start = f.start ∧ stop = f.stop := by
    simpa using List.find?_some last
  exact ⟨f, List.mem_reverse.mp (List.mem_of_find?_eq_some last), rfl, rfl⟩

theorem ofFailure_mem_shown (p : Plugin) {c : DiagnosticsCall} {result : PassResult} {f : Failure}
    (member : f ∈ failuresOf c.file result.output.failures) :
    Diagnostic.ofFailure f c.file p.settings.alwaysShowRuleFailuresAsWarnings ∈ p.shown c result :=
  List.mem_append_right _ (List.mem_map_of_mem member)

/-- If more than the host's own actions is offered for a range of a file, a request for the
diagnostics of the file has shown a failure of that range, and all requests for them since were
suppressed. -/
theorem fixes_shown {settings : Settings} {history : List Act} {project : Project}
    {own : LanguageService} {file : String} {start stop : UInt32}
    (offered : ((new settings).after history).fixes project own file start stop ≠
      own.fixes file start stop) :
    ∃ before c later, history = before ++ .diagnose c :: later ∧ c.file = file ∧
      ((new settings).after before).suppresses c.hostReported = false ∧
      Suppressed file (((new settings).after before).act (.diagnose c)) later ∧
      ∃ lint, (((new settings).after before).diagnosticsFor c).answer =
          c.own.diagnostics file ++ lint ∧
        ∃ f alwaysWarn, f.start = start ∧ f.stop = stop ∧
          Diagnostic.ofFailure f file alwaysWarn ∈ lint := by
  obtain ⟨actions, fixes⟩ := fixes_host ((new settings).after history) project own file start stop
  have real : isInMemory file = false := by
    by_contra memory
    simp [Plugin.fixes, memory] at offered
  have more : actions ≠ [] := by
    rintro rfl
    exact offered (fixes.trans (List.append_nil _))
  obtain ⟨a, member⟩ := List.exists_mem_of_ne_nil actions more
  obtain ⟨store, problem, recorded, found, -⟩ := recorded_of_mem_fixes fixes member
  obtain ⟨before, c, later, result, ⟨splits, rfl, heard, passes, suppressed⟩, rfl⟩ :=
    recorded_by_last (p := new settings) real rfl recorded
  obtain ⟨f, f_member, f_start, f_stop⟩ := failure_of_recorded found
  have answer := ((diagnosticsFor_answers _ c).of_recorded real heard passes).1
  exact ⟨before, c, later, splits, rfl, heard, suppressed, _, answer, f, _, f_start, f_stop,
    ofFailure_mem_shown _ f_member⟩

def yielding : Settings :=
  { Settings.standard with
    allowWorkspaceLibraryExecution := .allow
    suppressWhileTypeErrorsPresent := true }

def deletion : Failure := ⟨"/w/a.ts", 0, 2, "m", some "semicolon", none, some [⟨0, 2, ""⟩]⟩

def typeError : Diagnostic := ⟨"/w/a.ts", 7, 1, "type mismatch", .error, none, 2322⟩

def loudCall : DiagnosticsCall :=
  { simpleCall [deletion] with
    own := { LanguageService.silent with diagnostics := fun _ => [typeError] } }

theorem fixes_shown_deletion :
    let history : List Act := [.diagnose (simpleCall [deletion]), .diagnose loudCall]
    ((new yielding).after history).fixes .blank .silent "/w/a.ts" 0 2 ≠ [] ∧
      ∃ before c later, history = before ++ .diagnose c :: later ∧ c.file = "/w/a.ts" ∧
        Suppressed "/w/a.ts" (((new yielding).after before).act (.diagnose c)) later := by
  intro history
  have offered : ((new yielding).after history).fixes .blank .silent "/w/a.ts" 0 2 ≠
      LanguageService.silent.fixes "/w/a.ts" 0 2 := by decide +kernel
  obtain ⟨before, c, later, splits, here, -, suppressed, -⟩ := fixes_shown offered
  exact ⟨offered, before, c, later, splits, here, suppressed⟩

/-- A failure is fixed that the last request has not shown, since its answer was the host's alone. -/
theorem fixes_not_shown :
    let p := (new yielding).after [.diagnose (simpleCall [deletion])]
    (p.diagnosticsFor loudCall).answer = [typeError] ∧ ¬ typeError.IsLint loudCall.file ∧
      (p.act (.diagnose loudCall)).fixes .blank .silent loudCall.file 0 2 ≠ [] := by
  refine ⟨by decide +kernel, fun lint => ?_, by decide +kernel⟩
  have source : typeError.source ≠ some Diagnostic.lintSource := by decide
  exact source lint.source

end LintBridge.Plugin
