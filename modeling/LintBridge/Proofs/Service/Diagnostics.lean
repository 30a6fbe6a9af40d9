import LintBridge.Proofs.Edit.Problems
import LintBridge.Proofs.Pass.History
import LintBridge.Proofs.Service.Actions
/-!
Requests for diagnostics and what they leave. A request is idle, or its pass fails, or its result is
recorded (`diagnosticsFor_answers`), and only requests for a file change what is known of its problems.
So after a pass that has failed the fixes of the file are the host's own, whatever happens then, until
a result is recorded; and a result that was recorded can be looked up failure by failure.
-/
namespace LintBridge

structure DiagnosticsCall where
  toolchain : Toolchain
  project : Project
  own : LanguageService
  machine : Machine
  file : String

def DiagnosticsCall.hostReported (c : DiagnosticsCall) : Bool := !(c.own.diagnostics c.file).isEmpty

structure Diagnostic.IsLint (file : String) (d : Diagnostic) : Prop where
  file : d.file = file
  source : d.source = some lintSource
  code : d.code = lintCode

namespace Plugin

def diagnosticsFor (p : Plugin) (c : DiagnosticsCall) : Served (List Diagnostic) :=
  p.diagnostics c.toolchain c.project c.own c.machine c.file

def ignores (p : Plugin) (file : String) : Bool :=
  p.settings.ignoreDefinitionFiles && (Path.mk file).isDefinitionFile

def report (p : Plugin) (c : DiagnosticsCall) : PassReport :=
  p.runner.run c.toolchain c.machine ⟨c.file⟩ (.program (program c.project))
    (p.settings.passOptions (some c.project.directory) c.project.installRoot)

def result? (p : Plugin) (c : DiagnosticsCall) : Option PassResult :=
  if p.ignores c.file then none else (p.report c).result.toOption

def shown (p : Plugin) (c : DiagnosticsCall) (result : PassResult) : List Diagnostic :=
  diagnosticsOf c.project (p.report c).machine p.settings.alwaysShowRuleFailuresAsWarnings c.file
    result

def forget (p : Plugin) (file : String) : Plugin := { p with problems := p.problems.erase file }

/-! ### One request -/

/-- What a request can answer and leave: it does nothing, or it forgets the problems of the file, or
it records those of a result. -/
inductive Answers (p : Plugin) (c : DiagnosticsCall) : List Diagnostic → Plugin → Prop
  | idle (quiet : isInMemory c.file = true ∨ p.suppresses c.hostReported = true) :
      Answers p c (c.own.diagnostics c.file) p
  | failed (real : isInMemory c.file = false) (heard : p.suppresses c.hostReported = false)
      (fails : p.result? c = none) (runner : Runner) :
      Answers p c (c.own.diagnostics c.file) { p.forget c.file with runner := runner }
  | recorded (real : isInMemory c.file = false) (heard : p.suppresses c.hostReported = false)
      {result : PassResult} (passes : p.result? c = some result) :
      Answers p c (c.own.diagnostics c.file ++ p.shown c result)
        (record { p.forget c.file with runner := (p.report c).runner } c.file result).1

theorem lintDiagnostics_eq (p : Plugin) (c : DiagnosticsCall) :
    p.lintDiagnostics c.toolchain c.project c.machine c.file c.hostReported =
      if p.suppresses c.hostReported then ⟨[], p, c.machine, [], 0, []⟩
      else if p.ignores c.file then ⟨[], p.forget c.file, c.machine, [], 0, []⟩
      else (p.forget c.file).lint c.toolchain c.project c.machine c.file :=
  rfl

theorem ensureWatching_leaves (p : Plugin) (w : Watch) :
    (p.ensureWatching w).1.settings = p.settings ∧ (p.ensureWatching w).1.problems = p.problems ∧
      (p.ensureWatching w).1.runner = p.runner := by
  unfold ensureWatching
  split <;> exact ⟨rfl, rfl, rfl⟩

theorem record_leaves (p : Plugin) (file : String) (result : PassResult) :
    (p.record file result).1.settings = p.settings ∧
      (p.record file result).1.problems =
        p.problems.insert file (.ofFailures (failuresOf file result.output.failures)) ∧
      (p.record file result).1.runner = p.runner := by
  unfold record
  cases result.configPath with
  | none => exact ⟨rfl, rfl, rfl⟩
  | some path =>
    obtain ⟨settings, problems, runner⟩ := p.ensureWatching_leaves ⟨path, .lintConfig⟩
    exact ⟨settings, by simp only [problems], runner⟩

theorem lint_eq (p : Plugin) (c : DiagnosticsCall) :
    (p.forget c.file).lint c.toolchain c.project c.machine c.file =
      let report := p.report c
      let left := { p.forget c.file with runner := report.runner }
      match report.result with
      | .error _ => ⟨[], left, report.machine, [], 0, report.events⟩
      | .ok result =>
        ⟨p.shown c result, (left.record c.file result).1, report.machine,
          (left.record c.file result).2, 0, report.events⟩ := by
  have report_eq : (p.forget c.file).runner.run c.toolchain c.machine ⟨c.file⟩
      (.program (program c.project)) ((p.forget c.file).settings.passOptions
        (some c.project.directory) c.project.installRoot) = p.report c := rfl
  simp only [lint, report_eq]
  cases (p.report c).result with
  | error e => rfl
  | ok result =>
    obtain ⟨settings, -, -⟩ :=
      record_leaves { p.forget c.file with runner := (p.report c).runner } c.file result
    simp only [settings, shown]
    rfl

theorem diagnosticsFor_eq (p : Plugin) (c : DiagnosticsCall) :
    p.diagnosticsFor c =
      if isInMemory c.file then ⟨c.own.diagnostics c.file, p, c.machine, [], 0, []⟩
      else
        let served := p.lintDiagnostics c.toolchain c.project c.machine c.file c.hostReported
        { served with answer := c.own.diagnostics c.file ++ served.answer } :=
  rfl

theorem diagnosticsFor_answers (p : Plugin) (c : DiagnosticsCall) :
    Answers p c (p.diagnosticsFor c).answer (p.diagnosticsFor c).plugin := by
  rw [diagnosticsFor_eq]
  cases memory : isInMemory c.file with
  | true => exact .idle (Or.inl memory)
  | false =>
    simp only [Bool.false_eq_true, if_false, lintDiagnostics_eq]
    cases suppressed : p.suppresses c.hostReported with
    | true =>
      simp only [if_true, List.append_nil]
      exact .idle (Or.inr suppressed)
    | false =>
      cases ignored : p.ignores c.file with
      | true =>
        have fails : p.result? c = none := if_pos ignored
        simp only [Bool.false_eq_true, if_false, if_true, List.append_nil]
        exact .failed memory suppressed fails p.runner
      | false =>
        have result_eq : p.result? c = (p.report c).result.toOption := if_neg (by simp [ignored])
        simp only [Bool.false_eq_true, if_false, lint_eq]
        cases passed : (p.report c).result with
        | error e =>
          have fails : p.result? c = none := by rw [result_eq, passed]; rfl
          simp only [List.append_nil]
          exact .failed memory suppressed fails (p.report c).runner
        | ok result =>
          have passes : p.result? c = some result := by rw [result_eq, passed]; rfl
          exact .recorded memory suppressed passes

theorem shown_isLint (p : Plugin) (c : DiagnosticsCall) (result : PassResult) :
    ∀ d ∈ p.shown c result, d.IsLint c.file := by
  intro d member
  rcases List.mem_append.mp member with warning | failure
  · unfold warningDiagnostics at warning
    split at warning
    · obtain ⟨_, -, rfl⟩ := List.mem_map.mp warning
      exact ⟨rfl, rfl, rfl⟩
    · contradiction
  · obtain ⟨_, -, rfl⟩ := List.mem_map.mp failure
    exact ⟨rfl, rfl, rfl⟩

namespace Answers

variable {p left : Plugin} {c : DiagnosticsCall} {answer : List Diagnostic}

theorem host (answers : Answers p c answer left) :
    ∃ lint, answer = c.own.diagnostics c.file ++ lint ∧ ∀ d ∈ lint, d.IsLint c.file := by
  cases answers with
  | idle => exact ⟨[], by simp, by simp⟩
  | failed => exact ⟨[], by simp, by simp⟩
  | recorded => exact ⟨_, rfl, shown_isLint _ _ _⟩

theorem settings (answers : Answers p c answer left) : left.settings = p.settings := by
  cases answers with
  | idle => rfl
  | failed => rfl
  | recorded => exact (record_leaves _ _ _).1

theorem other (answers : Answers p c answer left) {file : String} (different : file ≠ c.file) :
    left.problems.get? file = p.problems.get? file := by
  have forgotten : (p.forget c.file).problems.get? file = p.problems.get? file :=
    (Dictionary.get?_erase _ _ _).trans (if_neg different)
  cases answers with
  | idle => rfl
  | failed => exact forgotten
  | recorded =>
    rw [(record_leaves _ _ _).2.1, Dictionary.get?_insert, if_neg different]
    exact forgotten

theorem of_failed (answers : Answers p c answer left) (real : isInMemory c.file = false)
    (heard : p.suppresses c.hostReported = false) (fails : p.result? c = none) :
    answer = c.own.diagnostics c.file ∧ left.problems.get? c.file = none := by
  cases answers with
  | idle quiet => simp [real, heard] at quiet
  | failed => exact ⟨rfl, (Dictionary.get?_erase _ _ _).trans (if_pos rfl)⟩
  | recorded _ _ passes => simp [fails] at passes

theorem of_recorded (answers : Answers p c answer left) (real : isInMemory c.file = false)
    (heard : p.suppresses c.hostReported = false) {result : PassResult}
    (passes : p.result? c = some result) :
    answer = c.own.diagnostics c.file ++ p.shown c result ∧
      left.problems.get? c.file =
        some (.ofFailures (failuresOf c.file result.output.failures)) := by
  cases answers with
  | idle quiet => simp [real, heard] at quiet
  | failed _ _ fails => simp [passes] at fails
  | recorded _ _ passes' =>
    obtain rfl := Option.some.inj (passes.symm.trans passes')
    refine ⟨rfl, ?_⟩
    rw [(record_leaves _ _ _).2.1, Dictionary.get?_insert, if_pos rfl]

theorem of_idle (answers : Answers p c answer left)
    (quiet : isInMemory c.file = true ∨ p.suppresses c.hostReported = true) : left = p := by
  cases answers with
  | idle => rfl
  | failed real heard => simp [real, heard] at quiet
  | recorded real heard => simp [real, heard] at quiet

end Answers

/-! ### Histories -/

inductive Act where
  | diagnose (c : DiagnosticsCall)
  | take (settings : Settings)
  | configure (project : Project) (m : Machine) (block : Json)
  | watchEvent (project : Project) (m : Machine) (kind : WatchKind) (path : Path) (event : WatchEvent)
  | watchProject (project : Project)
  | dispose

def act (p : Plugin) : Act → Plugin
  | .diagnose c => (p.diagnosticsFor c).plugin
  | .take settings => p.withSettings settings
  | .configure project m block => (p.configure project m block).plugin
  | .watchEvent project m kind path event => (p.onWatch project m kind path event).plugin
  | .watchProject project => (p.watchProject project).1
  | .dispose => p.dispose.1

def after (p : Plugin) (history : List Act) : Plugin := history.foldl act p

theorem after_append (p : Plugin) (history later : List Act) :
    p.after (history ++ later) = (p.after history).after later :=
  List.foldl_append

def recorded? (p : Plugin) (file : String) : Act → Option PassResult
  | .diagnose c =>
    if c.file = file && !isInMemory c.file && !p.suppresses c.hostReported then p.result? c else none
  | _ => none

def Unrecorded (file : String) : Plugin → List Act → Prop
  | _, [] => True
  | p, a :: rest => p.recorded? file a = none ∧ Unrecorded file (p.act a) rest

/-- What an act can be or leave: a request, an end of all watches, other settings, a runner that has
forgotten what it has read, or a watch of the project configuration. -/
theorem act_cases (p : Plugin) (a : Act) :
    (∃ c, a = .diagnose c) ∨ a = .dispose ∨ (∃ settings, p.act a = p.withSettings settings) ∨
      p.act a = { p with runner := p.runner.onConfigChange } ∨
      ∃ project path, a = .watchProject project ∧ project.configPath = some path ∧
        p.act a = (p.ensureWatching ⟨path, .projectConfig⟩).1 := by
  have unchanged : p = p.withSettings p.settings := rfl
  cases a with
  | diagnose c => exact Or.inl ⟨c, rfl⟩
  | dispose => exact Or.inr (Or.inl rfl)
  | take settings => exact Or.inr (Or.inr (Or.inl ⟨settings, rfl⟩))
  | configure project m block =>
    refine Or.inr (Or.inr (Or.inl ?_))
    simp only [act, Plugin.configure]
    split
    · exact ⟨_, unchanged⟩
    · exact ⟨_, rfl⟩
  | watchEvent project m kind path event =>
    refine Or.inr (Or.inr ?_)
    simp only [act, onWatch]
    split
    · exact Or.inr (Or.inl rfl)
    · split
      · exact Or.inl ⟨_, rfl⟩
      · exact Or.inl ⟨_, unchanged⟩
    · exact Or.inl ⟨_, unchanged⟩
  | watchProject project =>
    refine Or.inr (Or.inr ?_)
    simp only [act, Plugin.watchProject]
    cases config : project.configPath with
    | none => exact Or.inl ⟨_, unchanged⟩
    | some path => exact Or.inr (Or.inr ⟨project, path, rfl, config, rfl⟩)

theorem act_problems (p : Plugin) (a : Act) :
    (∃ c, a = .diagnose c) ∨ (p.act a).problems = p.problems := by
  rcases act_cases p a with request | rfl | ⟨settings, left⟩ | left | ⟨project, path, -, -, left⟩
  · exact Or.inl request
  · exact Or.inr rfl
  · rw [left]
    exact Or.inr rfl
  · rw [left]
    exact Or.inr rfl
  · rw [left]
    exact Or.inr (ensureWatching_leaves p _).2.1

theorem act_other {p : Plugin} {file : String} {a : Act}
    (other : ∀ c, a = .diagnose c → file ≠ c.file) :
    (p.act a).problems.get? file = p.problems.get? file := by
  rcases act_problems p a with ⟨c, rfl⟩ | same
  · exact (diagnosticsFor_answers p c).other (other c rfl)
  · rw [same]

theorem act_unrecorded {p : Plugin} {file : String} {a : Act} (none : p.problems.get? file = none)
    (unrecorded : p.recorded? file a = .none) : (p.act a).problems.get? file = .none := by
  rcases act_problems p a with ⟨c, rfl⟩ | same
  · have answers := diagnosticsFor_answers p c
    change ((p.diagnosticsFor c).plugin).problems.get? file = .none
    by_cases here : file = c.file
    · subst here
      -- An idle request changes nothing, and one that is not recorded has erased the problems.
      by_cases quiet : isInMemory c.file = true ∨ p.suppresses c.hostReported = true
      · rw [answers.of_idle quiet]
        exact none
      · simp only [not_or, Bool.not_eq_true] at quiet
        obtain ⟨real, heard⟩ := quiet
        have fails : p.result? c = .none := by simpa [recorded?, real, heard] using unrecorded
        exact (answers.of_failed real heard fails).2
    · rw [answers.other here]
      exact none
  · rw [same]
    exact none

theorem after_unrecorded {p : Plugin} {file : String} {history : List Act}
    (none : p.problems.get? file = none) (unrecorded : Unrecorded file p history) :
    (p.after history).problems.get? file = .none := by
  induction history generalizing p with
  | nil => exact none
  | cons a rest ih =>
    obtain ⟨now, later⟩ := unrecorded
    exact ih (act_unrecorded none now) later

/-! ### Fixes -/

theorem fixes_host (p : Plugin) (project : Project) (own : LanguageService) (file : String)
    (start stop : UInt32) :
    ∃ actions, p.fixes project own file start stop = own.fixes file start stop ++ actions := by
  unfold fixes
  simp only
  split
  · exact ⟨[], by simp⟩
  · exact ⟨_, rfl⟩

theorem fixes_of_none {p : Plugin} {file : String} (none : p.problems.get? file = none)
    (project : Project) (own : LanguageService) (start stop : UInt32) :
    p.fixes project own file start stop = own.fixes file start stop := by
  have no_fixes (hostFixes : Bool) : p.lintFixes project file start stop hostFixes = [] := by
    unfold lintFixes
    split
    · rfl
    · rw [none]
  unfold fixes
  simp only [no_fixes, List.append_nil, ite_self]

/-! ### What a pass leaves of its file -/

/-- Nothing is recorded for a file, and its fixes are the host's own until a result is recorded. -/
structure Forgets (p : Plugin) (file : String) : Prop where
  store : p.problems.get? file = none
  fixes : ∀ history, Unrecorded file p history → ∀ project own start stop,
    (p.after history).fixes project own file start stop = own.fixes file start stop

/-- Failures are recorded for a file: for each range the last of them, and for no other range anything.
At the range of each of them the fixes are the host's own and then lint actions, that which fixes all
among them. -/
structure Records (p : Plugin) (file : String) (failures : List Failure) (store : ProblemStore) :
    Prop where
  recorded : p.problems.get? file = some store
  ranges : ∀ range, store.get? range =
    (failures.reverse.find? fun f => range = (f.start, f.stop)).map Problem.ofFailure
  fixes : ∀ f ∈ failures, ∀ settings project own,
    (settings.suppressWhileTypeErrorsPresent && !(own.fixes file f.start f.stop).isEmpty) = false →
      ∃ actions, (p.withSettings settings).fixes project own file f.start f.stop =
          own.fixes file f.start f.stop ++ actions ∧
        FixAction.fixAll store file ∈ actions ∧ ∀ a ∈ actions, a.IsLint

theorem forgets_of_none {p : Plugin} {file : String} (none : p.problems.get? file = none) :
    p.Forgets file where
  store := none
  fixes _ unrecorded project own start stop :=
    fixes_of_none (after_unrecorded none unrecorded) project own start stop

theorem records_of_ofFailures {p : Plugin} {file : String} {failures : List Failure}
    (real : isInMemory file = false)
    (recorded : p.problems.get? file = some (.ofFailures failures)) :
    p.Records file failures (.ofFailures failures) where
  recorded := recorded
  ranges := ProblemStore.get?_ofFailures failures
  fixes f member settings project own heard := by
    obtain ⟨problem, found⟩ :=
      Option.isSome_iff_exists.mp (ProblemStore.get?_ofFailures_isSome member)
    have fixes := fixes_of_problem (p := p.withSettings settings) real recorded found heard project
    exact ⟨_, fixes, fixAll_mem_actionsFor _ _ _ _, fun a member => (mem_actionsFor member).isLint⟩

/-- A request for diagnostics adds lint diagnostics to the host's own and leaves the settings and what
is recorded for other files. Unless it is suppressed, a pass that fails leaves the host's own
diagnostics and nothing recorded; else the diagnostics are those of the warnings and of the failures
in the file, in their order, and these failures are recorded. No act takes anything away from the
host's fixes, and only requests for the diagnostics of a file change what is recorded for it. -/
theorem diagnostics_records (p : Plugin) (c : DiagnosticsCall) (real : isInMemory c.file = false) :
    (∃ lint, (p.diagnosticsFor c).answer = c.own.diagnostics c.file ++ lint ∧
        ∀ d ∈ lint, d.IsLint c.file) ∧
      (p.diagnosticsFor c).plugin.settings = p.settings ∧
      (∀ file, file ≠ c.file →
        (p.diagnosticsFor c).plugin.problems.get? file = p.problems.get? file) ∧
      (p.suppresses c.hostReported = false → match p.result? c with
        | none => (p.diagnosticsFor c).answer = c.own.diagnostics c.file ∧
            (p.diagnosticsFor c).plugin.Forgets c.file
        | some result => let failures := failuresOf c.file result.output.failures
            (p.diagnosticsFor c).answer = c.own.diagnostics c.file ++
                (warningDiagnostics c.project (p.report c).machine result c.file ++
                  failures.map fun f => Diagnostic.ofFailure f c.file
                    p.settings.alwaysShowRuleFailuresAsWarnings) ∧
              ∃ store, (p.diagnosticsFor c).plugin.Records c.file failures store) ∧
      (∀ a, (∀ c', a = .diagnose c' → c.file ≠ c'.file) →
        (p.act a).problems.get? c.file = p.problems.get? c.file) ∧
      ∀ project own file start stop, ∃ actions,
        p.fixes project own file start stop = own.fixes file start stop ++ actions := by
  have answers := diagnosticsFor_answers p c
  refine ⟨answers.host, answers.settings, fun file => answers.other, fun heard => ?_,
    fun a => act_other, fixes_host p⟩
  cases passes : p.result? c with
  | none =>
    obtain ⟨answer, store⟩ := answers.of_failed real heard passes
    exact ⟨answer, forgets_of_none store⟩
  | some result =>
    obtain ⟨answer, store⟩ := answers.of_recorded real heard passes
    exact ⟨answer, _, records_of_ofFailures real store⟩

def simpleCall (failures : List Failure) : DiagnosticsCall where
  toolchain := { Toolchain.simple with
    engine := fun path => { Toolchain.simple.engine path with
      lint := fun _ _ => ⟨[], .ok { LintOutput.empty with failures := failures }, []⟩ } }
  project := ⟨⟨"/w"⟩, fun _ => some "", fun _ => none, none, none⟩
  own := ⟨fun _ => [], fun _ _ _ => [], fun _ _ => []⟩
  machine := .simple
  file := "/w/a.ts"

/-- Two failures of one range, of which the second is recorded. -/
theorem diagnostics_records_simple :
    let first : Failure := ⟨"/w/a.ts", 0, 2, "first", none, none, none⟩
    let second : Failure := ⟨"/w/a.ts", 0, 2, "second", none, none, none⟩
    let c := simpleCall [first, second]
    let p := new { Settings.standard with allowWorkspaceLibraryExecution := .allow }
    isInMemory c.file = false ∧ p.suppresses c.hostReported = false ∧
      ∃ store, (p.diagnosticsFor c).plugin.Records c.file [first, second] store ∧
        store.get? (0, 2) = some (.ofFailure second) := by
  intro first second c p
  have real : isInMemory c.file = false := by decide
  have heard : p.suppresses c.hostReported = false := by decide
  have reported : (p.result? c).map (fun result => failuresOf c.file result.output.failures) =
      some [first, second] := by decide +kernel
  have left := (diagnostics_records p c real).2.2.2.1 heard
  refine ⟨real, heard, ?_⟩
  cases passes : p.result? c with
  | none => simp [passes] at reported
  | some result =>
    simp only [passes, Option.map_some, Option.some.injEq] at left reported
    obtain ⟨-, store, records⟩ := left
    rw [reported] at records
    exact ⟨store, records, by rw [records.ranges]; rfl⟩

end Plugin
end LintBridge
