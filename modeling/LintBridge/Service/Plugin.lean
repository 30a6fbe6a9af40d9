import LintBridge.Pass.Runner
import LintBridge.Service.Host
import LintBridge.Service.SettingsReading
/-!
The plugin of one project: it adds lint diagnostics and actions to those of the host's language
service, keeps the problems of the last pass over each file, and watches the configuration files that
it has used. Trouble in a pass leaves the host's own answers as they are.
-/
namespace LintBridge

structure Plugin where
  settings : Settings
  runner : Runner
  problems : Dictionary ProblemStore
  watched : List Path

/-- What a request leaves: its answer, the plugin and the machine, the watches that it has registered,
how often it has asked the host to refresh, and all that was asked of engines. -/
structure Served (α : Type) where
  answer : α
  plugin : Plugin
  machine : Machine
  registered : List Watch
  refreshes : Nat
  events : List Event

namespace Plugin

def new (settings : Settings) : Plugin := ⟨settings, .new, .empty, []⟩

def isWatching (p : Plugin) (path : Path) : Bool := p.watched.any (·.same path)

def ensureWatching (p : Plugin) (w : Watch) : Plugin × List Watch :=
  if p.isWatching w.path then (p, [])
  else ({ p with watched := p.watched ++ [w.path] }, [w])

def watchProject (p : Plugin) (project : Project) : Plugin × List Watch :=
  match project.configPath with
  | some path => p.ensureWatching ⟨path, .projectConfig⟩
  | none => (p, [])

/-- A plugin with the settings of the project configuration, which it watches. Where no settings are
given, each option has its standard value. -/
def ofProject (project : Project) (m : Machine) : Except ServiceError (Plugin × List Watch) :=
  match project.configPath with
  | none => .ok (new .standard, [])
  | some path =>
    match Settings.ofProjectFile m path project.directory with
    | .error e => .error e
    | .ok settings => .ok ((new (settings.getD .standard)).watchProject project)

def withSettings (p : Plugin) (settings : Settings) : Plugin := { p with settings := settings }

def setSettings (p : Plugin) (m : Machine) (settings : Settings) : Served Unit :=
  ⟨(), p.withSettings settings, m, [], 1, []⟩

/-- Reads new settings from a block, and has the host refresh. A block with an error changes
nothing. -/
def configure (p : Plugin) (project : Project) (m : Machine) (block : Json) :
    Served (Except ServiceError Unit) :=
  match Settings.ofBlock block project.directory with
  | .error e => ⟨.error e, p, m, [], 0, []⟩
  | .ok settings => ⟨.ok (), p.withSettings settings, m, [], 1, []⟩

/-- Takes notice of what has happened to a watched file. Only changes matter: of a lint configuration
the runner forgets what it has read, and of the project configuration the settings are read again. -/
def onWatch (p : Plugin) (project : Project) (m : Machine) (kind : WatchKind) (path : Path)
    (event : WatchEvent) : Served Unit :=
  let unchanged : Served Unit := ⟨(), p, m, [], 0, []⟩
  match event, kind with
  | .changed, .lintConfig => ⟨(), { p with runner := p.runner.onConfigChange }, m, [], 1, []⟩
  | .changed, .projectConfig =>
    match Settings.ofProjectFile m path project.directory with
    | .ok (some settings) => ⟨(), p.withSettings settings, m, [], 1, []⟩
    | _ => unchanged
  | _, _ => unchanged

def dispose (p : Plugin) : Plugin × List Path := ({ p with watched := [] }, p.watched)

def configName : String := "tslint.json"

/-- Whether a project is evidently linted: the configuration of the pass, or one beside the project,
is there. -/
def isLinted (project : Project) (m : Machine) (configPath : Option Path) : Bool :=
  configPath.any m.existsAt || m.existsAt (project.directory.child configName)

def warningDiagnostics (project : Project) (m : Machine) (result : PassResult) (file : String) :
    List Diagnostic :=
  if isLinted project m result.configPath then
    result.warnings.map fun warning => Diagnostic.ofWarning warning file
  else []

def program (project : Project) : Program := ⟨project.directory, project.sourceText⟩

def record (p : Plugin) (file : String) (result : PassResult) : Plugin × List Watch :=
  let (p, registered) := match result.configPath with
    | some path => p.ensureWatching ⟨path, .lintConfig⟩
    | none => (p, [])
  let store := ProblemStore.ofFailures (failuresOf file result.output.failures)
  ({ p with problems := p.problems.insert file store }, registered)

def diagnosticsOf (project : Project) (m : Machine) (alwaysWarn : Bool) (file : String)
    (result : PassResult) : List Diagnostic :=
  warningDiagnostics project m result file
    ++ (failuresOf file result.output.failures).map fun f => Diagnostic.ofFailure f file alwaysWarn

def lint (p : Plugin) (t : Toolchain) (project : Project) (m : Machine) (file : String) :
    Served (List Diagnostic) :=
  let report := p.runner.run t m ⟨file⟩ (.program (program project))
    (p.settings.passOptions (some project.directory) project.installRoot)
  let p := { p with runner := report.runner }
  match report.result with
  | .error _ => ⟨[], p, report.machine, [], 0, report.events⟩
  | .ok result =>
    let (p, registered) := p.record file result
    ⟨diagnosticsOf project report.machine p.settings.alwaysShowRuleFailuresAsWarnings file result,
      p, report.machine, registered, 0, report.events⟩

/-- The lint diagnostics of a file. There are none while they are suppressed, and none for an ignored
declaration file; `hostReported` says whether the host has diagnostics of its own. -/
def lintDiagnostics (p : Plugin) (t : Toolchain) (project : Project) (m : Machine) (file : String)
    (hostReported : Bool) : Served (List Diagnostic) :=
  if p.settings.suppressWhileTypeErrorsPresent && hostReported then ⟨[], p, m, [], 0, []⟩
  else
    let p := { p with problems := p.problems.erase file }
    if p.settings.ignoreDefinitionFiles && (Path.mk file).isDefinitionFile then
      ⟨[], p, m, [], 0, []⟩
    else p.lint t project m file

def diagnostics (p : Plugin) (t : Toolchain) (project : Project) (own : LanguageService)
    (m : Machine) (file : String) : Served (List Diagnostic) :=
  let hostDiagnostics := own.diagnostics file
  if isInMemory file then ⟨hostDiagnostics, p, m, [], 0, []⟩
  else
    let served := p.lintDiagnostics t project m file !hostDiagnostics.isEmpty
    { served with answer := hostDiagnostics ++ served.answer }

def actionsFor (project : Project) (store : ProblemStore) (problem : Problem) (file : String) :
    List FixAction :=
  let fixes :=
    if problem.fixable then
      FixAction.fixProblem problem file :: (FixAction.fixRule? store problem.rule file).toList
    else []
  let disable := match (project.snapshot file).or (project.sourceText file) with
    | some text => [FixAction.disableRule problem file (SourceText.ofString text)]
    | none => []
  fixes ++ FixAction.fixAll store file :: disable

def lintFixes (p : Plugin) (project : Project) (file : String) (start stop : UInt32)
    (hostFixes : Bool) : List FixAction :=
  if p.settings.suppressWhileTypeErrorsPresent && hostFixes then []
  else match p.problems.get? file with
    | none => []
    | some store =>
      match store.get? (start, stop) with
      | none => []
      | some problem => actionsFor project store problem file

def fixes (p : Plugin) (project : Project) (own : LanguageService) (file : String)
    (start stop : UInt32) : List FixAction :=
  let hostFixes := own.fixes file start stop
  if isInMemory file then hostFixes
  else hostFixes ++ p.lintFixes project file start stop !hostFixes.isEmpty

/-- The changes that fix all problems of a kind in a file. Kinds that are not lint rules are for the
host. -/
def combinedFix (p : Plugin) (own : LanguageService) (file id : String) : List FileChanges :=
  match FixAction.ruleOfFixId? id with
  | none => own.combined file id
  | some rule =>
    match p.problems.get? file with
    | some store => FixAction.ruleChanges store rule file
    | none => []

end Plugin
end LintBridge
