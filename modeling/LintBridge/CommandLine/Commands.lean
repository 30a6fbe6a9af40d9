import LintBridge.CommandLine.Arguments
import LintBridge.CommandLine.Report
import LintBridge.Edit.Replacement
import LintBridge.Edit.Failure
import LintBridge.Engine.Node
import LintBridge.Pass.Runner
import LintBridge.Service.SettingsReading
/-!
The commands: linting files, fixing them, and showing the configuration of a file. An error ends a
command without a report; what was written before it stays.
-/
namespace LintBridge.CommandLine

inductive CommandError where
  | noDirectory (reason : String)
  | unreadable (path : Path) (reason : String)
  | unreadableSettings (path : Path) (reason : String)
  | malformedSettings (path : Path)
  | invalidSettings (e : ServiceError)
  | lint (e : LintError)

def CommandError.message : CommandError → String
  | noDirectory reason => reason
  | unreadable path reason => "Cannot read " ++ path.text ++ ": " ++ reason
  | unreadableSettings path reason => "Cannot read settings file " ++ path.text ++ ": " ++ reason
  | malformedSettings path => "Invalid settings file " ++ path.text ++ ": the text is malformed"
  | invalidSettings e => e.message
  | lint e => e.message

structure CommandReport where
  result : Except CommandError (String × Bool)
  machine : Machine
  events : List Event

def CommandReport.exitCode (r : CommandReport) : Nat :=
  match r.result with
  | .ok (_, true) => 1
  | .ok (_, false) => 0
  | .error _ => 2

def CommandReport.output (r : CommandReport) : String :=
  match r.result with
  | .ok (text, _) => text
  | .error _ => ""

def settingsRoot (path : Path) : Path :=
  match path.parent? with
  | some dir => if dir.text.isEmpty then ⟨"."⟩ else dir
  | none => ⟨"."⟩

def settingsOfText (path : Path) (text : String) : Except CommandError Settings :=
  match Json.readRelaxed text with
  | .error _ => .error (.malformedSettings path)
  | .ok value =>
    let value := value.getD .null
    match Settings.ofBlock ((Settings.pluginEntry? value).getD value) (settingsRoot path) with
    | .ok s => .ok s
    | .error e => .error (.invalidSettings e)

def loadSettings (m : Machine) (path : Option Path) : Except CommandError Settings :=
  match path with
  | none => .ok .standard
  | some path =>
    match m.readText path with
    | .error e => .error (.unreadableSettings path e.message)
    | .ok text => settingsOfText path text

def absolutePath (m : Machine) (path : Path) : Except CommandError Path :=
  match m.absolute path with
  | .ok path => .ok path
  | .error e => .error (.noDirectory e.message)

def readFile (m : Machine) (path : Path) : Except CommandError (Path × String) := do
  let path ← absolutePath m path
  match m.readText path with
  | .ok text => return (path, text)
  | .error e => throw (.unreadable path e.message)

structure Setting where
  toolchain : Toolchain
  options : PassOptions
  alwaysWarn : Bool

def Setting.of (a : Arguments) (s : Settings) (m : Machine) : Setting :=
  ⟨(Node.ofProgram m a.node).toolchain, s.passOptions a.workspace none,
    s.alwaysShowRuleFailuresAsWarnings⟩

structure LintedFile where
  path : Path
  content : String
  result : PassResult

def LintedFile.failures (f : LintedFile) : List Failure :=
  failuresOf f.path.text f.result.output.failures

def LintedFile.report (f : LintedFile) (alwaysWarn : Bool) : FileReport where
  path := f.path
  findings := f.failures.map
    (Finding.ofFailure (SourceText.ofString f.content) f.path.text alwaysWarn)
  warnings := f.result.warnings

structure Step where
  file : Except CommandError LintedFile
  runner : Runner
  machine : Machine
  events : List Event

def step (s : Setting) (r : Runner) (m : Machine) (path : Path) : Step :=
  match readFile m path with
  | .error e => ⟨.error e, r, m, []⟩
  | .ok (path, content) =>
    let pass := r.run s.toolchain m path (.text content) s.options
    let file := match pass.result with
      | .ok result => .ok ⟨path, content, result⟩
      | .error e => .error (.lint e)
    ⟨file, pass.runner, pass.machine, pass.events⟩

def lintFiles (s : Setting) : Runner → Machine → List Path → List FileReport →
    Except CommandError (List FileReport) × Machine × List Event
  | _, m, [], reports => (.ok reports, m, [])
  | r, m, path :: rest, reports =>
    let step := step s r m path
    match step.file with
    | .error e => (.error e, step.machine, step.events)
    | .ok file =>
      let (result, m, events) :=
        lintFiles s step.runner step.machine rest (reports ++ [file.report s.alwaysWarn])
      (result, m, step.events ++ events)

def LintedFile.fixed? (f : LintedFile) : Option Applied :=
  let done := applyReplacements f.content (toByteOffsets f.content (reconcile f.failures))
  if done.modified then some done else none

def write (dryRun : Bool) (m : Machine) (path : Path) (text : String) :
    Except SystemError Machine :=
  if dryRun then .ok m else m.writeText path text

def fixFiles (s : Setting) (dryRun : Bool) : Runner → Machine → List Path → FixSummary →
    Except CommandError FixSummary × Machine × List Event
  | _, m, [], summary => (.ok summary, m, [])
  | r, m, path :: rest, summary =>
    let step := step s r m path
    match step.file with
    | .error e => (.error e, step.machine, step.events)
    | .ok file =>
      let (summary, m) := match file.fixed? with
        | none => (summary, step.machine)
        | some done =>
          match write dryRun step.machine file.path done.text with
          | .ok m => ({ summary with fixed := summary.fixed ++ [(file.path, done.count)] }, m)
          | .error e =>
            ({ summary with failed := summary.failed ++ [(file.path, e.message)] }, step.machine)
      let (result, m, events) := fixFiles s dryRun step.runner m rest summary
      (result, m, step.events ++ events)

def lint (s : Setting) (m : Machine) (files : List Path) (format : OutputFormat) : CommandReport :=
  let (result, m, events) := lintFiles s .new m files []
  let result := result.map fun reports =>
    (match format with
      | .text => textReport reports
      | .json => jsonReport reports, reports.any FileReport.hasErrors)
  ⟨result, m, events⟩

def fix (s : Setting) (m : Machine) (files : List Path) (dryRun : Bool) : CommandReport :=
  let (result, m, events) := fixFiles s dryRun .new m files .empty
  ⟨result.map fun summary => (summary.report dryRun, !summary.failed.isEmpty), m, events⟩

def configText (file : Path) (resolved : ResolvedConfiguration) : String :=
  (Json.obj [("configFile", Json.ofOption Path.toJson resolved.path),
    ("configuration", Json.ofOption Configuration.toJson resolved.configuration),
    ("file", file.toJson), ("isDefault", .bool resolved.isDefault)]).canonical.pretty ++ "\n"

def config (settings : Settings) (m : Machine) (file : Path) : Except CommandError String := do
  let file ← absolutePath m file
  let resolver := ConfigResolver.new.setStripUnstable settings.disableNoUnusedVariableRule
  match (resolver.resolve .inFiles m file settings.configFile).answer with
  | .ok resolved => return configText file resolved
  | .error e => throw (.lint e)

def run (m : Machine) (a : Arguments) : CommandReport :=
  match loadSettings m a.settings with
  | .error e => ⟨.error e, m, []⟩
  | .ok settings =>
    match a.command with
    | .lint files format => lint (.of a settings m) m files format
    | .fix files dryRun => fix (.of a settings m) m files dryRun
    | .config file => ⟨(config settings m file).map fun text => (text, false), m, []⟩

end LintBridge.CommandLine
