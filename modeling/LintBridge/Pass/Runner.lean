import LintBridge.Engine.Locator
import LintBridge.Glob.Match
import LintBridge.Machine.Basic
import LintBridge.Pass.Basic
/-!
Running lint passes. A pass finds and loads the engine, decides whether it may run and whether the
file is of interest, resolves the configuration, and has the engine lint the text. Trouble that is to
be expected, such as a missing engine or an unreadable configuration, becomes a warning of a pass
without failures; all other trouble is an error.
-/
namespace LintBridge

structure Runner where
  locator : Locator
  resolver : ConfigResolver

/-- What a pass leaves: its result, what is remembered, the machine, and all that was asked. -/
structure PassReport where
  result : Except LintError PassResult
  runner : Runner
  machine : Machine
  events : List Event

def PassReport.after (report : PassReport) (events : List Event) : PassReport :=
  { report with events := events ++ report.events }

/-- Whether code of the workspace may run, and nothing if an engine of the workspace must not run
before the user has decided. -/
def permission? (trust : Trust) (library : Library) (host : Option Path) : Option Bool :=
  match trust with
  | .allow => some true
  | .disallow => some false
  | .unknown =>
    if library.source = .workspace then
      if isImplicitlyTrusted library.modulePath host then some true else none
    else some false

namespace PassOptions

def locateOptions (o : PassOptions) (trust : Trust) : LocateOptions :=
  ⟨o.nodePath, o.packageManager, trust ≠ .disallow⟩

def leavesOut (o : PassOptions) (file : Path) (dir : Option Path) : Bool :=
  (o.ignoreDefinitionFiles && file.isDefinitionFile) || isExcluded o.exclude file dir

def skips? (o : PassOptions) (file : Path) (c : Configuration) (isDefault : Bool)
    (configPath : Option Path) : Option PassOutcome :=
  if file.isJsFile && !o.jsEnable then some .jsDisabled
  else if o.validateWithDefaultConfig = some false && isDefault then some .defaultConfigDisabled
  else if isExcluded c.excludedPatterns file (configPath.bind Path.parent?) then
    some .linterOptionsExcluded
  else none

/-- What the engine is given. Without permission, nothing that the workspace could run. -/
def request (o : PassOptions) (file : Path) (contents : String) (c : Configuration)
    (configPath : Option Path) (dir : Option Path) (allowed : Bool) : LintRequest where
  file := file
  contents := contents
  configuration := if allowed then c else c.withoutRulesDirectory
  configPath := configPath
  rulesDirectory := if allowed then o.rulesDirectory else []
  disabledRules := if o.stripUnstable then unstableRules else []
  workingDirectory := dir

end PassOptions

namespace Runner

def new : Runner := ⟨.new, .new⟩

def lint (r : Runner) (m : Machine) (engine : Engine) (request : LintRequest)
    (folder : Option Path) (warnings : List String) : PassReport :=
  let reply := engine.lint m request
  let result := reply.result.map fun output =>
    ⟨.linted, output, warnings ++ reply.warnings, folder, request.configPath⟩
  ⟨result, r, m, .linted request m.workingDirectory :: reply.calls.map .called⟩

def configure (r : Runner) (m : Machine) (engine : Engine) (file : Path) (source : LintSource)
    (o : PassOptions) (allowed : Bool) (warnings : List String) : PassReport :=
  let resolution :=
    (r.resolver.setStripUnstable o.stripUnstable).resolve engine.discovery m file o.configFile
  let r := { r with resolver := resolution.resolver }
  let events := resolution.asked.map (Event.configured · m.workingDirectory)
    ++ resolution.calls.map Event.called
  let ended (outcome : PassOutcome) (warnings : List String) : PassReport :=
    ⟨.ok (.unlinted outcome warnings), r, m, events⟩
  match resolution.answer with
  | .error (.configRead reason) =>
    ended .configError (warnings ++ [(LintError.configRead reason).message])
  | .error e => ⟨.error e, r, m, events⟩
  | .ok resolved =>
    match resolved.configuration with
    | none => ended .configMissing warnings
    | some c =>
      match o.skips? file c resolved.isDefault resolved.path with
      | some outcome => ended outcome warnings
      | none =>
        match source.contents? file with
        | none => ⟨.error (.engineCrash (file.text ++ " is not part of the program")), r, m, events⟩
        | some contents =>
          (r.lint m engine (o.request file contents c resolved.path (o.directory? source) allowed)
            o.workspaceFolder warnings).after events

/-- Does something in the workspace folder if code of the workspace may run and the folder can be
entered, and where the machine is otherwise. The machine then goes back. -/
def inWorkspace (m : Machine) (folder : Option Path) (allowed : Bool)
    (act : Machine → PassReport) : PassReport :=
  match (if allowed then folder else none).map m.hold with
  | some (.ok held) =>
    let report := act held.machine
    { report with machine := report.machine.goBack held.previous }
  | _ => act m

def runWith (r : Runner) (t : Toolchain) (m : Machine) (library : Library) (file : Path)
    (source : LintSource) (o : PassOptions) (allowed : Bool) (warnings : List String) :
    PassReport :=
  let loaded := r.locator.load t m library.modulePath
  let r := { r with locator := loaded.locator }
  match loaded.engine with
  | none =>
    ⟨.ok (.unlinted .libraryMissing
      (warnings ++ [installMessage file o.workspaceFolder o.packageManager])), r, m, loaded.events⟩
  | some engine =>
    if o.leavesOut file (o.directory? source) then
      ⟨.ok (.unlinted .excluded warnings), r, m, loaded.events⟩
    else
      (inWorkspace m o.workspaceFolder allowed fun m =>
        r.configure m engine file source o allowed warnings).after loaded.events

def run (r : Runner) (t : Toolchain) (m : Machine) (file : Path) (source : LintSource)
    (o : PassOptions) : PassReport :=
  let trust := o.trust (m.environmentValue? Trust.variableName)
  let located := r.locator.locate t m file (o.locateOptions trust)
  let r := { r with locator := located.locator }
  match located.library with
  | none =>
    ⟨.ok (.unlinted .libraryMissing
      (located.warnings ++ [installMessage file o.workspaceFolder o.packageManager])), r, m,
      located.events⟩
  | some library =>
    match permission? trust library o.hostInstallRoot with
    | none =>
      ⟨.ok (.unlinted .workspaceNotTrusted
        (located.warnings ++ [untrustedMessage library.modulePath])), r, m, located.events⟩
    | some allowed =>
      (r.runWith t m library file source o allowed located.warnings).after located.events

def onConfigChange (r : Runner) : Runner := { r with resolver := r.resolver.flush }

end Runner
end LintBridge
