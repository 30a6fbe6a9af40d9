import LintBridge.Config.Decoding
import LintBridge.Json.Relaxed
import LintBridge.LintError
import LintBridge.Machine.Basic
import LintBridge.Service.Settings
import LintBridge.Service.SettingsSchema
/-!
Settings as JSON values, and the blocks of settings in project configurations. A block is checked
against the schema before it is read. Objects are taken in their canonical form.
-/
namespace LintBridge

namespace TraceLevel

def name : TraceLevel → String
  | normal => "normal"
  | verbose => "verbose"

def ofName? (text : String) : Option TraceLevel := [normal, verbose].find? (·.name = text)

end TraceLevel

inductive ServiceError where
  | violation (v : SettingsSchema.Violation)
  | unreadable
  | lint (e : LintError)
  | projectConfig (path : Path) (reason : String)

def ServiceError.message : ServiceError → String
  | violation v => "Invalid settings: " ++ v.message
  | unreadable => "Invalid settings: a value has another form than expected"
  | lint e => e.message
  | projectConfig path reason =>
    "Cannot read project configuration " ++ path.text ++ ": " ++ reason

namespace Settings

def flag? : Json → Option Bool
  | .bool value => some value
  | _ => none

def optionalFlag? : Json → Option (Option Bool)
  | .null => some none
  | value => (flag? value).map some

def path? (value : Json) : Option Path := value.str?.map Path.mk

def option? {α : Type} (members : List (String × Json)) (name : String) (standard : α)
    (read : Json → Option α) : Option α :=
  match members.lookup name with
  | none => some standard
  | some value => read value

def ofMembers? (members : List (String × Json)) : Option Settings := do
  return {
    configFile := ← option? members "configFile" none fun v => (path? v).map some
    ignoreDefinitionFiles :=
      ← option? members "ignoreDefinitionFiles" standard.ignoreDefinitionFiles flag?
    alwaysShowRuleFailuresAsWarnings := ← option? members "alwaysShowRuleFailuresAsWarnings"
      standard.alwaysShowRuleFailuresAsWarnings flag?
    suppressWhileTypeErrorsPresent := ← option? members "suppressWhileTypeErrorsPresent"
      standard.suppressWhileTypeErrorsPresent flag?
    jsEnable := ← option? members "jsEnable" standard.jsEnable flag?
    exclude := ← option? members "exclude" standard.exclude OneOrMany.ofJson?
    packageManager := ← option? members "packageManager" standard.packageManager fun v =>
      v.str?.bind PackageManager.ofName?
    allowWorkspaceLibraryExecution := ← option? members "allowWorkspaceLibraryExecution"
      standard.allowWorkspaceLibraryExecution fun v => (optionalFlag? v).map Trust.ofFlag
    disableNoUnusedVariableRule := ← option? members "disableNoUnusedVariableRule"
      standard.disableNoUnusedVariableRule flag?
    validateWithDefaultConfig := ← option? members "validateWithDefaultConfig" none optionalFlag?
    nodePath := ← option? members "nodePath" none fun v => (path? v).map some
    rulesDirectory :=
      ← option? members "rulesDirectory" none fun v => OneOrMany.ofField? (some v)
    traceLevel := ← option? members "traceLevel" standard.traceLevel fun v =>
      v.str?.bind TraceLevel.ofName? }

def ofJson? (value : Json) : Option Settings := value.members?.bind ofMembers?

def locatedIn (s : Settings) (root : Path) : Settings :=
  { s with configFile := s.configFile.map root.join }

def ofBlock (block : Json) (root : Path) : Except ServiceError Settings :=
  match SettingsSchema.violation? block with
  | some v => .error (.violation v)
  | none =>
    match ofJson? block with
    | some s => .ok (s.locatedIn root)
    | none => .error .unreadable

def toJson (s : Settings) : Json :=
  .obj [("configFile", Json.ofOption (fun p => .str p.text) s.configFile),
    ("ignoreDefinitionFiles", .bool s.ignoreDefinitionFiles),
    ("alwaysShowRuleFailuresAsWarnings", .bool s.alwaysShowRuleFailuresAsWarnings),
    ("suppressWhileTypeErrorsPresent", .bool s.suppressWhileTypeErrorsPresent),
    ("jsEnable", .bool s.jsEnable),
    ("exclude", s.exclude.toJson),
    ("packageManager", .str s.packageManager.name),
    ("allowWorkspaceLibraryExecution",
      Json.ofOption .bool s.allowWorkspaceLibraryExecution.toFlag),
    ("disableNoUnusedVariableRule", .bool s.disableNoUnusedVariableRule),
    ("validateWithDefaultConfig", Json.ofOption .bool s.validateWithDefaultConfig),
    ("nodePath", Json.ofOption (fun p => .str p.text) s.nodePath),
    ("rulesDirectory", Json.ofOption OneOrMany.toJson s.rulesDirectory),
    ("traceLevel", .str s.traceLevel.name)]

def pluginNames : List String := ["lintweave", "typescript-tslint-plugin"]

def isPluginEntry (entry : Json) : Bool :=
  match (entry.member? "name").bind Json.str? with
  | some name => pluginNames.contains name
  | none => false

def pluginEntry? (config : Json) : Option Json := do
  let options ← config.member? "compilerOptions"
  let plugins ← options.member? "plugins"
  (← plugins.items?).find? isPluginEntry

def ofProjectText (path : Path) (text : String) (root : Path) :
    Except ServiceError (Option Settings) :=
  match Json.readRelaxed text with
  | .error _ => .error (.projectConfig path "the text is malformed")
  | .ok value =>
    match pluginEntry? (value.getD .null) with
    | none => .ok none
    | some block => (ofBlock block root).map some

def ofProjectFile (m : Machine) (path : Path) (root : Path) :
    Except ServiceError (Option Settings) :=
  match m.readText path with
  | .error e => .error (.projectConfig path e.message)
  | .ok text => ofProjectText path text root

end Settings
end LintBridge
