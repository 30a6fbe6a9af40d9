import LintBridge.Edit.Decoding
import LintBridge.PackageManager
import LintBridge.Trust
/-!
A lint pass over one file: what it is told, how it can end, and what it says about an engine that is
missing or not trusted.
-/
namespace LintBridge

inductive TraceLevel where
  | normal
  | verbose
deriving DecidableEq, Inhabited

structure PassOptions where
  jsEnable : Bool
  rulesDirectory : List String
  configFile : Option Path
  ignoreDefinitionFiles : Bool
  exclude : List String
  validateWithDefaultConfig : Option Bool
  nodePath : Option Path
  packageManager : PackageManager
  traceLevel : TraceLevel
  workspaceFolder : Option Path
  workspaceTrust : Trust
  hostInstallRoot : Option Path
  stripUnstable : Bool

instance : Inhabited PassOptions :=
  ⟨⟨false, [], none, true, [], none, none, .npm, .normal, none, .unknown, none, true⟩⟩

structure Program where
  directory : Path
  sourceText : String → Option String

inductive LintSource where
  | text (contents : String)
  | program (p : Program)

def LintSource.contents? (source : LintSource) (file : Path) : Option String :=
  match source with
  | text contents => some contents
  | program p => p.sourceText file.text

/-- How a pass ends. Only in the last way has the engine linted the file. -/
inductive PassOutcome where
  | libraryMissing
  | workspaceNotTrusted
  | excluded
  | configError
  | configMissing
  | jsDisabled
  | defaultConfigDisabled
  | linterOptionsExcluded
  | linted
deriving DecidableEq

structure PassResult where
  outcome : PassOutcome
  output : LintOutput
  warnings : List String
  workingDirectory : Option Path
  configPath : Option Path

namespace PassResult

def unlinted (outcome : PassOutcome) (warnings : List String) : PassResult :=
  ⟨outcome, .empty, warnings, none, none⟩

end PassResult

def PassOptions.trust (o : PassOptions) (environment : Option String) : Trust :=
  o.workspaceTrust.orElse (match environment with
    | some text => Trust.parse text
    | none => .unknown)

/-- The directory that relative patterns and the engine start from. -/
def PassOptions.directory? (o : PassOptions) (source : LintSource) : Option Path :=
  match o.workspaceFolder, source with
  | some folder, _ => some folder
  | none, .program p => some p.directory
  | none, .text _ => none

def installMessage (file : Path) (workspaceFolder : Option Path) (manager : PackageManager) :
    String :=
  let failed := "Failed to load the TSLint library for the document " ++ file.text
  let peer := "TSLint has a peer dependency on \x60typescript\x60, make sure that "
    ++ "\x60typescript\x60 is installed as well."
  match workspaceFolder with
  | some _ =>
    "\n".intercalate ["", failed, "",
      "To use TSLint in this workspace please install tslint using '" ++ manager.localInstall
        ++ "' or globally using '" ++ manager.globalInstall ++ "'.",
      peer, "You need to reopen the workspace after installing tslint."]
  | none =>
    "\n".intercalate [failed,
      "To use TSLint for single file install tslint globally using '" ++ manager.globalInstall
        ++ "'.",
      peer, "You need to reopen the editor after installing tslint."]

def untrustedMessage (modulePath : Path) : String :=
  "The TSLint library at '" ++ modulePath.text
    ++ "' belongs to this workspace and is not trusted yet. Set 'allowWorkspaceLibraryExecution' "
    ++ "to true to run it, or to false to use the global installation."

end LintBridge
