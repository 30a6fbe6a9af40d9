import LintBridge.Path.Basic
import LintBridge.Service.Diagnostic
import LintBridge.Service.FixAction
/-!
The host of the plugin: its project, its own language service, and its file watches.
-/
namespace LintBridge

structure Project where
  directory : Path
  sourceText : String → Option String
  snapshot : String → Option String
  configPath : Option Path
  installRoot : Option Path

structure LanguageService where
  diagnostics : String → List Diagnostic
  fixes : String → UInt32 → UInt32 → List FixAction
  combined : String → String → List FileChanges

inductive HostedService where
  | plain (own : LanguageService)
  | decorated (own : LanguageService)

namespace HostedService

def isDecorated : HostedService → Bool
  | plain _ => false
  | decorated _ => true

def decorate : HostedService → HostedService
  | plain own => decorated own
  | decorated own => decorated own

end HostedService

inductive WatchEvent where
  | created
  | changed
  | deleted
deriving DecidableEq

inductive WatchKind where
  | lintConfig
  | projectConfig
deriving DecidableEq

structure Watch where
  path : Path
  kind : WatchKind
deriving DecidableEq

end LintBridge
