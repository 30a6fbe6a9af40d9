import LintBridge.Config.Basic
import LintBridge.Pass.Basic
/-!
The settings of the plugin. Each option has a value of its own when it is not given.
-/
namespace LintBridge

structure Settings where
  configFile : Option Path
  ignoreDefinitionFiles : Bool
  alwaysShowRuleFailuresAsWarnings : Bool
  suppressWhileTypeErrorsPresent : Bool
  jsEnable : Bool
  exclude : OneOrMany
  packageManager : PackageManager
  allowWorkspaceLibraryExecution : Trust
  disableNoUnusedVariableRule : Bool
  validateWithDefaultConfig : Option Bool
  nodePath : Option Path
  rulesDirectory : Option OneOrMany
  traceLevel : TraceLevel
deriving DecidableEq

namespace Settings

def standard : Settings where
  configFile := none
  ignoreDefinitionFiles := true
  alwaysShowRuleFailuresAsWarnings := false
  suppressWhileTypeErrorsPresent := false
  jsEnable := false
  exclude := .many []
  packageManager := .npm
  allowWorkspaceLibraryExecution := .unknown
  disableNoUnusedVariableRule := true
  validateWithDefaultConfig := none
  nodePath := none
  rulesDirectory := none
  traceLevel := .normal

instance : Inhabited Settings := ⟨standard⟩

def passOptions (s : Settings) (workspaceFolder hostInstallRoot : Option Path) : PassOptions where
  jsEnable := s.jsEnable
  rulesDirectory := Configuration.entries s.rulesDirectory
  configFile := s.configFile
  ignoreDefinitionFiles := s.ignoreDefinitionFiles
  exclude := s.exclude.toList
  validateWithDefaultConfig := s.validateWithDefaultConfig
  nodePath := s.nodePath
  packageManager := s.packageManager
  traceLevel := s.traceLevel
  workspaceFolder := workspaceFolder
  workspaceTrust := s.allowWorkspaceLibraryExecution
  hostInstallRoot := hostInstallRoot
  stripUnstable := s.disableNoUnusedVariableRule

end Settings
end LintBridge
