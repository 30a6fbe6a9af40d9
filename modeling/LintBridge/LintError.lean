import LintBridge.Path.Basic
/-!
What can go wrong when the engine is looked up, configured or run.
-/
namespace LintBridge

inductive LintError where
  | configRead (reason : String)
  | engineMissing (what : String)
  | engineCrash (reason : String)
  | invalidNodePath (path : Path)
  | timeout (limit : Nat)
  | protocol (reason : String)
  | io (reason : String)
  | json
deriving DecidableEq

namespace LintError

def message : LintError → String
  | configRead reason => "Cannot read tslint configuration - '" ++ reason ++ "'"
  | engineMissing what => "Lint engine not found: " ++ what
  | engineCrash reason => "Lint engine crashed: " ++ reason
  | invalidNodePath path => "The setting 'nodePath' refers to '" ++ path.text
      ++ "', but this path does not exist. The setting will be ignored."
  | timeout limit => "Process timed out after " ++ toString limit ++ " ms"
  | protocol reason => "Protocol error: " ++ reason
  | io reason => "I/O error: " ++ reason
  | json => "JSON error: the text has another form than expected"

end LintError
end LintBridge
