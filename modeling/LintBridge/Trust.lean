import LintBridge.Path.Basic
import LintBridge.Text.Pieces
/-!
Whether an engine that belongs to the workspace may run.
-/
namespace LintBridge

inductive Trust where
  | allow
  | disallow
  | unknown
deriving DecidableEq, Inhabited

namespace Trust

def ofFlag : Option Bool → Trust
  | some true => allow
  | some false => disallow
  | none => unknown

def toFlag : Trust → Option Bool
  | allow => some true
  | disallow => some false
  | unknown => none

/-- Reads a decision: `true` or `1`, `false` or `0` in any ASCII case, with blanks around them. -/
def parse (text : String) : Trust :=
  let word := (Text.trim text.toList).map Char.toLower
  if word = ['t', 'r', 'u', 'e'] ∨ word = ['1'] then allow
  else if word = ['f', 'a', 'l', 's', 'e'] ∨ word = ['0'] then disallow
  else unknown

def variableName : String := "TS_TSLINT_ENABLE_WORKSPACE_LIBRARY_EXECUTION"

def orElse (first second : Trust) : Trust :=
  match first with
  | unknown => second
  | known => known

end Trust

/-- The directory of installed modules that a path lies in, the nearest one. -/
def modulesRoot? (p : Path) : Option Path :=
  p.ancestors.find? fun dir => dir.fileName? = some "node_modules"

/-- Whether an engine is installed beside the running host, which the user already trusts. -/
def isImplicitlyTrusted (engine : Path) (host : Option Path) : Bool :=
  match modulesRoot? engine, host.bind modulesRoot? with
  | some engineRoot, some hostRoot => engineRoot.same hostRoot
  | _, _ => false

/-- Whether a module is installed for a directory: its modules directory belongs to the directory or
to one above it. -/
def isWorkspaceModule (module dir : Path) : Bool :=
  match (modulesRoot? module).bind Path.parent? with
  | some owner => dir.startsWith owner
  | none => false

end LintBridge
