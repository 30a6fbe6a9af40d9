import LintBridge.Edit.Replacement
import LintBridge.Path.Basic
/-!
Failures: violations of a rule at one place of one file. Fixes of several failures may conflict;
`reconcile` takes them in the order of their first starts and leaves out each one that does not fit
after the last replacement taken.
-/
namespace LintBridge

structure Failure where
  fileName : String
  start : UInt32
  stop : UInt32
  message : String
  ruleName : Option String
  severity : Option String
  fix : Option (List Replacement)
deriving DecidableEq, Inhabited

namespace Failure

def replacements (f : Failure) : List Replacement := f.fix.getD []

def isFixable (f : Failure) : Bool := !f.replacements.isEmpty

def rule (f : Failure) : String := f.ruleName.getD ""

def isError (f : Failure) : Bool :=
  match f.severity with
  | some severity => severity.toList.map Char.toLower = ['e', 'r', 'r', 'o', 'r']
  | none => false

end Failure

/-- The failures of a file, by the canonical form of the names. Engines may report failures of other
files. -/
def failuresOf (file : String) (failures : List Failure) : List Failure :=
  failures.filter fun f => Path.canonical f.fileName = Path.canonical file

def fixesOf (failures : List Failure) : List (List Replacement) :=
  (failures.map Failure.replacements).filter (!·.isEmpty)

def firstStart (fix : List Replacement) : UInt32 := (fix.headD default).start

/-- Fixes by the start of their first replacement; ties keep their order. -/
def byFirstStart (fixes : List (List Replacement)) : List (List Replacement) :=
  fixes.mergeSort fun a b => firstStart a ≤ firstStart b

/-- Whether a fix starts after all that has been taken. -/
def fitsAfter (taken fix : List Replacement) : Bool :=
  match taken.getLast? with
  | none => true
  | some last => last.stop < firstStart fix

def takeFix (taken fix : List Replacement) : List Replacement :=
  if fitsAfter taken fix then taken ++ fix else taken

def reconcile (failures : List Failure) : List Replacement :=
  (byFirstStart (fixesOf failures)).foldl takeFix []

end LintBridge
