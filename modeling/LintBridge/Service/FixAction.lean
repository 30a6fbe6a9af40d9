import LintBridge.Edit.Problems
import LintBridge.Edit.Failure
import LintBridge.Edit.Decoding
import LintBridge.Text.Encoding
/-!
Actions that a host offers for the problems of a file: fixing one problem, all problems of its rule,
all problems that can be fixed, or disabling the rule for a line.
-/
namespace LintBridge

structure FileChanges where
  fileName : String
  changes : List Replacement
deriving DecidableEq

structure FixAction where
  description : String
  fixName : String
  changes : List FileChanges
  fixId : Option String
  fixAllDescription : Option String
deriving DecidableEq

namespace FileChanges

def changeJson (r : Replacement) : Json :=
  .obj [("span", .obj [("start", .int r.start.toNat), ("length", .int r.length.toNat)]),
    ("newText", .str r.text)]

def change? (value : Json) : Option Replacement := do
  let span ← value.member? "span"
  return {
    start := ← (← span.member? "start").word32?
    length := ← (← span.member? "length").word32?
    text := ← (← value.member? "newText").str? }

def toJson (c : FileChanges) : Json :=
  .obj [("fileName", .str c.fileName), ("textChanges", .arr (c.changes.map changeJson))]

def ofJson? (value : Json) : Option FileChanges := do
  let fileName ← (← value.member? "fileName").str?
  let changes ← (← (← value.member? "textChanges").items?).mapM change?
  return ⟨fileName, changes⟩

def combinedJson (changes : List FileChanges) : Json :=
  .obj [("changes", .arr (changes.map toJson))]

def combined? (value : Json) : Option (List FileChanges) := do
  (← (← value.member? "changes").items?).mapM ofJson?

end FileChanges

namespace FixAction

def namePrefix : String := "tslint:"

def fixAllName : String := "tslint:fix-all"

def disablePrefix : String := "tslint:disable:"

def ruleFixId (rule : String) : String := namePrefix ++ rule

def startsWith (text start : String) : Bool := start.toList.isPrefixOf text.toList

def ruleOfFixId? (id : String) : Option String :=
  if id = fixAllName || startsWith id disablePrefix then none
  else if startsWith id namePrefix then
    let rule := String.ofList (id.toList.drop namePrefix.toList.length)
    if rule.isEmpty then none else some rule
  else none

def isBefore (a b : Problem) : Bool :=
  if a.failure.start = b.failure.start then a.failure.stop ≤ b.failure.stop
  else a.failure.start ≤ b.failure.start

def inSourceOrder (problems : List Problem) : List Problem := problems.mergeSort isBefore

def changesOf (file : String) (p : Problem) : FileChanges := ⟨file, p.failure.replacements⟩

def fixProblem (p : Problem) (file : String) : FixAction where
  description := "Fix: " ++ p.failure.message
  fixName := ruleFixId p.rule
  changes := [changesOf file p]
  fixId := none
  fixAllDescription := none

def ruleChanges (store : ProblemStore) (rule file : String) : List FileChanges :=
  (inSourceOrder (store.fixableFor rule)).map (changesOf file)

def fixRule? (store : ProblemStore) (rule file : String) : Option FixAction :=
  let changes := ruleChanges store rule file
  if changes.length < 2 then none
  else
    let description := "Fix all '" ++ rule ++ "'"
    some ⟨description, ruleFixId rule, changes, some (ruleFixId rule), some description⟩

def fixAll (store : ProblemStore) (file : String) : FixAction where
  description := "Fix all auto-fixable tslint failures"
  fixName := fixAllName
  changes := [⟨file, reconcile ((inSourceOrder store.fixable).map (·.failure))⟩]
  fixId := none
  fixAllDescription := none

def disableComment (rule : String) : String := "// tslint:disable-next-line: " ++ rule

/-- Disables the rule of a problem for the line where it starts, by a comment line above with the same
indentation. -/
def disableRule (p : Problem) (file : String) (t : SourceText) : FixAction :=
  let line := t.lineOf p.failure.start
  let text := String.ofList (t.indentation line) ++ disableComment p.rule ++ "\n"
  ⟨"Disable rule '" ++ p.rule ++ "'", disablePrefix ++ p.rule,
    [⟨file, [⟨t.lineStart line, 0, text⟩]⟩], none, none⟩

def toJson (a : FixAction) : Json :=
  let optional (name : String) (value : Option String) : List (String × Json) :=
    match value with
    | some text => [(name, .str text)]
    | none => []
  .obj ([("description", .str a.description), ("fixName", .str a.fixName),
    ("changes", .arr (a.changes.map FileChanges.toJson))] ++ optional "fixId" a.fixId
    ++ optional "fixAllDescription" a.fixAllDescription)

def ofJson? (value : Json) : Option FixAction := do
  let text (name : String) : Option String := (value.member? name).bind Json.str?
  return {
    description := ← text "description"
    fixName := ← text "fixName"
    changes := ← FileChanges.combined? value
    fixId := text "fixId"
    fixAllDescription := text "fixAllDescription" }

end FixAction
end LintBridge
