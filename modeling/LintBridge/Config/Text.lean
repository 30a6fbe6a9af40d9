import LintBridge.Config.Decoding
import LintBridge.Json.Relaxed
import LintBridge.LintError
import LintBridge.Yaml.Value
/-!
Configurations as text, in relaxed JSON or in YAML. In a YAML document fields whose form is fixed take
an empty plain scalar for an empty one; fields of several forms are read by their value.
-/
namespace LintBridge

section

open Yaml

def uniqueEntry? (name : String) (entries : List (String × Tree)) : Option (Option Tree) :=
  match entries.filter (·.1 = name) with
  | [] => some none
  | [(_, tree)] => some (some tree)
  | _ => none

def OneOrMany.ofTree? : Option Tree → Option (Option OneOrMany)
  | none => some none
  | some tree => do
    if ← tree.isAbsent? then return none
    return some (← ofJson? (← tree.value? .byValue))

def Yaml.Tree.namedEntries? (tree : Tree) : Option (List (String × Tree)) :=
  match tree with
  | .mapping _ entries => entries.mapM fun (key, content) => do return (← key.text?, content)
  | tree => if tree.isEmptyPlain then some [] else none

def keptEntries? (reading : Tree.KeyReading) (entries : List (String × Tree)) :
    Option (Dictionary Json) := do
  let members ← entries.mapM fun (name, content) => do return (name, ← content.value? reading)
  Json.dictionary? members

namespace LinterOptions

def patternsOfTree? (tree : Tree) : Option (List String) :=
  match tree with
  | .sequence _ items => items.mapM Tree.text?
  | tree => if tree.isEmptyPlain then some [] else none

def ofTree? : Option Tree → Option (Option LinterOptions)
  | none => some none
  | some tree => do
    if ← tree.isAbsent? then return none
    let entries ← tree.namedEntries?
    let exclude ← match ← uniqueEntry? excludeName entries with
      | none => some []
      | some patterns => patternsOfTree? patterns
    let other ← keptEntries? .byValue (entries.filter (·.1 != excludeName))
    return some ⟨exclude, other⟩

end LinterOptions

namespace Configuration

def rulesOfTree? : Option Tree → Option (Dictionary Json)
  | none => some .empty
  | some tree => do keptEntries? .byText (← tree.namedEntries?)

def jsRulesOfTree? : Option Tree → Option JsRules
  | none => JsRules.ofField? none
  | some tree => do JsRules.ofField? (some (← tree.value? .byValue))

def ofTree? (tree : Tree) : Option Configuration := do
  let entries ← tree.namedEntries?
  return {
    bases := ← OneOrMany.ofTree? (← uniqueEntry? "extends" entries)
    rules := ← rulesOfTree? (← uniqueEntry? "rules" entries)
    jsRules := ← jsRulesOfTree? (← uniqueEntry? "jsRules" entries)
    linterOptions := ← LinterOptions.ofTree? (← uniqueEntry? "linterOptions" entries)
    rulesDirectory := ← OneOrMany.ofTree? (← uniqueEntry? "rulesDirectory" entries)
    extra := ← keptEntries? .byValue (entries.filter fun e => !fieldNames.contains e.1) }

end Configuration

end

inductive ConfigFormat where
  | json
  | yaml
deriving DecidableEq

namespace Configuration

/-- Reads a configuration in relaxed JSON. A text without value says nothing. -/
def ofJsonText (text : String) : Except LintError Configuration :=
  match Json.readRelaxed text with
  | .error _ => .error (.configRead "Invalid JSON: the text is malformed")
  | .ok value =>
    match ofJson? (value.getD (.obj [])) with
    | some c => .ok c
    | none => .error (.configRead "Invalid configuration: a field has another form than expected")

/-- Reads a configuration in YAML. A text without document says nothing. -/
def ofYamlText (text : String) : Except LintError Configuration :=
  let read : Option Configuration := do
    match ← Yaml.Tree.read? text with
    | none => return blank
    | some tree => ofTree? tree
  match read with
  | some c => .ok c
  | none => .error (.configRead "Invalid YAML: the text is malformed or has another form than expected")

def ofText : ConfigFormat → String → Except LintError Configuration
  | .json, text => ofJsonText text
  | .yaml, text => ofYamlText text

end Configuration

end LintBridge
