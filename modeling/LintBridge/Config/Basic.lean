import LintBridge.Json.Basic
import LintBridge.Path.Basic
/-!
Lint configurations: rules with their options, the configurations they build on, and options of the
engine. What is not interpreted here is kept for the engine.
-/
namespace LintBridge

inductive OneOrMany where
  | one (text : String)
  | many (texts : List String)
deriving DecidableEq

namespace OneOrMany

def toList : OneOrMany → List String
  | one text => [text]
  | many texts => texts

def toJson : OneOrMany → Json
  | one text => .str text
  | many texts => .ofStrings texts

def ofJson? : Json → Option OneOrMany
  | .str text => some (one text)
  | .arr items => (Json.strings? (.arr items)).map many
  | _ => none

end OneOrMany

/-- The rules for JavaScript files: rules of their own, or a flag whether those for TypeScript are
used. -/
inductive JsRules where
  | inherited (flag : Bool)
  | rules (own : Dictionary Json)

structure LinterOptions where
  exclude : List String
  other : Dictionary Json

structure Configuration where
  bases : Option OneOrMany
  rules : Dictionary Json
  jsRules : JsRules
  linterOptions : Option LinterOptions
  rulesDirectory : Option OneOrMany
  extra : Dictionary Json

namespace Configuration

def blank : Configuration := ⟨none, .empty, .rules .empty, none, none, .empty⟩

instance : Inhabited Configuration := ⟨blank⟩

def recommended : Configuration := { blank with bases := some (.one "tslint:recommended") }

def excludedPatterns (c : Configuration) : List String :=
  match c.linterOptions with
  | some options => options.exclude
  | none => []

def entries (field : Option OneOrMany) : List String :=
  match field with
  | some value => value.toList
  | none => []

def fieldOf (texts : List String) : Option OneOrMany :=
  if texts.isEmpty then none else some (.many texts)

def inheritsJsRules (c : Configuration) : Bool :=
  match c.jsRules with
  | .inherited _ => true
  | .rules _ => false

end Configuration
end LintBridge
