import LintBridge.Config.Basic
import LintBridge.Edit.Decoding
import LintBridge.Json.Strict
/-!
Configurations as JSON values.
-/
namespace LintBridge

def Json.dictionary? (members : List (String × Json)) : Option (Dictionary Json) :=
  (expandMembers members).map fun members =>
    Dictionary.ofList (members.map fun m => (m.1, m.2.canonical))

def OneOrMany.ofField? : Option Json → Option (Option OneOrMany)
  | none => some none
  | some .null => some none
  | some value => (ofJson? value).map some

namespace JsRules

def ofField? : Option Json → Option JsRules
  | none => some (rules .empty)
  | some (.bool flag) => some (inherited flag)
  | some (.obj members) => (Json.dictionary? members).map rules
  | _ => none

def toJson : JsRules → Json
  | inherited flag => .bool flag
  | rules own => .ofDictionary own

end JsRules

namespace LinterOptions

def excludeName : String := "exclude"

def ofMembers? (members : List (String × Json)) : Option LinterOptions := do
  let exclude ← match ← field? [excludeName] members with
    | none => some []
    | some value => value.strings?
  return ⟨exclude, ← Json.dictionary? (members.filter (·.1 != excludeName))⟩

def ofField? : Option Json → Option (Option LinterOptions)
  | none => some none
  | some .null => some none
  | some (.obj members) => (ofMembers? members).map some
  | _ => none

def toJson (o : LinterOptions) : Json :=
  .obj ((excludeName, .ofStrings o.exclude) :: o.other.entries)

end LinterOptions

namespace Configuration

def fieldNames : List String := ["extends", "rules", "jsRules", "linterOptions", "rulesDirectory"]

def rulesOfField? : Option Json → Option (Dictionary Json)
  | none => some .empty
  | some (.obj members) => Json.dictionary? members
  | _ => none

def ofMembers? (members : List (String × Json)) : Option Configuration := do
  return {
    bases := ← OneOrMany.ofField? (← field? ["extends"] members)
    rules := ← rulesOfField? (← field? ["rules"] members)
    jsRules := ← JsRules.ofField? (← field? ["jsRules"] members)
    linterOptions := ← LinterOptions.ofField? (← field? ["linterOptions"] members)
    rulesDirectory := ← OneOrMany.ofField? (← field? ["rulesDirectory"] members)
    extra := ← Json.dictionary? (members.filter fun m => !fieldNames.contains m.1) }

def ofJson? (value : Json) : Option Configuration := value.members?.bind ofMembers?

def optionalMember (name : String) : Option Json → List (String × Json)
  | none => []
  | some value => [(name, value)]

/-- The JSON form. Rules are always there, other absent fields are left out. -/
def toJson (c : Configuration) : Json :=
  .obj (optionalMember "extends" (c.bases.map OneOrMany.toJson)
    ++ [("rules", .ofDictionary c.rules), ("jsRules", c.jsRules.toJson)]
    ++ optionalMember "linterOptions" (c.linterOptions.map LinterOptions.toJson)
    ++ optionalMember "rulesDirectory" (c.rulesDirectory.map OneOrMany.toJson)
    ++ c.extra.entries)

end Configuration
end LintBridge
