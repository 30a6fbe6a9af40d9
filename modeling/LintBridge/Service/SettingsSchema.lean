import LintBridge.Json.Printer
import LintBridge.PackageManager
/-!
The schema of settings: which form each option must have. A block of settings is checked option by
option in ascending order of their names, and the first option of another form is reported.
-/
namespace LintBridge

inductive OptionForm where
  | flag
  | optionalFlag
  | text
  | word (words : List String)
  | texts

def quotedWords : List String → String
  | [] => ""
  | [last] => Json.quoted last
  | [first, last] => Json.quoted first ++ " or " ++ Json.quoted last
  | first :: rest => Json.quoted first ++ ", " ++ quotedWords rest

def notOfType (type : String) : String := "is not of type " ++ Json.quoted type

namespace OptionForm

def complaint? (form : OptionForm) (value : Json) : Option String :=
  match form, value with
  | flag, .bool _ => none
  | flag, _ => some (notOfType "boolean")
  | optionalFlag, .bool _ => none
  | optionalFlag, .null => none
  | optionalFlag, _ => some "is not of types \"boolean\", \"null\""
  | text, .str _ => none
  | text, _ => some (notOfType "string")
  | word words, .str value =>
    if words.contains value then none else some ("is not one of " ++ quotedWords words)
  | word _, _ => some (notOfType "string")
  | texts, .str _ => none
  | texts, value =>
    if value.strings?.isSome then none
    else some "is not valid under any of the schemas listed in the 'oneOf' keyword"

end OptionForm

namespace SettingsSchema

def traceLevels : List String := ["normal", "verbose"]

/-- The options in ascending order of their names. Others are allowed. -/
def options : List (String × OptionForm) :=
  [("allowWorkspaceLibraryExecution", .optionalFlag),
    ("alwaysShowRuleFailuresAsWarnings", .flag),
    ("configFile", .text),
    ("disableNoUnusedVariableRule", .flag),
    ("exclude", .texts),
    ("ignoreDefinitionFiles", .flag),
    ("jsEnable", .flag),
    ("name", .text),
    ("nodePath", .text),
    ("packageManager", .word (PackageManager.all.map PackageManager.name)),
    ("rulesDirectory", .texts),
    ("suppressWhileTypeErrorsPresent", .flag),
    ("traceLevel", .word traceLevels),
    ("validateWithDefaultConfig", .flag)]

/-- A value that is not of its form: the value, what is wrong with it, and where it stands. -/
structure Violation where
  value : Json
  complaint : String
  pointer : String

def Violation.message (v : Violation) : String :=
  v.value.canonical.compact ++ " " ++ v.complaint ++ " at " ++ v.pointer

def violationAt? (members : List (String × Json)) (option : String × OptionForm) :
    Option Violation := do
  let value ← members.lookup option.1
  let complaint ← option.2.complaint? value
  return ⟨value, complaint, "/" ++ option.1⟩

def violation? (block : Json) : Option Violation :=
  match block with
  | .obj members => options.findSome? (violationAt? members)
  | other => some ⟨other, notOfType "object", ""⟩

end SettingsSchema
end LintBridge
