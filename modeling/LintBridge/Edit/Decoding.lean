import LintBridge.Edit.Failure
import LintBridge.Json.Strict
/-!
Failures as the engine writes them. Over time the engine has used two names for most fields, two
forms of positions and three forms of fixes; all of them are read into one `Failure`. A record may
also be written as the array of its fields.
-/
namespace LintBridge

/-- The value of a field with several names. A field that is given twice, under whatever names, is an
error. -/
def field? (names : List String) (members : List (String × Json)) : Option (Option Json) :=
  match members.filter fun m => names.contains m.1 with
  | [] => some none
  | [(_, value)] => some (some value)
  | _ => none

def Json.word32? : Json → Option UInt32
  | .int value => if 0 ≤ value ∧ value.toNat < UInt32.size then some (UInt32.ofNat value.toNat) else none
  | _ => none

def Json.word64? : Json → Option Nat
  | .int value => if 0 ≤ value ∧ value.toNat < UInt64.size then some value.toNat else none
  | _ => none

def Json.optionalStr? : Json → Option (Option String)
  | .null => some none
  | .str value => some (some value)
  | _ => none

namespace Replacement

def ofFields? (start length : Json) (text : Option Json) : Option Replacement := do
  let start ← start.word32?
  let length ← length.word32?
  match text with
  | none => return ⟨start, length, ""⟩
  | some text => return ⟨start, length, ← text.str?⟩

def ofJson? : Json → Option Replacement
  | .obj members => do
    let start ← ← field? ["start", "innerStart"] members
    let length ← ← field? ["length", "innerLength"] members
    ofFields? start length (← field? ["text", "innerText"] members)
  | .arr [start, length] => ofFields? start length none
  | .arr [start, length, text] => ofFields? start length (some text)
  | _ => none

def toJson (r : Replacement) : Json :=
  .obj [("start", .int r.start.toNat), ("length", .int r.length.toNat), ("text", .str r.text)]

end Replacement

def replacements? (value : Json) : Option (List Replacement) := do
  (← value.items?).mapM Replacement.ofJson?

def wrappedReplacements? (value : Json) : Option (List Replacement) := do
  replacements? (← ← field? ["replacements"] (← value.members?))

/-- Reads a fix: a list of replacements, an object that holds such a list, or one replacement. The
first form that fits counts. -/
def fix? (value : Json) : Option (List Replacement) :=
  (replacements? value).or ((wrappedReplacements? value).or
    ((Replacement.ofJson? value).map fun r => [r]))

def position? : Json → Option UInt32
  | .obj members => do (← ← field? ["position"] members).word32?
  | .arr [offset] => offset.word32?
  | value => value.word32?

namespace Failure

/-- A failure of its fields; the last three may be left out or `null`. -/
def ofFields? (fileName start stop message : Json) (ruleName severity fix : Option Json) :
    Option Failure := do
  let fixes ← match fix with
    | none => some none
    | some .null => some none
    | some value => (fix? value).map some
  return {
    fileName := ← fileName.str?
    start := ← position? start
    stop := ← position? stop
    message := ← message.str?
    ruleName := ← (ruleName.getD .null).optionalStr?
    severity := ← (severity.getD .null).optionalStr?
    fix := fixes }

def ofJson? : Json → Option Failure
  | .obj members => do
    let fileName ← ← field? ["fileName", "name"] members
    let start ← ← field? ["start", "startPosition"] members
    let stop ← ← field? ["end", "endPosition"] members
    let message ← ← field? ["message", "failure"] members
    ofFields? fileName start stop message (← field? ["ruleName"] members)
      (← field? ["ruleSeverity"] members) (← field? ["fix"] members)
  | .arr (fileName :: start :: stop :: message :: rest) =>
    if rest.length ≤ 3 then ofFields? fileName start stop message rest[0]? rest[1]? rest[2]?
    else none
  | _ => none

def toJson (f : Failure) : Json :=
  let fix := match f.fix with
    | none => []
    | some replacements => [("fix", .arr (replacements.map Replacement.toJson))]
  .obj ([("fileName", .str f.fileName), ("start", .int f.start.toNat), ("end", .int f.stop.toNat),
    ("message", .str f.message), ("ruleName", Json.ofOption .str f.ruleName),
    ("ruleSeverity", Json.ofOption .str f.severity)] ++ fix)

end Failure

def Replacement.shape : Json.Shape :=
  .record (["start", "innerStart", "length", "innerLength", "text", "innerText"].map
    fun name => (name, .whole)) []

def Failure.shape : Json.Shape :=
  .record (["fileName", "name", "start", "startPosition", "end", "endPosition", "message",
    "failure", "ruleName", "ruleSeverity", "fix"].map fun name => (name, .whole)) []

def Failure.ofText? (text : String) : Option Failure :=
  (Json.readStrict? Failure.shape text).bind Failure.ofJson?

structure LintOutput where
  failures : List Failure
  errorCount : Nat
  warningCount : Nat
deriving DecidableEq, Inhabited

namespace LintOutput

def empty : LintOutput := ⟨[], 0, 0⟩

def ofFields? (failures errorCount warningCount : Option Json) : Option LintOutput := do
  let failures ← match failures with
    | none => some []
    | some value => do (← value.items?).mapM Failure.ofJson?
  let errorCount ← match errorCount with
    | none => some 0
    | some value => value.word64?
  let warningCount ← match warningCount with
    | none => some 0
    | some value => value.word64?
  return ⟨failures, errorCount, warningCount⟩

def ofJson? : Json → Option LintOutput
  | .obj members => do
    ofFields? (← field? ["failures"] members) (← field? ["errorCount"] members)
      (← field? ["warningCount"] members)
  | .arr items => if items.length ≤ 3 then ofFields? items[0]? items[1]? items[2]? else none
  | _ => none

def shape : Json.Shape :=
  .record [("failures", .list Failure.shape), ("errorCount", .whole), ("warningCount", .whole)]
    [.list Failure.shape]

def toJson (o : LintOutput) : Json :=
  .obj [("failures", .arr (o.failures.map Failure.toJson)), ("errorCount", .int o.errorCount),
    ("warningCount", .int o.warningCount)]

end LintOutput
end LintBridge
