import LintBridge.Edit.Decoding
/-!
Diagnostics: what a host shows about a file.
-/
namespace LintBridge

inductive Category where
  | warning
  | error
  | suggestion
  | message
deriving DecidableEq

def Category.name : Category → String
  | warning => "warning"
  | error => "error"
  | suggestion => "suggestion"
  | message => "message"

def Category.ofName? (text : String) : Option Category :=
  [warning, error, suggestion, message].find? (·.name = text)

structure Diagnostic where
  file : String
  start : UInt32
  length : UInt32
  messageText : String
  category : Category
  source : Option String
  code : UInt32
deriving DecidableEq

namespace Diagnostic

def lintSource : String := "tslint"

def lintCode : UInt32 := 1

def toJson (d : Diagnostic) : Json :=
  let source := match d.source with
    | some source => [("source", .str source)]
    | none => []
  .obj ([("category", .str d.category.name), ("code", .int d.code.toNat), ("file", .str d.file),
    ("length", .int d.length.toNat), ("messageText", .str d.messageText)] ++ source
    ++ [("start", .int d.start.toNat)])

def ofJson? (value : Json) : Option Diagnostic := do
  return {
    file := ← (← value.member? "file").str?
    start := ← (← value.member? "start").word32?
    length := ← (← value.member? "length").word32?
    messageText := ← (← value.member? "messageText").str?
    category := ← Category.ofName? (← (← value.member? "category").str?)
    source := ← ((value.member? "source").getD .null).optionalStr?
    code := ← (← value.member? "code").word32? }

def categoryOf (f : Failure) (alwaysWarn : Bool) : Category :=
  if alwaysWarn then .warning else if f.isError then .error else .warning

def messageOf (f : Failure) : String :=
  match f.ruleName with
  | some rule => f.message ++ " (" ++ rule ++ ")"
  | none => f.message

def lengthOf (f : Failure) : UInt32 := if f.start ≤ f.stop then f.stop - f.start else 0

def ofFailure (f : Failure) (file : String) (alwaysWarn : Bool) : Diagnostic where
  file := file
  start := f.start
  length := lengthOf f
  messageText := messageOf f
  category := categoryOf f alwaysWarn
  source := some lintSource
  code := lintCode

def ofWarning (warning file : String) : Diagnostic where
  file := file
  start := 0
  length := 1
  messageText := warning
  category := .error
  source := some lintSource
  code := lintCode

end Diagnostic

def isInMemory (file : String) : Bool := file.toList.head? = some '^'

end LintBridge
