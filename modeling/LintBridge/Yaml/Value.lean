import LintBridge.Yaml.Tree
import LintBridge.Json.Strict
import LintBridge.Json.Number
/-!
The JSON values of YAML trees. A plain scalar is read as null, a flag, an integer, a number, or else a
string; numbers that are not finite have no JSON value but `null`.
-/
namespace LintBridge.Yaml

def isNullWord (text : List Char) : Bool :=
  ["null", "Null", "NULL", "~"].contains (String.ofList text)

def flag? (text : List Char) : Option Bool :=
  if ["true", "True", "TRUE"].contains (String.ofList text) then some true
  else if ["false", "False", "FALSE"].contains (String.ofList text) then some false
  else none

def dropPlus : List Char → List Char
  | '+' :: rest => rest
  | text => text

def startsWithSign : List Char → Bool
  | '+' :: _ => true
  | '-' :: _ => true
  | _ => false

def ofBase? (base : Nat) (text : List Char) : Option Nat := do
  let values ← text.mapM Json.Strict.hex?
  if values.isEmpty || values.any (base ≤ ·) then none
  else some (values.foldl (fun n d => base * n + d) 0)

def marked? (text : List Char) : Option Nat :=
  match text with
  | '0' :: 'x' :: rest => ofBase? 16 rest
  | '0' :: 'o' :: rest => ofBase? 8 rest
  | '0' :: 'b' :: rest => ofBase? 2 rest
  | _ => none

def hasLeadingZero (text : List Char) : Bool :=
  let text := match text with
    | '+' :: rest => rest
    | '-' :: rest => rest
    | _ => text
  1 < text.length && text.head? = some '0' && text.all Char.isDigit

def integer? (text : List Char) : Option Int :=
  let body := dropPlus text
  match marked? body with
  | some n => some n
  | none =>
    match body with
    | '-' :: rest =>
      if text.head? = some '+' then none
      else match marked? rest with
        | some n => some (-(n : Int))
        | none => if hasLeadingZero text then none else (ofBase? 10 rest).map fun n => -(n : Int)
    | _ => if hasLeadingZero text then none else (ofBase? 10 body).map fun n => (n : Int)

def finite? (text : List Char) : Option UInt64 := do
  let (negative, body) := match text with
    | '-' :: rest => (true, rest)
    | '+' :: rest => (false, rest)
    | _ => (false, text)
  let (whole, rest) := Json.digits body
  let (fraction, rest) := match rest with
    | '.' :: rest => Json.digits rest
    | _ => ([], rest)
  if whole.isEmpty && fraction.isEmpty then none
  let (exponent, rest) ← Json.exponentPart rest
  if !rest.isEmpty then none
  let size := Binary64.ofDecimal (Json.ofDigits (whole ++ fraction))
    (exponent.getD 0 - fraction.length)
  if size < Binary64.infinity then some (Binary64.withSign negative size) else none

def number? (text : List Char) : Option Json :=
  if [".inf", ".Inf", ".INF", "+.inf", "+.Inf", "+.INF", "-.inf", "-.Inf", "-.INF", ".nan", ".NaN",
      ".NAN"].contains (String.ofList text) then some .null
  else
    let body := dropPlus text
    if body.length < text.length && startsWithSign body then none
    else (finite? body).map .float

/-- The value of an integer. It must fit 64 bits. One that fits 128 bits is an error, and a larger one
is no integer at all. -/
def integerValue? (n : Int) : Option (Option Json) :=
  if -(Nat.pow 2 63 : Int) ≤ n && n < Nat.pow 2 64 then some (some (.int n))
  else if -(Nat.pow 2 127 : Int) ≤ n && n < Nat.pow 2 128 then some none
  else none

def plainValue? (text : List Char) : Option Json :=
  if text.isEmpty || isNullWord text then some .null
  else match flag? text with
    | some value => some (.bool value)
    | none =>
      match (integer? text).bind integerValue? with
      | some result => result
      | none =>
        let string := Json.str (String.ofList text)
        if hasLeadingZero text then some string else some ((number? text).getD string)

def standardTag (name : String) : List Char := ("tag:yaml.org,2002:" ++ name).toList

def isLocalTag (tag : Option (List Char)) : Bool :=
  match tag with
  | some ('!' :: _) => true
  | _ => false

/-- The value of a scalar. The tags of flags, numbers and null ask for text of their kind; any other
makes a string. -/
def scalarValue? (tag : Option (List Char)) (text : List Char) (plain : Bool) : Option Json :=
  match tag with
  | some tag =>
    if tag = standardTag "bool" then (flag? text).map .bool
    else if tag = standardTag "int" then ((integer? text).bind integerValue?).join
    else if tag = standardTag "float" then number? text
    else if tag = standardTag "null" then (if isNullWord text then some .null else none)
    else some (.str (String.ofList text))
  | none => if plain then plainValue? text else some (.str (String.ofList text))

namespace Tree

def tag : Tree → Option (List Char)
  | scalar tag .. => tag
  | sequence tag _ => tag
  | mapping tag _ => tag

def text? : Tree → Option String
  | scalar _ text _ => some (String.ofList text)
  | _ => none

/-- How the keys of mappings are read: as the text of a scalar, or as a value that must be a
string. -/
inductive KeyReading where
  | byText
  | byValue

def key? (reading : KeyReading) : Tree → Option String
  | scalar tag text plain =>
    match reading with
    | .byText => some (String.ofList text)
    | .byValue =>
      if isLocalTag tag then none else (scalarValue? tag text plain).bind Json.str?
  | _ => none

/-- The text of a value that entries embed. Where keys are read by their text, so is that of the
value, whatever it means. -/
def embeddedText? (reading : KeyReading) (entries : List (Tree × Tree)) : Option String :=
  match reading, entries with
  | .byText, [(key, content)] => if key.text? = some Json.embeddedName then content.text? else none
  | _, _ => none

mutual

def value? (reading : KeyReading) : Tree → Option Json
  | scalar tag text plain => if isLocalTag tag then none else scalarValue? tag text plain
  | sequence tag items =>
    if isLocalTag tag then none else (values? reading items).map .arr
  | mapping tag entries =>
    if isLocalTag tag then none
    else match embeddedText? reading entries with
      | some text => some (.obj [(Json.embeddedName, .str text)])
      | none => (members? reading entries).map .obj

def values? (reading : KeyReading) : List Tree → Option (List Json)
  | [] => some []
  | item :: rest => do return (← value? reading item) :: (← values? reading rest)

def members? (reading : KeyReading) : List (Tree × Tree) → Option (List (String × Json))
  | [] => some []
  | (key, content) :: rest => do
    let name ← key? reading key
    let content ← value? reading content
    return (name, content) :: (← members? reading rest)

end

/-- Whether a tree is a plain scalar without text, which stands for any empty thing. -/
def isEmptyPlain : Tree → Bool
  | scalar _ text plain => plain && text.isEmpty
  | _ => false

def isAbsent? : Tree → Option Bool
  | scalar tag text plain =>
    if !plain then some false
    else match tag with
      | some tag =>
        if tag = standardTag "null" then (if isNullWord text then some true else none)
        else some false
      | none => some (text.isEmpty || isNullWord text)
  | _ => some false

end Tree
end LintBridge.Yaml
