import LintBridge.Json.Basic
import LintBridge.Number.Shortest
/-!
JSON text, compact or indented by two spaces. Members are written in the order they are held in.
-/
namespace LintBridge.Json

def hexDigit (n : Nat) : Char := "0123456789abcdef".toList.getD n '0'

/-- A character inside quotes: quote and backslash are escaped, control characters have short or
numeric escapes, all else stands for itself. -/
def escapeChar (c : Char) : List Char :=
  if c = '"' then ['\\', '"']
  else if c = '\\' then ['\\', '\\']
  else if c = '\n' then ['\\', 'n']
  else if c = '\r' then ['\\', 'r']
  else if c = '\t' then ['\\', 't']
  else if c.val = 0x08 then ['\\', 'b']
  else if c.val = 0x0C then ['\\', 'f']
  else if c.val < 0x20 then
    ['\\', 'u', '0', '0', hexDigit (c.toNat / 16), hexDigit (c.toNat % 16)]
  else [c]

def quoted (text : String) : String :=
  "\"" ++ String.ofList (text.toList.flatMap escapeChar) ++ "\""

def zeros (count : Nat) : String := String.ofList (List.replicate count '0')

/-- A number with the given shortest digits. Point positions from 4 zeros after the point up to 16
places before it are written out, with at least one digit after the point; all others have an
exponent. -/
def decimalText (digits : Nat) (place : Int) : String :=
  let text := Nat.repr digits
  let point := (text.length : Int) + place
  if 0 ≤ place ∧ point ≤ 16 then text ++ zeros place.toNat ++ ".0"
  else if 0 < point ∧ point ≤ 16 then
    String.ofList (text.toList.take point.toNat) ++ "."
      ++ String.ofList (text.toList.drop point.toNat)
  else if -5 < point ∧ point ≤ 0 then "0." ++ zeros (-point).toNat ++ text
  else
    let mark := "e" ++ toString (point - 1)
    if text.length = 1 then text ++ mark
    else String.ofList (text.toList.take 1) ++ "." ++ String.ofList (text.toList.drop 1) ++ mark

/-- A floating-point number; those that are not finite have no JSON text but `null`. -/
def floatText (bits : UInt64) : String :=
  let size := Binary64.magnitude bits
  if Binary64.infinity ≤ size then "null"
  else
    let sign := if Binary64.isNegative bits then "-" else ""
    if size = 0 then sign ++ "0.0"
    else
      let (digits, place) := Binary64.shortest size
      sign ++ decimalText digits place

mutual

def compact : Json → String
  | null => "null"
  | bool value => if value then "true" else "false"
  | int value => toString value
  | float bits => floatText bits
  | str value => quoted value
  | arr items => "[" ++ compactItems items ++ "]"
  | obj members => "\x7b" ++ compactMembers members ++ "\x7d"

def compactItems : List Json → String
  | [] => ""
  | [last] => compact last
  | item :: rest => compact item ++ "," ++ compactItems rest

def compactMembers : List (String × Json) → String
  | [] => ""
  | [(name, value)] => quoted name ++ ":" ++ compact value
  | (name, value) :: rest => quoted name ++ ":" ++ compact value ++ "," ++ compactMembers rest

end

def indentation (level : Nat) : String := String.ofList (List.replicate (2 * level) ' ')

mutual

/-- The text with one item or member a line; empty collections stay on one line. -/
def prettyAt (level : Nat) : Json → String
  | arr [] => "[]"
  | arr (item :: rest) =>
    "[\n" ++ prettyItems (level + 1) (item :: rest) ++ "\n" ++ indentation level ++ "]"
  | obj [] => "\x7b\x7d"
  | obj (member :: rest) =>
    "\x7b\n" ++ prettyMembers (level + 1) (member :: rest) ++ "\n" ++ indentation level ++ "\x7d"
  | null => "null"
  | bool value => if value then "true" else "false"
  | int value => toString value
  | float bits => floatText bits
  | str value => quoted value

def prettyItems (level : Nat) : List Json → String
  | [] => ""
  | [last] => indentation level ++ prettyAt level last
  | item :: rest => indentation level ++ prettyAt level item ++ ",\n" ++ prettyItems level rest

def prettyMembers (level : Nat) : List (String × Json) → String
  | [] => ""
  | [(name, value)] => indentation level ++ quoted name ++ ": " ++ prettyAt level value
  | (name, value) :: rest =>
    indentation level ++ quoted name ++ ": " ++ prettyAt level value ++ ",\n"
      ++ prettyMembers level rest

end

def pretty (value : Json) : String := prettyAt 0 value

end LintBridge.Json
