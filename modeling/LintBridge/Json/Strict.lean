import LintBridge.Json.Number
/-!
The strict reader: RFC 8259 without additions. A shape says which parts of the text matter. Parts
that matter must denote values: no lone surrogate, no number out of range, at most 127 levels of
nesting. Parts that do not matter are skipped by their grammar alone.
-/
namespace LintBridge.Json

/-- Which parts of a text matter to its reader. -/
inductive Shape where
  | whole
  | skipped
  | list (element : Shape)
  /-- An object of which the named members matter, or an array of the same things in order. -/
  | record (known : List (String × Shape)) (positions : List Shape)

namespace Shape

def member : Shape → String → Shape
  | whole, _ => whole
  | skipped, _ => skipped
  | list _, _ => whole
  | record known _, name => (known.lookup name).getD skipped

def items : Shape → List Shape × Shape
  | whole => ([], whole)
  | skipped => ([], skipped)
  | list element => ([], element)
  | record _ positions => (positions, whole)

def isSkipped : Shape → Bool
  | skipped => true
  | _ => false

end Shape

namespace Strict

def isBlank (c : Char) : Bool := c = ' ' || c = '\n' || c = '\t' || c = '\r'

def skipBlanks (text : List Char) : List Char := text.dropWhile isBlank

def hex? (c : Char) : Option Nat :=
  if '0' ≤ c && c ≤ '9' then some (c.toNat - 48)
  else if 'a' ≤ c && c ≤ 'f' then some (c.toNat - 87)
  else if 'A' ≤ c && c ≤ 'F' then some (c.toNat - 55)
  else none

def unit? (a b c d : Char) : Option Nat := do
  return ((← hex? a) * 16 + (← hex? b)) * 256 + ((← hex? c) * 16 + (← hex? d))

def isHigh (unit : Nat) : Bool := 0xD800 ≤ unit && unit < 0xDC00

def isLow (unit : Nat) : Bool := 0xDC00 ≤ unit && unit < 0xE000

def ofPair (high low : Nat) : Char :=
  Char.ofNat (0x10000 + (high - 0xD800) * 0x400 + (low - 0xDC00))

def escape? (c : Char) : Option Char :=
  if c = '"' || c = '\\' || c = '/' then some c
  else if c = 'b' then some '\x08'
  else if c = 'f' then some '\x0c'
  else if c = 'n' then some '\n'
  else if c = 'r' then some '\r'
  else if c = 't' then some '\t'
  else none

def string (read : List Char) : List Char → Option (String × List Char)
  | [] => none
  | '"' :: rest => some (String.ofList read.reverse, rest)
  | '\\' :: 'u' :: a :: b :: c :: d :: '\\' :: 'u' :: e :: f :: g :: h :: rest => do
    let first ← unit? a b c d
    if isHigh first then
      let second ← unit? e f g h
      if isLow second then string (ofPair first second :: read) rest else none
    else if isLow first then none
    else string (Char.ofNat first :: read) ('\\' :: 'u' :: e :: f :: g :: h :: rest)
  | '\\' :: 'u' :: a :: b :: c :: d :: rest => do
    let first ← unit? a b c d
    if isHigh first || isLow first then none else string (Char.ofNat first :: read) rest
  | '\\' :: c :: rest => do string ((← escape? c) :: read) rest
  | c :: rest => if c.val < 0x20 then none else string (c :: read) rest
termination_by text => text.length

def skipString : List Char → Option (List Char)
  | [] => none
  | '"' :: rest => some rest
  | '\\' :: 'u' :: a :: b :: c :: d :: rest => do
    let _ ← unit? a b c d
    skipString rest
  | '\\' :: c :: rest => do
    let _ ← escape? c
    skipString rest
  | c :: rest => if c.val < 0x20 then none else skipString rest

/-- Reads a number; where it does not matter its size does not either. -/
def number (shape : Shape) (text : List Char) : Option (Json × List Char) := do
  let (negative, text) := match text with
    | '-' :: rest => (true, rest)
    | _ => (false, text)
  let (l, rest) ← literal text
  if shape.isSkipped then return (null, rest)
  return (← l.value? negative, rest)

def word (expected : List Char) (result : Json) (text : List Char) : Option (Json × List Char) :=
  if expected.isPrefixOf text then some (result, text.drop expected.length) else none

mutual

/-- Reads a value after blanks. `depth` is the number of levels that may still be opened plus
one. -/
def value : Nat → Nat → Shape → List Char → Option (Json × List Char)
  | 0, _, _, _ => none
  | fuel + 1, depth, shape, text =>
    match skipBlanks text with
    | [] => none
    | c :: rest =>
      if c = '"' then
        if shape.isSkipped then (skipString rest).map fun rest => (null, rest)
        else (string [] rest).map fun (s, rest) => (str s, rest)
      else if c = 'n' then word ['u', 'l', 'l'] null rest
      else if c = 't' then word ['r', 'u', 'e'] (bool true) rest
      else if c = 'f' then word ['a', 'l', 's', 'e'] (bool false) rest
      else if c = '[' then
        if depth ≤ 1 && !shape.isSkipped then none
        else match skipBlanks rest with
          | ']' :: rest => some (arr [], rest)
          | rest =>
            let (firsts, others) := shape.items
            (items fuel (depth - 1) firsts others rest).map fun (read, rest) => (arr read, rest)
      else if c = '\x7b' then
        if depth ≤ 1 && !shape.isSkipped then none
        else match skipBlanks rest with
          | '\x7d' :: rest => some (obj [], rest)
          | rest => (members fuel (depth - 1) shape rest).map fun (read, rest) => (obj read, rest)
      else number shape (c :: rest)

def items : Nat → Nat → List Shape → Shape → List Char → Option (List Json × List Char)
  | 0, _, _, _, _ => none
  | fuel + 1, depth, firsts, others, text => do
    let (item, rest) ← value fuel depth (firsts.headD others) text
    match skipBlanks rest with
    | ']' :: rest => some ([item], rest)
    | ',' :: rest =>
      let (more, rest) ← items fuel depth firsts.tail others rest
      return (item :: more, rest)
    | _ => none

/-- Reads the members of an object up to its end; there is at least one. Members that do not matter
are left out. -/
def members : Nat → Nat → Shape → List Char → Option (List (String × Json) × List Char)
  | 0, _, _, _ => none
  | fuel + 1, depth, shape, text =>
    match skipBlanks text with
    | '"' :: rest => do
      let (name, rest) ← if shape.isSkipped then (skipString rest).map fun rest => ("", rest)
        else string [] rest
      match skipBlanks rest with
      | ':' :: rest =>
        let inner := shape.member name
        let (content, rest) ← value fuel depth inner rest
        let here := if inner.isSkipped then [] else [(name, content)]
        match skipBlanks rest with
        | '\x7d' :: rest => some (here, rest)
        | ',' :: rest =>
          let (more, rest) ← members fuel depth shape rest
          return (here ++ more, rest)
        | _ => none
      | _ => none
    | _ => none

end

end Strict

/-- The value that a text denotes, with the members of its objects in the order of the text. -/
def readStrict? (shape : Shape) (text : String) : Option Json := do
  let chars := text.toList
  let (result, rest) ← Strict.value (2 * chars.length + 2) 128 shape chars
  if (Strict.skipBlanks rest).isEmpty then return result else none

/-! ### Embedded texts

An object that begins with a member of a reserved name stands for the value of a JSON text: that member
is its only one, and holds the text. The text may embed further ones.
-/

/-- The name of a member that holds the text of a value. -/
def embeddedName : String := "$serde_json::private::RawValue"

def isEmbedded : List (String × Json) → Bool
  | (name, _) :: _ => name = embeddedName
  | [] => false

def embeddedText? : List (String × Json) → Option String
  | [(_, str text)] => some text
  | _ => none

mutual

def expandBy (read : String → Option Json) : Json → Option Json
  | arr items => (expandItemsBy read items).map arr
  | obj members =>
    if isEmbedded members then (embeddedText? members).bind read
    else (expandMembersBy read members).map obj
  | other => some other

def expandItemsBy (read : String → Option Json) : List Json → Option (List Json)
  | [] => some []
  | item :: rest => do return (← expandBy read item) :: (← expandItemsBy read rest)

def expandMembersBy (read : String → Option Json) :
    List (String × Json) → Option (List (String × Json))
  | [] => some []
  | (name, value) :: rest => do
    return (name, ← expandBy read value) :: (← expandMembersBy read rest)

end

/-- Reads an embedded text. A text inside it is shorter, so its length bounds their nesting. -/
def readEmbedded : Nat → String → Option Json
  | 0, _ => none
  | fuel + 1, text => (readStrict? .whole text).bind (expandBy (readEmbedded fuel))

def expandMembers : List (String × Json) → Option (List (String × Json)) :=
  expandMembersBy fun text => readEmbedded (text.length + 1) text

end LintBridge.Json
