import LintBridge.Json.Strict
import LintBridge.Text.Pieces
import LintBridge.Text.Letters
/-!
The relaxed reader for files that people write: comments, single quotes, bare names, signs and
hexadecimal numbers, commas that are missing or stand at the end. Of members with one name the last
counts. A text of blanks and comments holds no value.
-/
namespace LintBridge.Json.Relaxed

inductive Between where
  | blanks
  | lineComment
  | blockComment

def skip : Between → List Char → Option (List Char)
  | .blanks, '/' :: '/' :: rest => skip .lineComment rest
  | .blanks, '/' :: '*' :: rest => skip .blockComment rest
  | .blanks, '/' :: _ => none
  | .blanks, c :: rest => if Text.isBlank c then skip .blanks rest else some (c :: rest)
  | .blanks, [] => some []
  | .lineComment, '\n' :: rest => skip .blanks rest
  | .lineComment, _ :: rest => skip .lineComment rest
  | .lineComment, [] => some []
  | .blockComment, '*' :: '/' :: rest => skip .blanks rest
  | .blockComment, _ :: rest => skip .blockComment rest
  | .blockComment, [] => none

def next (text : List Char) : Option (List Char) := skip .blanks text

/-- Reads a string up to its closing quote. The other quote needs no escape and may have none. -/
def string (quote : Char) (read : List Char) : List Char → Option (String × List Char)
  | [] => none
  | '\\' :: 'u' :: a :: b :: c :: d :: '\\' :: 'u' :: e :: f :: g :: h :: rest => do
    let first ← Strict.unit? a b c d
    if Strict.isHigh first then
      let second ← Strict.unit? e f g h
      if Strict.isLow second then string quote (Strict.ofPair first second :: read) rest else none
    else if Strict.isLow first then none
    else string quote (Char.ofNat first :: read) ('\\' :: 'u' :: e :: f :: g :: h :: rest)
  | '\\' :: 'u' :: a :: b :: c :: d :: rest => do
    let first ← Strict.unit? a b c d
    if Strict.isHigh first || Strict.isLow first then none
    else string quote (Char.ofNat first :: read) rest
  | '\\' :: c :: rest =>
    if c = '"' || c = '\'' then
      if c = quote then string quote (c :: read) rest else none
    else do string quote ((← Strict.escape? c) :: read) rest
  | c :: rest =>
    if c = quote then some (String.ofList read.reverse, rest) else string quote (c :: read) rest
termination_by text => text.length

def isNameChar (c : Char) : Bool := Text.isLetterOrDigit c || c = '-' || c = '_'

/-- Reads a bare name: it runs to a blank or a colon, and any other foreign character is an
error. -/
def bareName (text : List Char) : Option (String × List Char) :=
  let (name, rest) := text.span isNameChar
  let ends := match rest with
    | [] => true
    | c :: _ => Text.isBlank c || c = ':'
  if name.isEmpty || !ends then none else some (String.ofList name, rest)

def wordValues : List (List Char × Json) :=
  [(['t', 'r', 'u', 'e'], bool true), (['f', 'a', 'l', 's', 'e'], bool false),
    (['n', 'u', 'l', 'l'], null)]

/-- Reads a word that is a value; a letter or digit right after it makes it another word. -/
def wordValue? (text : List Char) : Option (Json × List Char) :=
  wordValues.findSome? fun (expected, result) =>
    if expected.isPrefixOf text then
      match text.drop expected.length with
      | [] => some (result, [])
      | c :: rest => if Text.isLetterOrDigit c then none else some (result, c :: rest)
    else none

def startsNumber (c : Char) : Bool := c.isDigit || c = '-' || c = '+'

def readBefore (text rest : List Char) : List Char := text.take (text.length - rest.length)

def ofHexDigits (ds : List Char) : Nat :=
  ds.foldl (fun n c => 16 * n + (Strict.hex? c).getD 0) 0

/-- Reads a number. One that is too large for its kind is the string of its text. -/
def number (text : List Char) : Option (Json × List Char) :=
  let (negative, body) := match text with
    | '-' :: rest => (true, rest)
    | '+' :: rest => (false, rest)
    | _ => (false, text)
  let source rest := str (String.ofList (readBefore text rest))
  match body with
  | '0' :: x :: more =>
    if x = 'x' || x = 'X' then
      let (ds, rest) := more.span fun c => (Strict.hex? c).isSome
      if ds.isEmpty then none
      else
        let size := ofHexDigits ds
        some (if size < Nat.pow 2 63 then int (if negative then -(size : Int) else size)
          else source rest, rest)
    else (literal body).map fun (l, rest) => ((l.value? negative).getD (source rest), rest)
  | _ => (literal body).map fun (l, rest) => ((l.value? negative).getD (source rest), rest)

/-- Reads the name of a member: a string, the text of a number, or a bare name that is none of the
words that are values. -/
def memberName (text : List Char) : Option (String × List Char) :=
  match text with
  | [] => none
  | c :: rest =>
    if c = '"' || c = '\'' then string c [] rest
    else if startsNumber c then
      (number text).map fun (_, rest) => (String.ofList (readBefore text rest), rest)
    else if (wordValue? text).isSome then none
    else bareName text

def afterComma (text : List Char) : Option (List Char) := do
  match ← next text with
  | ',' :: rest => next rest
  | rest => some rest

mutual

def value : Nat → List Char → Option (Json × List Char)
  | 0, _ => none
  | _ + 1, [] => none
  | fuel + 1, c :: rest =>
    if c = '"' || c = '\'' then (string c [] rest).map fun (s, rest) => (str s, rest)
    else if c = '\x7b' then do
      let (read, rest) ← members fuel (← next rest)
      return (obj read, rest)
    else if c = '[' then do
      let (read, rest) ← items fuel (← next rest)
      return (arr read, rest)
    else if startsNumber c then number (c :: rest)
    else wordValue? (c :: rest)

def items : Nat → List Char → Option (List Json × List Char)
  | 0, _ => none
  | fuel + 1, text =>
    match text with
    | ']' :: rest => some ([], rest)
    | _ => do
      let (item, rest) ← value fuel text
      let (more, rest) ← items fuel (← afterComma rest)
      return (item :: more, rest)

def members : Nat → List Char → Option (List (String × Json) × List Char)
  | 0, _ => none
  | fuel + 1, text =>
    match text with
    | '\x7d' :: rest => some ([], rest)
    | _ => do
      let (name, rest) ← memberName text
      match ← next rest with
      | ':' :: rest =>
        let (content, rest) ← value fuel (← next rest)
        let (more, rest) ← members fuel (← afterComma rest)
        return ((name, content) :: more, rest)
      | _ => none

end

end Relaxed

inductive RelaxedError where
  | malformed
deriving DecidableEq

def readRelaxed (text : String) : Except RelaxedError (Option Json) :=
  let chars := text.toList
  let result : Option (Option Json) := do
    let start ← Relaxed.next chars
    if start.isEmpty then return none
    let (read, rest) ← Relaxed.value (2 * chars.length + 2) start
    if (← Relaxed.next rest).isEmpty then return some read.canonical else none
  match result with
  | some read => .ok read
  | none => .error .malformed

end LintBridge.Json
