import LintBridge.Yaml.Scalar
/-!
YAML tokens. Indentation opens and closes blocks, so the tokens of a block text are those of a
bracketed one. A key is known as such only at the colon after it: until then the place where it
started is remembered, and at the colon the key token is put in there.
-/
namespace LintBridge.Yaml

inductive Token where
  | versionDirective (major minor : Nat)
  | tagDirective (handle start : List Char)
  | documentStart
  | documentEnd
  | blockSequence
  | blockMapping
  | blockEnd
  | flowSequence
  | flowSequenceEnd
  | flowMapping
  | flowMappingEnd
  | blockEntry
  | flowEntry
  | key
  | value
  | reference (name : List Char)
  | anchor (name : List Char)
  | tag (handle suffix : List Char)
  | scalar (text : List Char) (plain : Bool)
deriving DecidableEq

/-- A place where a key may have started. In a block, one that stands at the indentation must be a
key. -/
structure KeyStart where
  required : Bool
  token : Nat
  line : Nat
  column : Nat
  index : Nat

/-- What has been read: the place, the tokens, the open indentations with the innermost first, whether
a key may start here, and the possible key of every open flow collection and of the block around
them, innermost first. -/
structure Lexer where
  cursor : Cursor
  tokens : Array Token
  indent : Int
  outerIndents : List Int
  keyAllowed : Bool
  keyStart : Option KeyStart
  outerKeys : List (Option KeyStart)

namespace Lexer

def start (text : List Char) : Lexer := ⟨.start text, #[], -1, [], true, none, []⟩

def inFlow (l : Lexer) : Bool := !l.outerKeys.isEmpty

def push (l : Lexer) (t : Token) : Lexer := { l with tokens := l.tokens.push t }

def insertAt (l : Lexer) (number : Nat) (t : Token) : Lexer :=
  { l with tokens := l.tokens.extract 0 number ++ #[t] ++ l.tokens.extract number l.tokens.size }

def goTo (l : Lexer) (c : Cursor) : Lexer := { l with cursor := c }

def allowKey (l : Lexer) (allowed : Bool) : Lexer := { l with keyAllowed := allowed }

/-- The text between tokens: spaces, comments and line ends. Tabs may stand where no key may start. A
line end in a block lets a key start. -/
def skipSpace : Nat → Lexer → Lexer
  | 0, l => l
  | fuel + 1, l =>
    let c := l.cursor
    let c := if c.column = 0 && c.at_ '\uFEFF' then c.skip else c
    let tabs := l.inFlow || !l.keyAllowed
    let c := c.skipWhile fun b => b = ' ' || (tabs && b = '\t')
    let c := if c.at_ '#' then c.skipToLineEnd else c
    if c.atBreak then
      skipSpace fuel { l with cursor := c.skipLine, keyAllowed := l.keyAllowed || !l.inFlow }
    else l.goTo c

/-- A possible key ends with its line and after 1024 characters; one that is required must not. -/
def expire? (c : Cursor) (key : Option KeyStart) : Option (Option KeyStart) :=
  match key with
  | none => some none
  | some k =>
    if k.line < c.line || k.index + 1024 < c.index then (if k.required then none else some none)
    else some (some k)

def expireKeys? (l : Lexer) : Option Lexer := do
  return { l with
    keyStart := ← expire? l.cursor l.keyStart
    outerKeys := ← l.outerKeys.mapM (expire? l.cursor) }

def closeBlocks (column : Int) : List Int → Lexer → Lexer
  | [], l => l
  | outer :: more, l =>
    if column < l.indent then
      closeBlocks column more
        { l with tokens := l.tokens.push .blockEnd, indent := outer, outerIndents := more }
    else l

def unroll (l : Lexer) (column : Int) : Lexer :=
  if l.inFlow then l else closeBlocks column l.outerIndents l

def roll (l : Lexer) (column : Nat) (number : Nat) (t : Token) : Lexer :=
  if !l.inFlow && l.indent < column then
    { l with indent := column, outerIndents := l.indent :: l.outerIndents }.insertAt number t
  else l

def dropKey? (l : Lexer) : Option Lexer :=
  match l.keyStart with
  | some k => if k.required then none else some { l with keyStart := none }
  | none => some l

def noteKey? (l : Lexer) : Option Lexer :=
  if l.keyAllowed then do
    let required := !l.inFlow && l.indent = l.cursor.column
    let key : KeyStart :=
      ⟨required, l.tokens.size, l.cursor.line, l.cursor.column, l.cursor.index⟩
    return { (← l.dropKey?) with keyStart := some key }
  else some l

def indicator (l : Lexer) (t : Token) : Lexer := (l.push t).goTo l.cursor.skip

def openFlow? (l : Lexer) (t : Token) : Option Lexer := do
  let l ← l.noteKey?
  return ({ l with keyStart := none, outerKeys := l.keyStart :: l.outerKeys }.allowKey true).indicator t

def closeFlow? (l : Lexer) (t : Token) : Option Lexer := do
  let l ← l.dropKey?
  let l := match l.outerKeys with
    | [] => l
    | key :: outer => { l with keyStart := key, outerKeys := outer }
  return (l.allowKey false).indicator t

def flowEntry? (l : Lexer) : Option Lexer := do
  return ((← l.dropKey?).allowKey true).indicator .flowEntry

def blockEntry? (l : Lexer) : Option Lexer := do
  if !l.inFlow && !l.keyAllowed then none
  let l := l.roll l.cursor.column l.tokens.size .blockSequence
  return ((← l.dropKey?).allowKey true).indicator .blockEntry

def explicitKey? (l : Lexer) : Option Lexer := do
  if !l.inFlow && !l.keyAllowed then none
  let l := l.roll l.cursor.column l.tokens.size .blockMapping
  return ((← l.dropKey?).allowKey !l.inFlow).indicator .key

/-- Reads the colon of a value. After a possible key the tokens for the key are put in where it
started. -/
def value? (l : Lexer) : Option Lexer :=
  match l.keyStart with
  | some k =>
    let l := (l.insertAt k.token .key).roll k.column k.token .blockMapping
    some (({ l with keyStart := none }.allowKey false).indicator .value)
  | none =>
    if !l.inFlow && !l.keyAllowed then none
    else
      let l := l.roll l.cursor.column l.tokens.size .blockMapping
      some ((l.allowKey !l.inFlow).indicator .value)

/-- Ends all blocks, as a line does that belongs to no document. -/
def leaveBlocks? (l : Lexer) : Option Lexer := do
  return ((← (l.unroll (-1)).dropKey?).allowKey false)

def marker? (l : Lexer) (t : Token) : Option Lexer := do
  let l ← l.leaveBlocks?
  return (l.push t).goTo (l.cursor.skipMany 3)

def name (c : Cursor) : List Char × Cursor := c.takeWhile isNameChar

/-- Reads an anchor or alias. The name ends at space or at one of a few indicators. -/
def named? (l : Lexer) (make : List Char → Token) : Option Lexer := do
  let l := (← l.noteKey?).allowKey false
  let (name, c) := name l.cursor.skip
  let ends := c.spaceAt 0 || (c.peek.any fun b => "?:,]\x7d%@`".toList.contains b)
  if name.isEmpty || !ends then none
  return (l.push (make name)).goTo c

def escapedOctet? (text : List Char) : Option Nat :=
  match text with
  | '%' :: a :: b :: _ => do return (← Json.Strict.hex? a) * 16 + (← Json.Strict.hex? b)
  | _ => none

def escapedChar? (text : List Char) : Option (Char × List Char) := do
  let first ← escapedOctet? text
  let (count, bits) ←
    if first < 0x80 then some (0, first)
    else if first < 0xC0 then none
    else if first < 0xE0 then some (1, first % 0x20)
    else if first < 0xF0 then some (2, first % 0x10)
    else if first < 0xF8 then some (3, first % 0x08)
    else none
  let rec more : Nat → Nat → List Char → Option (Nat × List Char)
    | 0, code, text => some (code, text)
    | n + 1, code, text => do
      let octet ← escapedOctet? text
      if octet < 0x80 || 0xC0 ≤ octet then none
      more n (code * 64 + octet % 64) (text.drop 3)
  let (code, rest) ← more count bits (text.drop 3)
  return (Char.ofNat code, rest)

def isTagChar (verbatim : Bool) (c : Char) : Bool :=
  isNameChar c || ";/?:@&=+$.%!~*'()".toList.contains c || (verbatim && (c = ',' || c = '[' || c = ']'))

def tagChars (verbatim : Bool) : Nat → List Char → Option (List Char × List Char)
  | 0, text => some ([], text)
  | fuel + 1, text =>
    match text with
    | [] => some ([], [])
    | c :: rest =>
      if !isTagChar verbatim c then some ([], c :: rest)
      else do
        let (c, rest) ← if c = '%' then escapedChar? text else some (c, rest)
        let (more, rest) ← tagChars verbatim fuel rest
        return (c :: more, rest)

def tagText? (verbatim : Bool) (c : Cursor) : Option (List Char × Cursor) := do
  let (text, rest) ← tagChars verbatim (c.rest.length + 1) c.rest
  return (text, c.skipMany (c.rest.length - rest.length))

def tagHandle? (c : Cursor) : Option (List Char × Cursor) := do
  if !c.at_ '!' then none
  let (name, c) := name c.skip
  if c.at_ '!' then return ('!' :: name ++ ['!'], c.skip) else return ('!' :: name, c)

/-- Reads handle and suffix of a tag. What looks like a handle without a second mark is the start of a
suffix; a mark alone is a tag of its own. -/
def tagParts? (c : Cursor) : Option (List Char × List Char × Cursor) :=
  if c.peekAt 1 = some '<' then do
    let (suffix, c) ← tagText? true (c.skipMany 2)
    if suffix.isEmpty || !c.at_ '>' then none
    return ([], suffix, c.skip)
  else do
    let (handle, c) ← tagHandle? c
    if 2 ≤ handle.length && handle.getLast? = some '!' then
      let (suffix, c) ← tagText? false c
      if suffix.isEmpty then none
      return (handle, suffix, c)
    else
      let (more, c) ← tagText? false c
      let suffix := handle.drop 1 ++ more
      if suffix.isEmpty then return ([], ['!'], c) else return (['!'], suffix, c)

def tag? (l : Lexer) : Option Lexer := do
  let l := (← l.noteKey?).allowKey false
  let (handle, suffix, c) ← tagParts? l.cursor
  if (l.inFlow && c.at_ ',') || c.spaceAt 0 then return (l.push (.tag handle suffix)).goTo c
  else none

def versionNumber? (c : Cursor) : Option (Nat × Cursor) :=
  let (ds, c) := c.takeWhile Char.isDigit
  if ds.isEmpty || 9 < ds.length then none
  else some (ds.foldl (fun n d => 10 * n + (d.toNat - 48)) 0, c)

def versionDirective? (c : Cursor) : Option (Token × Cursor) := do
  let (major, c) ← versionNumber? (c.skipWhile isBlank)
  if !c.at_ '.' then none
  let (minor, c) ← versionNumber? c.skip
  return (.versionDirective major minor, c)

def tagDirective? (c : Cursor) : Option (Token × Cursor) := do
  let (handle, c) ← tagHandle? (c.skipWhile isBlank)
  if handle != ['!'] && !(2 ≤ handle.length && handle.getLast? = some '!') then none
  if !c.atBlank then none
  let (start, c) ← tagText? true (c.skipWhile isBlank)
  if start.isEmpty || !c.spaceAt 0 then none
  return (.tagDirective handle start, c)

def directive? (l : Lexer) : Option Lexer := do
  let l ← l.leaveBlocks?
  let (name, c) := name l.cursor.skip
  if name.isEmpty || !c.spaceAt 0 then none
  let (t, c) ←
    if name = ['Y', 'A', 'M', 'L'] then versionDirective? c
    else if name = ['T', 'A', 'G'] then tagDirective? c
    else none
  let c := c.skipWhile isBlank
  let c := if c.at_ '#' then c.skipToLineEnd else c
  if !c.atLineEnd then none
  return (l.push t).goTo c.skipLine

def blockScalar? (l : Lexer) (literal : Bool) : Option Lexer := do
  let l := (← l.dropKey?).allowKey true
  let (text, c) ← readBlock literal l.indent l.cursor.skip
  return (l.push (.scalar text false)).goTo c

def quotedScalar? (l : Lexer) (single : Bool) : Option Lexer := do
  let l := (← l.noteKey?).allowKey false
  let c := l.cursor.skip
  let (text, c) ← readQuoted single (c.rest.length + 1) [] c
  return (l.push (.scalar text false)).goTo c

def plainScalar? (l : Lexer) : Option Lexer := do
  let l := (← l.noteKey?).allowKey false
  let plain ← readPlain l.inFlow (l.indent + 1).toNat (l.cursor.rest.length + 1) [] .none l.cursor
  return ((l.push (.scalar plain.text true)).goTo plain.after).allowKey plain.lineEnded

/-- The characters that no plain scalar starts with; hyphen, question mark and colon may start one if
no space follows. -/
def isIndicator (c : Char) : Bool := "-?:,[]\x7b\x7d#&*!|>'\"%@`".toList.contains c

def plainStarts (inFlow : Bool) (c : Cursor) (first : Char) : Bool :=
  !(isIndicator first || isBlank first || isBreak first)
    || (first = '-' && !(c.peekAt 1).any isBlank)
    || (!inFlow && (first = '?' || first = ':') && !c.spaceAt 1)

def token? (l : Lexer) (first : Char) : Option Lexer :=
  let c := l.cursor
  if c.column = 0 && first = '%' then l.directive?
  else if c.atMarker '-' then l.marker? .documentStart
  else if c.atMarker '.' then l.marker? .documentEnd
  else if first = '[' then l.openFlow? .flowSequence
  else if first = '{' then l.openFlow? .flowMapping
  else if first = ']' then l.closeFlow? .flowSequenceEnd
  else if first = '}' then l.closeFlow? .flowMappingEnd
  else if first = ',' then l.flowEntry?
  else if first = '-' && c.spaceAt 1 then l.blockEntry?
  else if first = '?' && (l.inFlow || c.spaceAt 1) then l.explicitKey?
  else if first = ':' && (l.inFlow || c.spaceAt 1) then l.value?
  else if first = '*' then l.named? .reference
  else if first = '&' then l.named? .anchor
  else if first = '!' then l.tag?
  else if first = '|' && !l.inFlow then l.blockScalar? true
  else if first = '>' && !l.inFlow then l.blockScalar? false
  else if first = '\'' then l.quotedScalar? true
  else if first = '"' then l.quotedScalar? false
  else if plainStarts l.inFlow c first then l.plainScalar?
  else none

def run : Nat → Lexer → Option (Array Token)
  | 0, _ => none
  | fuel + 1, l => do
    let l := skipSpace (l.cursor.rest.length + 1) l
    let l ← l.expireKeys?
    let l := l.unroll l.cursor.column
    match l.cursor.peek with
    | none => return (← (l.unroll (-1)).dropKey?).tokens
    | some first => run fuel (← l.token? first)

end Lexer

/-- The tokens of a text, if it has only printable characters and they form tokens. A byte order mark
at the start does not count. -/
def tokens? (text : String) : Option (List Token) := do
  let text := text.toList
  if !text.all isPrintable then none
  let text := if text.head? = some '\uFEFF' then text.tail else text
  return (← Lexer.run (text.length + 1) (.start text)).toList

end LintBridge.Yaml
