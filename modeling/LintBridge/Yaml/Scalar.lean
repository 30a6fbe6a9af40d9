import LintBridge.Yaml.Cursor
import LintBridge.Json.Strict
/-!
The text of YAML scalars in their five styles. Lines of a flow scalar are folded: one line end becomes
a space, and of more the first is dropped. Block scalars keep the indentation beyond their own.
-/
namespace LintBridge.Yaml

/-- Line ends met inside a scalar: the first one and those after it. -/
structure Breaks where
  first : List Char
  more : List Char

namespace Breaks

def none : Breaks := ⟨[], []⟩

def folded (b : Breaks) : List Char :=
  if b.first = ['\n'] then (if b.more.isEmpty then [' '] else b.more) else b.first ++ b.more

end Breaks

/-- Spaces and line ends between two words of a flow scalar. Blanks count only on the line of the
first word. -/
structure Gap where
  blanks : List Char
  breaks : Breaks
  broken : Bool

namespace Gap

def none : Gap := ⟨[], .none, false⟩

def text (g : Gap) : List Char := if g.broken then g.breaks.folded else g.blanks

end Gap

/-- Reads the gap that starts here. With a column given, no tab may stand before that column on a new
line. -/
def readGap (minColumn : Option Nat) : Nat → Gap → Cursor → Option (Gap × Cursor)
  | 0, g, c => some (g, c)
  | fuel + 1, g, c =>
    if c.atBlank then
      let early := match minColumn with
        | some column => g.broken && c.column < column && c.at_ '\t'
        | Option.none => false
      if early then Option.none
      else if g.broken then readGap minColumn fuel g c.skip
      else readGap minColumn fuel { g with blanks := g.blanks ++ (c.rest.take 1) } c.skip
    else if c.atBreak then
      let next := if g.broken then { g with breaks := { g.breaks with more := g.breaks.more ++ c.lineEnd } }
        else ⟨[], ⟨c.lineEnd, []⟩, true⟩
      readGap minColumn fuel next c.skipLine
    else some (g, c)

def isFlowIndicator (c : Char) : Bool := c = ',' || c = '[' || c = ']' || c = '{' || c = '}'

/-- Reads the characters of a plain scalar up to a space or an indicator that ends it. In a flow
collection a colon right before an indicator is an error. -/
def plainWord (inFlow : Bool) : List Char → Option (List Char)
  | [] => some []
  | c :: rest =>
    if isBlank c || isBreak c then some []
    else
      let spaceFollows := match rest with
        | [] => true
        | next :: _ => isBlank next || isBreak next
      let indicatorFollows := match rest with
        | [] => false
        | next :: _ => isFlowIndicator next || next = '?'
      if inFlow && c = ':' && indicatorFollows then none
      else if c = ':' && spaceFollows then some []
      else if inFlow && isFlowIndicator c then some []
      else (plainWord inFlow rest).map (c :: ·)

/-- A plain scalar: its text, the place after it, and whether a line ended in the space after it. -/
structure Plain where
  text : List Char
  after : Cursor
  lineEnded : Bool

/-- Reads a plain scalar. It runs on over lines that are indented at least to `column`, which does not
matter in a flow collection. -/
def readPlain (inFlow : Bool) (column : Nat) : Nat → List Char → Gap → Cursor → Option Plain
  | 0, text, gap, c => some ⟨text, c, gap.broken⟩
  | fuel + 1, text, gap, c =>
    if c.atDocumentMarker || c.at_ '#' then some ⟨text, c, gap.broken⟩
    else do
      let word ← plainWord inFlow c.rest
      let (text, gap) := if word.isEmpty then (text, gap) else (text ++ gap.text ++ word, Gap.none)
      let c := c.skipMany word.length
      if !(c.atBlank || c.atBreak) then return ⟨text, c, gap.broken⟩
      let (gap, c) ← readGap (some column) (c.rest.length + 1) gap c
      if !inFlow && c.column < column then return ⟨text, c, gap.broken⟩
      readPlain inFlow column fuel text gap c

def escape? (c : Char) : Option Char :=
  match c with
  | '0' => some '\x00'
  | 'a' => some '\x07'
  | 'b' => some '\x08'
  | 't' => some '\t'
  | '\t' => some '\t'
  | 'n' => some '\n'
  | 'v' => some '\x0b'
  | 'f' => some '\x0c'
  | 'r' => some '\r'
  | 'e' => some '\x1b'
  | ' ' => some ' '
  | '"' => some '"'
  | '/' => some '/'
  | '\\' => some '\\'
  | 'N' => some '\u0085'
  | '_' => some '\u00a0'
  | 'L' => some '\u2028'
  | 'P' => some '\u2029'
  | _ => none

def escapeDigits? (c : Char) : Option Nat :=
  match c with
  | 'x' => some 2
  | 'u' => some 4
  | 'U' => some 8
  | _ => none

def hexChar? (digits : List Char) : Option Char := do
  let values ← digits.mapM Json.Strict.hex?
  let code := values.foldl (fun n d => 16 * n + d) 0
  if code < 0xD800 || (0xDFFF < code && code ≤ 0x10FFFF) then some (Char.ofNat code) else none

inductive QuotedPart where
  | gap
  /-- A line end was escaped: nothing stands for it, and the blanks after it do not count. -/
  | escapedBreak
  | closed

def quotedWord (single : Bool) : Nat → List Char → Cursor → Option (List Char × QuotedPart × Cursor)
  | 0, _, _ => none
  | fuel + 1, read, c =>
    match c.rest with
    | [] => some (read.reverse, .gap, c)
    | b :: rest =>
      if isBlank b || isBreak b then some (read.reverse, .gap, c)
      else if single then
        if b = '\'' then
          if rest.head? = some '\'' then quotedWord single fuel ('\'' :: read) (c.skipMany 2)
          else some (read.reverse, .closed, c.skip)
        else quotedWord single fuel (b :: read) c.skip
      else if b = '"' then some (read.reverse, .closed, c.skip)
      else if b = '\\' then
        match rest with
        | [] => none
        | e :: more =>
          if isBreak e then some (read.reverse, .escapedBreak, c.skip.skipLine)
          else match escapeDigits? e with
            | some count =>
              if more.length < count then none
              else do
                quotedWord single fuel ((← hexChar? (more.take count)) :: read)
                  (c.skipMany (2 + count))
            | none => do quotedWord single fuel ((← escape? e) :: read) (c.skipMany 2)
      else quotedWord single fuel (b :: read) c.skip

def readQuoted (single : Bool) : Nat → List Char → Cursor → Option (List Char × Cursor)
  | 0, _, _ => none
  | fuel + 1, text, c =>
    if c.atDocumentMarker || c.atEnd then none
    else do
      let (word, part, c) ← quotedWord single (c.rest.length + 1) [] c
      let text := text ++ word
      match part with
      | .closed => return (text, c)
      | .gap =>
        let (gap, c) ← readGap none (c.rest.length + 1) .none c
        readQuoted single fuel (text ++ gap.text) c
      | .escapedBreak =>
        if !single && c.at_ '"' then return (text, c.skip)
        let (gap, c) ← readGap none (c.rest.length + 1) ⟨[], .none, true⟩ c
        readQuoted single fuel (text ++ gap.text) c

inductive Chomping where
  | strip
  | clip
  | keep
deriving DecidableEq

def blockHeader (c : Cursor) : Option (Chomping × Option Nat × Cursor) :=
  let chomp? (b : Char) : Option Chomping :=
    if b = '+' then some .keep else if b = '-' then some .strip else none
  let digit? (b : Char) : Option Nat := if b.isDigit then some (b.toNat - 48) else none
  match c.rest with
  | [] => some (.clip, none, c)
  | a :: more =>
    match chomp? a with
    | some chomping =>
      match more.head?.bind digit? with
      | some 0 => none
      | some n => some (chomping, some n, c.skipMany 2)
      | none => some (chomping, none, c.skip)
    | none =>
      match digit? a with
      | some 0 => none
      | some n =>
        match more.head?.bind chomp? with
        | some chomping => some (chomping, some n, c.skipMany 2)
        | none => some (.clip, some n, c.skip)
      | none => some (.clip, none, c)

/-- Reads the indentation and empty lines before a line of a block scalar: their line ends, the
largest indentation met, and the place after them. With the indentation known no more than it is read;
a tab in its place is an error. -/
def blockIndent (indent : Option Nat) :
    Nat → List Char → Nat → Cursor → Option (List Char × Nat × Cursor)
  | 0, breaks, deepest, c => some (breaks, deepest, c)
  | fuel + 1, breaks, deepest, c =>
    let room := match indent with
      | some n => n - c.column
      | none => c.rest.length
    let spaces := (c.rest.take room).takeWhile (· = ' ')
    let c := c.skipMany spaces.length
    let deepest := max deepest c.column
    let inside := match indent with
      | some n => c.column < n
      | none => true
    if inside && c.at_ '\t' then none
    else if c.atBreak then blockIndent indent fuel (breaks ++ c.lineEnd) deepest c.skipLine
    else some (breaks, deepest, c)

/-- The lines of a block scalar: its text so far, the line end before this line, and whether the line
before began with a blank. -/
structure BlockLines where
  text : List Char
  lineEnd : List Char
  breaks : List Char
  blankBefore : Bool

/-- Reads the lines of a block scalar. Folding joins two lines by a space unless one of them begins
with a blank. -/
def blockLines (literal : Bool) (indent : Nat) :
    Nat → BlockLines → Cursor → Option (BlockLines × Cursor)
  | 0, lines, c => some (lines, c)
  | fuel + 1, lines, c =>
    if c.column = indent && !c.atEnd then do
      let blank := c.atBlank
      let joint :=
        if !literal && lines.lineEnd = ['\n'] && !lines.blankBefore && !blank then
          (if lines.breaks.isEmpty then [' '] else [])
        else lines.lineEnd
      let (line, c) := c.takeWhile fun b => !isBreak b
      let lineEnd := c.lineEnd
      let (breaks, _, after) ← blockIndent (some indent) (c.rest.length + 1) [] 0 c.skipLine
      blockLines literal indent fuel
        ⟨lines.text ++ joint ++ lines.breaks ++ line, lineEnd, breaks, blank⟩ after
    else some (lines, c)

/-- Reads a block scalar after its indicator. `parent` is the indentation of the block around it. -/
def readBlock (literal : Bool) (parent : Int) (c : Cursor) : Option (List Char × Cursor) := do
  let (chomping, additional, c) ← blockHeader c
  let c := c.skipWhile isBlank
  let c := if c.at_ '#' then c.skipToLineEnd else c
  if !c.atLineEnd then none
  let c := c.skipLine
  let given := additional.map fun n => (if 0 ≤ parent then parent.toNat + n else n)
  let (breaks, deepest, c) ← blockIndent given (c.rest.length + 1) [] 0 c
  let indent := given.getD (max (max deepest (parent + 1).toNat) 1)
  let (lines, c) ← blockLines literal indent (c.rest.length + 1) ⟨[], [], breaks, false⟩ c
  let text := match chomping with
    | .strip => lines.text
    | .clip => lines.text ++ lines.lineEnd
    | .keep => lines.text ++ lines.lineEnd ++ lines.breaks
  return (text, c)

end LintBridge.Yaml
