/-!
A place in a YAML text: what follows, and where that is.
-/
namespace LintBridge.Yaml

def isPrintable (c : Char) : Bool :=
  c = '\t' || c = '\n' || c = '\r' || (0x20 ≤ c.val && c.val ≤ 0x7E) || c.val = 0x85
    || (0xA0 ≤ c.val && c.val ≤ 0xFFFD) || 0x10000 ≤ c.val

def isBreak (c : Char) : Bool :=
  c = '\r' || c = '\n' || c.val = 0x85 || c.val = 0x2028 || c.val = 0x2029

def isBlank (c : Char) : Bool := c = ' ' || c = '\t'

def isNameChar (c : Char) : Bool := c.isAlphanum || c = '-' || c = '_'

/-- The text from a place on, with the number of characters before it, its line and its column. -/
structure Cursor where
  rest : List Char
  index : Nat
  line : Nat
  column : Nat

namespace Cursor

def start (text : List Char) : Cursor := ⟨text, 0, 0, 0⟩

def peek (c : Cursor) : Option Char := c.rest.head?

def peekAt (c : Cursor) (n : Nat) : Option Char := c.rest[n]?

def at_ (c : Cursor) (expected : Char) : Bool := c.rest.head? = some expected

def skip (c : Cursor) : Cursor :=
  match c.rest with
  | [] => c
  | _ :: rest => ⟨rest, c.index + 1, c.line, c.column + 1⟩

def skipMany (c : Cursor) (n : Nat) : Cursor :=
  ⟨c.rest.drop n, c.index + min n c.rest.length, c.line, c.column + min n c.rest.length⟩

def skipLine (c : Cursor) : Cursor :=
  match c.rest with
  | '\r' :: '\n' :: rest => ⟨rest, c.index + 2, c.line + 1, 0⟩
  | b :: rest => if isBreak b then ⟨rest, c.index + 1, c.line + 1, 0⟩ else c
  | [] => c

def lineEnd (c : Cursor) : List Char :=
  match c.rest with
  | b :: _ => if b.val = 0x2028 || b.val = 0x2029 then [b] else if isBreak b then ['\n'] else []
  | [] => []

def atBreak (c : Cursor) : Bool := c.rest.head?.any isBreak

def atBlank (c : Cursor) : Bool := c.rest.head?.any isBlank

def atEnd (c : Cursor) : Bool := c.rest.isEmpty

def atLineEnd (c : Cursor) : Bool := c.atEnd || c.atBreak

def spaceAt (c : Cursor) (n : Nat) : Bool :=
  match c.rest[n]? with
  | none => true
  | some b => isBlank b || isBreak b

def takeWhile (c : Cursor) (p : Char → Bool) : List Char × Cursor :=
  let taken := c.rest.takeWhile p
  (taken, c.skipMany taken.length)

def skipWhile (c : Cursor) (p : Char → Bool) : Cursor := (c.takeWhile p).2

def skipToLineEnd (c : Cursor) : Cursor := c.skipWhile fun b => !isBreak b

/-- Whether three equal hyphens or dots stand here as a marker: at the start of a line and followed by
space. -/
def atMarker (c : Cursor) (mark : Char) : Bool :=
  c.column = 0 && c.rest.take 3 = [mark, mark, mark] && c.spaceAt 3

def atDocumentMarker (c : Cursor) : Bool := c.atMarker '-' || c.atMarker '.'

end Cursor
end LintBridge.Yaml
