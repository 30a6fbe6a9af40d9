import LintBridge.Text.Pieces
/-!
Text in encoding units, and bytes read as text. A width assigns every character its number of units;
the two widths in use are those of UTF-8 (bytes) and UTF-16 (code units). An offset names a place in a
text only if it falls between two characters, and `splitAt?` finds that place. Bytes that begin no
character give U+FFFD, one for each longest beginning of a character that the bytes after it do not
complete. The lines of a source text start at offsets in UTF-16 units; a line feed ends a line.
-/
namespace LintBridge.Text

def byteWidth (c : Char) : Nat := c.utf8Size

def unitWidth (c : Char) : Nat := if c.val < 0x10000 then 1 else 2

def measure (width : Char → Nat) : List Char → Nat
  | [] => 0
  | c :: rest => width c + measure width rest

/-- The text before and after an offset. There is none when the offset lies inside a character or
beyond the end. -/
def splitAt? (width : Char → Nat) : Nat → List Char → Option (List Char × List Char)
  | 0, text => some ([], text)
  | _ + 1, [] => none
  | offset + 1, c :: rest =>
    if width c ≤ offset + 1 then
      (splitAt? width (offset + 1 - width c) rest).map fun (before, after) => (c :: before, after)
    else none

def splice? (width : Char → Nat) (start stop : Nat) (insert text : List Char) :
    Option (List Char) := do
  let (before, rest) ← splitAt? width start text
  if start ≤ stop then
    let (_, after) ← splitAt? width (stop - start) rest
    return before ++ (insert ++ after)
  else none

/-- What a first byte asks for: the number of continuation bytes, the bits it holds, and the range
of the second byte. The ranges leave out overlong forms, surrogates and values above U+10FFFF. -/
def leadByte (b : Nat) : Option (Nat × Nat × Nat × Nat) :=
  if b < 0x80 then some (0, b, 0x80, 0xBF)
  else if b < 0xC2 then none
  else if b < 0xE0 then some (1, b - 0xC0, 0x80, 0xBF)
  else if b == 0xE0 then some (2, 0, 0xA0, 0xBF)
  else if b == 0xED then some (2, 0xD, 0x80, 0x9F)
  else if b < 0xF0 then some (2, b - 0xE0, 0x80, 0xBF)
  else if b == 0xF0 then some (3, 0, 0x90, 0xBF)
  else if b < 0xF4 then some (3, b - 0xF0, 0x80, 0xBF)
  else if b == 0xF4 then some (3, 4, 0x80, 0x8F)
  else none

/-- Reads `count` continuation bytes. The result says how many were right, and holds the value when
all were. -/
def continuation : Nat → Nat → Nat → Nat → List Nat → Nat × Option Nat
  | 0, value, _, _, _ => (0, some value)
  | _ + 1, _, _, _, [] => (0, none)
  | count + 1, value, low, high, b :: rest =>
    if low ≤ b && b ≤ high then
      let (used, result) := continuation count (value * 64 + (b - 0x80)) 0x80 0xBF rest
      (used + 1, result)
    else (0, none)

def decodeBytes : List Nat → List Char
  | [] => []
  | b :: rest =>
    match leadByte b with
    | none => '\uFFFD' :: decodeBytes rest
    | some (count, value, low, high) =>
      let (used, result) := continuation count value low high rest
      (result.map Char.ofNat |>.getD '\uFFFD') :: decodeBytes (rest.drop used)
termination_by bytes => bytes.length
decreasing_by all_goals simp_wf; try omega

end LintBridge.Text

namespace LintBridge

structure SourceText where
  chars : List Char

namespace SourceText

def ofString (text : String) : SourceText := ⟨text.toList⟩

def startsAfter (offset : UInt32) : List Char → List UInt32
  | [] => []
  | c :: rest =>
    let next := offset + UInt32.ofNat (Text.unitWidth c)
    if c = '\n' then next :: startsAfter next rest else startsAfter next rest

def lineStarts (t : SourceText) : List UInt32 := 0 :: startsAfter 0 t.chars

/-- The number of the line that an offset lies in, from zero: the last line that starts at or before
it. -/
def lineOf (t : SourceText) (offset : UInt32) : Nat := t.lineStarts.countP (· ≤ offset) - 1

def lineStart (t : SourceText) (line : Nat) : UInt32 := t.lineStarts.getD line 0

def lineText (t : SourceText) (line : Nat) : List Char :=
  match (Text.pieces '\n' t.chars)[line]? with
  | some text => Text.dropLast? '\r' text
  | none => []

def indentation (t : SourceText) (line : Nat) : List Char :=
  (t.lineText line).takeWhile fun c => c = ' ' || c = '\t'

end SourceText
end LintBridge
