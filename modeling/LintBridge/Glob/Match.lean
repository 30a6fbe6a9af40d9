import LintBridge.Glob.Pattern
import LintBridge.Path.Basic
/-!
Matching paths against glob patterns, on the bytes of their UTF-8 text. A part of a pattern takes a
beginning of the text; it is described by the rests it may leave, and a pattern matches if one of its
rests is empty. A file is excluded if a pattern matches its path or the path from the working
directory to it.
-/
namespace LintBridge.Glob

abbrev Byte := UInt8

def slash : Byte := 47

def bytes (text : List Char) : List Byte := text.flatMap String.utf8EncodeChar

def rest? : List Byte → List Byte → Option (List Byte)
  | [], text => some text
  | _ :: _, [] => none
  | b :: expected, c :: text => if b = c then rest? expected text else none

def restsOfRun : List Byte → List (List Byte)
  | [] => [[]]
  | b :: text => if b = slash then [b :: text] else (b :: text) :: restsOfRun text

def restsAfterSlash : List Byte → List (List Byte)
  | [] => []
  | b :: text => if b = slash then text :: restsAfterSlash text else restsAfterSlash text

def allRests : List Byte → List (List Byte)
  | [] => [[]]
  | b :: text => (b :: text) :: allRests text

/-- The byte ranges of a range of characters. Each byte of a longer character is a member of its own,
and the range runs from the last byte of the first character to the first byte of the last. -/
def byteRanges (range : Char × Char) : List (Byte × Byte) :=
  let single (bs : List Byte) := bs.map fun b => (b, b)
  let low := String.utf8EncodeChar range.1
  if range.1 = range.2 then single low
  else
    let high := String.utf8EncodeChar range.2
    single low.dropLast ++ (low.getLastD 0, high.headD 0) :: single high.tail

def isMember (ranges : List (Char × Char)) (b : Byte) : Bool :=
  ranges.any fun range => (byteRanges range).any fun (low, high) => low ≤ b && b ≤ high

mutual

def isVoid : Token → Bool
  | .choice alternatives => allVoid alternatives
  | _ => false

def isVoidSequence : List Token → Bool
  | [] => true
  | token :: tokens => isVoid token && isVoidSequence tokens

def allVoid : List (List Token) → Bool
  | [] => true
  | tokens :: rest => isVoidSequence tokens && allVoid rest

end

mutual

def tokenRests : Token → List Byte → List (List Byte)
  | .literal c, text => (rest? (String.utf8EncodeChar c) text).toList
  | .one, text =>
    match text with
    | b :: rest => if b = slash then [] else [rest]
    | [] => []
  | .run, text => restsOfRun text
  | .leading, text => text :: restsAfterSlash text
  | .between, text =>
    match text with
    | b :: rest => if b = slash then rest :: restsAfterSlash rest else []
    | [] => []
  | .trailing, text =>
    match text with
    | b :: rest => if b = slash then allRests rest else []
    | [] => []
  | .oneOf negated ranges, text =>
    match text with
    | b :: rest => if isMember ranges b != negated then [rest] else []
    | [] => []
  | .choice alternatives, text =>
    if allVoid alternatives then [text] else (choiceRests alternatives text).eraseDups

def sequenceRests : List Token → List (List Byte) → List (List Byte)
  | [], texts => texts
  | token :: tokens, texts => sequenceRests tokens (texts.flatMap (tokenRests token)).eraseDups

/-- The rests that the alternatives may leave; empty ones do not count. -/
def choiceRests : List (List Token) → List Byte → List (List Byte)
  | [], _ => []
  | tokens :: more, text =>
    (if isVoidSequence tokens then [] else sequenceRests tokens [text]) ++ choiceRests more text

end

/-- Whether a pattern matches a whole text. Two stars alone match every text. -/
def isMatch (pattern : List Token) (text : String) : Bool :=
  match pattern with
  | [.leading] => true
  | _ => (sequenceRests pattern [bytes text.toList]).any List.isEmpty

end LintBridge.Glob

namespace LintBridge

def compilePatterns (patterns : List String) : List (List Glob.Token) :=
  patterns.filterMap Glob.parse?

def isExcluded (patterns : List String) (file : Path) (dir : Option Path) : Bool :=
  let globs := compilePatterns patterns
  let seen := match dir.bind file.relativeTo? with
    | some relative =>
      !relative.same file && globs.any (Glob.isMatch · relative.text)
    | none => false
  seen || globs.any (Glob.isMatch · file.text)

end LintBridge
