import LintBridge.Json.Basic
import LintBridge.Number.Binary64
/-!
Number literals. An integer literal that fits 64 bits is an integer. Every other literal is a
floating-point number computed in two roundings: first the leading digits that fit 64 bits, then
their product with a power of ten.
-/
namespace LintBridge.Json

structure Literal where
  whole : List Nat
  fraction : List Nat
  exponent : Option Int

def digit? (c : Char) : Option Nat := if c.isDigit then some (c.toNat - 48) else none

def digits : List Char → List Nat × List Char
  | [] => ([], [])
  | c :: rest =>
    match digit? c with
    | some d => let (more, after) := digits rest; (d :: more, after)
    | none => ([], c :: rest)

def ofDigits (ds : List Nat) : Nat := ds.foldl (fun n d => 10 * n + d) 0

def wholePart : List Char → Option (List Nat × List Char)
  | '0' :: rest => some ([0], rest)
  | text => match digits text with
    | ([], _) => none
    | found => some found

def fractionPart : List Char → Option (List Nat × List Char)
  | '.' :: rest => match digits rest with
    | ([], _) => none
    | found => some found
  | text => some ([], text)

def exponentDigits (negative : Bool) (text : List Char) : Option (Option Int × List Char) :=
  match digits text with
  | ([], _) => none
  | (ds, rest) => some (some (if negative then -(ofDigits ds : Int) else ofDigits ds), rest)

def exponentPart : List Char → Option (Option Int × List Char)
  | c :: text =>
    if c = 'e' || c = 'E' then
      match text with
      | '+' :: rest => exponentDigits false rest
      | '-' :: rest => exponentDigits true rest
      | rest => exponentDigits false rest
    else some (none, c :: text)
  | [] => some (none, [])

def literal (text : List Char) : Option (Literal × List Char) := do
  let (whole, text) ← wholePart text
  let (fraction, text) ← fractionPart text
  let (exponent, text) ← exponentPart text
  return (⟨whole, fraction, exponent⟩, text)

/-- Appends digits to a number while it stays below `2 ^ 64`. The rest starts with the first digit
that does not fit. -/
def absorb (number : Nat) : List Nat → Nat × List Nat
  | [] => (number, [])
  | d :: rest =>
    if 10 * number + d < Nat.pow 2 64 then absorb (10 * number + d) rest else (number, d :: rest)

/-- Divides by powers of ten, at most `10 ^ 308` at a time, each quotient rounded. -/
def scaleDown (size : Nat) (places : Nat) : Nat :=
  if _ : places ≤ 308 then Binary64.div size (Binary64.ofDecimal 1 places)
  else if size = 0 then 0
  else scaleDown (Binary64.div size (Binary64.ofDecimal 1 308)) (places - 308)
termination_by places

def scale? (number : Nat) (exponent : Int) : Option Nat :=
  let size := Binary64.ofFraction number 1
  match exponent with
  | .negSucc e => some (scaleDown size (e + 1))
  | .ofNat e =>
    if size = 0 then some 0
    else if 308 < e then none
    else
      let scaled := Binary64.mul size (Binary64.ofDecimal 1 e)
      if scaled < Binary64.infinity then some scaled else none

def Literal.value? (negative : Bool) (l : Literal) : Option Json :=
  let (number, dropped) := absorb 0 l.whole
  if dropped.isEmpty && l.fraction.isEmpty && l.exponent.isNone
      && (!negative || (0 < number && number ≤ Nat.pow 2 63)) then
    some (int (if negative then -(number : Int) else number))
  else
    let (number, ignored) := absorb number l.fraction
    let exponent : Int := dropped.length - (l.fraction.length - ignored.length : Nat)
      + l.exponent.getD 0
    (scale? number exponent).map fun size => float (Binary64.withSign negative size)

end LintBridge.Json
