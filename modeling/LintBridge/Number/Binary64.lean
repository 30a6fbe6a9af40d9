/-!
Magnitudes of 64-bit binary floating point, held as their bit pattern without the sign bit. Every
operation computes the exact rational result and rounds it to the nearest representable value, a tie
going to the even one.
-/
namespace LintBridge.Binary64

/-- The pattern of infinity; the patterns of finite magnitudes are the smaller numbers. -/
def infinity : Nat := 0x7FF * Nat.pow 2 52

/-- A finite magnitude is `significand bits * 2 ^ exponent bits`. -/
def significand (bits : Nat) : Nat :=
  if bits / Nat.pow 2 52 = 0 then bits else Nat.pow 2 52 + bits % Nat.pow 2 52

def exponent (bits : Nat) : Int :=
  if bits / Nat.pow 2 52 = 0 then -1074 else (bits / Nat.pow 2 52 : Nat) - 1075

def toFraction (bits : Nat) : Nat × Nat :=
  match exponent bits with
  | .ofNat e => (significand bits * Nat.pow 2 e, 1)
  | .negSucc e => (significand bits, Nat.pow 2 (e + 1))

def roundDiv (num den : Nat) : Nat :=
  let quotient := num / den
  let rest := num % den
  if 2 * rest < den then quotient
  else if den < 2 * rest then quotient + 1
  else quotient + quotient % 2

def roundAt (num den : Nat) (unit : Int) : Nat :=
  match unit with
  | .ofNat u => roundDiv num (den * Nat.pow 2 u)
  | .negSucc u => roundDiv (num * Nat.pow 2 (u + 1)) den

def belowPower (num den : Nat) (e : Int) : Bool :=
  match e with
  | .ofNat e => num < den * Nat.pow 2 e
  | .negSucc e => num * Nat.pow 2 (e + 1) < den

def ofFraction (num den : Nat) : Nat :=
  if num = 0 then 0 else
  let scale : Int := (Nat.log2 num : Int) - Nat.log2 den
  let top := if belowPower num den scale then scale else scale + 1
  let unit := max (top - 53) (-1074)
  let rounded := roundAt num den unit
  let bits := if rounded < Nat.pow 2 52 then rounded
    else (unit + 1074).toNat * Nat.pow 2 52 + rounded
  min bits infinity

/-- The magnitude nearest to `digits * 10 ^ exponent`. Far exponents are settled without computing
the power: the largest finite magnitude is below `10 ^ 309`, and below `10 ^ (-324)` all rounds to
zero. -/
def ofDecimal (digits : Nat) (exponent : Int) : Nat :=
  if digits = 0 then 0
  else if 310 < exponent then infinity
  else if exponent + (Nat.log2 digits : Nat) < -1200 then 0
  else match exponent with
    | .ofNat e => ofFraction (digits * Nat.pow 10 e) 1
    | .negSucc e => ofFraction digits (Nat.pow 10 (e + 1))

def mul (a b : Nat) : Nat :=
  let (an, ad) := toFraction a
  let (bn, bd) := toFraction b
  ofFraction (an * bn) (ad * bd)

def div (a b : Nat) : Nat :=
  let (an, ad) := toFraction a
  let (bn, bd) := toFraction b
  ofFraction (an * bd) (ad * bn)

def withSign (negative : Bool) (bits : Nat) : UInt64 :=
  UInt64.ofNat (if negative then Nat.pow 2 63 + bits else bits)

def isNegative (bits : UInt64) : Bool := Nat.pow 2 63 ≤ bits.toNat

def magnitude (bits : UInt64) : Nat := bits.toNat % Nat.pow 2 63

end LintBridge.Binary64
