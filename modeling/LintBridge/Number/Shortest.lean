import LintBridge.Number.Binary64
/-!
The shortest decimal of a magnitude: the fewest digits that read back as it, and of those the
nearest. Decimal grids are tried from coarse to fine; a grid with a point in the interval of numbers
that round to the magnitude has one next to the magnitude, so two points are tested on each.
-/
namespace LintBridge.Binary64

/-- The interval that rounds to a magnitude, and the magnitude itself, over one denominator. -/
structure Interval where
  low : Nat
  value : Nat
  high : Nat
  den : Nat
  closed : Bool

/-- The interval of a finite magnitude other than zero. Below a power of two the lower neighbour is
only half as far. -/
def interval (bits : Nat) : Interval :=
  let m := significand bits
  let lowerGap := if m = Nat.pow 2 52 ∧ Nat.pow 2 52 < bits then 1 else 2
  match exponent bits with
  | .ofNat e =>
    ⟨(4 * m - lowerGap) * Nat.pow 2 e, 4 * m * Nat.pow 2 e, (4 * m + 2) * Nat.pow 2 e, 4, m % 2 = 0⟩
  | .negSucc e =>
    ⟨4 * m - lowerGap, 4 * m, 4 * m + 2, 4 * Nat.pow 2 (e + 1), m % 2 = 0⟩

def Interval.contains (i : Interval) (num den : Nat) : Bool :=
  if i.closed then i.low * den ≤ num * i.den && num * i.den ≤ i.high * den
  else i.low * den < num * i.den && num * i.den < i.high * den

/-- The point of the grid `10 ^ place` in the interval that is nearest to the value; of two equally
near the even one. -/
def Interval.onGrid? (i : Interval) (place : Int) : Option Nat :=
  let (up, down) : Nat × Nat := match place with
    | .ofNat p => (Nat.pow 10 p, 1)
    | .negSucc p => (1, Nat.pow 10 (p + 1))
  let below := i.value * down / (i.den * up)
  let above := below + 1
  let holdsBelow := 0 < below && i.contains (below * up) down
  let holdsAbove := i.contains (above * up) down
  let twice := 2 * i.value * down
  let middle := (below + above) * (i.den * up)
  if holdsBelow && holdsAbove then
    some (if twice < middle then below
      else if middle < twice then above
      else if below % 2 = 0 then below else above)
  else if holdsBelow then some below
  else if holdsAbove then some above
  else none

def belowTen (num den : Nat) (k : Int) : Bool :=
  match k with
  | .ofNat p => num < den * Nat.pow 10 p
  | .negSucc p => num * Nat.pow 10 (p + 1) < den

/-- The number of places before the decimal point, negative for a fraction that starts with zeros:
the least `k` with the fraction below `10 ^ k`, searched downward. -/
def places (num den : Nat) : Nat → Int → Int
  | 0, k => k
  | fuel + 1, k => if belowTen num den (k - 1) then places num den fuel (k - 1) else k

def Interval.search (i : Interval) (k : Int) : Nat → Nat → Nat × Int
  | 0, count => (i.value / i.den, k - count)
  | fuel + 1, count =>
    match i.onGrid? (k - count) with
    | some digits => (digits, k - count)
    | none => i.search k fuel (count + 1)

def dropZeros : Nat → Nat × Int → Nat × Int
  | 0, d => d
  | fuel + 1, (digits, place) =>
    if digits % 10 = 0 ∧ digits ≠ 0 then dropZeros fuel (digits / 10, place + 1)
    else (digits, place)

def shortest (bits : Nat) : Nat × Int :=
  let i := interval bits
  let k := places i.value i.den 640 310
  dropZeros 20 (i.search k 17 1)

end LintBridge.Binary64
