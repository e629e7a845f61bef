import TemplateMachine.Number.Binary64

/-! The fewest decimal digits that read back as a given double.  The reals that round to a double
form an interval, whose ends belong to it when the mantissa is even.  A decimal grid has its points
at the multiples of a power of ten; if a grid has a point in the interval, one of the two points
next to the double itself lies there, so it is enough to try those two on finer and finer grids. -/

namespace TemplateMachine

/-- The decimal number `significand * 10 ^ exponent`. -/
structure Decimal where
  significand : Nat
  exponent : Int
deriving DecidableEq, Inhabited, Repr

/-- Which of two grid points equally far from the number is taken. -/
inductive Tie
  | toEven
  | up
deriving DecidableEq, Repr

namespace Decimal

/-- The reals that round to a finite positive double: from `low` to `high`, the number itself at
`mid`, all in units of `2 ^ unit`. -/
structure Interval where
  low : Nat
  mid : Nat
  high : Nat
  unit : Int
  closed : Bool

/-- The spacing below a power of two is half the spacing above it. -/
def Interval.ofBinary64 (x : Binary64) : Interval where
  low := if x.fraction = 0 ∧ 1 < x.biased then 4 * x.mantissa - 1 else 4 * x.mantissa - 2
  mid := 4 * x.mantissa
  high := 4 * x.mantissa + 2
  unit := x.exponent - 2
  closed := x.mantissa % 2 == 0

/-- `n * 2 ^ unit` over `10 ^ exponent`, as a pair of numbers with that quotient. -/
def onGrid (n : Nat) (unit exponent : Int) : Nat × Nat :=
  (n * Nat.pow 2 unit.toNat * Nat.pow 10 (-exponent).toNat,
    Nat.pow 2 (-unit).toNat * Nat.pow 10 exponent.toNat)

/-- The point `c * 10 ^ exponent` lies in the interval. -/
def Interval.contains (i : Interval) (c : Nat) (exponent : Int) : Bool :=
  let (low, den) := onGrid i.low i.unit exponent
  let (high, _) := onGrid i.high i.unit exponent
  if i.closed then low ≤ c * den && c * den ≤ high else low < c * den && c * den < high

/-- The grid point that stands for the double on the grid of `10 ^ exponent`, if one of its two
neighbours there lies in the interval. -/
def Interval.pick? (i : Interval) (tie : Tie) (exponent : Int) : Option Nat :=
  let (mid, den) := onGrid i.mid i.unit exponent
  let below := mid / den
  match i.contains below exponent, i.contains (below + 1) exponent with
  | false, false => none
  | true, false => some below
  | false, true => some (below + 1)
  | true, true =>
    let gap := 2 * (mid % den)
    if gap < den then some below
    else if den < gap then some (below + 1)
    else match tie with
      | .up => some (below + 1)
      | .toEven => some (below + below % 2)

/-- The first grid with a point in the interval, from the grid of `10 ^ exponent` down. -/
def Interval.search (i : Interval) (tie : Tie) : Nat → Int → Decimal
  | 0, exponent => ⟨0, exponent⟩
  | tries + 1, exponent =>
    match i.pick? tie exponent with
    | some c => ⟨c, exponent⟩
    | none => i.search tie tries (exponent - 1)

/-- The same number without zeros at the end of its significand. -/
def trim (d : Decimal) : Nat → Decimal
  | 0 => d
  | steps + 1 =>
    if d.significand ≠ 0 ∧ d.significand % 10 = 0 then
      trim ⟨d.significand / 10, d.exponent + 1⟩ steps
    else d

/-- A power of ten above a positive double. -/
def ceilingExponent (x : Binary64) : Int :=
  (x.exponent + x.mantissa.log2 + 1) * 30103 / 100000 + 2

/-- The decimal with the fewest digits that reads back as the finite number `x`, its sign aside,
and of those the one nearest to `x`.  Seventeen digits always suffice, and the search starts at
most four places above the first of them. -/
def shortest (tie : Tie) (x : Binary64) : Decimal :=
  if x.isZero then ⟨0, 0⟩
  else ((Interval.ofBinary64 x).search tie 24 (ceilingExponent x)).trim 24

/-- The digits of the significand. -/
def digits (d : Decimal) : List Char := Nat.toDigits 10 d.significand

end Decimal

end TemplateMachine
