import TemplateMachine.Json.Basic

/-! The value of a number literal.  A literal without fraction and exponent is an integer if it has
sixty-four bits; every other literal is a floating point number, computed from at most sixty-four
bits of digits and a power of ten by one multiplication or division.  The two roundings this takes
are part of the format, and a literal past the largest double has no value. -/

namespace TemplateMachine.Json

/-- The parts of a number literal, its digits as numbers from zero to nine. -/
structure NumberLiteral where
  negative : Bool
  whole : List Nat
  fraction : Option (List Nat)
  /-- Sign and digits of the exponent. -/
  exponent : Option (Bool × List Nat)

namespace NumberLiteral

/-- The digits taken so far, and the power of ten that they have to be multiplied by. -/
structure Significand where
  digits : Nat
  exponent : Int

/-- The next digit still fits in sixty-four bits. -/
def Significand.fits (s : Significand) (digit : Nat) : Bool := s.digits * 10 + digit < UInt64.size

/-- Digits in front of the point; those past the first that does not fit count as zeros. -/
def Significand.takeWhole (s : Significand) : List Nat → Significand
  | [] => s
  | d :: rest =>
    if s.fits d then takeWhole ⟨s.digits * 10 + d, s.exponent⟩ rest
    else ⟨s.digits, s.exponent + (d :: rest).length⟩

/-- Digits behind the point; those from the first that does not fit are left out. -/
def Significand.takeFraction (s : Significand) : List Nat → Significand
  | [] => s
  | d :: rest =>
    if s.fits d then takeFraction ⟨s.digits * 10 + d, s.exponent - 1⟩ rest else s

/-- The digits as one number. -/
def decimalValue (digits : List Nat) : Nat := digits.foldl (fun n d => n * 10 + d) 0

/-- `x` divided by `10 ^ places`, in steps of at most `10 ^ 308`. -/
def shrink (x : Binary64) (places : Nat) : Binary64 :=
  if places ≤ 308 then x.div (Binary64.ofNat (Nat.pow 10 places))
  else if x.isZero then x
  else shrink (x.div (Binary64.ofNat (Nat.pow 10 308))) (places - 308)
termination_by places

/-- `x` times `10 ^ places`, unless that is past the largest double. -/
def grow? (x : Binary64) (places : Nat) : Option Binary64 :=
  if places ≤ 308 then
    let y := x.mul (Binary64.ofNat (Nat.pow 10 places))
    if y.isInfinite then none else some y
  else if x.isZero then some x
  else none

/-- The double that stands for a significand. -/
def Significand.toBinary64? (s : Significand) : Option Binary64 :=
  let x := Binary64.ofNat s.digits
  if s.exponent < 0 then some (shrink x s.exponent.natAbs) else grow? x s.exponent.natAbs

/-- An exponent that does not fit in thirty-two bits only has a value where it leads to zero. -/
def withExponent? (s : Significand) (negative : Bool) (digits : List Nat) : Option Binary64 :=
  let n := decimalValue digits
  if n < 0x80000000 then
    Significand.toBinary64? ⟨s.digits, if negative then s.exponent - n else s.exponent + n⟩
  else if negative || s.digits == 0 then some (Binary64.zero false)
  else none

/-- The magnitude of a literal that is a floating point number. -/
def magnitude? (l : NumberLiteral) : Option Binary64 :=
  let whole := Significand.takeWhole ⟨0, 0⟩ l.whole
  let all := match l.fraction with
    | some digits => whole.takeFraction digits
    | none => whole
  match l.exponent with
  | some (negative, digits) => withExponent? all negative digits
  | none => all.toBinary64?

/-- A literal that is an integer: a negative zero is not one, nor is what sixty-four bits do not
hold. -/
def integer? (l : NumberLiteral) : Option Int :=
  if l.fraction.isSome || l.exponent.isSome then none
  else
    let n := decimalValue l.whole
    if l.negative then (if 0 < n ∧ n ≤ 0x8000000000000000 then some (-(n : Int)) else none)
    else if n < UInt64.size then some n
    else none

/-- The value of a literal, if it has one. -/
def value? (l : NumberLiteral) : Option Json :=
  match l.integer? with
  | some n => some (.int n)
  | none => l.magnitude?.map fun x => .float (if l.negative then x.neg else x)

end NumberLiteral

end TemplateMachine.Json
