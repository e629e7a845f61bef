/-! Double precision numbers as their sixty-four bits.  Every number that is neither infinite nor a
NaN is `mantissa * 2 ^ exponent`, and every operation computes that value exactly in `Nat` and
rounds it once, in `ofRatio`, to the nearest double, a tie going to the even mantissa. -/

namespace TemplateMachine

/-- A double precision number, given by its bits: a sign, eleven bits of exponent, fifty-two of
fraction. -/
structure Binary64 where
  bits : UInt64
deriving DecidableEq, Inhabited, Repr

namespace Binary64

/-- The value of the sign bit, above all others. -/
def signBit : Nat := 0x8000000000000000

/-- The value of the lowest exponent bit, one more than the largest fraction. -/
def exponentUnit : Nat := 0x10000000000000

/-- The sign bit is set, also for a negative zero. -/
def isNegative (x : Binary64) : Bool := signBit ≤ x.bits.toNat

/-- The eleven exponent bits. -/
def biased (x : Binary64) : Nat := x.bits.toNat / exponentUnit % 2048

/-- The fifty-two fraction bits. -/
def fraction (x : Binary64) : Nat := x.bits.toNat % exponentUnit

def isFinite (x : Binary64) : Bool := x.biased != 2047

def isNaN (x : Binary64) : Bool := x.biased == 2047 && x.fraction != 0

def isInfinite (x : Binary64) : Bool := x.biased == 2047 && x.fraction == 0

def isZero (x : Binary64) : Bool := x.bits.toNat % signBit == 0

/-- A finite number has the magnitude `mantissa * 2 ^ exponent`. -/
def mantissa (x : Binary64) : Nat :=
  if x.biased = 0 then x.fraction else x.fraction + exponentUnit

/-- A finite number has the magnitude `mantissa * 2 ^ exponent`. -/
def exponent (x : Binary64) : Int := if x.biased = 0 then -1074 else (x.biased : Int) - 1075

/-- The number with the sign `negative` and the sixty-three bits `magnitude`. -/
def ofMagnitude (negative : Bool) (magnitude : Nat) : Binary64 :=
  ⟨UInt64.ofNat (if negative then signBit + magnitude else magnitude)⟩

/-- The magnitude bits of an infinity, the least that are not a finite number's. -/
def infinite : Nat := 2047 * exponentUnit

def zero (negative : Bool) : Binary64 := ofMagnitude negative 0

def infinity (negative : Bool) : Binary64 := ofMagnitude negative infinite

def nan : Binary64 := ofMagnitude false (infinite + 0x8000000000000)

/-- The integer nearest to `num / den`, a tie going to the even one. -/
def roundDiv (num den : Nat) : Nat :=
  let quotient := num / den
  let rest := num % den
  if 2 * rest < den then quotient
  else if den < 2 * rest then quotient + 1
  else quotient + quotient % 2

/-- `num / den` in units of `2 ^ exponent`, as a pair of numbers with that quotient. -/
def inUnits (num den : Nat) (exponent : Int) : Nat × Nat :=
  if 0 ≤ exponent then (num, den * Nat.pow 2 exponent.toNat)
  else (num * Nat.pow 2 (-exponent).toNat, den)

/-- The exponent of the unit in which `num / den` has fifty-three bits, or the least exponent there
is. -/
def unitExponent (num den : Nat) : Int :=
  let guess : Int := (num.log2 : Int) - den.log2 - 52
  let (n, d) := inUnits num den guess
  max (if n / d < exponentUnit then guess - 1 else guess) (-1074)

/-- The double nearest to `num / den`, a tie going to the even mantissa; past the largest double it
is infinite. -/
def ofRatio (negative : Bool) (num den : Nat) : Binary64 :=
  if num = 0 then zero negative
  else
    let exponent := unitExponent num den
    let (n, d) := inUnits num den exponent
    ofMagnitude negative (min ((exponent + 1074).toNat * exponentUnit + roundDiv n d) infinite)

/-- The double nearest to `num / den * 2 ^ exponent`. -/
def ofScaled (negative : Bool) (num den : Nat) (exponent : Int) : Binary64 :=
  let (n, d) := inUnits num den (-exponent)
  ofRatio negative n d

def ofNat (n : Nat) : Binary64 := ofRatio false n 1

def ofInt (n : Int) : Binary64 := ofRatio (n < 0) n.natAbs 1

/-- The product of two finite numbers. -/
def mul (x y : Binary64) : Binary64 :=
  ofScaled (x.isNegative != y.isNegative) (x.mantissa * y.mantissa) 1 (x.exponent + y.exponent)

/-- The quotient of two finite numbers, the second not zero. -/
def div (x y : Binary64) : Binary64 :=
  ofScaled (x.isNegative != y.isNegative) x.mantissa y.mantissa (x.exponent - y.exponent)

def neg (x : Binary64) : Binary64 := ofMagnitude (!x.isNegative) (x.bits.toNat % signBit)

/-- Numeric equality: a NaN equals nothing, and the two zeros are equal. -/
def numEq (x y : Binary64) : Bool :=
  !x.isNaN && !y.isNaN && (x.bits == y.bits || (x.isZero && y.isZero))

/-- The magnitude of a finite number with its fraction cut off. -/
def wholePart (x : Binary64) : Nat :=
  if 0 ≤ x.exponent then x.mantissa * Nat.pow 2 x.exponent.toNat
  else x.mantissa / Nat.pow 2 (-x.exponent).toNat

/-- A finite number without a fraction. -/
def isIntegral (x : Binary64) : Bool :=
  x.isFinite && (0 ≤ x.exponent || x.mantissa % Nat.pow 2 (-x.exponent).toNat == 0)

/-- A number that conditions take as true: neither zero nor a NaN. -/
def isTruthy (x : Binary64) : Bool := !x.isZero && !x.isNaN

/-- The number with its fraction cut off, brought into `0 … 2 ^ 32 - 1`; none below zero and for a
NaN. -/
def toWord? (x : Binary64) : Option UInt32 :=
  if x.isNaN || (x.isNegative && !x.isZero) then none
  else if x.isInfinite then some 0xFFFFFFFF
  else some (UInt32.ofNat (min x.wholePart 0xFFFFFFFF))

end Binary64

end TemplateMachine
