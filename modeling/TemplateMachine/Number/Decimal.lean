import TemplateMachine.Number.Binary64

/-! The double nearest to a decimal number. -/

namespace TemplateMachine.Binary64

/-- The double nearest to `significand * 10 ^ exponent`, a tie going to the even mantissa.  From
`10 ^ 310` on numbers are infinite, and below `10 ^ (-331)` they are zero. -/
def ofDecimal (negative : Bool) (significand : Nat) (exponent : Int) : Binary64 :=
  let magnitude : Int := (Nat.toDigits 10 significand).length + exponent
  if significand = 0 || magnitude < -330 then zero negative
  else if 310 < magnitude then infinity negative
  else ofRatio negative (significand * Nat.pow 10 exponent.toNat) (Nat.pow 10 (-exponent).toNat)

end TemplateMachine.Binary64
