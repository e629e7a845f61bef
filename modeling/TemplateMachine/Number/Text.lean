import TemplateMachine.Number.Shortest

/-! How numbers are written.  There are two layouts: the text of a number in JSON, and its text as
content of a page.  They share the choice of digits and differ in where the exponent form starts,
whether a whole number keeps a fraction, and which way a tie goes. -/

namespace TemplateMachine

/-- A way to lay out the digits of a number. -/
structure NumberText.Style where
  /-- Numbers from `10 ^ low` on are written without an exponent … -/
  low : Int
  /-- … up to, and without, `10 ^ high`; no bound if there is none. -/
  high : Option Int
  /-- A whole number written without an exponent ends in `.0`. -/
  keepFraction : Bool
  tie : Tie

namespace NumberText

/-- In JSON, numbers from a hundred-thousandth to ten to the sixteenth have no exponent, and all of
those have a fraction. -/
def json : Style := ⟨-5, some 16, true, .toEven⟩

/-- As content, no number has an exponent. -/
def content : Style := ⟨-400, none, false, .up⟩

def zeros (n : Nat) : List Char := List.replicate n '0'

/-- Digits with the decimal point after the first `whole` of them, zeros filled in where the point
lies outside the digits. -/
def positional (style : Style) (digits : List Char) (whole : Int) : List Char :=
  if whole ≤ 0 then '0' :: '.' :: (zeros (-whole).toNat ++ digits)
  else if digits.length ≤ whole.toNat then
    digits ++ zeros (whole.toNat - digits.length) ++ (if style.keepFraction then ['.', '0'] else [])
  else digits.take whole.toNat ++ '.' :: digits.drop whole.toNat

/-- One digit, the point, the other digits, and the exponent with its sign. -/
def scientific (digits : List Char) (exponent : Int) : List Char :=
  let tail := digits.drop 1
  digits.take 1 ++ (if tail.isEmpty then [] else '.' :: tail) ++
    'e' :: (if exponent < 0 then '-' else '+') :: Nat.toDigits 10 exponent.natAbs

/-- The text of a finite number. -/
def finite (style : Style) (x : Binary64) : String :=
  let decimal := Decimal.shortest style.tie x
  let digits := decimal.digits
  let exponent := decimal.exponent + digits.length - 1
  let body :=
    if style.low ≤ exponent && style.high.all (exponent < ·) then
      positional style digits (exponent + 1)
    else scientific digits exponent
  String.ofList (if x.isNegative then '-' :: body else body)

end NumberText

namespace Binary64

/-- Below this bound whole numbers are written and kept as integers. -/
def integerBound : Nat := Nat.pow 10 15

/-- The value of a whole number that is written as an integer. -/
def smallInt? (x : Binary64) : Option Int :=
  if x.isIntegral && x.wholePart < integerBound then
    some (if x.isNegative then -(x.wholePart : Int) else x.wholePart)
  else none

/-- The text of a number in JSON. -/
def jsonText (x : Binary64) : String := NumberText.finite NumberText.json x

/-- The text of a number as content: whole numbers below the bound as integers, and never an
exponent. -/
def contentText (x : Binary64) : String :=
  match x.smallInt? with
  | some n => toString n
  | none =>
    if x.isNaN then "NaN"
    else if x.isInfinite then (if x.isNegative then "-inf" else "inf")
    else NumberText.finite NumberText.content x

end Binary64

end TemplateMachine
