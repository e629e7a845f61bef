import TemplateMachine.Number.Decimal
import TemplateMachine.Text.Hex
import TemplateMachine.Toml.Basic

/-! Numbers in TOML.  Single underscores may stand between digits.  An integer has sixty-four bits
with its sign; a floating point number has a fraction or an exponent, and no positive one is out of
range. -/

namespace TemplateMachine.Toml

/-- The value of a digit of a base. -/
def digit? (base : Nat) (c : Char) : Option Nat := (Text.hexValue? c).filter (· < base)

/-- The values of digits with single underscores between them. -/
def digits? (base : Nat) (afterDigit : Bool) : List Char → Option (List Nat)
  | [] => if afterDigit then some [] else none
  | c :: rest =>
    if c = '_' then
      if afterDigit then digits? base false rest else none
    else do
      let digit ← digit? base c
      return digit :: (← digits? base true rest)

/-- The longest run of digits and underscores, as digits. -/
def readDigits (base : Nat) (cs : List Char) : Option (List Nat × List Char) := do
  let (run, rest) := cs.span fun c => c = '_' || (digit? base c).isSome
  return (← digits? base false run, rest)

def valueOf (base : Nat) (digits : List Nat) : Nat :=
  digits.foldl (fun n digit => n * base + digit) 0

/-- An integer, if sixty-four bits hold it. -/
def integer? (negative : Bool) (n : Nat) : Option Toml :=
  if negative then (if n ≤ 0x8000000000000000 then some (.integer (-(n : Int))) else none)
  else if n < 0x8000000000000000 then some (.integer n) else none

/-- An integer of a base, behind the letter of the base. -/
def readBased (base : Nat) (cs : List Char) : Option (Toml × List Char) := do
  let (digits, rest) ← readDigits base cs
  return (← integer? false (valueOf base digits), rest)

/-- A sign, which need not be there; true for a minus. -/
def readSign : List Char → Bool × List Char
  | '-' :: rest => (true, rest)
  | '+' :: rest => (false, rest)
  | cs => (false, cs)

/-- The digits in front of a point.  A zero in front is the only one. -/
def readWhole (cs : List Char) : Option (List Nat × List Char) :=
  match cs with
  | '0' :: rest => some ([0], rest)
  | cs => readDigits 10 cs

/-- The exponent behind its letter. -/
def readExponent (cs : List Char) : Option (Int × List Char) := do
  let (negative, cs) := readSign cs
  let (digits, rest) ← readDigits 10 cs
  let n := valueOf 10 digits
  return (if negative then -(n : Int) else n, rest)

/-- A floating point number by its digits and exponent, unless it is past the largest double. -/
def float? (negative : Bool) (digits : List Nat) (exponent : Int) : Option Toml :=
  let x := Binary64.ofDecimal negative (valueOf 10 digits) exponent
  if x.isInfinite && !negative then none else some (.float x)

/-- What follows the digits in front of the point: a fraction, an exponent, both or neither. -/
def readTail (negative : Bool) (whole : List Nat) (cs : List Char) : Option (Toml × List Char) :=
  let scaled (digits : List Nat) (places : Nat) (cs : List Char) : Option (Toml × List Char) :=
    match cs with
    | 'e' :: rest | 'E' :: rest => do
      let (exponent, rest) ← readExponent rest
      return (← float? negative digits (exponent - places), rest)
    | cs => do return (← float? negative digits (-places), cs)
  match cs with
  | '.' :: rest => do
    let (fraction, rest) ← readDigits 10 rest
    scaled (whole ++ fraction) fraction.length rest
  | 'e' :: _ | 'E' :: _ => scaled whole 0 cs
  | cs => do return (← integer? negative (valueOf 10 whole), cs)

def readNumber (cs : List Char) : Option (Toml × List Char) :=
  match cs with
  | '0' :: 'x' :: rest => readBased 16 rest
  | '0' :: 'o' :: rest => readBased 8 rest
  | '0' :: 'b' :: rest => readBased 2 rest
  | cs =>
    let (negative, cs) := readSign cs
    match cs with
    | 'i' :: 'n' :: 'f' :: rest => some (.float (.infinity negative), rest)
    | 'n' :: 'a' :: 'n' :: rest =>
      some (.float (if negative then Binary64.nan.neg else .nan), rest)
    | cs => do
      let (whole, rest) ← readWhole cs
      readTail negative whole rest

end TemplateMachine.Toml
