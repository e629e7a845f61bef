import TemplateMachine.Code.Constants
import TemplateMachine.Text.Quoted

/-! Primitive values and the words that encode them.  The low three bits of a word tell the kind of
value; the other bits hold a small positive integer itself, the index of any other number or of a
string, or one of four numbers for the remaining values. -/

namespace TemplateMachine

inductive Primitive where
  | number (value : Binary64)
  | string (value : String)
  | boolean (value : Bool)
  | null
  | undefined
deriving DecidableEq, Inhabited

namespace Primitive

/-- The kinds of words. -/
inductive Kind where
  | number
  | float
  | string
  | booleanOrVoid
deriving DecidableEq

/-- The low bits of the words of a kind. -/
def Kind.tag : Kind → Nat
  | .number => 0
  | .float => 1
  | .string => 2
  | .booleanOrVoid => 3

/-- The number itself, if a word holds it. -/
def immediate? (x : Binary64) : Option Nat :=
  if x.isIntegral && !x.isNegative && 0 < x.wholePart && x.wholePart < 0x20000000 then
    some x.wholePart
  else none

def kind : Primitive → Kind
  | .number x => if (immediate? x).isSome then .number else .float
  | .string _ => .string
  | .boolean _ | .null | .undefined => .booleanOrVoid

/-- The word of a kind and a payload. -/
def word (kind : Kind) (payload : UInt32) : UInt32 :=
  UInt32.ofNat (payload.toNat * 8 + kind.tag)

/-- The word that encodes a value, whose number or string is added to the constants. -/
def encode (p : Primitive) (c : Constants) : UInt32 × Constants :=
  match p with
  | .number x =>
    match immediate? x with
    | some n => (word .number (UInt32.ofNat n), c)
    | none =>
      let (i, c) := c.float x
      (word .float i, c)
  | .string s =>
    let (i, c) := c.string s
    (word .string i, c)
  | .boolean false => (word .booleanOrVoid 0, c)
  | .boolean true => (word .booleanOrVoid 1, c)
  | .null => (word .booleanOrVoid 2, c)
  | .undefined => (word .booleanOrVoid 3, c)

/-- The value that a word encodes. -/
def decode? (w : UInt32) (c : Constants) : Option Primitive :=
  let payload := UInt32.ofNat (w.toNat / 8)
  match w.toNat % 8 with
  | 0 => some (.number (Binary64.ofNat payload.toNat))
  | 1 => (c.floats.get? payload).map .number
  | 2 => (c.strings.get? payload).map .string
  | 3 =>
    match payload.toNat with
    | 0 => some (.boolean false)
    | 1 => some (.boolean true)
    | 2 => some .null
    | 3 => some .undefined
    | _ => none
  | _ => none

/-- The primitive of a JSON literal, or the name of what it is instead. -/
def ofJson : Json → Except String Primitive
  | .null => .ok .null
  | .bool b => .ok (.boolean b)
  | .int n => .ok (.number (Binary64.ofInt n))
  | .float x => .ok (.number x)
  | .str s => .ok (.string s)
  | .arr _ => .error "array"
  | .obj _ => .error "object"

/-- The value as data; what is undefined is null. -/
def toJson : Primitive → Json
  | .number x => Json.ofBinary64 x
  | .string s => .str s
  | .boolean b => .bool b
  | .null | .undefined => .null

def isTruthy : Primitive → Bool
  | .number x => x.isTruthy
  | .string s => !s.isEmpty
  | .boolean b => b
  | .null | .undefined => false

def isNullish : Primitive → Bool
  | .null | .undefined => true
  | _ => false

/-- The value as listings show it. -/
def shown : Primitive → String
  | .number x => x.contentText
  | .string s => Text.quoted s
  | .boolean b => if b then "true" else "false"
  | .null => "null"
  | .undefined => "undefined"

end Primitive

end TemplateMachine
