import TemplateMachine.Number.Binary64

/-! Values as bytes.  Numbers stand with their lowest byte first; lists and strings follow their
length.  A reader takes the bytes of a value from the front and leaves the rest. -/

namespace TemplateMachine

abbrev Bytes := List UInt8

/-- Why bytes are not those of a program, or a program has no bytes. -/
inductive ImageError where
  | invalidMagic
  | unsupportedVersion (version : UInt32)
  | unexpectedEof
  | invalidTableTag (tag : UInt8)
  | invalidUtf8
  /-- Some fragments are not compiled yet. -/
  | lazyConstant (count : Nat)
deriving DecidableEq, Inhabited

/-- The name of an error in reports. -/
def ImageError.name : ImageError → String
  | .invalidMagic => "InvalidMagic"
  | .unsupportedVersion _ => "UnsupportedVersion"
  | .unexpectedEof => "UnexpectedEof"
  | .invalidTableTag _ => "InvalidTableTag"
  | .invalidUtf8 => "InvalidUtf8"
  | .lazyConstant _ => "LazyConstant"

def ImageError.message : ImageError → String
  | .invalidMagic => "invalid magic number"
  | .unsupportedVersion version => "unsupported version: " ++ toString version.toNat
  | .unexpectedEof => "unexpected end of file"
  | .invalidTableTag tag => "invalid symbol table tag: " ++ toString tag.toNat
  | .invalidUtf8 => "invalid UTF-8 string"
  | .lazyConstant count =>
    "program holds " ++ toString count ++
      " uncompiled template(s); use the eager strategy to serialize"

/-- Reads a value from the front of bytes. -/
abbrev ByteReader (α : Type) := Bytes → Except ImageError (α × Bytes)

namespace Bytes

/-- The lowest bytes of a number, the lowest first. -/
def ofNat : (width : Nat) → Nat → Bytes
  | 0, _ => []
  | width + 1, n => UInt8.ofNat n :: ofNat width (n / 256)

/-- The number whose lowest byte comes first. -/
def toNat : Bytes → Nat
  | [] => 0
  | b :: rest => b.toNat + 256 * toNat rest

/-! ### Writing -/

def ofWord (w : UInt32) : Bytes := ofNat 4 w.toNat

def ofFlag (b : Bool) : Bytes := [if b then 1 else 0]

def ofFloat (x : Binary64) : Bytes := ofNat 8 x.bits.toNat

/-- The length of a list as a word. -/
def ofLength (n : Nat) : Bytes := ofWord (UInt32.ofNat n)

/-- A list: its length and its items. -/
def ofList {α : Type} (write : α → Bytes) (items : List α) : Bytes :=
  ofLength items.length ++ items.flatMap write

def ofString (s : String) : Bytes :=
  let bytes := s.toUTF8.data.toList
  ofLength bytes.length ++ bytes

/-! ### Reading -/

/-- The first bytes, as many as asked for. -/
def read (count : Nat) : ByteReader Bytes := fun bytes =>
  let taken := bytes.take count
  if taken.length = count then .ok (taken, bytes.drop count) else .error .unexpectedEof

def readByte : ByteReader UInt8
  | b :: rest => .ok (b, rest)
  | [] => .error .unexpectedEof

def readFlag : ByteReader Bool := fun bytes => do
  let (b, rest) ← readByte bytes
  return (b != 0, rest)

def readWord : ByteReader UInt32 := fun bytes => do
  let (taken, rest) ← read 4 bytes
  return (UInt32.ofNat (toNat taken), rest)

def readFloat : ByteReader Binary64 := fun bytes => do
  let (taken, rest) ← read 8 bytes
  return (⟨UInt64.ofNat (toNat taken)⟩, rest)

/-- A number of values in a row. -/
def readMany {α : Type} (item : ByteReader α) : Nat → ByteReader (List α)
  | 0, bytes => .ok ([], bytes)
  | count + 1, bytes => do
    let (a, rest) ← item bytes
    let (as, rest) ← readMany item count rest
    return (a :: as, rest)

def readList {α : Type} (item : ByteReader α) : ByteReader (List α) := fun bytes => do
  let (count, rest) ← readWord bytes
  readMany item count.toNat rest

def readString : ByteReader String := fun bytes => do
  let (count, rest) ← readWord bytes
  let (taken, rest) ← read count.toNat rest
  match String.fromUTF8? ⟨taken.toArray⟩ with
  | some s => return (s, rest)
  | none => .error .invalidUtf8

end Bytes

end TemplateMachine
