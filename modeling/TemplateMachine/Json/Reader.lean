import TemplateMachine.Json.Document
import TemplateMachine.Json.Literal
import TemplateMachine.Text.Hex

/-! Reading JSON text.  Each reader takes the characters that are left and returns what it read and
the rest; it fails on text that is not well formed.  Values may be nested a hundred and twenty-seven
deep. -/

namespace TemplateMachine.Json.Document

def isBlank (c : Char) : Bool := c = ' ' || c = '\n' || c = '\t' || c = '\r'

def skipBlank (cs : List Char) : List Char := cs.dropWhile isBlank

/-- A part of a string: a character, or a sixteen-bit unit that was written as an escape. -/
inductive StringPart
  | char (c : Char)
  | unit (value : Nat)

def isHighSurrogate (n : Nat) : Bool := 0xD800 ≤ n && n < 0xDC00

def isLowSurrogate (n : Nat) : Bool := 0xDC00 ≤ n && n < 0xE000

/-- The characters of a string, given `done` in reverse; none if it has half of a surrogate pair. -/
def joinParts (done : List Char) : List StringPart → Option (List Char)
  | [] => some done.reverse
  | .char c :: rest => joinParts (c :: done) rest
  | .unit n :: rest =>
    if isHighSurrogate n then
      match rest with
      | .unit m :: rest =>
        if isLowSurrogate m then
          joinParts (Char.ofNat (0x10000 + (n - 0xD800) * 0x400 + (m - 0xDC00)) :: done) rest
        else none
      | _ => none
    else if isLowSurrogate n then none
    else joinParts (Char.ofNat n :: done) rest

/-- The character that a one-letter escape stands for. -/
def escaped? (c : Char) : Option Char :=
  if c = '\x22' then some '\x22'
  else if c = '\\' then some '\\'
  else if c = '/' then some '/'
  else if c = 'b' then some '\x08'
  else if c = 'f' then some '\x0c'
  else if c = 'n' then some '\n'
  else if c = 'r' then some '\r'
  else if c = 't' then some '\t'
  else none

/-- The parts of a string up to its closing quote, given those in front of it in reverse. -/
def readParts (done : List StringPart) : List Char → Option (List StringPart × List Char)
  | [] => none
  | '\x22' :: rest => some (done.reverse, rest)
  | '\\' :: 'u' :: a :: b :: c :: d :: rest =>
    match Text.hexValue? a, Text.hexValue? b, Text.hexValue? c, Text.hexValue? d with
    | some a, some b, some c, some d =>
      readParts (.unit (((a * 16 + b) * 16 + c) * 16 + d) :: done) rest
    | _, _, _, _ => none
  | '\\' :: c :: rest =>
    match escaped? c with
    | some c => readParts (.char c :: done) rest
    | none => none
  | c :: rest =>
    if c.toNat < 0x20 || c = '\\' then none else readParts (.char c :: done) rest

/-- A string behind its opening quote.  The string itself is none if it has no value. -/
def readString (cs : List Char) : Option (Option String × List Char) := do
  let (parts, rest) ← readParts [] cs
  return ((joinParts [] parts).map String.ofList, rest)

def digitValues (cs : List Char) : List Nat := cs.map fun c => c.toNat - 48

/-- A run of digits, at least one. -/
def readDigits (cs : List Char) : Option (List Char × List Char) :=
  match cs.span Char.isDigit with
  | ([], _) => none
  | (digits, rest) => some (digits, rest)

/-- The exponent of a number: its sign and digits. -/
def readExponent (cs : List Char) : Option (Option (Bool × List Nat) × List Char) :=
  match cs with
  | c :: rest =>
    if c = 'e' || c = 'E' then do
      let (negative, rest) := match rest with
        | '-' :: rest => (true, rest)
        | '+' :: rest => (false, rest)
        | rest => (false, rest)
      let (digits, rest) ← readDigits rest
      return (some (negative, digitValues digits), rest)
    else some (none, cs)
  | [] => some (none, cs)

/-- The fraction of a number. -/
def readFraction (cs : List Char) : Option (Option (List Nat) × List Char) :=
  match cs with
  | '.' :: rest => do
    let (digits, rest) ← readDigits rest
    return (some (digitValues digits), rest)
  | cs => some (none, cs)

/-- A number.  Its first digit is a zero only if it is the only one in front of the point. -/
def readNumber (cs : List Char) : Option (NumberLiteral × List Char) := do
  let (negative, cs) := match cs with
    | '-' :: rest => (true, rest)
    | cs => (false, cs)
  let (whole, rest) ← readDigits cs
  if whole.head? = some '0' && whole.length ≠ 1 then none
  else
    let (fraction, rest) ← readFraction rest
    let (exponent, rest) ← readExponent rest
    return (⟨negative, digitValues whole, fraction, exponent⟩, rest)

def ofNumber (l : NumberLiteral) : Document :=
  match l.value? with
  | some (.int n) => .int n
  | some (.float x) => .float x
  | _ => .unreadable

/-- An array or object has a value if `depth`, the number of levels left, is not used up. -/
def atDepth (depth : Nat) (d : Document) : Document := if depth = 0 then .unreadable else d

/-- An object has a value if all its keys have one. -/
def ofKeys (members : List (Option String × Document)) : Document :=
  match members.mapM fun (key, d) => key.map (·, d) with
  | some members => .obj members
  | none => .unreadable

mutual

/-- A value.  `fuel` is at least twice the number of characters, `depth` the number of levels that
are left. -/
def readValue : Nat → Nat → List Char → Option (Document × List Char)
  | 0, _, _ => none
  | fuel + 1, depth, cs =>
    match skipBlank cs with
    | '[' :: rest =>
      match skipBlank rest with
      | ']' :: rest => some (atDepth depth (.arr []), rest)
      | _ => do
        let (items, rest) ← readItems fuel (depth - 1) [] rest
        return (atDepth depth (.arr items), rest)
    | '\x7b' :: rest =>
      match skipBlank rest with
      | '\x7d' :: rest => some (atDepth depth (.obj []), rest)
      | _ => do
        let (members, rest) ← readMembers fuel (depth - 1) [] rest
        return (atDepth depth (ofKeys members), rest)
    | '\x22' :: rest => do
      let (s, rest) ← readString rest
      return (match s with | some s => .str s | none => .unreadable, rest)
    | 'n' :: 'u' :: 'l' :: 'l' :: rest => some (.null, rest)
    | 't' :: 'r' :: 'u' :: 'e' :: rest => some (.bool true, rest)
    | 'f' :: 'a' :: 'l' :: 's' :: 'e' :: rest => some (.bool false, rest)
    | cs => do
      let (literal, rest) ← readNumber cs
      return (ofNumber literal, rest)

/-- The items of an array up to its closing bracket, given those in front of them in reverse. -/
def readItems : Nat → Nat → List Document → List Char → Option (List Document × List Char)
  | 0, _, _, _ => none
  | fuel + 1, depth, done, cs =>
    match readValue fuel depth cs with
    | none => none
    | some (d, rest) =>
      match skipBlank rest with
      | ',' :: rest => readItems fuel depth (d :: done) rest
      | ']' :: rest => some ((d :: done).reverse, rest)
      | _ => none

/-- The members of an object up to its closing brace, given those in front of them in reverse. -/
def readMembers : Nat → Nat → List (Option String × Document) → List Char →
    Option (List (Option String × Document) × List Char)
  | 0, _, _, _ => none
  | fuel + 1, depth, done, cs =>
    match skipBlank cs with
    | '\x22' :: rest =>
      match readString rest with
      | none => none
      | some (key, rest) =>
        match skipBlank rest with
        | ':' :: rest =>
          match readValue fuel depth rest with
          | none => none
          | some (d, rest) =>
            match skipBlank rest with
            | ',' :: rest => readMembers fuel depth ((key, d) :: done) rest
            | '\x7d' :: rest => some (((key, d) :: done).reverse, rest)
            | _ => none
        | _ => none
    | _ => none

end

/-- The number of levels that values may be nested. -/
def maxDepth : Nat := 127

/-- The document that a text holds, nothing but blanks around it. -/
def parse? (text : String) : Option Document :=
  let cs := text.toList
  match readValue (2 * cs.length + 2) maxDepth cs with
  | some (d, rest) => if (skipBlank rest).isEmpty then some d else none
  | none => none

end TemplateMachine.Json.Document

namespace TemplateMachine.Json

/-- The value that a text holds. -/
def parse? (text : String) : Option Json := (Document.parse? text).bind Document.toJson?

end TemplateMachine.Json
