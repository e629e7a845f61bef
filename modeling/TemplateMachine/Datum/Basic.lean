import TemplateMachine.Json.Printer

/-! What a template can see.  A datum is data, or a component together with arguments.  A reference
is a way to a datum: it is read again each time, since what it leads to may have changed.  Tags tell
when: each reference has one, and those that are derived from one reference share its tag. -/

namespace TemplateMachine

/-- The arguments of an invocation.  Their names have no `@`. -/
structure ArgumentsOf (ρ : Type) where
  positional : List ρ := []
  names : List String := []
  named : List ρ := []
deriving Inhabited

/-- A counter of changes: one that never counts, or a counting one of a given number. -/
inductive Tag where
  | still
  | cell (number : Nat)
deriving DecidableEq, Inhabited

mutual

inductive Reference where
  /-- A datum that never changes. -/
  | fixed (tag : Tag) (datum : Datum)
  /-- The data of a cell. -/
  | root (cell : Nat)
  | property (parent : Reference) (key : String)
  /-- Whether a datum is true. -/
  | truth (inner : Reference)
  /-- Whether a datum is a component. -/
  | isComponent (inner : Reference)
  /-- The contents of several data in one string. -/
  | concat (tag : Tag) (parts : List Reference)
  /-- Whether a datum is a list with items. -/
  | presence (list : Reference)
  /-- The named arguments as an object. -/
  | namedArguments (arguments : ArgumentsOf Reference)

inductive Datum where
  | data (json : Json)
  /-- A component, by its handle, with arguments for its invocation. -/
  | component (definition : UInt32) (arguments : ArgumentsOf Reference)

end

instance : Inhabited Datum := ⟨.data .null⟩

instance : Inhabited Reference := ⟨.fixed .still (.data .null)⟩

abbrev Arguments := ArgumentsOf Reference

namespace Datum

def null : Datum := .data .null

def isComponent : Datum → Bool
  | .component .. => true
  | .data _ => false

def toJson? : Datum → Option Json
  | .data json => some json
  | .component .. => none

def isTruthy : Datum → Bool
  | .data .null => false
  | .data (.bool b) => b
  | .data (.int n) => n != 0
  | .data (.float x) => x.isTruthy
  | .data (.str s) => !s.isEmpty
  | .data (.arr items) => !items.isEmpty
  | .data (.obj _) => true
  | .component .. => true

/-- The text of a datum in content and attributes; null and components have none. -/
def content? : Datum → Option String
  | .data .null => none
  | .data (.str s) => some s
  | .data (.bool b) => some (if b then "true" else "false")
  | .data (.int n) => some (Binary64.ofInt n).contentText
  | .data (.float x) => some x.contentText
  | .data json => some json.text
  | .component .. => none

/-- The number that a key stands for: decimal digits, perhaps after a plus sign, below
`2 ^ 64`. -/
def index? (key : String) : Option Nat :=
  let digits := match key.toList with
    | '+' :: rest => rest
    | all => all
  if digits.isEmpty || !digits.all Char.isDigit then none
  else
    let n := digits.foldl (fun n c => n * 10 + (c.toNat - '0'.toNat)) 0
    if n < UInt64.size then some n else none

/-- The property of a datum; null if it has none of that name. -/
def get (d : Datum) (key : String) : Datum :=
  match d with
  | .data (.obj members) => .data ((Json.member? members key).getD .null)
  | .data (.arr items) =>
    if key = "length" then .data (.int items.length)
    else .data (((index? key).bind fun i => items[i]?).getD .null)
  | .data (.str s) => if key = "length" then .data (.int s.length) else null
  | _ => null

/-- The items of a list; none if the datum is not a list. -/
def items : Datum → List Json
  | .data (.arr items) => items
  | _ => []

/-- Equality of data.  Components are not compared. -/
def same : Datum → Datum → Bool
  | .data a, .data b => a.eq b
  | _, _ => false

end Datum

end TemplateMachine
