import TemplateMachine.Number.Text

/-! JSON values.  Integers and floating point numbers are different values even where they are
numerically equal.  The members of an object stand in the order of their keys, each key once, so an
object has one form. -/

namespace TemplateMachine

/-- A JSON value.  Integers lie between `-2 ^ 63` and `2 ^ 64 - 1`; larger ones are floating point
numbers. -/
inductive Json where
  | null
  | bool (value : Bool)
  | int (value : Int)
  | float (value : Binary64)
  | str (value : String)
  | arr (items : List Json)
  | obj (members : List (String × Json))
deriving Inhabited

namespace Json

mutual

/-- Equality of values: numbers of different kinds differ, and floating point numbers compare
numerically. -/
def eq : Json → Json → Bool
  | .null, .null => true
  | .bool a, .bool b => a == b
  | .int a, .int b => a == b
  | .float a, .float b => a.numEq b
  | .str a, .str b => a == b
  | .arr a, .arr b => eqItems a b
  | .obj a, .obj b => eqMembers a b
  | _, _ => false

def eqItems : List Json → List Json → Bool
  | [], [] => true
  | a :: as, b :: bs => eq a b && eqItems as bs
  | _, _ => false

def eqMembers : List (String × Json) → List (String × Json) → Bool
  | [], [] => true
  | (k, a) :: as, (l, b) :: bs => k == l && eq a b && eqMembers as bs
  | _, _ => false

end

/-- Members in the order of their keys, with `key` set to `value`. -/
def insertMember (key : String) (value : Json) : List (String × Json) → List (String × Json)
  | [] => [(key, value)]
  | (k, v) :: rest =>
    if key = k then (key, value) :: rest
    else if key < k then (key, value) :: (k, v) :: rest
    else (k, v) :: insertMember key value rest

/-- The object with the given members; of several with one key the last counts. -/
def ofMembers (members : List (String × Json)) : Json :=
  .obj (members.foldl (fun sorted (key, value) => insertMember key value sorted) [])

/-- The value of a member. -/
def member? (members : List (String × Json)) (key : String) : Option Json := members.lookup key

/-- The object member with the given key. -/
def get? (j : Json) (key : String) : Option Json :=
  match j with
  | .obj members => member? members key
  | _ => none

/-- The value of a number as a double. -/
def toBinary64? : Json → Option Binary64
  | .int n => some (Binary64.ofInt n)
  | .float x => some x
  | _ => none

/-- A number as a value: small whole numbers become integers, and what is not finite is null. -/
def ofBinary64 (x : Binary64) : Json :=
  match x.smallInt? with
  | some n => .int n
  | none => if x.isFinite then .float x else .null

end Json

end TemplateMachine
