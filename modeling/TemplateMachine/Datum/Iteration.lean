import TemplateMachine.Datum.Reference

/-! Iteration over lists.  Each item of a list has a key that stays with it while the list changes:
its number, the item itself, or a property of the item.  A key that has come up before gets a
number. -/

namespace TemplateMachine

/-- How the key of an item is made. -/
inductive IterationKey where
  | index
  | identity
  | path (names : List String)
deriving DecidableEq, Inhabited

/-- A list to be iterated over. -/
structure Iteration where
  list : Reference
  key : IterationKey
deriving Inhabited

structure IterationItem where
  key : String
  value : Reference
  /-- The number of the item. -/
  memo : Reference
deriving Inhabited

namespace IterationKey

/-- The way of making keys that an argument asks for. -/
def ofDatum (d : Datum) : IterationKey :=
  match d with
  | .data (.str s) =>
    if s = "@index" then .index
    else if s = "@identity" || s.isEmpty then .identity
    else .path (s.splitOn ".")
  | _ => .identity

/-- A datum as a key. -/
def identityText (index : Nat) : Datum → String
  | .data (.str s) => s
  | .data json => json.text
  | .component .. => "component:" ++ toString index

/-- The key of an item. -/
def text (key : IterationKey) (index : Nat) (item : Datum) : String :=
  match key with
  | .index => toString index
  | .identity => identityText index item
  | .path names => identityText index (names.foldl Datum.get item)

end IterationKey

namespace Iteration

/-- The items from a number on, after the given keys. -/
def itemsFrom (i : Iteration) (cells : Cells) (seen : List String) (index : Nat) :
    Nat → List IterationItem
  | 0 => []
  | count + 1 =>
    let value := Reference.property i.list (toString index)
    let key := i.key.text index (value.value cells)
    let repeats := seen.count key
    let unique := if repeats = 0 then key else key ++ "-" ++ toString repeats
    ⟨unique, value, .ofJson (.int index)⟩ :: itemsFrom i cells (key :: seen) (index + 1) count

/-- The items of the list as it is now. -/
def items (i : Iteration) (cells : Cells) : List IterationItem :=
  itemsFrom i cells [] 0 (i.list.value cells).items.length

def isEmpty (i : Iteration) (cells : Cells) : Bool := (i.list.value cells).items.isEmpty

def tag (i : Iteration) : Tag := i.list.tag

end Iteration

end TemplateMachine
