import TemplateMachine.Datum.Basic

/-! The reading of references, and of the tags that tell whether they have to be read again. -/

namespace TemplateMachine

/-- Data that can be changed from outside, and the number of changes so far. -/
structure Cell where
  json : Json
  revision : Nat := 0
deriving Inhabited

/-- All cells by their number. -/
structure Cells where
  entries : Array Cell := #[]
deriving Inhabited

namespace Cells

def json (cells : Cells) (number : Nat) : Json :=
  match cells.entries[number]? with
  | some cell => cell.json
  | none => .null

/-- The number of a new cell. -/
def add (cells : Cells) (json : Json) : Nat × Cells :=
  (cells.entries.size, ⟨cells.entries.push { json }⟩)

def revision (cells : Cells) : Tag → Nat
  | .still => 0
  | .cell number =>
    match cells.entries[number]? with
    | some cell => cell.revision
    | none => 0

/-- Counts a change. -/
def touch (cells : Cells) : Tag → Cells
  | .still => cells
  | .cell number =>
    ⟨cells.entries.modify number fun cell => { cell with revision := cell.revision + 1 }⟩

/-- Changes the data of a cell. -/
def update (cells : Cells) (number : Nat) (json : Json) : Cells :=
  ⟨cells.entries.modify number fun cell => ⟨json, cell.revision + 1⟩⟩

/-- Nothing was counted since the revision was read. -/
def validates (cells : Cells) (tag : Tag) (revision : Nat) : Bool :=
  cells.revision tag == revision

end Cells

/-- The object of named data; components are null in it, and of several with one name the last
counts. -/
def namedObject (names : List String) (named : List Datum) : Json :=
  Json.ofMembers ((names.zip named).map fun (name, d) => (name, d.toJson?.getD .null))

namespace Reference

/-- A datum that never changes, which nobody asks about changes. -/
def const (d : Datum) : Reference := .fixed .still d

def ofJson (json : Json) : Reference := const (.data json)

def null : Reference := ofJson .null

def tag : Reference → Tag
  | .fixed tag _ => tag
  | .root cell => .cell cell
  | .property parent _ => parent.tag
  | .truth inner => inner.tag
  | .isComponent inner => inner.tag
  | .concat tag _ => tag
  | .presence list => list.tag
  | .namedArguments _ => .still

mutual

/-- The datum that a reference leads to. -/
def value (cells : Cells) : Reference → Datum
  | .fixed _ d => d
  | .root cell => .data (cells.json cell)
  | .property parent key => (value cells parent).get key
  | .truth inner => .data (.bool (value cells inner).isTruthy)
  | .isComponent inner => .data (.bool (value cells inner).isComponent)
  | .concat _ parts => .data (.str (String.join ((values cells parts).filterMap Datum.content?)))
  | .presence list => .data (.bool !(value cells list).items.isEmpty)
  | .namedArguments ⟨_, names, named⟩ => .data (namedObject names (values cells named))

def values (cells : Cells) : List Reference → List Datum
  | [] => []
  | r :: rest => value cells r :: values cells rest

end

end Reference

end TemplateMachine
