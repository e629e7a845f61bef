import TemplateMachine.Code.Fragment
import TemplateMachine.Code.Primitive
import TemplateMachine.Datum.Arguments

/-! The values of the machine's stack and registers, and the scopes that templates read.  Scopes,
iterators and components are shared between the values that hold them, so a value only has their
number. -/

namespace TemplateMachine

inductive Value where
  | primitive (value : Primitive)
  | ref (reference : Reference)
  /-- A block that is linked. -/
  | handle (handle : UInt32)
  | table (table : SymbolTable)
  /-- A block that is not linked yet. -/
  | fragment (fragment : Fragment)
  | iterator (number : Nat)
  | args (arguments : Arguments)
  | component (number : Nat)
  /-- A saved address or frame. -/
  | address (address : Nat)
deriving Inhabited

namespace Value

def null : Value := .primitive .null

def isNull : Value → Bool
  | .primitive .null | .primitive .undefined => true
  | _ => false

/-- The name of the kind of a value. -/
def kind : Value → String
  | .primitive _ => "primitive"
  | .ref _ => "reference"
  | .handle _ => "handle"
  | .table _ => "symbol table"
  | .fragment _ => "template"
  | .iterator _ => "iterator"
  | .args _ => "arguments"
  | .component _ => "component"
  | .address _ => "address"

/-- The block that a value stands for: a handle, or a number that is one. -/
def toHandle? : Value → Option UInt32
  | .handle h => some h
  | .primitive (.number x) => x.toWord?
  | _ => none

end Value

/-- A block bound in a scope: its symbols and the block, or nulls. -/
structure ScopeBlock where
  table : Value
  block : Value
deriving Inhabited

namespace ScopeBlock

def absent : ScopeBlock := ⟨.null, .null⟩

def isPresent (b : ScopeBlock) : Bool := !b.block.isNull

end ScopeBlock

inductive Slot where
  | empty
  | value (reference : Reference)
  | block (block : ScopeBlock)
deriving Inhabited

/-- The slots of a template, of which the first holds `self`, and the scope that the template was
invoked from. -/
structure Scope where
  slots : Array Slot
  caller : Option Nat
deriving Inhabited

namespace Scope

def root (size : Nat) (caller : Option Nat) : Scope := ⟨Array.replicate size .empty, caller⟩

/-- A slot; those that a scope does not have are empty. -/
def get (s : Scope) (symbol : UInt32) : Slot := s.slots.getD symbol.toNat .empty

/-- Fills a slot, which is made if the scope does not have it. -/
def bind (s : Scope) (symbol : UInt32) (slot : Slot) : Scope :=
  let missing := symbol.toNat + 1 - s.slots.size
  { s with slots := (s.slots ++ Array.replicate missing Slot.empty).set! symbol.toNat slot }

end Scope

/-- All scopes by their number. -/
structure Scopes where
  entries : Array Scope := #[]
deriving Inhabited

namespace Scopes

def get (s : Scopes) (number : Nat) : Scope := s.entries.getD number ⟨#[], none⟩

/-- The number of a new scope. -/
def add (s : Scopes) (scope : Scope) : Nat × Scopes := (s.entries.size, ⟨s.entries.push scope⟩)

def bind (s : Scopes) (number : Nat) (symbol : UInt32) (slot : Slot) : Scopes :=
  ⟨s.entries.modify number fun scope => scope.bind symbol slot⟩

end Scopes

/-- Values that everything below a component sees, by name, the latest first. -/
structure DynamicScope where
  entries : List (String × Reference) := []
deriving Inhabited

namespace DynamicScope

def get? (s : DynamicScope) (key : String) : Option Reference := s.entries.lookup key

def set (s : DynamicScope) (key : String) (value : Reference) : DynamicScope :=
  ⟨(key, value) :: s.entries⟩

end DynamicScope

end TemplateMachine
