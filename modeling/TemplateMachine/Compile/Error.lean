import TemplateMachine.Text.Quoted

/-! Why a fragment cannot be compiled. -/

namespace TemplateMachine

/-- How a computation stops without a result: by a fault of its own, or because it was given too
little fuel. -/
inductive Stop (ε : Type) where
  | fault (error : ε)
  | outOfFuel
deriving Inhabited

inductive CompileError where
  /-- A literal that is an array or an object. -/
  | invalidPrimitive (kind : String)
  | unknownHelper (name : String)
  | unknownModifier (name : String)
  | unknownBlock (name : String)
  | unknownPartial (name : String)
  | unknownBlockIndex (index : Nat)
  /-- A built-in form with other parameters or blocks than it takes. -/
  | arity (name expected : String)
  /-- A symbol of a layout that stands for a block which no invocation passes. -/
  | unreachableSymbol (symbol : String)
  | notALayout
  | unbalancedLabels (what : String)
  | unresolvedLabel (name : String)
deriving DecidableEq, Inhabited

namespace CompileError

/-- A name between grave accents. -/
def named (s : String) : String := "\x60" ++ s ++ "\x60"

/-- The name of an error in reports. -/
def name : CompileError → String
  | .invalidPrimitive _ => "InvalidPrimitive"
  | .unknownHelper _ => "UnknownHelper"
  | .unknownModifier _ => "UnknownModifier"
  | .unknownBlock _ => "UnknownBlock"
  | .unknownPartial _ => "UnknownPartial"
  | .unknownBlockIndex _ => "UnknownBlockIndex"
  | .arity .. => "MacroArity"
  | .unreachableSymbol _ => "UnreachableSymbol"
  | .notALayout => "NotALayout"
  | .unbalancedLabels _ => "UnbalancedLabels"
  | .unresolvedLabel _ => "UnresolvedLabel"

def message : CompileError → String
  | .invalidPrimitive kind => "invalid primitive: " ++ kind
  | .unknownHelper name => "unknown helper " ++ named name
  | .unknownModifier name => "unknown modifier " ++ named name
  | .unknownBlock name => "unknown block " ++ named name
  | .unknownPartial name => "unknown partial " ++ named name
  | .unknownBlockIndex index => "block index " ++ toString index ++ " is out of range"
  | .arity name expected => named name ++ " expects " ++ expected
  | .unreachableSymbol symbol => "unreachable symbol " ++ named symbol ++ " in component layout"
  | .notALayout => "component layout is not a program template"
  | .unbalancedLabels what => "unbalanced label scopes: " ++ what
  | .unresolvedLabel name => "internal error: unresolved label " ++ named name

end CompileError

end TemplateMachine
