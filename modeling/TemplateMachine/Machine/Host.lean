import TemplateMachine.Compile.Link
import TemplateMachine.Datum.Arguments
import TemplateMachine.Markup.Sink

/-! What a render gets from outside: helpers, modifiers, and the managers of components. -/

namespace TemplateMachine

/-- Computes a value from arguments. -/
abbrev Helper := Cells → Arguments → Except String Datum

/-- Computes attributes for the pending element from arguments. -/
abbrev Modifier := Cells → Arguments → Except String (List (String × String))

/-- An instance of a component. -/
structure Instance where
  name : String
  args : Option Arguments
  hasDefault : Bool
  hasInverse : Bool
deriving Inhabited

/-- How the instances of a component live. -/
structure Manager where
  capabilities : Capabilities
  /-- Creates an instance, given the one that an invocation asks for. -/
  create : Cells → Instance → Except String Instance := fun _ asked => .ok asked
  /-- The `self` of the layout. -/
  selfReference : Cells → Instance → Reference
  /-- Is told about an element, which may still get attributes. -/
  elementCreated : Instance → Sink → Sink := fun _ sink => sink
  /-- The instance is to be destroyed in the end. -/
  hasDestructor : Instance → Bool := fun _ => false

/-- What a host is called upon for, in the order of a render. -/
inductive Event where
  | helper (handle : UInt32) (args : Arguments)
  | modifier (handle : UInt32) (args : Arguments)
  | create (component : UInt32) (asked : Instance)
  | selfReference (component : UInt32) (inst : Instance)
  | hasDestructor (component : UInt32) (inst : Instance)
  | elementCreated (component : UInt32) (inst : Instance) (pending : Bool)
  | layoutRendered (component : UInt32) (inst : Instance)
  | destroy (component : UInt32) (inst : Instance)
deriving Inhabited

/-- The calls of a host so far, the one in progress included. -/
abbrev History := Array Event

structure ComponentDefinition where
  name : String
  capabilities : Capabilities
  /-- The manager, which may go by what was called before. -/
  manager : History → Manager

/-- What stands behind handles at run time.  Helpers and modifiers may go
by what was called before. -/
structure Host where
  component? : UInt32 → Option ComponentDefinition
  /-- The handle of a component, by its name and the module that uses it. -/
  componentNamed? : String → String → Option UInt32
  helper? : UInt32 → Option (History → Helper)
  modifier? : UInt32 → Option (History → Modifier)

/-- What a render is set up with. -/
structure Setup where
  options : CompileOptions
  host : Host
  /-- The greatest depth of the stack. -/
  maxStack : Nat

/-- The manager of a component that is only a template: its `self` is null. -/
def Manager.templateOnly : Manager where
  capabilities := {}
  selfReference _ _ := .null

/-- The manager of a component whose `self` is the object of its named arguments. -/
def Manager.args : Manager where
  capabilities := { createArgs := true }
  selfReference _ inst := .namedArguments (inst.args.getD {})
  hasDestructor _ := true

end TemplateMachine
