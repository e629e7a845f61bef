import TemplateMachine.Code.Fragment

/-! What compilation knows about names.  A lookup turns names into handles, given the module they
were written in, and tells what stands behind the handle of a component or a partial. -/

namespace TemplateMachine

/-- What the manager of a component asks of its invocations. -/
structure Capabilities where
  /-- The layout is chosen at run time. -/
  dynamicLayout : Bool := false
  dynamicTag : Bool := false
  /-- Arguments are changed before an instance is created. -/
  prepareArgs : Bool := false
  /-- An instance is created from the arguments. -/
  createArgs : Bool := false
  attributeHook : Bool := false
  elementHook : Bool := false
  dynamicScope : Bool := false
deriving DecidableEq, Inhabited

namespace Capabilities

/-- The flags with their names. -/
def flags (c : Capabilities) : List (String × Bool) :=
  [("dynamic_layout", c.dynamicLayout), ("dynamic_tag", c.dynamicTag),
   ("prepare_args", c.prepareArgs), ("create_args", c.createArgs),
   ("attribute_hook", c.attributeHook), ("element_hook", c.elementHook),
   ("dynamic_scope", c.dynamicScope)]

/-- The flags whose names satisfy a condition. -/
def ofNames (on : String → Bool) : Capabilities :=
  ⟨on "dynamic_layout", on "dynamic_tag", on "prepare_args", on "create_args",
   on "attribute_hook", on "element_hook", on "dynamic_scope"⟩

/-- One bit for each flag, the first one lowest. -/
def bits (c : Capabilities) : UInt32 :=
  UInt32.ofNat (c.flags.foldr (fun flag sum => flag.2.toNat + 2 * sum) 0)

/-- The flags of the low seven bits. -/
def ofBits (w : UInt32) : Capabilities :=
  let on (i : Nat) := w.toNat.testBit i
  ⟨on 0, on 1, on 2, on 3, on 4, on 5, on 6⟩

end Capabilities

structure Lookup where
  capabilities : UInt32 → Capabilities
  /-- The layout of a component. -/
  layout? : UInt32 → Option Fragment
  partial? : UInt32 → Option Fragment
  /-- The handle of a helper, by its name and the module that uses it. -/
  helper? : String → String → Option UInt32
  modifier? : String → String → Option UInt32
  component? : String → String → Option UInt32
  partialNamed? : String → String → Option UInt32

/-- When the blocks that code refers to are compiled. -/
inductive Strategy where
  /-- When they are first used. -/
  | lazy
  /-- Together with the code. -/
  | eager
deriving DecidableEq, Inhabited

namespace Strategy

def name : Strategy → String
  | .lazy => "lazy"
  | .eager => "eager"

def ofName? (s : String) : Option Strategy := [Strategy.lazy, .eager].find? fun t => t.name == s

/-- What is said about a name that is not one of a strategy. -/
def unknownMessage (s : String) : String :=
  "unknown strategy \x60" ++ s ++ "\x60 (expected lazy or eager)"

end Strategy

/-- What a compilation is given. -/
structure CompileOptions where
  lookup : Lookup
  strategy : Strategy
  /-- A bound on how deeply the layouts and partials of the lookup, with the blocks in them, can
  nest in each other. -/
  nesting : Nat

end TemplateMachine
