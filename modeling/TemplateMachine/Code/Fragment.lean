import TemplateMachine.Template.Basic

/-! Pieces of templates that are compiled as one block of code: a whole template, a block nested in
one, or the attributes of an invocation.  A fragment knows the template it belongs to, whose nested
blocks and symbols its statements name, and has an identity of its own: two fragments with the same
statements are still two blocks. -/

namespace TemplateMachine

/-- A template together with the name of the module it was written in. -/
structure Layout where
  template : Template
  referer : String
deriving Inhabited

/-- The symbols of a whole template. -/
structure ProgramTable where
  symbols : List String
  hasEval : Bool
  referer : String
deriving DecidableEq, Inhabited

/-- The parameters of a nested block, as slots of the template around it. -/
structure BlockTable where
  parameters : List UInt32
  referer : String
deriving DecidableEq, Inhabited

inductive SymbolTable where
  | program (table : ProgramTable)
  | block (table : BlockTable)
deriving DecidableEq, Inhabited

namespace SymbolTable

/-- The parameters of a block; a whole template has none. -/
def parameters : SymbolTable → List UInt32
  | .program _ => []
  | .block t => t.parameters

def asProgram? : SymbolTable → Option ProgramTable
  | .program t => some t
  | .block _ => none

end SymbolTable

/-- What attribute statements of a fragment apply to: the element under construction, or the
element that a component splats its attributes on. -/
inductive AttrMode where
  | element
  | component
deriving DecidableEq, Inhabited

/-- The identity of a fragment. -/
inductive FragmentId where
  /-- The template that is rendered. -/
  | entry
  /-- The layout of a component, by its handle. -/
  | layout (component : UInt32)
  /-- A partial, by its handle. -/
  | part (number : UInt32)
  /-- A nested block or a list of attributes, numbered as they come up. -/
  | nested (number : Nat)
deriving DecidableEq, Inhabited

/-- A piece of a template that is compiled as one block. -/
structure Fragment where
  id : FragmentId
  statements : List Statement
  layout : Layout
  table : SymbolTable
  attrMode : AttrMode
deriving Inhabited

namespace Fragment

/-- Fragments are the same if they have the same identity. -/
instance : BEq Fragment := ⟨fun a b => a.id == b.id⟩

/-- A whole template. -/
def ofLayout (id : FragmentId) (layout : Layout) : Fragment where
  id
  statements := layout.template.statements
  layout
  table := .program ⟨layout.template.symbols, layout.template.hasEval, layout.referer⟩
  attrMode := .element

/-- A nested block of a template. -/
def ofBlock (id : FragmentId) (layout : Layout) (block : InlineBlock) : Fragment where
  id
  statements := block.statements
  layout
  table := .block ⟨block.parameters, layout.referer⟩
  attrMode := .element

/-- The attributes of an invocation. -/
def ofAttrs (id : FragmentId) (layout : Layout) (attrs : List Statement) : Fragment where
  id
  statements := attrs
  layout
  table := .block ⟨[], layout.referer⟩
  attrMode := .component

end Fragment

end TemplateMachine
