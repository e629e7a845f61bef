import TemplateMachine.Compile.Expression

/-! Code that invokes components.  The general form leaves it to the machine to bind the symbols of
the layout.  Where the layout is known when the code is emitted, and neither evaluates names at
run time nor belongs to a manager that changes arguments, the symbols are bound by code of their
own. -/

namespace TemplateMachine

/-- The arguments and blocks that a component is given. -/
structure Invocation where
  attrs : Option Fragment := none
  params : List Expression := []
  hash : Option Hash := none
  /-- Written with curly braces, where the names of arguments have no `@`. -/
  synthetic : Bool := false
  block : Option Fragment := none
  inverse : Option Fragment := none

namespace Invocation

def hasBlocks (i : Invocation) : Bool := i.block.isSome || i.inverse.isSome || i.attrs.isSome

/-- Which of the two blocks there are, as the machine is told. -/
def blockFlags (i : Invocation) : UInt32 :=
  i.block.isSome.toUInt32 ||| i.inverse.isSome.toUInt32 <<< 1

end Invocation

/-- What a symbol of a layout is bound to. -/
inductive SymbolRole where
  /-- A block of the invocation. -/
  | block (symbol : String)
  /-- A named argument, whose name is given with and without the `@`. -/
  | argument (symbol bare : String)
  /-- Nothing that an invocation passes. -/
  | inner

/-- The role of a symbol, by its first character. -/
def SymbolRole.ofSymbol (symbol : String) : SymbolRole :=
  match symbol.toList with
  | '&' :: _ => .block symbol
  | '@' :: bare => .argument symbol (String.ofList bare)
  | _ => .inner

/-- The names of the symbols that stand for blocks. -/
structure BlockSymbols where
  main : String
  inverse : String
  attrs : String

def blockSymbols : BlockSymbols := ⟨"&default", "&inverse", "&attrs"⟩

/-- The block of an invocation that a symbol stands for, if there is such a symbol. -/
def Invocation.blockOf? (i : Invocation) (symbol : String) : Option (Option Fragment) :=
  if symbol = blockSymbols.main then some i.block
  else if symbol = blockSymbols.inverse then some i.inverse
  else if symbol = blockSymbols.attrs then some i.attrs
  else none

namespace Emit

/-- The register that holds the component being invoked. -/
def current : UInt32 := Register.s0.number

/-- Saves the component of the enclosing invocation below the new one. -/
def enterComponent : Emit Unit := do
  op .fetch current
  op .dup Register.sp.number 1
  op .load current

/-- Begins the life of an instance. -/
def createComponent (i : Invocation) : Emit Unit := do
  op .beginComponentTransaction
  op .pushDynamicScope
  op .createComponent i.blockFlags current

/-- Leaves an invocation whose layout is done. -/
def leaveComponent : Emit Unit := do
  op .didRenderLayout current
  op .popFrame
  op .popScope
  op .popDynamicScope
  op .commitComponentTransaction
  op .load current

/-- Invokes the component on the stack, which stays there.  The layout is taken from the machine
unless it is given. -/
def invokeComponent (i : Invocation) (layout : Option Fragment) : Emit Unit := do
  enterComponent
  pushYieldable i.block
  pushYieldable i.inverse
  pushYieldable i.attrs
  args i.params i.hash i.synthetic
  op .prepareArgs current
  createComponent i
  op .registerComponentDestructor current
  op .getComponentSelf current
  match layout with
  | some f =>
    symbolTable f.table
    pushBlock f
    resolveBlock
  | none => op .getComponentLayout current
  op .invokeComponentLayout current
  leaveComponent

/-- Pushes what a symbol is bound to and tells the operation that binds it; none if the invocation
passes nothing for it. -/
def pushSymbol (i : Invocation) (symbol : String) : Emit (Option Opcode) := do
  match SymbolRole.ofSymbol symbol with
  | .block symbol =>
    pushYieldable (← orFail (i.blockOf? symbol) (.unreachableSymbol symbol))
    return some .setBlock
  | .argument symbol bare =>
    match i.hash.bind fun hash => hash.get? (if i.synthetic then bare else symbol) with
    | some value =>
      expression value
      return some .setVariable
    | none => return none
  | .inner => return none

/-- Pushes what the symbols from a slot on are bound to; gives the slots to be bound with the
operations that bind them, the last pushed first. -/
def pushSymbols (i : Invocation) (bound : List (UInt32 × Opcode)) (slot : UInt32) :
    List String → Emit (List (UInt32 × Opcode))
  | [] => return bound
  | symbol :: rest => do
    match ← pushSymbol i symbol with
    | some binder => pushSymbols i ((slot, binder) :: bound) (slot + 1) rest
    | none => pushSymbols i bound (slot + 1) rest

/-- Binds slots to values on the stack. -/
def bindSymbols : List (UInt32 × Opcode) → Emit Unit
  | [] => return
  | (slot, binder) :: rest => do
    op binder slot
    bindSymbols rest

/-- Invokes the component on the stack, which stays there, with a layout known now. -/
def invokeStaticComponent (capabilities : Capabilities) (layout : Fragment) (i : Invocation) :
    Emit Unit := do
  let table ← orFail layout.table.asProgram? .notALayout
  if table.hasEval || capabilities.prepareArgs then
    invokeComponent i layout
  else
    enterComponent
    if capabilities.createArgs then
      op .pushFrame
      args i.params i.hash i.synthetic
    createComponent i
    if capabilities.createArgs then
      op .popFrame
    op .registerComponentDestructor current
    op .getComponentSelf current
    let bound ← pushSymbols i [(0, .setVariable)] 1 table.symbols
    op .rootScope (UInt32.ofNat table.symbols.length + 1) i.hasBlocks.toUInt32
    bindSymbols bound
    op .pushFrame
    invokeStatic layout
    leaveComponent

/-- Invokes the component of a handle. -/
def component (handle : UInt32) (i : Invocation) : Emit Unit := do
  let lookup := (← read).lookup
  let capabilities := lookup.capabilities handle
  onHandle .pushComponentSpec handle
  match if capabilities.dynamicLayout then none else lookup.layout? handle with
  | some layout => invokeStaticComponent capabilities layout i
  | none => invokeComponent i none
  op .pop 1

/-- The steps of a frame that is left through its end, with the labels in it. -/
def frameWithLabels (body : Emit Unit) : Emit Unit := do
  openLabels
  op .pushFrame
  jump .returnTo "END"
  body
  label "END"
  op .popFrame
  closeLabels

/-- Leaves the instructions of a frame. -/
def exitFrame : Emit Unit := do
  op .exit
  op .ret

/-- Appends a value, which may turn out to be a component to be invoked. -/
def guardedAppend (value : Expression) (trusting : Bool) : Emit Unit :=
  frameWithLabels do
    expression value
    op .dup Register.sp.number 0
    op .isComponent
    op .enter 2
    jump .jumpUnless "ELSE"
    onReferer .pushDynamicComponentManager
    invokeComponent {} none
    exitFrame
    label "ELSE"
    op .dynamicContent trusting.toUInt32
    exitFrame

/-- Invokes the component that an expression gives; nothing if it gives none. -/
def dynamicComponent (definition : Expression) (i : Invocation) : Emit Unit :=
  frameWithLabels do
    expression definition
    op .dup Register.sp.number 0
    op .enter 2
    jump .jumpUnless "ELSE"
    onReferer .pushDynamicComponentManager
    invokeComponent i none
    label "ELSE"
    exitFrame

end Emit

end TemplateMachine
