import TemplateMachine.Compile.Emit

/-! Code that passes and calls blocks.  The lazy strategy embeds a block as a constant and links it
when the code runs; the eager one compiles it now and embeds its handle. -/

namespace TemplateMachine.Emit

/-- A nested block of the template. -/
def inlineBlock (index : Nat) : Emit Fragment := do
  let block ← orFail ((← read).layout.template.blocks[index]?) (.unknownBlockIndex index)
  newFragment fun id layout => .ofBlock id layout block

def optionalBlock : Option Nat → Emit (Option Fragment)
  | some index => return some (← inlineBlock index)
  | none => return none

/-- The attributes of an invocation as a block. -/
def attrsBlock (attrs : List Statement) : Emit Fragment :=
  newFragment fun id layout => .ofAttrs id layout attrs

def fragmentConstant (f : Fragment) : Emit Unit := do
  op .constant (← onConstants fun c => c.fragment f)

/-- Pushes a block, or null. -/
def pushBlock : Option Fragment → Emit Unit
  | none => primitive .null
  | some f => do
    match (← read).strategy with
    | .lazy => fragmentConstant f
    | .eager => primitive (.number (Binary64.ofNat (← linked f).toNat))

/-- Turns the block on the stack into a handle. -/
def resolveBlock : Emit Unit := do
  match (← read).strategy with
  | .lazy => op .compileBlock
  | .eager => return

/-- Pushes the symbols of a block and the block, or two nulls. -/
def pushYieldable (block : Option Fragment) : Emit Unit := do
  symbolTable (block.map fun f => f.table)
  pushBlock block

/-- Calls a block. -/
def invokeStatic (f : Fragment) : Emit Unit := do
  match (← read).strategy with
  | .lazy =>
    fragmentConstant f
    op .compileBlock
    op .invokeVirtual
  | .eager => op .invokeStatic (← linked f)

/-- Binds parameters to values below the frame, of which the first is the deepest. -/
def bindParameters : (depth : UInt32) → List UInt32 → Emit Unit
  | _, [] => return
  | depth, symbol :: rest => do
    op .dup Register.fp.number depth
    op .setVariable symbol
    bindParameters (depth - 1) rest

/-- Calls a block whose parameters are the top `supplied` values of the stack, as many as it
declares. -/
def invokeStaticBlock (f : Fragment) (supplied : UInt32) : Emit Unit := do
  let bound := f.table.parameters.take supplied.toNat
  op .pushFrame
  unless bound.isEmpty do
    op .childScope
    bindParameters supplied bound
  pushBlock f
  resolveBlock
  op .invokeVirtual
  unless bound.isEmpty do
    op .popScope
  op .popFrame

end TemplateMachine.Emit
