/-! The instruction set.  An instruction is an operation with three operands `a`, `b` and `c`; it
takes four words, the number of the operation first.  Operands are plain numbers, registers,
indices of constants, or distances to jump.  In the effects below the top of the stack is on the
right. -/

namespace TemplateMachine

/-- The number of words of an instruction. -/
def instructionWidth : Nat := 4

/-- The operations, in the order of their numbers. -/
inductive Opcode where
  /-- `[args] → [ref]`: calls the helper whose handle constant is `a`. -/
  | helper
  /-- `[ref] → []`: binds slot `a`. -/
  | setVariable
  /-- `[table, block] → []`: binds slot `a` to a block. -/
  | setBlock
  /-- `[] → [ref]`: the value of slot `a`. -/
  | getVariable
  /-- `[ref] → [ref]`: the property whose name is string `a`. -/
  | getProperty
  /-- `[] → [table, block]`: the block in slot `a`. -/
  | getBlock
  /-- `[] → [ref]`: whether slot `a` holds a block. -/
  | hasBlock
  /-- `[table, block] → [ref]`: whether the block has parameters. -/
  | hasBlockParams
  /-- `[ref × a] → [ref]`: the contents of `a` values in one string. -/
  | concat
  /-- `[] → [fragment]`: fragment constant `a`. -/
  | constant
  /-- `[] → [primitive]`: the primitive encoded in `a`. -/
  | primitive
  /-- `[primitive] → [ref]`. -/
  | primitiveReference
  /-- `[] → [value]`: the value `b` below register `a`. -/
  | dup
  /-- `[value × a] → []`. -/
  | pop
  /-- `[value] → []`: saves a value in register `a`. -/
  | load
  /-- `[] → [value]`: the value of register `a`. -/
  | fetch
  /-- `[ref] → [ref]`: the truth of a value. -/
  | toBoolean
  /-- Enters a scope of `a` empty slots, linked to the current one if `b` is not zero. -/
  | rootScope
  /-- Enters a copy of the current scope. -/
  | childScope
  /-- Leaves the current scope. -/
  | popScope
  /-- Enters a copy of the dynamic scope. -/
  | pushDynamicScope
  /-- Leaves the dynamic scope. -/
  | popDynamicScope
  /-- `[] → [ra, fp]`. -/
  | pushFrame
  /-- Cuts the stack at the frame and restores `ra` and `fp`. -/
  | popFrame
  /-- Jumps by `a`. -/
  | jump
  /-- `[ref] → []`: jumps by `a` if the value is true. -/
  | jumpIf
  /-- `[ref] → []`: jumps by `a` unless the value is true. -/
  | jumpUnless
  /-- Sets `ra` to the address at distance `a`. -/
  | returnTo
  /-- Continues at `ra`. -/
  | ret
  /-- `[handle] → []`: calls a block. -/
  | invokeVirtual
  /-- Calls block `a`. -/
  | invokeStatic
  /-- `[args, table, handle] → [ra, fp]`: calls a block in the scope it was written in. -/
  | invokeYield
  /-- Enters a block of instructions. -/
  | enter
  /-- Leaves a block of instructions. -/
  | exit
  /-- `[fragment] → [handle]`: links a fragment; a handle or null stays. -/
  | compileBlock
  /-- `[] → [table]`: table constant `a`. -/
  | pushSymbolTable
  /-- `[ref × n] → [args]`: names from string array `a`; `b / 16` positional values. -/
  | pushArgs
  /-- Appends string `a` as text. -/
  | text
  /-- Appends string `a` as a comment. -/
  | comment
  /-- `[ref] → []`: appends the content of a value, as markup if `a` is not zero. -/
  | dynamicContent
  /-- Starts an element with tag `a`. -/
  | openElement
  /-- Writes the opening tag of the pending element. -/
  | flushElement
  /-- Writes the closing tag of the innermost open element. -/
  | closeElement
  /-- Sets attribute `a` to string `b`, in namespace `c`. -/
  | staticAttr
  /-- `[ref] → []`: sets attribute `a`, in namespace `c`. -/
  | dynamicAttr
  /-- `[ref] → []`: sets attribute `a` on behalf of an invocation, in namespace `c`. -/
  | componentAttr
  /-- `[args] → []`: applies the modifier whose handle constant is `a`. -/
  | modifier
  /-- `[key, list] → [iterator, ref]`: an iterator and whether it has items. -/
  | putIterator
  /-- Marks the stack; the body is at distance `a`. -/
  | enterList
  /-- Checks the stack against the mark. -/
  | exitList
  /-- `[iterator] → [iterator, value, memo]`, or jumps by `a` at the end. -/
  | iterate
  /-- `[ref] → [ref]`: whether a value is a component. -/
  | isComponent
  /-- `[ref, args] → [ref]`: a component with arguments, looked up from referer `a`. -/
  | curryComponent
  /-- `[] → [component]`: the component whose handle constant is `a`. -/
  | pushComponentSpec
  /-- `[ref] → [component]`: the component a value names, looked up from referer `a`. -/
  | pushDynamicComponentManager
  /-- `[args] → [args]`: adds the curried arguments of the component in register `a`. -/
  | prepareArgs
  /-- Creates the instance of the component in register `b`; `a` tells its blocks. -/
  | createComponent
  /-- Keeps the destructor of the component in register `a`. -/
  | registerComponentDestructor
  /-- Begins a transaction. -/
  | beginComponentTransaction
  /-- Ends the innermost transaction. -/
  | commitComponentTransaction
  /-- `[] → [ref]`: the `self` of the component in register `a`. -/
  | getComponentSelf
  /-- `[] → [table, handle]`: the layout of the component in register `a`. -/
  | getComponentLayout
  /-- `[block × 6, args, self, table, handle] → [ra, fp]`: calls a layout. -/
  | invokeComponentLayout
  /-- Tells the component in register `a` about the pending element. -/
  | didCreateElement
  /-- Tells the component in register `a` that its layout is done. -/
  | didRenderLayout
deriving DecidableEq, Inhabited, Repr

namespace Opcode

/-- All operations, each at its number. -/
def all : List Opcode :=
  [.helper, .setVariable, .setBlock, .getVariable, .getProperty, .getBlock, .hasBlock,
   .hasBlockParams, .concat, .constant, .primitive, .primitiveReference, .dup, .pop, .load,
   .fetch, .toBoolean, .rootScope, .childScope, .popScope, .pushDynamicScope, .popDynamicScope,
   .pushFrame, .popFrame, .jump, .jumpIf, .jumpUnless, .returnTo, .ret, .invokeVirtual,
   .invokeStatic, .invokeYield, .enter, .exit, .compileBlock, .pushSymbolTable, .pushArgs,
   .text, .comment, .dynamicContent, .openElement, .flushElement, .closeElement, .staticAttr,
   .dynamicAttr, .componentAttr, .modifier, .putIterator, .enterList, .exitList, .iterate,
   .isComponent, .curryComponent, .pushComponentSpec, .pushDynamicComponentManager,
   .prepareArgs, .createComponent, .registerComponentDestructor, .beginComponentTransaction,
   .commitComponentTransaction, .getComponentSelf, .getComponentLayout, .invokeComponentLayout,
   .didCreateElement, .didRenderLayout]

/-- The number of an operation. -/
def number (op : Opcode) : UInt32 := UInt32.ofNat op.ctorIdx

/-- The operation with a given number. -/
def ofNumber? (w : UInt32) : Option Opcode := all[w.toNat]?

/-- The first operand is a distance to jump. -/
def isJump : Opcode → Bool
  | .jump | .jumpIf | .jumpUnless | .enterList | .iterate | .returnTo => true
  | _ => false

/-- The name of an operation in listings and messages. -/
def name : Opcode → String
  | .helper => "Helper"
  | .setVariable => "SetVariable"
  | .setBlock => "SetBlock"
  | .getVariable => "GetVariable"
  | .getProperty => "GetProperty"
  | .getBlock => "GetBlock"
  | .hasBlock => "HasBlock"
  | .hasBlockParams => "HasBlockParams"
  | .concat => "Concat"
  | .constant => "Constant"
  | .primitive => "Primitive"
  | .primitiveReference => "PrimitiveReference"
  | .dup => "Dup"
  | .pop => "Pop"
  | .load => "Load"
  | .fetch => "Fetch"
  | .toBoolean => "ToBoolean"
  | .rootScope => "RootScope"
  | .childScope => "ChildScope"
  | .popScope => "PopScope"
  | .pushDynamicScope => "PushDynamicScope"
  | .popDynamicScope => "PopDynamicScope"
  | .pushFrame => "PushFrame"
  | .popFrame => "PopFrame"
  | .jump => "Jump"
  | .jumpIf => "JumpIf"
  | .jumpUnless => "JumpUnless"
  | .returnTo => "ReturnTo"
  | .ret => "Return"
  | .invokeVirtual => "InvokeVirtual"
  | .invokeStatic => "InvokeStatic"
  | .invokeYield => "InvokeYield"
  | .enter => "Enter"
  | .exit => "Exit"
  | .compileBlock => "CompileBlock"
  | .pushSymbolTable => "PushSymbolTable"
  | .pushArgs => "PushArgs"
  | .text => "Text"
  | .comment => "Comment"
  | .dynamicContent => "DynamicContent"
  | .openElement => "OpenElement"
  | .flushElement => "FlushElement"
  | .closeElement => "CloseElement"
  | .staticAttr => "StaticAttr"
  | .dynamicAttr => "DynamicAttr"
  | .componentAttr => "ComponentAttr"
  | .modifier => "Modifier"
  | .putIterator => "PutIterator"
  | .enterList => "EnterList"
  | .exitList => "ExitList"
  | .iterate => "Iterate"
  | .isComponent => "IsComponent"
  | .curryComponent => "CurryComponent"
  | .pushComponentSpec => "PushComponentSpec"
  | .pushDynamicComponentManager => "PushDynamicComponentManager"
  | .prepareArgs => "PrepareArgs"
  | .createComponent => "CreateComponent"
  | .registerComponentDestructor => "RegisterComponentDestructor"
  | .beginComponentTransaction => "BeginComponentTransaction"
  | .commitComponentTransaction => "CommitComponentTransaction"
  | .getComponentSelf => "GetComponentSelf"
  | .getComponentLayout => "GetComponentLayout"
  | .invokeComponentLayout => "InvokeComponentLayout"
  | .didCreateElement => "DidCreateElement"
  | .didRenderLayout => "DidRenderLayout"

/-- The operation of a given name. -/
def ofName? (s : String) : Option Opcode := all.find? fun op => op.name == s

end Opcode

/-- An instruction. -/
structure Instruction where
  op : Opcode
  a : UInt32
  b : UInt32
  c : UInt32
deriving DecidableEq, Inhabited, Repr

/-- The four words of an instruction. -/
def Instruction.words (i : Instruction) : List UInt32 := [i.op.number, i.a, i.b, i.c]

/-- The distance that an operand stands for: its thirty-two bits as a number with sign. -/
def relativeOffset (w : UInt32) : Int :=
  if w.toNat < 0x80000000 then w.toNat else (w.toNat : Int) - UInt32.size

/-- The machine's registers. -/
inductive Register where
  /-- The address of the next instruction. -/
  | pc
  /-- The address to return to. -/
  | ra
  /-- The bottom of the frame. -/
  | fp
  /-- The top of the stack. -/
  | sp
  | s0
  | s1
  | t0
  | t1
deriving DecidableEq, Inhabited, Repr

namespace Register

def all : List Register := [.pc, .ra, .fp, .sp, .s0, .s1, .t0, .t1]

def number (r : Register) : UInt32 := UInt32.ofNat r.ctorIdx

def ofNumber? (w : UInt32) : Option Register := all[w.toNat]?

/-- The registers that hold values. -/
def isSaved : Register → Bool
  | .s0 | .s1 | .t0 | .t1 => true
  | _ => false

def name : Register → String
  | .pc => "$pc"
  | .ra => "$ra"
  | .fp => "$fp"
  | .sp => "$sp"
  | .s0 => "$s0"
  | .s1 => "$s1"
  | .t0 => "$t0"
  | .t1 => "$t1"

end Register

end TemplateMachine
