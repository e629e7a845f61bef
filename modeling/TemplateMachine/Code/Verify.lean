import TemplateMachine.Code.Program

/-! Verification of linked code.  A verified block is a whole number of known instructions that ends
with a return, and its jumps lead to instructions of the block; strict verification also asks that
operands name constants, registers and blocks that there are. -/

namespace TemplateMachine

inductive VerifyError where
  | badHandle (handle : UInt32)
  | truncated (handle : UInt32) (size : Nat)
  | unknownOpcode (address : Nat) (word : UInt32)
  | zeroOffset (address : Nat) (op : Opcode)
  | targetOutOfBounds (address : Nat) (op : Opcode) (target : Int)
  | misalignedTarget (address : Nat) (op : Opcode) (target : Int)
  | missingReturn (handle : UInt32)
  | badOperand (address : Nat) (op : Opcode) (kind : String) (index : UInt32)
deriving DecidableEq, Inhabited

namespace VerifyError

/-- The place of an instruction in a message. -/
def place (op : Opcode) (address : Nat) : String := op.name ++ " at " ++ Text.padded address

/-- The name of an error in reports. -/
def name : VerifyError → String
  | .badHandle _ => "BadHandle"
  | .truncated .. => "Truncated"
  | .unknownOpcode .. => "UnknownOpcode"
  | .zeroOffset .. => "ZeroOffset"
  | .targetOutOfBounds .. => "TargetOutOfBounds"
  | .misalignedTarget .. => "MisalignedTarget"
  | .missingReturn _ => "MissingReturn"
  | .badOperand .. => "BadOperand"

def message : VerifyError → String
  | .badHandle handle => Heap.handleName handle ++ " is not a committed handle"
  | .truncated handle size =>
    Heap.handleName handle ++ " is " ++ toString size ++
      " words, not a whole number of instructions"
  | .unknownOpcode address word =>
    "unknown opcode " ++ toString word.toNat ++ " at " ++ Text.padded address
  | .zeroOffset address op => place op address ++ " has a zero offset"
  | .targetOutOfBounds address op target =>
    place op address ++ " targets " ++ toString target ++ ", outside its block"
  | .misalignedTarget address op target =>
    place op address ++ " targets " ++ toString target ++ ", which is not an instruction boundary"
  | .missingReturn handle => Heap.handleName handle ++ " does not end with Return"
  | .badOperand address op kind index =>
    place op address ++ " refers to missing " ++ kind ++ " " ++ toString index.toNat

end VerifyError

namespace Program

/-- The first operand of an instruction that names nothing: what it should name, and the word. -/
def missingOperand? (p : Program) (i : Instruction) : Option (String × UInt32) :=
  let need (kind : String) (index : UInt32) (there : Bool) : Option (String × UInt32) :=
    if there then none else some (kind, index)
  let c := p.constants
  let string (index : UInt32) := need "string" index (c.strings.get? index).isSome
  let saved (w : UInt32) := need "register" w ((Register.ofNumber? w).any Register.isSaved)
  match i.op with
  | .text | .comment | .openElement | .getProperty => string i.a
  | .staticAttr => string i.a <|> string i.b <|> string i.c
  | .dynamicAttr | .componentAttr => string i.a <|> string i.c
  | .helper | .modifier | .pushComponentSpec => need "handle" i.a (c.handles.get? i.a).isSome
  | .pushSymbolTable => need "table" i.a (c.tables.get? i.a).isSome
  | .constant => need "template" i.a (c.fragments.get? i.a).isSome
  | .pushArgs => need "string array" i.a (c.getStringArray? i.a).isSome
  | .pushDynamicComponentManager | .curryComponent =>
    need "referer" i.a (c.referers.get? i.a).isSome
  | .primitive => need "primitive" i.a (Primitive.decode? i.a c).isSome
  | .invokeStatic => need "block" i.a (p.heap.block? i.a).isSome
  | .dup => need "register" i.a ((Register.ofNumber? i.a).any fun r => r == .sp || r == .fp)
  | .fetch => need "register" i.a (Register.ofNumber? i.a).isSome
  | .load | .prepareArgs | .registerComponentDestructor | .getComponentSelf | .getComponentLayout
  | .didCreateElement | .didRenderLayout => saved i.a
  | .createComponent => saved i.b
  | _ => none

/-- Checks that a jump leads to an instruction of its block. -/
def checkTarget (b : Block) (address : Nat) (i : Instruction) : Except VerifyError Unit :=
  let offset := relativeOffset i.a
  let target := (address : Int) + offset
  let within := target - b.offset.toNat
  if offset = 0 then .error (.zeroOffset address i.op)
  else if within < 0 ∨ b.size.toNat ≤ within then
    .error (.targetOutOfBounds address i.op target)
  else if within % instructionWidth ≠ 0 then .error (.misalignedTarget address i.op target)
  else .ok ()

/-- Checks an instruction that stands in a block. -/
def checkInstruction (p : Program) (strict : Bool) (b : Block) (address : Nat) :
    Except VerifyError Opcode := do
  let word (n : Nat) := p.heap.words.getD (address + n) 0
  let some op := Opcode.ofNumber? (word 0) | .error (.unknownOpcode address (word 0))
  let i : Instruction := ⟨op, word 1, word 2, word 3⟩
  if op.isJump then checkTarget b address i
  if strict then
    if let some (kind, index) := p.missingOperand? i then
      .error (.badOperand address op kind index)
  return op

/-- Checks a number of instructions in a row and gives the last. -/
def checkInstructions (p : Program) (strict : Bool) (b : Block) (address : Nat)
    (last : Option Opcode) : Nat → Except VerifyError (Option Opcode)
  | 0 => return last
  | count + 1 => do
    let op ← p.checkInstruction strict b address
    p.checkInstructions strict b (address + instructionWidth) (some op) count

/-- Verifies a block and gives the number of its instructions. -/
def verify (p : Program) (strict : Bool) (handle : UInt32) : Except VerifyError Nat := do
  let some b := p.heap.block? handle | .error (.badHandle handle)
  let size := b.size.toNat
  if size = 0 ∨ size % instructionWidth ≠ 0 ∨ p.heap.words.size < b.offset.toNat + size then
    .error (.truncated handle size)
  let count := size / instructionWidth
  let last ← p.checkInstructions strict b b.offset.toNat none count
  if last = some .ret then return count else .error (.missingReturn handle)

/-- Verifies several blocks and adds up the numbers of their instructions. -/
def verifyList (p : Program) (strict : Bool) : List UInt32 → Except VerifyError Nat
  | [] => return 0
  | handle :: rest => return (← p.verify strict handle) + (← p.verifyList strict rest)

/-- Verifies all blocks. -/
def verifyAll (p : Program) (strict : Bool) : Except VerifyError Nat :=
  p.verifyList strict p.heap.handles

end Program

end TemplateMachine
