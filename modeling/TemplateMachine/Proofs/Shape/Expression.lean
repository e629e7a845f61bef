import TemplateMachine.Proofs.Program.Linkage
import TemplateMachine.Proofs.Walk.WellFormed

/-! The shape of code.  What is emitted for a piece of a template is described by what its
instructions are, with operands that stand for the right constants, and not by how they came
about. -/

namespace TemplateMachine

/-- What the operands of code refer to. -/
structure Coding where
  lookup : Lookup
  strategy : Strategy
  linkage : Linkage
  /-- The template that the code belongs to. -/
  layout : Layout

/-- The names of named arguments. -/
def HashOf.namesOf {ε : Type} : Option (HashOf ε) → List String
  | none => []
  | some hash => hash.names

/-- A jump over some instructions. -/
def Instruction.skip (op : Opcode) (skipped : List Instruction) : Instruction :=
  ⟨op, Emit.distance 0 (1 + skipped.length), 0, 0⟩

namespace Coding

def constants (k : Coding) : Constants := k.linkage.program.constants

def referer (k : Coding) : String := k.layout.referer

/-! ### Constants -/

/-- An operation on a string. -/
def onString (k : Coding) (op : Opcode) (s : String) (code : List Instruction) : Prop :=
  ∃ index, k.constants.strings.get? index = some s ∧ code = [⟨op, index, 0, 0⟩]

def onHandle (k : Coding) (op : Opcode) (handle : UInt32) (code : List Instruction) : Prop :=
  ∃ index, k.constants.handles.get? index = some handle ∧ code = [⟨op, index, 0, 0⟩]

def onReferer (k : Coding) (op : Opcode) (code : List Instruction) : Prop :=
  ∃ index, k.constants.referers.get? index = some k.referer ∧ code = [⟨op, index, 0, 0⟩]

/-- Pushes a primitive. -/
def primitive (k : Coding) (p : Primitive) (code : List Instruction) : Prop :=
  ∃ w, Primitive.decode? w k.constants = some p ∧ code = [⟨.primitive, w, 0, 0⟩]

/-- Pushes a reference to a primitive. -/
def reference (k : Coding) (p : Primitive) (code : List Instruction) : Prop :=
  ∃ push, k.primitive p push ∧ code = push ++ [⟨.primitiveReference, 0, 0, 0⟩]

/-- Pushes the symbols of a block, or null. -/
def symbolTable (k : Coding) (table : Option SymbolTable) (code : List Instruction) : Prop :=
  match table with
  | some t =>
    ∃ index, k.constants.tables.get? index = some t ∧ code = [⟨.pushSymbolTable, index, 0, 0⟩]
  | none => k.primitive .null code

/-! ### Blocks -/

/-- Pushes a block, or null. -/
def block (k : Coding) (f : Option Fragment) (code : List Instruction) : Prop :=
  match f with
  | none => k.primitive .null code
  | some f =>
    match k.strategy with
    | .lazy =>
      ∃ index, k.linkage.known f.id = some f ∧ k.constants.fragments.get? index = some f ∧
        code = [⟨.constant, index, 0, 0⟩]
    | .eager =>
      ∃ handle, k.linkage.known f.id = some f ∧
        k.linkage.program.linked? f.id = some handle ∧
        k.primitive (.number (Binary64.ofNat handle.toNat)) code

/-- Turns the block on the stack into a handle. -/
def resolve (k : Coding) : List Instruction :=
  match k.strategy with
  | .lazy => [⟨.compileBlock, 0, 0, 0⟩]
  | .eager => []

/-- Pushes the symbols of a block and the block, or two nulls. -/
def yieldable (k : Coding) (f : Option Fragment) (code : List Instruction) : Prop :=
  ∃ table push, k.symbolTable (f.map fun f => f.table) table ∧ k.block f push ∧
    code = table ++ push

/-- Calls a block in the current scope. -/
def staticCall (k : Coding) (f : Fragment) (code : List Instruction) : Prop :=
  match k.strategy with
  | .lazy =>
    ∃ index, k.linkage.known f.id = some f ∧ k.constants.fragments.get? index = some f ∧
      code = [⟨.constant, index, 0, 0⟩, ⟨.compileBlock, 0, 0, 0⟩, ⟨.invokeVirtual, 0, 0, 0⟩]
  | .eager =>
    ∃ handle, k.linkage.known f.id = some f ∧ k.linkage.program.linked? f.id = some handle ∧
      code = [⟨.invokeStatic, handle, 0, 0⟩]

/-- Binds parameters to values below the frame, of which the first is the deepest. -/
def bindParameters (depth : UInt32) : List UInt32 → List Instruction
  | [] => []
  | symbol :: rest =>
    ⟨.dup, Register.fp.number, depth, 0⟩ :: ⟨.setVariable, symbol, 0, 0⟩ ::
      bindParameters (depth - 1) rest

/-- Enters a scope with parameters, if there are any. -/
def enterParameters (depth : UInt32) (symbols : List UInt32) : List Instruction :=
  if symbols.isEmpty then [] else ⟨.childScope, 0, 0, 0⟩ :: bindParameters depth symbols

/-- Leaves the scope with parameters. -/
def leaveParameters (symbols : List UInt32) : List Instruction :=
  if symbols.isEmpty then [] else [⟨.popScope, 0, 0, 0⟩]

/-- Calls a block whose parameters are values on the stack. -/
def staticBlock (k : Coding) (f : Fragment) (supplied : UInt32) (code : List Instruction) : Prop :=
  ∃ push, k.block (some f) push ∧
    code = ⟨.pushFrame, 0, 0, 0⟩ ::
      enterParameters supplied (f.table.parameters.take supplied.toNat) ++ push ++ k.resolve ++
      ⟨.invokeVirtual, 0, 0, 0⟩ :: leaveParameters (f.table.parameters.take supplied.toNat) ++
      [⟨.popFrame, 0, 0, 0⟩]

/-! ### Expressions -/

/-- Gathers arguments whose values are on the stack; in a well-formed template their number fits. -/
def gather (k : Coding) (count : Nat) (names : List String) (code : List Instruction) : Prop :=
  ∃ index flags : UInt32, k.constants.getStringArray? index = some names ∧
    (flags >>> 4).toNat = count % 0x10000000 ∧ (k.layout.template.wellFormed → count < 0x10000000) ∧
    code = [⟨.pushArgs, index, flags, 0⟩]

/-- The properties of the value on the stack, one within the other. -/
def properties (k : Coding) : List String → List Instruction → Prop
  | [], code => code = []
  | key :: rest, code =>
    ∃ first more, k.onString .getProperty key first ∧ k.properties rest more ∧ code = first ++ more

mutual

/-- Pushes the value of an expression. -/
def expression (k : Coding) : Expression → List Instruction → Prop
  | .value json, code => ∃ p, Primitive.ofJson json = .ok p ∧ k.reference p code
  | .undefined, code => k.reference .undefined code
  | .get head path, code =>
    ∃ more, k.properties path more ∧ code = ⟨.getVariable, head, 0, 0⟩ :: more
  | .unknown name, code =>
    match k.lookup.helper? name k.referer with
    | some handle =>
      ∃ args call, k.gather 0 [] args ∧ k.onHandle .helper handle call ∧ code = args ++ call
    | none =>
      ∃ more, k.onString .getProperty name more ∧ code = ⟨.getVariable, 0, 0, 0⟩ :: more
  | .helper name params hash, code =>
    if name = "component" then
      match params with
      | some (definition :: rest) =>
        ∃ first positional named args curry, k.expression definition first ∧
          k.expressions rest positional ∧ k.namedValues hash named ∧
          k.gather rest.length (HashOf.namesOf hash) args ∧ k.onReferer .curryComponent curry ∧
          code = first ++ positional ++ named ++ args ++ curry
      | _ => False
    else
      ∃ handle positional named args call, k.lookup.helper? name k.referer = some handle ∧
        k.params? params positional ∧ k.namedValues hash named ∧
        k.gather (params.getD []).length (HashOf.namesOf hash) args ∧
        k.onHandle .helper handle call ∧ code = positional ++ named ++ args ++ call
  | .concat parts, code =>
    ∃ values, k.expressions parts values ∧
      code = values ++ [⟨.concat, UInt32.ofNat parts.length, 0, 0⟩]
  | .hasBlock symbol, code => code = [⟨.hasBlock, symbol, 0, 0⟩]
  | .hasBlockParams symbol, code =>
    code = ⟨.getBlock, symbol, 0, 0⟩ :: k.resolve ++ [⟨.hasBlockParams, 0, 0, 0⟩]

/-- Pushes the values of several expressions. -/
def expressions (k : Coding) : List Expression → List Instruction → Prop
  | [], code => code = []
  | e :: rest, code =>
    ∃ first more, k.expression e first ∧ k.expressions rest more ∧ code = first ++ more

def params? (k : Coding) : Option (List Expression) → List Instruction → Prop
  | none, code => code = []
  | some es, code => k.expressions es code

/-- Pushes the values of named arguments; in a well-formed template there is one for each name. -/
def namedValues (k : Coding) : Option (HashOf Expression) → List Instruction → Prop
  | none, code => code = []
  | some ⟨names, values⟩, code =>
    (k.layout.template.wellFormed → names.length = values.length) ∧ k.expressions values code

end

/-- Pushes arguments. -/
def args (k : Coding) (params : List Expression) (hash : Option Hash) (code : List Instruction) :
    Prop :=
  ∃ positional named gathered, k.expressions params positional ∧ k.namedValues hash named ∧
    k.gather params.length (HashOf.namesOf hash) gathered ∧ code = positional ++ named ++ gathered

end Coding

end TemplateMachine
