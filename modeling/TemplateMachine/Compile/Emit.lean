import TemplateMachine.Code.Program
import TemplateMachine.Compile.Error
import TemplateMachine.Compile.Lookup

/-! Emission of code.  A block is built as a list of instructions beside the program, whose pools
grow on the way, and is committed to the heap at the end.  Jumps name labels; a label belongs to the
innermost open scope, and when a scope is closed its jumps get their distances. -/

namespace TemplateMachine

/-- Growing a program by compiled blocks. -/
abbrev Link := EStateM (Stop CompileError) Program

/-- A jump whose distance is not known yet. -/
structure LabelUse where
  /-- The number of its instruction in the block. -/
  position : Nat
  label : String
deriving DecidableEq, Inhabited

/-- The labels of a scope and the jumps to them. -/
structure LabelScope where
  /-- Labels with the number of the instruction that follows, the latest first. -/
  places : List (String × Nat) := []
  /-- The jumps, the latest first. -/
  uses : List LabelUse := []
deriving Inhabited

/-- A block under construction. -/
structure Builder where
  program : Program
  code : Array Instruction := #[]
  /-- The open label scopes, the innermost first. -/
  scopes : List LabelScope := []
deriving Inhabited

/-- What a block under construction can refer to. -/
structure BuildContext where
  lookup : Lookup
  strategy : Strategy
  /-- The template that the block belongs to. -/
  layout : Layout
  /-- Compiles another fragment into the same program. -/
  link : Fragment → Link UInt32

abbrev Emit := ReaderT BuildContext (EStateM (Stop CompileError) Builder)

namespace Emit

def fail {α : Type} (error : CompileError) : Emit α := throw (.fault error)

/-- The value of an option whose absence is an error. -/
def orFail {α : Type} (value : Option α) (error : CompileError) : Emit α :=
  match value with
  | some a => return a
  | none => fail error

/-- Runs a change of the program. -/
def onProgram {α : Type} (change : Link α) : Emit α := fun _ builder =>
  match builder with
  | ⟨program, code, scopes⟩ =>
    match change program with
    | .ok a program => .ok a ⟨program, code, scopes⟩
    | .error e program => .error e ⟨program, code, scopes⟩

/-- Adds a constant. -/
def onConstants {α : Type} (add : Constants → α × Constants) : Emit α :=
  onProgram fun program =>
    match program with
    | ⟨heap, constants, linked, fresh⟩ =>
      let (a, constants) := add constants
      .ok a ⟨heap, constants, linked, fresh⟩

def string (s : String) : Emit UInt32 := onConstants fun c => c.string s

/-- The handle of another fragment, which is compiled if it has none. -/
def linked (f : Fragment) : Emit UInt32 := do onProgram ((← read).link f)

/-- A fragment of the same template, with an identity of its own. -/
def newFragment (make : FragmentId → Layout → Fragment) : Emit Fragment := do
  let context ← read
  let number ← onProgram (modifyGet fun p => (p.fresh, { p with fresh := p.fresh + 1 }))
  return make (.nested number) context.layout

/-- The module that the code was written in. -/
def referer : Emit String := return (← read).layout.referer

/-- The handle that a name has in the lookup. -/
def resolve (find : Lookup → String → String → Option UInt32) (name : String) :
    Emit (Option UInt32) :=
  return find (← read).lookup name (← referer)

/-- Appends an instruction. -/
def op (op : Opcode) (a b c : UInt32 := 0) : Emit Unit :=
  modify fun builder => { builder with code := builder.code.push ⟨op, a, b, c⟩ }

/-! ### Labels -/

def openLabels : Emit Unit := modify fun builder => { builder with scopes := {} :: builder.scopes }

/-- Changes the innermost label scope. -/
def onLabels (change : LabelScope → LabelScope) : Emit Unit := do
  match (← get).scopes with
  | [] => fail (.unbalancedLabels "label used outside a label scope")
  | scope :: rest => modify fun builder => { builder with scopes := change scope :: rest }

/-- Puts a label before the next instruction.  The last one of its name counts. -/
def label (name : String) : Emit Unit := do
  let place := (← get).code.size
  onLabels fun scope => { scope with places := (name, place) :: scope.places }

/-- Appends a jump to a label. -/
def jump (operation : Opcode) (target : String) : Emit Unit := do
  let position := (← get).code.size
  op operation
  onLabels fun scope => { scope with uses := ⟨position, target⟩ :: scope.uses }

/-- The operand for a jump between two instructions of a block. -/
def distance (source target : Nat) : UInt32 :=
  UInt32.ofInt (((target : Int) - source) * instructionWidth)

/-- Gives jumps their distances. -/
def setDistances (places : List (String × Nat)) : List LabelUse → Emit Unit
  | [] => return
  | ⟨position, target⟩ :: rest => do
    let place ← orFail (places.lookup target) (.unresolvedLabel target)
    modify fun builder =>
      { builder with
        code := builder.code.modify position fun i => { i with a := distance position place } }
    setDistances places rest

/-- Closes the innermost label scope. -/
def closeLabels : Emit Unit := do
  match (← get).scopes with
  | [] => fail (.unbalancedLabels "stop_labels without start_labels")
  | scope :: rest =>
    modify fun builder => { builder with scopes := rest }
    setDistances scope.places scope.uses.reverse

/-! ### Constants and markup -/

def primitive (p : Primitive) : Emit Unit := do op .primitive (← onConstants p.encode)

def primitiveReference (p : Primitive) : Emit Unit := do
  primitive p
  op .primitiveReference

/-- An operation on a string. -/
def onString (operation : Opcode) (s : String) : Emit Unit := do op operation (← string s)

/-- An operation on what a name was resolved to. -/
def onHandle (operation : Opcode) (handle : UInt32) : Emit Unit := do
  op operation (← onConstants fun c => c.handle handle)

/-- An operation that looks names up at run time. -/
def onReferer (operation : Opcode) : Emit Unit := do
  let name ← referer
  op operation (← onConstants fun c => c.referer name)

def symbolTable : Option SymbolTable → Emit Unit
  | some t => do op .pushSymbolTable (← onConstants fun c => c.table t)
  | none => primitive .null

/-- The string of a namespace; zero if there is none. -/
def namespaceString : Option String → Emit UInt32
  | some s => string s
  | none => return 0

/-- An attribute with a fixed value. -/
def staticAttr (mode : AttrMode) (name value : String) (space : Option String) : Emit Unit := do
  let nameIndex ← string name
  let spaceIndex ← namespaceString space
  match mode with
  | .component =>
    primitiveReference (.string value)
    op .componentAttr nameIndex 1 spaceIndex
  | .element => op .staticAttr nameIndex (← string value) spaceIndex

/-- An attribute whose value is on the stack. -/
def dynamicAttr (mode : AttrMode) (name : String) (space : Option String) (trusting : Bool) :
    Emit Unit := do
  let nameIndex ← string name
  let spaceIndex ← namespaceString space
  op (match mode with | .component => .componentAttr | .element => .dynamicAttr)
    nameIndex trusting.toUInt32 spaceIndex

/-! ### Commitment -/

/-- Ends the block with a return and writes it to the heap: to the given handle, or to a new one. -/
def commit (reserved : Option UInt32) : Emit UInt32 := do
  unless (← get).scopes.isEmpty do
    fail (.unbalancedLabels "label scope open at commit")
  op .ret
  let scopeSize := UInt32.ofNat (← read).layout.template.symbols.length
  let code := (← get).code
  onProgram <| modifyGet fun p =>
    match p with
    | ⟨heap, constants, linked, fresh⟩ =>
      let (handle, heap) :=
        match reserved with
        | some handle => (handle, heap.openReserved handle)
        | none => heap.allocate
      let heap := code.foldl (fun heap i => heap.append i.words) heap
      (handle, ⟨heap.finish handle scopeSize, constants, linked, fresh⟩)

end Emit

end TemplateMachine
