import TemplateMachine.Datum.Iteration
import TemplateMachine.Machine.Error
import TemplateMachine.Machine.Host
import TemplateMachine.Machine.Value

/-! The state of the machine, and the steps that its instructions are made of. -/

namespace TemplateMachine

/-- A component that is being invoked. -/
structure ComponentState where
  definition : UInt32
  name : String
  capabilities : Capabilities
  manager : History → Manager
  /-- The arguments that a value came with, until they are added to those of the invocation. -/
  curried : Option Arguments
  created : Option Instance := none

/-- An instance to be destroyed. -/
structure Destructor where
  definition : UInt32
  inst : Instance
deriving Inhabited

def Destructor.event (d : Destructor) : Event := .destroy d.definition d.inst

/-- The registers that hold values. -/
structure SavedRegisters where
  s0 : Value := .null
  s1 : Value := .null
  t0 : Value := .null
  t1 : Value := .null
deriving Inhabited

namespace SavedRegisters

/-- The value of a register, if it is one of these. -/
def get? (s : SavedRegisters) : Register → Option Value
  | .s0 => some s.s0
  | .s1 => some s.s1
  | .t0 => some s.t0
  | .t1 => some s.t1
  | _ => none

def set (s : SavedRegisters) (r : Register) (v : Value) : SavedRegisters :=
  match r with
  | .s0 => { s with s0 := v }
  | .s1 => { s with s1 := v }
  | .t0 => { s with t0 := v }
  | .t1 => { s with t1 := v }
  | _ => s

end SavedRegisters

/-- The address to return to from the block that is rendered first. -/
def haltAddress : Nat := UInt64.size - 1

structure Machine where
  program : Program
  cells : Cells
  /-- The stack, its top last. -/
  stack : Array Value := #[]
  /-- The address of the next instruction. -/
  pc : Nat
  /-- The address to return to. -/
  ra : Nat := haltAddress
  /-- Where the current frame begins on the stack. -/
  fp : Nat := 0
  registers : SavedRegisters := {}
  scopes : Scopes := {}
  /-- The scopes that are entered, the innermost first. -/
  scopeStack : List Nat := []
  dynamicScopes : List DynamicScope := []
  sink : Sink := {}
  /-- Instances to be destroyed of invocations in progress, the innermost and newest first. -/
  transactions : List (List Destructor) := []
  /-- Instances to be destroyed of finished invocations, the newest first. -/
  destructors : List Destructor := []
  /-- The number of blocks of instructions that are entered. -/
  blockDepth : Nat := 0
  /-- The depth of the stack at the beginning of each open list. -/
  listMarks : List Nat := []
  components : Array ComponentState := #[]
  /-- The items that each iterator still has. -/
  iterators : Array (List IterationItem) := #[]
  /-- The instruction that is executed, for messages. -/
  current : Nat × Opcode := (0, .ret)
  /-- The calls of the host so far. -/
  events : History := #[]

abbrev Exec := ReaderT Setup (EStateM (Stop RuntimeError) Machine)

namespace Exec

def fail {α : Type} (error : RuntimeError) : Exec α := throw (.fault error)

/-- The value of an option whose absence is an error. -/
def orFail {α : Type} (value : Option α) (error : RuntimeError) : Exec α :=
  match value with
  | some a => return a
  | none => fail error

def underflow {α : Type} : Exec α := do
  let (address, op) := (← get).current
  fail (.stackUnderflow address op.name)

def mismatch {α : Type} (expected : String) : Exec α := do
  let (address, op) := (← get).current
  fail (.typeMismatch address op.name expected)

def record (e : Event) : Exec Unit := modify fun m => { m with events := m.events.push e }

/-! ### The stack -/

def push (v : Value) : Exec Unit := modify fun m => { m with stack := m.stack.push v }

def pushRef (r : Reference) : Exec Unit := push (.ref r)

def pop : Exec Value := do
  match (← get).stack.back? with
  | some v =>
    modify fun m => { m with stack := m.stack.pop }
    return v
  | none => underflow

def popRef : Exec Reference := do
  match ← pop with
  | .ref r => return r
  | _ => mismatch "reference"

/-- The datum that the reference on the stack leads to. -/
def popDatum : Exec Datum := do
  let r ← popRef
  return r.value (← get).cells

def popArgs : Exec Arguments := do
  match ← pop with
  | .args a => return a
  | _ => mismatch "arguments"

def popBlock : Exec ScopeBlock := do
  let block ← pop
  let table ← pop
  return ⟨table, block⟩

/-- Takes several references; the last pushed comes last. -/
def popRefs (taken : List Reference) : Nat → Exec (List Reference)
  | 0 => return taken
  | count + 1 => do popRefs ((← popRef) :: taken) count

/-- Drops several values. -/
def drop : Nat → Exec Unit
  | 0 => return
  | count + 1 => do
    let _ ← pop
    drop count

/-! ### Constants and registers -/

/-- A constant, of the kind that messages name. -/
def constant {α : Type} (kind : String) (find : Constants → UInt32 → Option α) (index : UInt32) :
    Exec α := do
  orFail (find (← get).program.constants index) (.invalidConstant kind index)

def stringConstant : UInt32 → Exec String := constant "string" fun c => c.strings.get?

def handleConstant : UInt32 → Exec UInt32 := constant "handle" fun c => c.handles.get?

def refererConstant : UInt32 → Exec String := constant "serializable" fun c => c.referers.get?

/-- A namespace; there is none at index zero. -/
def namespaceConstant (index : UInt32) : Exec (Option String) := do
  if index = 0 then return none else return some (← stringConstant index)

def register (word : UInt32) : Exec Register :=
  orFail (Register.ofNumber? word) (.invalidRegister word)

/-- The value of a register that holds one. -/
def savedValue (r : Register) : Exec Value := do
  orFail ((← get).registers.get? r) (.invalidRegister r.number)

/-! ### Scopes -/

/-- The number of the current scope. -/
def currentScope : Exec Nat := do
  match (← get).scopeStack with
  | number :: _ => return number
  | [] => fail (.scopeUnderflow "read scope")

/-- A slot of the current scope. -/
def slot (symbol : UInt32) : Exec Slot := do
  let number ← currentScope
  return ((← get).scopes.get number).get symbol

def bindSlot (symbol : UInt32) (slot : Slot) : Exec Unit := do
  let number ← currentScope
  modify fun m => { m with scopes := m.scopes.bind number symbol slot }

/-- Enters a scope that there is. -/
def enterScope (number : Nat) : Exec Unit :=
  modify fun m => { m with scopeStack := number :: m.scopeStack }

/-- Enters a new scope. -/
def enterNewScope (scope : Scope) : Exec Unit :=
  modify fun m =>
    let (number, scopes) := m.scopes.add scope
    { m with scopes, scopeStack := number :: m.scopeStack }

def leaveScope : Exec Unit := do
  match (← get).scopeStack with
  | _ :: rest => modify fun m => { m with scopeStack := rest }
  | [] => fail (.scopeUnderflow "pop scope")

def enterDynamicScope : Exec Unit :=
  modify fun m => { m with dynamicScopes := m.dynamicScopes.headD {} :: m.dynamicScopes }

def leaveDynamicScope : Exec Unit := do
  match (← get).dynamicScopes with
  | _ :: rest => modify fun m => { m with dynamicScopes := rest }
  | [] => fail (.scopeUnderflow "pop dynamic scope")

/-! ### Markup -/

def emit (write : Sink → Sink) : Exec Unit := modify fun m => { m with sink := write m.sink }

/-- An operation on the sink that needs an element. -/
def onElement (change : Sink → Sink.Result) : Exec Unit := fun _ m =>
  let sink := m.sink
  let m := { m with sink := {} }
  match change sink with
  | .ok sink => .ok () { m with sink }
  | .error operation => .error (.fault (.noOpenElement operation)) m

/-! ### Blocks -/

/-- The handle of a fragment, which is compiled if it has none. -/
def link (f : Fragment) : Exec UInt32 := fun setup m =>
  let program := m.program
  let m := { m with program := {} }
  match setup.options.compile f program with
  | .ok handle program => .ok handle { m with program }
  | .error (.fault e) program => .error (.fault (.compile e)) { m with program }
  | .error .outOfFuel program => .error .outOfFuel { m with program }

end Exec

end TemplateMachine
