import TemplateMachine.Machine.State

/-! Frames, jumps and calls.  A frame saves the address to return to and the frame around it, and
cuts the stack back to where it began when it is left. -/

namespace TemplateMachine.Exec

def pushFrame : Exec Unit :=
  modify fun m =>
    { m with
      stack := (m.stack.push (.address m.ra)).push (.address m.fp), fp := m.stack.size }

def popFrame : Exec Unit := do
  let m ← get
  match m.stack[m.fp]?, m.stack[m.fp + 1]? with
  | some (.address ra), some (.address fp) =>
    modify fun m => { m with stack := m.stack.shrink m.fp, ra, fp }
  | _, _ => mismatch "frame"

/-- The address at a distance from an instruction, if it is in the heap. -/
def target (start : Nat) (operand : UInt32) : Exec Nat := do
  let offset := relativeOffset operand
  let address := (start : Int) + offset
  if 0 ≤ address ∧ address < (← get).program.heap.words.size then
    return address.toNat
  else
    fail (.invalidTarget start offset)

def jump (start : Nat) (operand : UInt32) : Exec Unit := do
  let address ← target start operand
  modify fun m => { m with pc := address }

/-- Jumps if the datum on the stack is as true as it should be. -/
def jumpWhen (expected : Bool) (start : Nat) (operand : UInt32) : Exec Unit := do
  if (← popDatum).isTruthy = expected then jump start operand

def returnTo (start : Nat) (operand : UInt32) : Exec Unit := do
  let address ← target start operand
  modify fun m => { m with ra := address }

/-- Continues in a block, to return to the next instruction. -/
def call (handle : UInt32) : Exec Unit := do
  let address ← orFail ((← get).program.heap.address? handle) (.invalidHandle handle)
  modify fun m => { m with ra := m.pc, pc := address }

def invokeVirtual : Exec Unit := do
  match (← pop).toHandle? with
  | some handle => call handle
  | none => mismatch "block handle"

def enterBlock : Exec Unit := modify fun m => { m with blockDepth := m.blockDepth + 1 }

def exitBlock : Exec Unit := do
  if (← get).blockDepth = 0 then
    fail (.scopeUnderflow "exit block")
  else
    modify fun m => { m with blockDepth := m.blockDepth - 1 }

/-- Links the block on the stack; a handle or null stays. -/
def compileBlock : Exec Unit := do
  match ← pop with
  | .fragment f => push (.handle (← link f))
  | v => if v.isNull || v.toHandle?.isSome then push v else mismatch "template"

/-- Binds parameters to values in order; those left over are null. -/
def bindParameters (scope : Scope) : List UInt32 → List Reference → Scope
  | [], _ => scope
  | symbol :: rest, [] => bindParameters (scope.bind symbol (.value .null)) rest []
  | symbol :: rest, value :: values =>
    bindParameters (scope.bind symbol (.value value)) rest values

/-- Enters the scope that a block was written in, with arguments for its parameters. -/
def enterCallerScope (parameters : List UInt32) (args : Arguments) : Exec Unit := do
  let current ← currentScope
  let scopes := (← get).scopes
  let caller ← orFail (scopes.get current).caller .noCallerScope
  if parameters.isEmpty then
    pushFrame
    enterScope caller
  else
    pushFrame
    enterNewScope (bindParameters (scopes.get caller) parameters args.positional)

/-- Calls a block in the scope it was written in.  Without a block there is only the frame and the
scope that the next instructions leave. -/
def invokeYield : Exec Unit := do
  let block ← pop
  let table ← pop
  let args ← popArgs
  let current ← currentScope
  match block.toHandle?, table with
  | some handle, .table t =>
    enterCallerScope t.parameters args
    call handle
  | _, _ =>
    pushFrame
    enterScope current

/-- Enters a scope of empty slots. -/
def enterRootScope (size : Nat) (bindCaller : Bool) : Exec Unit := do
  let current := (← get).scopeStack.head?
  enterNewScope (.root size (if bindCaller then current else none))

/-- Enters a copy of the current scope. -/
def enterChildScope : Exec Unit := do
  let current ← currentScope
  let scope := (← get).scopes.get current
  enterNewScope scope

/-- Gathers arguments: the positional values lie below the named ones. -/
def gatherArgs (names flags : UInt32) : Exec Unit := do
  let names ← constant "string array" Constants.getStringArray? names
  let named ← popRefs [] names.length
  let positional ← popRefs [] (flags >>> 4).toNat
  let bare (name : String) := match name.toList with
    | '@' :: rest => String.ofList rest
    | _ => name
  push (.args ⟨positional, names.map bare, named⟩)

/-! ### Lists -/

/-- The number of the iterator on the stack, which stays. -/
def iterator : Exec Nat := do
  match (← get).stack.back? with
  | some (.iterator number) => return number
  | some _ => mismatch "iterator"
  | none => underflow

/-- Pushes an iterator over the items of a list, and whether there are any. -/
def putIterator : Exec Unit := do
  let list ← popRef
  let key := IterationKey.ofDatum (← popDatum)
  modify fun m =>
    { m with
      iterators := m.iterators.push (Iteration.items ⟨list, key⟩ m.cells),
      stack := (m.stack.push (.iterator m.iterators.size)).push (.ref (.presence list)) }

def enterList (start : Nat) (operand : UInt32) : Exec Unit := do
  let _ ← iterator
  let _ ← target start operand
  modify fun m => { m with listMarks := m.stack.size :: m.listMarks }

def exitList : Exec Unit := do
  let m ← get
  let actual := m.stack.size
  match m.listMarks with
  | [] => fail (.unbalancedList 0 actual)
  | expected :: rest =>
    if actual = expected then
      modify fun m => { m with listMarks := rest }
    else
      fail (.unbalancedList expected actual)

/-- Pushes the next item and enters a block, or jumps if there are no more items. -/
def iterate (start : Nat) (operand : UInt32) : Exec Unit := do
  let number ← iterator
  match (← get).iterators.getD number [] with
  | item :: rest =>
    modify fun m => { m with iterators := m.iterators.set! number rest }
    pushRef item.value
    pushRef item.memo
    enterBlock
  | [] => jump start operand

end TemplateMachine.Exec
