import TemplateMachine.Machine.Component

/-! The execution of instructions. -/

namespace TemplateMachine.Exec

/-! ### Values -/

def callHelper (index : UInt32) : Exec Unit := do
  let handle ← handleConstant index
  let helper ← orFail ((← read).host.helper? handle) (.unknownHelper handle)
  let args ← popArgs
  record (.helper handle args)
  let m ← get
  match helper m.events m.cells args with
  | .ok d => pushRef (.const d)
  | .error message => fail (.helperFailed message)

/-- Pushes the value of a slot; blocks and empty slots are null. -/
def getVariable (symbol : UInt32) : Exec Unit := do
  match ← slot symbol with
  | .value r => pushRef r
  | _ => pushRef .null

/-- Pushes the block in a slot, or two nulls. -/
def getBlock (symbol : UInt32) : Exec Unit := do
  let b := match ← slot symbol with
    | .block b => b
    | _ => .absent
  push b.table
  push b.block

def pushBool (b : Bool) : Exec Unit := pushRef (.ofJson (.bool b))

def hasBlock (symbol : UInt32) : Exec Unit := do
  match ← slot symbol with
  | .block b => pushBool b.isPresent
  | _ => pushBool false

def hasBlockParams : Exec Unit := do
  let b ← popBlock
  match b.table with
  | .table t => pushBool (b.isPresent && !t.parameters.isEmpty)
  | _ => pushBool false

/-- The reference to a primitive; what is undefined is null. -/
def primitiveReference : Exec Unit := do
  match ← pop with
  | .primitive p => pushRef (.ofJson p.toJson)
  | _ => mismatch "primitive"

/-- Pushes the value at a depth below the top of the stack, or below the frame. -/
def dup (word depth : UInt32) : Exec Unit := do
  let m ← get
  let base? ← match ← register word with
    | .sp => pure (if m.stack.size = 0 then none else some (m.stack.size - 1))
    | .fp => pure (some m.fp)
    | other => fail (.invalidRegister other.number)
  let value? := base?.bind fun base =>
    if depth.toNat ≤ base then m.stack[base - depth.toNat]? else none
  match value? with
  | some v => push v
  | none => underflow

def load (word : UInt32) : Exec Unit := do
  let v ← pop
  let r ← register word
  let _ ← savedValue r
  modify fun m => { m with registers := m.registers.set r v }

def fetch (word : UInt32) : Exec Unit := do
  let m ← get
  match ← register word with
  | .pc => push (.address m.pc)
  | .ra => push (.address m.ra)
  | .fp => push (.address m.fp)
  | .sp => push (.address (m.stack.size - 1))
  | r => push (← savedValue r)

/-! ### Markup -/

def dynamicContent (trusting : Bool) : Exec Unit := do
  match (← popDatum).content? with
  | some content => emit fun s => if trusting then s.append content else s.appendText content
  | none => return

/-- The text of an attribute; null and false remove it. -/
def attributeText? : Datum → Option String
  | .data (.bool false) => none
  | d => d.content?

/-- Sets an attribute of the pending element to the value on the stack. -/
def setAttribute (set : Sink → String → Option String → Option String → Sink.Result)
    (name space : UInt32) : Exec Unit := do
  let name ← stringConstant name
  let space ← namespaceConstant space
  let value := attributeText? (← popDatum)
  onElement fun s => set s name value space

def staticAttribute (name value space : UInt32) : Exec Unit := do
  let name ← stringConstant name
  let value ← stringConstant value
  let space ← namespaceConstant space
  onElement fun s => s.setAttribute name value space

def setAttributes : List (String × String) → Exec Unit
  | [] => return
  | (name, value) :: rest => do
    onElement fun s => s.setAttribute name value none
    setAttributes rest

def applyModifier (index : UInt32) : Exec Unit := do
  let handle ← handleConstant index
  let change ← orFail ((← read).host.modifier? handle) (.unknownModifier handle)
  let args ← popArgs
  record (.modifier handle args)
  let m ← get
  match change m.events m.cells args with
  | .ok attributes => setAttributes attributes
  | .error message => fail (.helperFailed message)

/-! ### Instructions -/

/-- The effect of an instruction that stands at an address. -/
def perform (start : Nat) : Instruction → Exec Unit
  | ⟨.helper, a, _, _⟩ => callHelper a
  | ⟨.setVariable, a, _, _⟩ => do bindSlot a (.value (← popRef))
  | ⟨.setBlock, a, _, _⟩ => do bindSlot a (.block (← popBlock))
  | ⟨.getVariable, a, _, _⟩ => getVariable a
  | ⟨.getProperty, a, _, _⟩ => do
    let key ← stringConstant a
    pushRef (.property (← popRef) key)
  | ⟨.getBlock, a, _, _⟩ => getBlock a
  | ⟨.hasBlock, a, _, _⟩ => hasBlock a
  | ⟨.hasBlockParams, _, _, _⟩ => hasBlockParams
  | ⟨.concat, a, _, _⟩ => do pushRef (.concat .still (← popRefs [] a.toNat))
  | ⟨.constant, a, _, _⟩ => do push (.fragment (← constant "other" (fun c => c.fragments.get?) a))
  | ⟨.primitive, a, _, _⟩ => do
    push (.primitive (← constant "primitive" (fun c w => Primitive.decode? w c) a))
  | ⟨.primitiveReference, _, _, _⟩ => primitiveReference
  | ⟨.dup, a, b, _⟩ => dup a b
  | ⟨.pop, a, _, _⟩ => drop a.toNat
  | ⟨.load, a, _, _⟩ => load a
  | ⟨.fetch, a, _, _⟩ => fetch a
  | ⟨.toBoolean, _, _, _⟩ => do pushRef (.truth (← popRef))
  | ⟨.rootScope, a, b, _⟩ => enterRootScope a.toNat (b != 0)
  | ⟨.childScope, _, _, _⟩ => enterChildScope
  | ⟨.popScope, _, _, _⟩ => leaveScope
  | ⟨.pushDynamicScope, _, _, _⟩ => enterDynamicScope
  | ⟨.popDynamicScope, _, _, _⟩ => leaveDynamicScope
  | ⟨.pushFrame, _, _, _⟩ => pushFrame
  | ⟨.popFrame, _, _, _⟩ => popFrame
  | ⟨.jump, a, _, _⟩ => jump start a
  | ⟨.jumpIf, a, _, _⟩ => jumpWhen true start a
  | ⟨.jumpUnless, a, _, _⟩ => jumpWhen false start a
  | ⟨.returnTo, a, _, _⟩ => returnTo start a
  | ⟨.ret, _, _, _⟩ => modify fun m => { m with pc := m.ra }
  | ⟨.invokeVirtual, _, _, _⟩ => invokeVirtual
  | ⟨.invokeStatic, a, _, _⟩ => call a
  | ⟨.invokeYield, _, _, _⟩ => invokeYield
  | ⟨.enter, _, _, _⟩ => enterBlock
  | ⟨.exit, _, _, _⟩ => exitBlock
  | ⟨.compileBlock, _, _, _⟩ => compileBlock
  | ⟨.pushSymbolTable, a, _, _⟩ => do push (.table (← constant "table" (fun c => c.tables.get?) a))
  | ⟨.pushArgs, a, b, _⟩ => gatherArgs a b
  | ⟨.text, a, _, _⟩ => do
    let s ← stringConstant a
    emit fun sink => sink.appendText s
  | ⟨.comment, a, _, _⟩ => do
    let s ← stringConstant a
    emit fun sink => sink.appendComment s
  | ⟨.dynamicContent, a, _, _⟩ => dynamicContent (a != 0)
  | ⟨.openElement, a, _, _⟩ => do
    let tag ← stringConstant a
    emit fun sink => sink.openElement tag
  | ⟨.flushElement, _, _, _⟩ => onElement Sink.flushElement
  | ⟨.closeElement, _, _, _⟩ => onElement Sink.closeElement
  | ⟨.staticAttr, a, b, c⟩ => staticAttribute a b c
  | ⟨.dynamicAttr, a, _, c⟩ => setAttribute Sink.setAttribute a c
  | ⟨.componentAttr, a, _, c⟩ => setAttribute Sink.setComponentAttribute a c
  | ⟨.modifier, a, _, _⟩ => applyModifier a
  | ⟨.putIterator, _, _, _⟩ => putIterator
  | ⟨.enterList, a, _, _⟩ => enterList start a
  | ⟨.exitList, _, _, _⟩ => exitList
  | ⟨.iterate, a, _, _⟩ => iterate start a
  | ⟨.isComponent, _, _, _⟩ => do pushRef (.isComponent (← popRef))
  | ⟨.curryComponent, a, _, _⟩ => curry a
  | ⟨.pushComponentSpec, a, _, _⟩ => do pushComponent (← handleConstant a) none
  | ⟨.pushDynamicComponentManager, a, _, _⟩ => pushDynamicComponent a
  | ⟨.prepareArgs, a, _, _⟩ => prepareArgs a
  | ⟨.createComponent, a, b, _⟩ => create a b
  | ⟨.registerComponentDestructor, a, _, _⟩ => registerComponentDestructor a
  | ⟨.beginComponentTransaction, _, _, _⟩ => beginTransaction
  | ⟨.commitComponentTransaction, _, _, _⟩ => commitTransaction
  | ⟨.getComponentSelf, a, _, _⟩ => pushSelf a
  | ⟨.getComponentLayout, a, _, _⟩ => pushLayout a
  | ⟨.invokeComponentLayout, _, _, _⟩ => invokeLayout
  | ⟨.didCreateElement, a, _, _⟩ => elementCreated a
  | ⟨.didRenderLayout, a, _, _⟩ => layoutRendered a

/-- A word of the heap. -/
def word (address : Nat) : Exec UInt32 := do
  orFail ((← get).program.heap.word? address) (.pcOutOfBounds address)

/-- The instruction at an address. -/
def instruction (address : Nat) : Exec Instruction := do
  let number ← word address
  let op ← orFail (Opcode.ofNumber? number) (.unknownOpcode address number)
  return ⟨op, ← word (address + 1), ← word (address + 2), ← word (address + 3)⟩

/-- Fails if the stack is too deep. -/
def checkStack : Exec Unit := do
  let depth := (← get).stack.size
  let max := (← read).maxStack
  if max < depth then fail (.stackOverflow depth max)

/-- Executes the next instruction; tells whether the machine goes on. -/
def step : Exec Bool := do
  let start := (← get).pc
  let i ← instruction start
  modify fun m => { m with pc := start + instructionWidth, current := (start, i.op) }
  perform start i
  if i.op = .ret ∧ (← get).pc = haltAddress then
    return false
  else
    checkStack
    return true

/-- Executes instructions until the machine stops, no more than the fuel allows. -/
def run : Nat → Exec Unit
  | 0 => throw .outOfFuel
  | fuel + 1 => do
    if ← step then run fuel

end TemplateMachine.Exec
