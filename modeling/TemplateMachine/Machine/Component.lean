import TemplateMachine.Machine.Control

/-! The invocation of components: how the definition is found, an instance is created and
destroyed, and the layout is called. -/

namespace TemplateMachine.Exec

/-- The number of the component in a register. -/
def componentNumber (word : UInt32) : Exec Nat := do
  match ← savedValue (← register word) with
  | .component number => return number
  | _ => mismatch "component"

/-- The state of a component, which its number is known to have. -/
def componentState (number : Nat) : Exec ComponentState := do
  match (← get).components[number]? with
  | some c => return c
  | none => mismatch "component"

/-- The component in a register. -/
def component (word : UInt32) : Exec ComponentState := do componentState (← componentNumber word)

def setComponent (number : Nat) (c : ComponentState) : Exec Unit :=
  modify fun m => { m with components := m.components.set! number c }

/-- Pushes a component to be invoked. -/
def pushComponent (handle : UInt32) (curried : Option Arguments) : Exec Unit := do
  let definition ← orFail ((← read).host.component? handle)
    (.unknownComponent (Heap.handleName handle))
  modify fun m =>
    { m with
      components := m.components.push
        { definition := handle, name := definition.name, capabilities := definition.capabilities,
          manager := definition.manager, curried },
      stack := m.stack.push (.component m.components.size) }

/-- The handle of the component of a name. -/
def componentNamed (name referer : String) : Exec UInt32 := do
  orFail ((← read).host.componentNamed? name referer) (.unknownComponent name)

/-- Pushes the component that the datum on the stack gives, by its name or with arguments. -/
def pushDynamicComponent (referer : UInt32) : Exec Unit := do
  let referer ← refererConstant referer
  match ← popDatum with
  | .component definition args => pushComponent definition (some args)
  | .data (.str name) => pushComponent (← componentNamed name referer) none
  | other => fail (.notAComponent (other.content?.getD "null"))

/-- Pushes the component that a datum gives as a datum with arguments; null stays null. -/
def curry (referer : UInt32) : Exec Unit := do
  let referer ← refererConstant referer
  let args ← popArgs
  match ← popDatum with
  | .component definition inner => pushRef (.const (.component definition (inner.merge args)))
  | .data (.str name) =>
    pushRef (.const (.component (← componentNamed name referer) args))
  | .data .null => pushRef .null
  | other => fail (.notAComponent (other.content?.getD ""))

/-- Adds the arguments that the component came with to those on the stack. -/
def prepareArgs (word : UInt32) : Exec Unit := do
  let number ← componentNumber word
  let c ← componentState number
  match c.curried with
  | some curried =>
    setComponent number { c with curried := none }
    let args ← popArgs
    push (.args (curried.merge args))
  | none => return

/-- Creates the instance of the component in a register. -/
def create (flags word : UInt32) : Exec Unit := do
  let number ← componentNumber word
  let c ← componentState number
  let m ← get
  let args := match c.capabilities.createArgs, m.stack.back? with
    | true, some (.args a) => some a
    | _, _ => none
  let asked : Instance := ⟨c.name, args, flags.toNat.testBit 0, flags.toNat.testBit 1⟩
  record (.create c.definition asked)
  match (c.manager (← get).events).create m.cells asked with
  | .ok inst => setComponent number { c with created := some inst }
  | .error message => fail (.managerFailed message)

/-- The instance of a component, which must have been created. -/
def createdInstance (c : ComponentState) : Exec Instance :=
  orFail c.created (.managerFailed (c.name ++ " was never created"))

/-- The instance is to be destroyed when the transaction is undone, or in the end. -/
def registerDestructor (d : Destructor) : Exec Unit := do
  match (← get).transactions with
  | innermost :: rest => modify fun m => { m with transactions := (d :: innermost) :: rest }
  | [] => fail .noTransaction

def registerComponentDestructor (word : UInt32) : Exec Unit := do
  let c ← component word
  match c.created with
  | some inst =>
    record (.hasDestructor c.definition inst)
    if (c.manager (← get).events).hasDestructor inst then
      registerDestructor ⟨c.definition, inst⟩
  | none => return

def beginTransaction : Exec Unit := modify fun m => { m with transactions := [] :: m.transactions }

def commitTransaction : Exec Unit := do
  match (← get).transactions with
  | innermost :: rest =>
    modify fun m => { m with transactions := rest, destructors := innermost ++ m.destructors }
  | [] => fail .noTransaction

def pushSelf (word : UInt32) : Exec Unit := do
  let c ← component word
  let inst ← createdInstance c
  record (.selfReference c.definition inst)
  let m ← get
  pushRef ((c.manager m.events).selfReference m.cells inst)

/-- Pushes the symbols and the handle of a component's layout. -/
def pushLayout (word : UInt32) : Exec Unit := do
  let c ← component word
  let layout ← orFail ((← read).options.lookup.layout? c.definition) (.unknownComponent c.name)
  let handle ← link layout
  push (.table layout.table)
  push (.handle handle)

/-- The arguments and blocks that a layout is called with. -/
structure LayoutCall where
  self : Reference
  args : Arguments
  main : ScopeBlock
  inverse : ScopeBlock
  attrs : ScopeBlock

/-- What a symbol of a layout is bound to, if anything. -/
def LayoutCall.slot? (c : LayoutCall) (symbol : String) : Option Slot :=
  if symbol = blockSymbols.main then some (.block c.main)
  else if symbol = blockSymbols.inverse then some (.block c.inverse)
  else if symbol = blockSymbols.attrs then some (.block c.attrs)
  else
    match SymbolRole.ofSymbol symbol with
    | .argument _ bare => (c.args.named? bare).map .value
    | _ => none

/-- The scope of a layout: `self`, and the symbols from a slot on. -/
def LayoutCall.bind (c : LayoutCall) (scope : Scope) (slot : UInt32) : List String → Scope
  | [] => scope
  | symbol :: rest =>
    match c.slot? symbol with
    | some value => c.bind (scope.bind slot value) (slot + 1) rest
    | none => c.bind scope (slot + 1) rest

/-- Calls the layout on the stack in a scope of its own. -/
def invokeLayout : Exec Unit := do
  let some handle := (← pop).toHandle? | mismatch "layout handle"
  let .table table ← pop | mismatch "symbol table"
  let self ← popRef
  let args ← popArgs
  let attrs ← popBlock
  let inverse ← popBlock
  let main ← popBlock
  let some program := table.asProgram? | mismatch "layout symbol table"
  let caller := (← get).scopeStack.head?
  let scope := Scope.root (program.symbols.length + 1) caller
  let call : LayoutCall := { self, args, main, inverse, attrs }
  pushFrame
  enterNewScope (call.bind (scope.bind 0 (.value self)) 1 program.symbols)
  Exec.call handle

/-- Tells the component in a register about the pending element, if it is created. -/
def elementCreated (word : UInt32) : Exec Unit := do
  match ← savedValue (← register word) with
  | .component number =>
    let c ← componentState number
    match c.created with
    | some inst =>
      record (.elementCreated c.definition inst (← get).sink.hasPending)
      emit ((c.manager (← get).events).elementCreated inst)
    | none => return
  | _ => return

def layoutRendered (word : UInt32) : Exec Unit := do
  let c ← component word
  let inst ← createdInstance c
  record (.layoutRendered c.definition inst)

end TemplateMachine.Exec
