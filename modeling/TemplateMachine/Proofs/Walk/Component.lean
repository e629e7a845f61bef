import TemplateMachine.Machine.Component
import TemplateMachine.Proofs.Walk.Compilable

/-! The values of expressions, and the invocation of components.  In the general form all arguments
are computed first, and a symbol of the layout gets the argument of its name.  Where the layout is
known, an invocation computes what the symbols of the layout stand for, one after the other. -/

namespace TemplateMachine.Walk

def callHelper (s : Scene) (handle : UInt32) (args : Arguments) : Walk Reference := do
  let helper ← orUndefined (s.host.helper? handle)
  record (.helper handle args)
  match helper (← get).events s.cells args with
  | .ok d => return .const d
  | .error message => fail (.helperFailed message)

/-- A component as a value, with arguments; null stays null. -/
def curry (s : Scene) (referer : String) (definition : Reference) (args : Arguments) :
    Walk Reference :=
  match definition.value s.cells with
  | .component definition inner => return .const (.component definition (inner.merge args))
  | .data (.str name) =>
    match s.host.componentNamed? name referer with
    | some definition => return .const (.component definition args)
    | none => fail (.unknownComponent name)
  | .data .null => return .null
  | other => fail (.notAComponent (other.content?.getD ""))

/-- Whether the block of a slot has parameters. -/
def hasBlockParams (s : Scene) (p : Site) (symbol : UInt32) : Walk Reference :=
  match p.slots symbol with
  | .block body _ =>
    if body.isCompilable s.lookup then return .ofJson (.bool !body.table.parameters.isEmpty)
    else fail .uncompilable
  | _ => return .ofJson (.bool false)

/-- Whether a slot holds a block. -/
def hasBlock (p : Site) (symbol : UInt32) : Reference :=
  match p.slots symbol with
  | .block _ _ => .ofJson (.bool true)
  | _ => .ofJson (.bool false)

mutual

/-- The value of an expression. -/
def expression (s : Scene) (p : Site) : Expression → Walk Reference
  | .value json =>
    match Primitive.ofJson json with
    | .ok primitive => return .ofJson primitive.toJson
    | .error _ => undefined
  | .undefined => return .null
  | .get head path => return path.foldl .property (p.slots.value head)
  | .unknown name =>
    match s.lookup.helper? name p.referer with
    | some handle => callHelper s handle {}
    | none => return .property (p.slots.value 0) name
  | .helper name params hash => do
    if name = "component" then
      match params with
      | some (definition :: rest) =>
        let definition ← expression s p definition
        let positional ← expressions s p rest
        let (names, named) ← namedValues s p hash
        curry s p.referer definition ⟨positional, names.map bareName, named⟩
      | _ => undefined
    else
      let handle ← orUndefined (s.lookup.helper? name p.referer)
      let positional ← params? s p params
      let (names, named) ← namedValues s p hash
      callHelper s handle ⟨positional, names.map bareName, named⟩
  | .concat parts => do return .concat .still (← expressions s p parts)
  | .hasBlock symbol => return hasBlock p symbol
  | .hasBlockParams symbol => hasBlockParams s p symbol

/-- The values of several expressions. -/
def expressions (s : Scene) (p : Site) : List Expression → Walk (List Reference)
  | [] => return []
  | e :: rest => do
    let value ← expression s p e
    return value :: (← expressions s p rest)

def params? (s : Scene) (p : Site) : Option (List Expression) → Walk (List Reference)
  | none => return []
  | some es => expressions s p es

/-- The names of arguments and their values. -/
def namedValues (s : Scene) (p : Site) :
    Option (HashOf Expression) → Walk (List String × List Reference)
  | none => return ([], [])
  | some ⟨names, values⟩ => do return (names, ← expressions s p values)

end

/-- Arguments of an invocation. -/
def args (s : Scene) (p : Site) (params : List Expression) (hash : Option Hash) :
    Walk Arguments := do
  let positional ← expressions s p params
  let (names, named) ← namedValues s p hash
  return ⟨positional, names.map bareName, named⟩

end TemplateMachine.Walk

namespace TemplateMachine

namespace SymbolRole

variable {symbol other : String}

theorem ofSymbol_argument (name : String) :
    ofSymbol ("@" ++ name) = .argument ("@" ++ name) name := by
  have hchars : ("@" ++ name).toList = '@' :: name.toList := by simp
  unfold ofSymbol
  rw [hchars]
  simp

/-- A symbol that stands for a block is called by its own name. -/
theorem eq_of_ofSymbol_block (h : ofSymbol symbol = .block other) : other = symbol := by
  unfold ofSymbol at h
  split at h <;> cases h
  rfl

theorem eq_of_ofSymbol_argument {bare : String} (h : ofSymbol symbol = .argument other bare) :
    symbol = "@" ++ bare := by
  unfold ofSymbol at h
  split at h
  · cases h
  · rename_i hchars
    cases h
    exact String.ext (by simp [hchars])
  · cases h

end SymbolRole

namespace Walk

/-- A component to be invoked. -/
def componentState (s : Scene) (handle : UInt32) (curried : Option Arguments) :
    Walk ComponentState :=
  match s.host.component? handle with
  | some d =>
    return { definition := handle, name := d.name, capabilities := d.capabilities,
             manager := d.manager, curried }
  | none => fail (.unknownComponent (Heap.handleName handle))

/-- The component that a value gives, by its name or with arguments. -/
def dynamicState (s : Scene) (referer : String) (definition : Reference) : Walk ComponentState :=
  match definition.value s.cells with
  | .component definition args => componentState s definition (some args)
  | .data (.str name) =>
    match s.host.componentNamed? name referer with
    | some handle => componentState s handle none
    | none => fail (.unknownComponent name)
  | other => fail (.notAComponent (other.content?.getD "null"))

/-! ### The life of an instance -/

def beginTransaction : Walk Unit := modify fun w => { w with transactions := [] :: w.transactions }

def commitTransaction : Walk Unit := modify fun w =>
  match w.transactions with
  | innermost :: rest => { w with transactions := rest, destructors := innermost ++ w.destructors }
  | [] => w

/-- The instance that an invocation asks for. -/
def asked (c : ComponentState) (given : Option Arguments) (i : Invocation) : Instance :=
  ⟨c.name, if c.capabilities.createArgs then given else none, i.block.isSome,
    i.inverse.isSome⟩

def create (s : Scene) (c : ComponentState) (asked : Instance) : Walk Current := do
  record (.create c.definition asked)
  match (c.manager (← get).events).create s.cells asked with
  | .ok inst => return ⟨c.definition, c.manager, inst⟩
  | .error message => fail (.managerFailed message)

/-- The instance is to be destroyed when the transaction is undone, or in the end. -/
def registerDestructor (c : Current) : Walk Unit := modify fun w =>
  let w := { w with events := w.events.push (.hasDestructor c.definition c.inst) }
  match (c.manager w.events).hasDestructor c.inst, w.transactions with
  | true, innermost :: rest =>
    { w with transactions := (⟨c.definition, c.inst⟩ :: innermost) :: rest }
  | _, _ => w

def selfReference (s : Scene) (c : Current) : Walk Reference := do
  record (.selfReference c.definition c.inst)
  return (c.manager (← get).events).selfReference s.cells c.inst

/-- A layout that is about to be rendered below an instance. -/
structure Entry where
  layout : Fragment
  slots : Slots
  current : Current

/-- Enters a layout, if it can be compiled. -/
def enterLayout (s : Scene) (layout : Fragment) (slots : Slots) (c : Current) : Walk Entry :=
  if layout.isCompilable s.lookup then return ⟨layout, slots, c⟩ else fail .uncompilable

/-- Renders a layout below an instance, whose transaction ends with it. -/
def renderLayout (call : Call) (e : Entry) : Walk Unit := do
  call e.layout.body e.slots (some e.current)
  record (.layoutRendered e.current.definition e.current.inst)
  commitTransaction

/-! ### The general form -/

/-- A block that is passed on. -/
def passed (p : Site) : Option Fragment → Binding
  | some f => .block f p.slots
  | none => .empty

/-- What a symbol of a layout is bound to, if anything. -/
def binding? (p : Site) (i : Invocation) (args : Arguments) (symbol : String) : Option Binding :=
  if symbol = blockSymbols.main then some (passed p i.block)
  else if symbol = blockSymbols.inverse then some (passed p i.inverse)
  else if symbol = blockSymbols.attrs then some (passed p i.attrs)
  else
    match SymbolRole.ofSymbol symbol with
    | .argument _ bare => (args.named? bare).map .value
    | _ => none

/-- The bindings of the symbols from a slot on. -/
def bindings (p : Site) (i : Invocation) (args : Arguments) :
    UInt32 → List String → List (UInt32 × Binding)
  | _, [] => []
  | slot, symbol :: rest =>
    match binding? p i args symbol with
    | some b => (slot, b) :: bindings p i args (slot + 1) rest
    | none => bindings p i args (slot + 1) rest

/-- The slots of a layout that is invoked with arguments. -/
def layoutSlots (p : Site) (i : Invocation) (self : Reference) (args : Arguments)
    (symbols : List String) : Slots :=
  Slots.empty.bindAll ((0, .value self) :: bindings p i args 1 symbols)

/-- The arguments of an invocation, after those that the component came with. -/
def merged (c : ComponentState) (given : Arguments) : Arguments :=
  match c.curried with
  | some curried => curried.merge given
  | none => given

/-- Creates an instance in a transaction of its own. -/
def createInstance (s : Scene) (c : ComponentState) (asked : Instance) : Walk Current := do
  beginTransaction
  create s c asked

/-- Creates an instance and finds what it is to be known by. -/
def instantiate (s : Scene) (c : ComponentState) (asked : Instance) :
    Walk (Current × Reference) := do
  let current ← createInstance s c asked
  registerDestructor current
  let self ← selfReference s current
  return (current, self)

/-- Enters the layout of a component, which is looked up unless it is given. -/
def genericEntry (s : Scene) (p : Site) (c : ComponentState) (i : Invocation)
    (layout : Option Fragment) : Walk Entry := do
  let given := merged c (← args s p i.params i.hash)
  let (current, self) ← instantiate s c (asked c (some given) i)
  match layout.or (s.lookup.layout? c.definition) with
  | none => fail (.unknownComponent c.name)
  | some layout =>
    let table ← orUndefined layout.table.asProgram?
    enterLayout s layout (layoutSlots p i self given table.symbols) current

def genericComponent (s : Scene) (p : Site) (call : Call) (c : ComponentState) (i : Invocation)
    (layout : Option Fragment) : Walk Unit := do
  renderLayout call (← genericEntry s p c i layout)

/-! ### The form for a known layout -/

/-- What a symbol is bound to, if the invocation passes anything for it. -/
def symbolBinding (s : Scene) (p : Site) (i : Invocation) (symbol : String) :
    Walk (Option Binding) := do
  match SymbolRole.ofSymbol symbol with
  | .block symbol => return some (passed p (← orUndefined (i.blockOf? symbol)))
  | .argument symbol bare =>
    match i.hash.bind fun hash => hash.get? (if i.synthetic then bare else symbol) with
    | some value => return some (.value (← expression s p value))
    | none => return none
  | .inner => return none

/-- The bindings of the symbols from a slot on, the last first, before others. -/
def symbolBindings (s : Scene) (p : Site) (i : Invocation) (bound : List (UInt32 × Binding)) :
    UInt32 → List String → Walk (List (UInt32 × Binding))
  | _, [] => return bound
  | slot, symbol :: rest => do
    match ← symbolBinding s p i symbol with
    | some b => symbolBindings s p i ((slot, b) :: bound) (slot + 1) rest
    | none => symbolBindings s p i bound (slot + 1) rest

/-- Arguments that are only computed if they are asked for. -/
def argsIf (s : Scene) (p : Site) (needed : Bool) (i : Invocation) : Walk (Option Arguments) :=
  if needed then do return some (← args s p i.params i.hash) else return none

/-- Enters a layout whose symbols are bound one after the other. -/
def boundEntry (s : Scene) (p : Site) (createArgs : Bool) (layout : Fragment) (table : ProgramTable)
    (c : ComponentState) (i : Invocation) : Walk Entry := do
  let given ← argsIf s p createArgs i
  let (current, self) ← instantiate s c (asked c given i)
  let bound ← symbolBindings s p i [(0, .value self)] 1 table.symbols
  enterLayout s layout (Slots.empty.bindAll bound) current

/-- Invokes a component whose layout is known. -/
def staticComponent (s : Scene) (p : Site) (call : Call) (capabilities : Capabilities)
    (layout : Fragment) (c : ComponentState) (i : Invocation) : Walk Unit := do
  let table ← orUndefined layout.table.asProgram?
  if table.hasEval || capabilities.prepareArgs then
    genericComponent s p call c i (some layout)
  else
    renderLayout call (← boundEntry s p capabilities.createArgs layout table c i)

/-- Invokes the component of a handle. -/
def component (s : Scene) (p : Site) (call : Call) (handle : UInt32) (i : Invocation) :
    Walk Unit := do
  let capabilities := s.lookup.capabilities handle
  let c ← componentState s handle none
  match if capabilities.dynamicLayout then none else s.lookup.layout? handle with
  | some layout => staticComponent s p call capabilities layout c i
  | none => genericComponent s p call c i none

/-- Invokes the component that a value gives. -/
def dynamicComponent (s : Scene) (p : Site) (call : Call) (definition : Reference)
    (i : Invocation) : Walk Unit := do
  let c ← dynamicState s p.referer definition
  genericComponent s p call c i none

end Walk

end TemplateMachine
