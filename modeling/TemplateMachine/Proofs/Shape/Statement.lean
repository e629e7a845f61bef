import TemplateMachine.Proofs.Shape.Expression

/-! The shape of the code that invokes components, of the frames that are left through their end, of
statements, and of whole fragments. -/

namespace TemplateMachine

/-- The invocation with the bodies of its fragments. -/
def Invocation.bodies (i : Invocation) : Invocation :=
  { i with
    attrs := i.attrs.map Fragment.body, block := i.block.map Fragment.body,
    inverse := i.inverse.map Fragment.body }

namespace Coding

/-! ### Frames -/

/-- Leaves the instructions of a frame. -/
def exitFrame : List Instruction := [⟨.exit, 0, 0, 0⟩, ⟨.ret, 0, 0, 0⟩]

/-- A frame that is left through its end. -/
def frame (body : List Instruction) : List Instruction :=
  ⟨.pushFrame, 0, 0, 0⟩ :: .skip .returnTo body :: body ++ [⟨.popFrame, 0, 0, 0⟩]

/-! ### Invocations -/

/-- Saves the component of the enclosing invocation below the new one. -/
def enterComponent : List Instruction :=
  [⟨.fetch, Emit.current, 0, 0⟩, ⟨.dup, Register.sp.number, 1, 0⟩, ⟨.load, Emit.current, 0, 0⟩]

/-- Begins the life of an instance. -/
def createComponent (i : Invocation) : List Instruction :=
  [⟨.beginComponentTransaction, 0, 0, 0⟩, ⟨.pushDynamicScope, 0, 0, 0⟩,
    ⟨.createComponent, i.blockFlags, Emit.current, 0⟩]

/-- Asks the instance what it is to be known by. -/
def registerComponent : List Instruction :=
  [⟨.registerComponentDestructor, Emit.current, 0, 0⟩, ⟨.getComponentSelf, Emit.current, 0, 0⟩]

/-- Leaves an invocation whose layout is done. -/
def leaveComponent : List Instruction :=
  [⟨.didRenderLayout, Emit.current, 0, 0⟩, ⟨.popFrame, 0, 0, 0⟩, ⟨.popScope, 0, 0, 0⟩,
    ⟨.popDynamicScope, 0, 0, 0⟩, ⟨.commitComponentTransaction, 0, 0, 0⟩,
    ⟨.load, Emit.current, 0, 0⟩]

/-- Pushes the symbols and the handle of a layout. -/
def layoutCode (k : Coding) (layout : Option Fragment) (code : List Instruction) : Prop :=
  match layout with
  | some f =>
    ∃ table push, k.symbolTable (some f.table) table ∧ k.block (some f) push ∧
      code = table ++ push ++ k.resolve
  | none => code = [⟨.getComponentLayout, Emit.current, 0, 0⟩]

/-- Pushes the blocks of an invocation and its arguments. -/
def passes (k : Coding) (i : Invocation) (code : List Instruction) : Prop :=
  ∃ main inverse attrs given, k.yieldable i.block main ∧ k.yieldable i.inverse inverse ∧
    k.yieldable i.attrs attrs ∧ k.args i.params i.hash given ∧
    code = main ++ inverse ++ attrs ++ given

/-- Invokes the component on the stack. -/
def genericComponent (k : Coding) (i : Invocation) (layout : Option Fragment)
    (code : List Instruction) : Prop :=
  ∃ passed found, k.passes i passed ∧ k.layoutCode layout found ∧
    code = enterComponent ++ passed ++ ⟨.prepareArgs, Emit.current, 0, 0⟩ :: createComponent i ++
      registerComponent ++ found ++ ⟨.invokeComponentLayout, Emit.current, 0, 0⟩ :: leaveComponent

/-- Pushes what a symbol is bound to, for an operation that binds it. -/
def symbolCode (k : Coding) (i : Invocation) (symbol : String) (code : List Instruction)
    (binder : Option Opcode) : Prop :=
  match SymbolRole.ofSymbol symbol with
  | .block symbol =>
    ∃ f, i.blockOf? symbol = some f ∧ k.yieldable f code ∧ binder = some .setBlock
  | .argument symbol bare =>
    match i.hash.bind fun hash => hash.get? (if i.synthetic then bare else symbol) with
    | some value => k.expression value code ∧ binder = some .setVariable
    | none => code = [] ∧ binder = none
  | .inner => code = [] ∧ binder = none

/-- Pushes what the symbols from a slot on are bound to, for operations that bind them, the last
pushed first. -/
def symbolsCode (k : Coding) (i : Invocation) (bound : List (UInt32 × Opcode)) :
    UInt32 → List String → List Instruction → List (UInt32 × Opcode) → Prop
  | _, [], code, binders => code = [] ∧ binders = bound
  | slot, symbol :: rest, code, binders =>
    ∃ first more binder, k.symbolCode i symbol first binder ∧ code = first ++ more ∧
      match binder with
      | some op => symbolsCode k i ((slot, op) :: bound) (slot + 1) rest more binders
      | none => symbolsCode k i bound (slot + 1) rest more binders

/-- Binds slots to values on the stack. -/
def bindSymbols (binders : List (UInt32 × Opcode)) : List Instruction :=
  binders.map fun (slot, op) => ⟨op, slot, 0, 0⟩

/-- Creates an instance, from arguments if it asks for them. -/
def creates (k : Coding) (createArgs : Bool) (i : Invocation) (code : List Instruction) : Prop :=
  if createArgs then
    ∃ given, k.args i.params i.hash given ∧
      code = ⟨.pushFrame, 0, 0, 0⟩ :: given ++ createComponent i ++ [⟨.popFrame, 0, 0, 0⟩]
  else code = createComponent i

/-- Invokes the component on the stack with a layout whose symbols are bound by code. -/
def boundComponent (k : Coding) (createArgs : Bool) (layout : Fragment) (table : ProgramTable)
    (i : Invocation) (code : List Instruction) : Prop :=
  ∃ created pushed binders called, k.creates createArgs i created ∧
    k.symbolsCode i [(0, .setVariable)] 1 table.symbols pushed binders ∧
    k.staticCall layout called ∧
    code = enterComponent ++ created ++ registerComponent ++ pushed ++
      ⟨.rootScope, UInt32.ofNat table.symbols.length + 1, i.hasBlocks.toUInt32, 0⟩ ::
      bindSymbols binders ++ ⟨.pushFrame, 0, 0, 0⟩ :: called ++ leaveComponent

/-- Invokes the component on the stack with a layout that is known. -/
def staticComponent (k : Coding) (capabilities : Capabilities) (layout : Fragment)
    (i : Invocation) (code : List Instruction) : Prop :=
  ∃ table, layout.table.asProgram? = some table ∧
    if table.hasEval || capabilities.prepareArgs then k.genericComponent i (some layout) code
    else k.boundComponent capabilities.createArgs layout table i code

/-- Invokes the component of a handle. -/
def component (k : Coding) (handle : UInt32) (i : Invocation) (code : List Instruction) : Prop :=
  ∃ push invoke, k.onHandle .pushComponentSpec handle push ∧
    (match if (k.lookup.capabilities handle).dynamicLayout then none
        else k.lookup.layout? handle with
      | some layout => k.staticComponent (k.lookup.capabilities handle) layout i invoke
      | none => k.genericComponent i none invoke) ∧
    code = push ++ invoke ++ [⟨.pop, 1, 0, 0⟩]

/-- Appends a value, which may turn out to be a component to be invoked. -/
def guardedAppend (k : Coding) (value : Expression) (trusting : Bool) (code : List Instruction) :
    Prop :=
  ∃ push find invoke, k.expression value push ∧ k.onReferer .pushDynamicComponentManager find ∧
    k.genericComponent {} none invoke ∧
    code = frame (push ++ [⟨.dup, Register.sp.number, 0, 0⟩, ⟨.isComponent, 0, 0, 0⟩,
      ⟨.enter, 2, 0, 0⟩, .skip .jumpUnless (find ++ invoke ++ exitFrame)] ++ find ++ invoke ++
      exitFrame ++ ⟨.dynamicContent, trusting.toUInt32, 0, 0⟩ :: exitFrame)

/-- Invokes the component that an expression gives; nothing if it gives none. -/
def dynamicComponent (k : Coding) (definition : Expression) (i : Invocation)
    (code : List Instruction) : Prop :=
  ∃ push find invoke, k.expression definition push ∧
    k.onReferer .pushDynamicComponentManager find ∧ k.genericComponent i none invoke ∧
    code = frame (push ++ [⟨.dup, Register.sp.number, 0, 0⟩, ⟨.enter, 2, 0, 0⟩,
      .skip .jumpUnless (find ++ invoke)] ++ find ++ invoke ++ exitFrame)

end Coding

/-- The operation that sets an attribute to a computed value. -/
@[simp] def AttrMode.op : AttrMode → Opcode
  | .component => .componentAttr
  | .element => .dynamicAttr

namespace Coding

/-! ### Block forms -/

/-- Code that is skipped unless a condition is met, and the inverse that is rendered if it is
not. -/
def otherwise (k : Coding) (op : Opcode) (inverse : Option Fragment) (main : List Instruction)
    (code : List Instruction) : Prop :=
  match inverse with
  | some f =>
    ∃ other, k.staticBlock f 0 other ∧
      code = .skip op (main ++ [.skip .jump other]) :: main ++ .skip .jump other :: other ++
        exitFrame
  | none => code = .skip op main :: main ++ exitFrame

/-- A block form: it computes values, and then enters its main block or the inverse. -/
def blockForm (k : Coding) (op : Opcode) (inverse : Option Fragment) (values : List Instruction)
    (main : List Instruction) (code : List Instruction) : Prop :=
  ∃ branches, k.otherwise op inverse main branches ∧ code = frame (values ++ branches)

def conditional (k : Coding) (op : Opcode) (condition : Expression) (main : Fragment)
    (inverse : Option Fragment) (code : List Instruction) : Prop :=
  ∃ value body, k.expression condition value ∧ k.staticBlock main 0 body ∧
    k.blockForm op inverse (value ++ [⟨.toBoolean, 0, 0, 0⟩, ⟨.enter, 1, 0, 0⟩]) body code

def withBlock (k : Coding) (value : Expression) (main : Fragment) (inverse : Option Fragment)
    (code : List Instruction) : Prop :=
  ∃ push body, k.expression value push ∧ k.staticBlock main 1 body ∧
    k.blockForm .jumpUnless inverse
      (push ++ [⟨.dup, Register.sp.number, 0, 0⟩, ⟨.toBoolean, 0, 0, 0⟩, ⟨.enter, 2, 0, 0⟩])
      body code

/-- The loop over the items of the iterator on the stack. -/
def loop (body : List Instruction) : List Instruction :=
  [⟨.pushFrame, 0, 0, 0⟩, .skip .returnTo [⟨.dup, Register.fp.number, 1, 0⟩, ⟨.enterList, 0, 0, 0⟩],
    ⟨.dup, Register.fp.number, 1, 0⟩, .skip .enterList [⟨.iterate, 0, 0, 0⟩],
    .skip .iterate (body ++ ⟨.pop, 2, 0, 0⟩ :: exitFrame)] ++
  body ++ ⟨.pop, 2, 0, 0⟩ :: exitFrame ++ [⟨.exitList, 0, 0, 0⟩, ⟨.popFrame, 0, 0, 0⟩]

/-- Pushes the value that tells how the keys of items are made. -/
def keyCode (k : Coding) (key : Option Expression) (code : List Instruction) : Prop :=
  match key with
  | some key => k.expression key code
  | none => k.reference .null code

def eachBlock (k : Coding) (key : Option Expression) (list : Expression) (main : Fragment)
    (inverse : Option Fragment) (code : List Instruction) : Prop :=
  ∃ keys push body, k.keyCode key keys ∧ k.expression list push ∧ k.staticBlock main 2 body ∧
    k.blockForm .jumpUnless inverse (keys ++ push ++ [⟨.enter, 2, 0, 0⟩, ⟨.putIterator, 0, 0, 0⟩])
      (loop body) code

def componentForm (k : Coding) (params : Option (List Expression))
    (invocation : List Expression → Invocation) (code : List Instruction) : Prop :=
  match params with
  | some (definition :: rest) =>
    match Compilable.literalComponent? k.lookup k.referer definition with
    | some handle => k.component handle (invocation rest) code
    | none => k.dynamicComponent definition (invocation rest) code
  | _ => False

/-- A block form with its only parameter and its main block. -/
def single (call : BlockCall) (form : Expression → Fragment → Prop) : Prop :=
  match call.params, call.template with
  | some [param], some main => form param main
  | _, _ => False

def blockCall (k : Coding) (call : BlockCall) (code : List Instruction) : Prop :=
  if call.name = "if" then
    single call fun e main => k.conditional .jumpUnless e main call.inverse code
  else if call.name = "unless" then
    single call fun e main => k.conditional .jumpIf e main call.inverse code
  else if call.name = "with" then
    single call fun e main => k.withBlock e main call.inverse code
  else if call.name = "each" then
    single call fun e main => k.eachBlock (Compilable.key? call) e main call.inverse code
  else if call.name = "component" then
    k.componentForm call.params call.invocation code
  else
    ∃ handle, k.lookup.component? call.name k.referer = some handle ∧
      k.component handle (call.invocation (call.params.getD [])) code

/-! ### Appended values -/

def partialForm (k : Coding) (params : Option (List Expression)) (code : List Instruction) :
    Prop :=
  match params with
  | some [.value (.str name)] =>
    ∃ f table call, Compilable.partial? k.lookup k.referer name = some (f, table) ∧
      k.staticCall f call ∧
      code = [⟨.getVariable, 0, 0, 0⟩,
        ⟨.rootScope, UInt32.ofNat table.symbols.length + 1, 0, 0⟩, ⟨.setVariable, 0, 0, 0⟩,
        ⟨.pushFrame, 0, 0, 0⟩] ++ call ++ [⟨.popFrame, 0, 0, 0⟩, ⟨.popScope, 0, 0, 0⟩]
  | _ => False

def append (k : Coding) (value : Expression) (trusted : Bool) (code : List Instruction) : Prop :=
  match Compilable.inline? k.lookup k.referer value with
  | some (.component params hash) =>
    k.componentForm params (Compilable.inlineInvocation hash) code
  | some (.part params) => k.partialForm params code
  | some (.named handle params hash) =>
    k.component handle (Compilable.inlineInvocation hash params) code
  | none =>
    if trusted || value.isGet then k.guardedAppend value trusted code
    else ∃ push, k.expression value push ∧ code = push ++ [⟨.dynamicContent, 0, 0, 0⟩]

/-! ### Statements -/

/-- The operand for a namespace; zero if there is none, or an empty one. -/
def space (k : Coding) (space : Option String) (index : UInt32) : Prop :=
  match space with
  | some s => k.constants.strings.get? index = some s ∧ (s = "" → index = 0)
  | none => index = 0

def staticAttr (k : Coding) (mode : AttrMode) (name value : String) (space : Option String)
    (code : List Instruction) : Prop :=
  ∃ nameIndex spaceIndex, k.constants.strings.get? nameIndex = some name ∧
    k.space space spaceIndex ∧
    match mode with
    | .component =>
      ∃ push, k.reference (.string value) push ∧
        code = push ++ [⟨AttrMode.component.op, nameIndex, 1, spaceIndex⟩]
    | .element =>
      ∃ valueIndex, k.constants.strings.get? valueIndex = some value ∧
        code = [⟨.staticAttr, nameIndex, valueIndex, spaceIndex⟩]

def dynamicAttr (k : Coding) (mode : AttrMode) (name : String) (value : Expression)
    (space : Option String) (trusting : Bool) (code : List Instruction) : Prop :=
  ∃ push nameIndex spaceIndex, k.expression value push ∧
    k.constants.strings.get? nameIndex = some name ∧ k.space space spaceIndex ∧
    code = push ++ [⟨mode.op, nameIndex, trusting.toUInt32, spaceIndex⟩]

/-- Calls the block in a slot with arguments. -/
def yield (k : Coding) (slot : UInt32) (params : List Expression) (code : List Instruction) :
    Prop :=
  ∃ given, k.args params none given ∧
    code = given ++ ⟨.getBlock, slot, 0, 0⟩ :: k.resolve ++
      [⟨.invokeYield, 0, 0, 0⟩, ⟨.popScope, 0, 0, 0⟩, ⟨.popFrame, 0, 0, 0⟩]

/-- Calls a block without parameters, if there is one. -/
def optionalCall (k : Coding) (f : Option Fragment) (code : List Instruction) : Prop :=
  match f with
  | some f => k.staticBlock f 0 code
  | none => code = []

mutual

def statement (k : Coding) (mode : AttrMode) : Statement → List Instruction → Prop
  | .text s, code => k.onString .text s code
  | .comment s, code => k.onString .comment s code
  | .append value trusted, code => k.append value trusted code
  | .openElement tag, code => k.onString .openElement tag code
  | .flushElement, code => code = [⟨.flushElement, 0, 0, 0⟩]
  | .closeElement, code => code = [⟨.closeElement, 0, 0, 0⟩]
  | .staticAttr name value space, code => k.staticAttr mode name value space code
  | .dynamicAttr name value space trusting, code =>
    k.dynamicAttr mode name value space trusting code
  | .modifier name params hash, code =>
    ∃ handle given call, k.lookup.modifier? name k.referer = some handle ∧
      k.args (params.getD []) hash given ∧ k.onHandle .modifier handle call ∧ code = given ++ call
  | .block name params hash template inverse, code =>
    ∃ main other : Option Fragment,
      k.layout.optionalBlock? template = some (main.map Fragment.body) ∧
      k.layout.optionalBlock? inverse = some (other.map Fragment.body) ∧
      k.blockCall { name, params, hash, template := main, inverse := other } code
  | .component tag attrs hash body, code =>
    ∃ block : Option Fragment, k.layout.optionalBlock? body = some (block.map Fragment.body) ∧
      match k.lookup.component? tag k.referer with
      | some handle =>
        ∃ passed, passed.body = .ofAttrs .entry k.layout attrs ∧
          k.component handle { attrs := some passed, hash, block } code
      | none =>
        ∃ opening inner content, k.onString .openElement tag opening ∧
          k.statements .element attrs inner ∧ k.optionalCall block content ∧
          code = opening ++ inner ++ ⟨.flushElement, 0, 0, 0⟩ :: content ++
            [⟨.closeElement, 0, 0, 0⟩]
  | .yield slot params, code => k.yield slot (params.getD []) code
  | .attrSplat slot, code =>
    ∃ called, k.yield slot [] called ∧ code = called ++ [⟨.didCreateElement, Emit.current, 0, 0⟩]

def statements (k : Coding) (mode : AttrMode) : List Statement → List Instruction → Prop
  | [], code => code = []
  | s :: rest, code =>
    ∃ first more, k.statement mode s first ∧ k.statements mode rest more ∧ code = first ++ more

end

end Coding

/-- The code of a fragment up to its return. -/
def Fragment.HasCode (f : Fragment) (lookup : Lookup) (strategy : Strategy) (l : Linkage)
    (code : List Instruction) : Prop :=
  Coding.statements ⟨lookup, strategy, l, f.layout⟩ f.attrMode f.statements code

end TemplateMachine
