import TemplateMachine.Machine.Step
import TemplateMachine.Proofs.Walk.Component

/-! The rendering of statements, given how fragments are rendered. -/

namespace TemplateMachine.Walk

/-! ### Block forms -/

/-- Renders a block with values for its parameters, as many as it declares. -/
def staticBlock (p : Site) (call : Call) (f : Fragment) (values : List Reference) : Walk Unit :=
  call f (p.slots.bindValues (f.table.parameters.take values.length) values) p.current

def inverse (p : Site) (call : Call) (b : BlockCall) : Walk Unit :=
  match b.inverse with
  | some f => staticBlock p call f []
  | none => return

/-- The only parameter of a block form, and its main block. -/
def single (b : BlockCall) : Walk (Expression × Fragment) :=
  match b.params, b.template with
  | some [param], some main => return (param, main)
  | _, _ => undefined

/-- A block if a value is as true as it should be, the inverse otherwise. -/
def conditional (s : Scene) (p : Site) (call : Call) (expected : Bool) (b : BlockCall) :
    Walk Unit := do
  let (param, main) ← single b
  let value ← expression s p param
  if (value.value s.cells).isTruthy = expected then staticBlock p call main []
  else inverse p call b

/-- A block with a value as its parameter if the value is true. -/
def withBlock (s : Scene) (p : Site) (call : Call) (b : BlockCall) : Walk Unit := do
  let (param, main) ← single b
  let value ← expression s p param
  if (value.value s.cells).isTruthy then staticBlock p call main [value] else inverse p call b

/-- A block for each item, with the item and its number as parameters. -/
def eachItem (p : Site) (call : Call) (main : Fragment) : List IterationItem → Walk Unit
  | [] => return
  | item :: rest => do
    staticBlock p call main [item.value, item.memo]
    eachItem p call main rest

/-- The value that tells how the keys of items are made. -/
def keyValue (s : Scene) (p : Site) (b : BlockCall) : Walk Reference :=
  match Compilable.key? b with
  | some key => expression s p key
  | none => return .null

/-- A block for each item of a list, the inverse if there is none. -/
def eachBlock (s : Scene) (p : Site) (call : Call) (b : BlockCall) : Walk Unit := do
  let (param, main) ← single b
  let key ← keyValue s p b
  let list ← expression s p param
  let items := Iteration.items ⟨list, .ofDatum (key.value s.cells)⟩ s.cells
  if items.isEmpty then inverse p call b else eachItem p call main items

/-- Invokes the component that the first parameter gives, with the other parameters. -/
def componentForm (s : Scene) (p : Site) (call : Call) (params : Option (List Expression))
    (invocation : List Expression → Invocation) : Walk Unit := do
  match params with
  | some (definition :: rest) =>
    match Compilable.literalComponent? s.lookup p.referer definition with
    | some handle => component s p call handle (invocation rest)
    | none =>
      let value ← expression s p definition
      if (value.value s.cells).isTruthy then dynamicComponent s p call value (invocation rest)
  | _ => undefined

/-- A block statement. -/
def blockCall (s : Scene) (p : Site) (call : Call) (b : BlockCall) : Walk Unit := do
  match b.name with
  | "if" => conditional s p call true b
  | "unless" => conditional s p call false b
  | "with" => withBlock s p call b
  | "each" => eachBlock s p call b
  | "component" => componentForm s p call b.params b.invocation
  | name =>
    let handle ← orUndefined (s.lookup.component? name p.referer)
    component s p call handle (b.invocation (b.params.getD []))

/-! ### Appended values -/

/-- Renders a partial, which sees `self` and nothing else of where it stands. -/
def partialForm (s : Scene) (p : Site) (call : Call) (params : Option (List Expression)) :
    Walk Unit := do
  match params with
  | some [.value (.str name)] =>
    let (f, _) ← orUndefined (Compilable.partial? s.lookup p.referer name)
    call f.body (Slots.empty.bind 0 (.value (p.slots.value 0))) p.current
  | _ => undefined

/-- Writes the content of a value. -/
def content (s : Scene) (trusting : Bool) (value : Reference) : Walk Unit :=
  match (value.value s.cells).content? with
  | some content =>
    emit fun sink => if trusting then sink.append content else sink.appendText content
  | none => return

/-- Appends a value, or invokes it if it is a component. -/
def guardedAppend (s : Scene) (p : Site) (call : Call) (value : Expression) (trusting : Bool) :
    Walk Unit := do
  let value ← expression s p value
  if (value.value s.cells).isComponent then dynamicComponent s p call value {}
  else content s trusting value

def append (s : Scene) (p : Site) (call : Call) (value : Expression) (trusted : Bool) :
    Walk Unit := do
  match Compilable.inline? s.lookup p.referer value with
  | some (.component params hash) =>
    componentForm s p call params (Compilable.inlineInvocation hash)
  | some (.part params) => partialForm s p call params
  | some (.named handle params hash) =>
    component s p call handle (Compilable.inlineInvocation hash params)
  | none =>
    if trusted || value.isGet then guardedAppend s p call value trusted
    else content s false (← expression s p value)

/-! ### Statements -/

/-- A namespace; an empty one is none. -/
def namespaceOf (space : Option String) : Option String := space.filter (· ≠ "")

/-- Sets an attribute of the pending element, on behalf of the element or of an invocation. -/
def setAttribute (mode : AttrMode) (name : String) (value space : Option String) : Walk Unit :=
  match mode with
  | .element => onElement fun sink => sink.setAttribute name value (namespaceOf space)
  | .component => onElement fun sink => sink.setComponentAttribute name value (namespaceOf space)

def setAttributes : List (String × String) → Walk Unit
  | [] => return
  | (name, value) :: rest => do
    onElement fun sink => sink.setAttribute name (some value) none
    setAttributes rest

def applyModifier (s : Scene) (handle : UInt32) (args : Arguments) : Walk Unit := do
  let change ← orUndefined (s.host.modifier? handle)
  record (.modifier handle args)
  match change (← get).events s.cells args with
  | .ok attributes => setAttributes attributes
  | .error message => fail (.helperFailed message)

/-- Renders the block in a slot with the slots of the place it was written in. -/
def yield (s : Scene) (p : Site) (call : Call) (slot : UInt32) (params : List Expression) :
    Walk Unit := do
  let given ← args s p params none
  match p.slots slot with
  | .block body written =>
    call body (Slots.bindValues written body.table.parameters given.positional) p.current
  | _ => return

/-- Tells the current component about the pending element. -/
def elementCreated (p : Site) : Walk Unit := modify fun w =>
  match p.current with
  | some c =>
    let events := w.events.push (.elementCreated c.definition c.inst w.sink.hasPending)
    { w with events, sink := (c.manager events).elementCreated c.inst w.sink }
  | none => w

mutual

def statement (s : Scene) (p : Site) (call : Call) (mode : AttrMode) : Statement → Walk Unit
  | .text text => emit fun sink => sink.appendText text
  | .comment text => emit fun sink => sink.appendComment text
  | .append value trusted => append s p call value trusted
  | .openElement tag => emit fun sink => sink.openElement tag
  | .flushElement => onElement Sink.flushElement
  | .closeElement => onElement Sink.closeElement
  | .staticAttr name value space => setAttribute mode name (some value) space
  | .dynamicAttr name value space _ => do
    let value ← expression s p value
    setAttribute mode name (Exec.attributeText? (value.value s.cells)) space
  | .modifier name params hash => do
    let handle ← orUndefined (s.lookup.modifier? name p.referer)
    applyModifier s handle (← args s p (params.getD []) hash)
  | .block name params hash template inverse => do
    let template ← orUndefined (p.layout.optionalBlock? template)
    let inverse ← orUndefined (p.layout.optionalBlock? inverse)
    blockCall s p call { name, params, hash, template, inverse }
  | .component tag attrs hash body => do
    let block ← orUndefined (p.layout.optionalBlock? body)
    match s.lookup.component? tag p.referer with
    | some handle =>
      component s p call handle { attrs := some (.ofAttrs .entry p.layout attrs), hash, block }
    | none =>
      emit fun sink => sink.openElement tag
      statements s p call .element attrs
      onElement Sink.flushElement
      if let some f := block then
        staticBlock p call f []
      onElement Sink.closeElement
  | .yield slot params => yield s p call slot (params.getD [])
  | .attrSplat slot => do
    yield s p call slot []
    elementCreated p

def statements (s : Scene) (p : Site) (call : Call) (mode : AttrMode) : List Statement → Walk Unit
  | [] => return
  | first :: rest => do
    statement s p call mode first
    statements s p call mode rest

end

/-- Renders fragments that nest no more deeply than a number tells. -/
def call (s : Scene) : Nat → Call
  | 0 => fun _ _ _ => undefined
  | depth + 1 => fun body slots current =>
    if body.isCompilable s.lookup then
      statements s ⟨body.layout, slots, current⟩ (call s depth) body.attrMode body.statements
    else fail .uncompilable

end TemplateMachine.Walk
