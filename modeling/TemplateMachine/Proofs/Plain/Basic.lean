import TemplateMachine.Machine.Step
import TemplateMachine.Proofs.Walk.Compilable

/-! Rendering where nothing is a component, by recursion on the templates alone.  There are no
instances, no blocks in slots, no code and no stack: slots hold values, and statements write to one
sink, one after the other. -/

namespace TemplateMachine

/-- What rendering changes: the sink, and the record of what the host was called for. -/
structure Page where
  sink : Sink := {}
  events : History := #[]

abbrev Plain := EStateM (Stop RuntimeError) Page

/-- The values of slots. -/
abbrev Values := UInt32 → Reference

/-- Gives the first of some slots the values, in order. -/
def Values.bind (v : Values) : List UInt32 → List Reference → Values
  | slot :: slots, value :: values =>
    bind (fun other => if other = slot then value else v other) slots values
  | _, _ => v

/-- The slots of a template that sees a value as `self`. -/
def Values.ofSelf (self : Reference) : Values := fun slot => if slot = 0 then self else .null

/-- The call of a name that an expression is. -/
def Expression.call? : Expression → Option (String × Option (List Expression))
  | .unknown name => some (name, none)
  | .helper name params _ => some (name, params)
  | _ => none

namespace Plain

/-- A template with the values of its slots. -/
structure Place where
  layout : Layout
  values : Values

def Place.referer (p : Place) : String := p.layout.referer

/-- Renders a nested block or a partial with values for its slots. -/
abbrev Call := Fragment → Values → Plain Unit

def fail {α : Type} (error : RuntimeError) : Plain α := throw (.fault error)

/-- There is no result: fragments nest too deeply. -/
def undefined {α : Type} : Plain α := throw .outOfFuel

/-- The value of an option, whose absence compilation would have told. -/
def orFail {α : Type} (value : Option α) (error : CompileError) : Plain α :=
  match value with
  | some a => pure a
  | none => fail (.compile error)

def record (e : Event) : Plain Unit := modify fun g => { g with events := g.events.push e }

def emit (write : Sink → Sink) : Plain Unit := modify fun g => { g with sink := write g.sink }

/-- An operation on the sink that needs an element. -/
def onElement (change : Sink → Sink.Result) : Plain Unit := fun g =>
  match change g.sink with
  | .ok sink => .ok () { g with sink }
  | .error operation => .error (.fault (.noOpenElement operation)) g

/-! ### Expressions -/

def callHelper (s : Scene) (handle : UInt32) (args : Arguments) : Plain Reference := do
  match s.host.helper? handle with
  | some helper =>
    record (.helper handle args)
    match helper (← get).events s.cells args with
    | .ok d => return .const d
    | .error message => fail (.helperFailed message)
  | none => fail (.unknownHelper handle)

/-- There is no component that a value could stand for. -/
def noComponent {α : Type} (s : Scene) (value : Reference) : Plain α :=
  match value.value s.cells with
  | .data (.str name) => fail (.unknownComponent name)
  | other => fail (.notAComponent (other.content?.getD ""))

/-- The component that a value stands for, as a value: null is none. -/
def curry (s : Scene) (definition : Reference) : Plain Reference :=
  match definition.value s.cells with
  | .data .null => return .null
  | _ => noComponent s definition

mutual

/-- The value of an expression. -/
def expression (s : Scene) (p : Place) : Expression → Plain Reference
  | .value json =>
    match Primitive.ofJson json with
    | .ok primitive => return .ofJson primitive.toJson
    | .error kind => fail (.compile (.invalidPrimitive kind))
  | .undefined => return .null
  | .get head path => return path.foldl .property (p.values head)
  | .unknown name =>
    match s.lookup.helper? name p.referer with
    | some handle => callHelper s handle {}
    | none => return .property (p.values 0) name
  | .helper name params hash => do
    if name = "component" then
      match params with
      | some (definition :: rest) =>
        let definition ← expression s p definition
        let _ ← expressions s p rest
        let _ ← namedValues s p hash
        curry s definition
      | _ => fail (.compile (.arity name "a component definition"))
    else
      let handle ← orFail (s.lookup.helper? name p.referer) (.unknownHelper name)
      let positional ← params? s p params
      let (names, named) ← namedValues s p hash
      callHelper s handle ⟨positional, names.map Walk.bareName, named⟩
  | .concat parts => do return .concat .still (← expressions s p parts)
  | .hasBlock _ => return .ofJson (.bool false)
  | .hasBlockParams _ => return .ofJson (.bool false)

/-- The values of several expressions. -/
def expressions (s : Scene) (p : Place) : List Expression → Plain (List Reference)
  | [] => return []
  | e :: rest => do
    let value ← expression s p e
    return value :: (← expressions s p rest)

def params? (s : Scene) (p : Place) : Option (List Expression) → Plain (List Reference)
  | none => return []
  | some es => expressions s p es

/-- The names of arguments and their values. -/
def namedValues (s : Scene) (p : Place) :
    Option (HashOf Expression) → Plain (List String × List Reference)
  | none => return ([], [])
  | some ⟨names, values⟩ => do return (names, ← expressions s p values)

end

/-! ### Block forms -/

/-- Renders a nested block with values for its first parameters. -/
def block (p : Place) (call : Call) (f : Fragment) (given : List Reference) : Plain Unit :=
  call f (p.values.bind f.table.parameters given)

def inverse (p : Place) (call : Call) (b : BlockCall) : Plain Unit :=
  match b.inverse with
  | some f => block p call f []
  | none => return

/-- The only parameter of a block form, and its main block. -/
def single (b : BlockCall) : Plain (Expression × Fragment) :=
  match b.params, b.template with
  | some [param], some main => return (param, main)
  | some [_], none => fail (.compile (.arity b.name "a block"))
  | _, _ => fail (.compile (.arity b.name "exactly one parameter"))

/-- The block if a value is as true as it should be, the inverse otherwise. -/
def conditional (s : Scene) (p : Place) (call : Call) (expected : Bool) (b : BlockCall) :
    Plain Unit := do
  let (param, main) ← single b
  let value ← expression s p param
  if (value.value s.cells).isTruthy = expected then block p call main [] else inverse p call b

/-- The block with a value as its first parameter if the value is true, the inverse otherwise. -/
def withBlock (s : Scene) (p : Place) (call : Call) (b : BlockCall) : Plain Unit := do
  let (param, main) ← single b
  let value ← expression s p param
  if (value.value s.cells).isTruthy then block p call main [value] else inverse p call b

/-- The block for the items of a list that have the given numbers, with the item and its number as
its first two parameters. -/
def eachItem (p : Place) (call : Call) (main : Fragment) (list : Reference) : List Nat → Plain Unit
  | [] => return
  | i :: rest => do
    block p call main [.property list (toString i), .ofJson (.int i)]
    eachItem p call main list rest

/-- The block for each item of a list, the inverse if there is none.  The key, which comes before
the list, is computed for what it calls. -/
def eachBlock (s : Scene) (p : Place) (call : Call) (b : BlockCall) : Plain Unit := do
  let (param, main) ← single b
  if let some key := Compilable.key? b then
    let _ ← expression s p key
  let list ← expression s p param
  let count := (list.value s.cells).items.length
  if count = 0 then inverse p call b else eachItem p call main list (List.range count)

/-- The form that would invoke the component its first parameter gives. -/
def componentForm (s : Scene) (p : Place) (params : Option (List Expression)) : Plain Unit := do
  match params with
  | some (definition :: _) =>
    let value ← expression s p definition
    if (value.value s.cells).isTruthy then noComponent s value
  | _ => fail (.compile (.arity "component" "a component definition"))

/-- A block statement. -/
def blockCall (s : Scene) (p : Place) (call : Call) (b : BlockCall) : Plain Unit := do
  match b.name with
  | "if" => conditional s p call true b
  | "unless" => conditional s p call false b
  | "with" => withBlock s p call b
  | "each" => eachBlock s p call b
  | "component" => componentForm s p b.params
  | name => fail (.compile (.unknownBlock name))

/-! ### Appended values -/

/-- Renders a partial, which sees `self` and nothing else of where it stands. -/
def partialForm (s : Scene) (p : Place) (call : Call) (params : Option (List Expression)) :
    Plain Unit := do
  match params with
  | some [.value (.str name)] =>
    let (f, _) ← orFail (Compilable.partial? s.lookup p.referer name) (.unknownPartial name)
    call f.body (.ofSelf (p.values 0))
  | _ => fail (.compile (.arity "partial" "a single string literal"))

/-- Writes the content of a value. -/
def content (s : Scene) (trusting : Bool) (value : Reference) : Plain Unit :=
  match (value.value s.cells).content? with
  | some content =>
    emit fun sink => if trusting then sink.append content else sink.appendText content
  | none => return

def append (s : Scene) (p : Place) (call : Call) (value : Expression) (trusted : Bool) :
    Plain Unit := do
  match value.call? with
  | some ("component", params) => componentForm s p params
  | some ("partial", params) => partialForm s p call params
  | _ => content s trusted (← expression s p value)

/-! ### Statements -/

/-- A nested block, which need not be given. -/
def optionalBlock (p : Place) : Option Nat → Plain (Option Fragment)
  | none => return none
  | some index => do return some (← orFail (p.layout.block? index) (.unknownBlockIndex index))

/-- Sets an attribute of the pending element; an empty namespace is none. -/
def setAttribute (name : String) (value space : Option String) : Plain Unit :=
  onElement fun sink => sink.setAttribute name value (space.filter (· ≠ ""))

def setAttributes : List (String × String) → Plain Unit
  | [] => return
  | (name, value) :: rest => do
    onElement fun sink => sink.setAttribute name (some value) none
    setAttributes rest

def applyModifier (s : Scene) (handle : UInt32) (args : Arguments) : Plain Unit := do
  match s.host.modifier? handle with
  | some change =>
    record (.modifier handle args)
    match change (← get).events s.cells args with
    | .ok attributes => setAttributes attributes
    | .error message => fail (.helperFailed message)
  | none => fail (.unknownModifier handle)

mutual

def statement (s : Scene) (p : Place) (call : Call) : Statement → Plain Unit
  | .text text => emit fun sink => sink.appendText text
  | .comment text => emit fun sink => sink.appendComment text
  | .append value trusted => append s p call value trusted
  | .openElement tag => emit fun sink => sink.openElement tag
  | .flushElement => onElement Sink.flushElement
  | .closeElement => onElement Sink.closeElement
  | .staticAttr name value space => setAttribute name (some value) space
  | .dynamicAttr name value space _ => do
    let value ← expression s p value
    setAttribute name (Exec.attributeText? (value.value s.cells)) space
  | .modifier name params hash => do
    let handle ← orFail (s.lookup.modifier? name p.referer) (.unknownModifier name)
    let positional ← expressions s p (params.getD [])
    let (names, named) ← namedValues s p hash
    applyModifier s handle ⟨positional, names.map Walk.bareName, named⟩
  | .block name params hash template inverse => do
    let template ← optionalBlock p template
    let inverse ← optionalBlock p inverse
    blockCall s p call { name, params, hash, template, inverse }
  | .component tag attrs _ body => do
    let body ← optionalBlock p body
    emit fun sink => sink.openElement tag
    statements s p call attrs
    onElement Sink.flushElement
    if let some f := body then
      block p call f []
    onElement Sink.closeElement
  | .yield _ params => do
    let _ ← expressions s p (params.getD [])
  | .attrSplat _ => return

def statements (s : Scene) (p : Place) (call : Call) : List Statement → Plain Unit
  | [] => return
  | first :: rest => do
    statement s p call first
    statements s p call rest

end

/-- Renders fragments that nest no more deeply than a number tells. -/
def fragment (s : Scene) : Nat → Call
  | 0 => fun _ _ => undefined
  | depth + 1 => fun f values => statements s ⟨f.layout, values⟩ (fragment s depth) f.statements

end Plain

end TemplateMachine
