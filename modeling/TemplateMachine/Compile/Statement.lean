import TemplateMachine.Compile.Invocation

/-! Code of statements.  Some names of blocks and appended helpers are built-in forms; other names
are components. -/

namespace TemplateMachine

/-- A block statement with its blocks looked up. -/
structure BlockCall where
  name : String
  params : Option (List Expression)
  hash : Option Hash
  template : Option Fragment
  inverse : Option Fragment

/-- The block statement as an invocation. -/
def BlockCall.invocation (call : BlockCall) (params : List Expression) : Invocation where
  params
  hash := call.hash
  synthetic := true
  block := call.template
  inverse := call.inverse

namespace Emit

/-! ### Block forms -/

/-- The only parameter of a block form. -/
def onlyParam (call : BlockCall) : Emit Expression :=
  match call.params with
  | some [param] => return param
  | _ => fail (.arity call.name "exactly one parameter")

def mainBlock (call : BlockCall) : Emit Fragment :=
  orFail call.template (.arity call.name "a block")

/-- The end of a conditional form: the inverse, if there is one, and the way out. -/
def elseBranch (inverse : Option Fragment) : Emit Unit := do
  match inverse with
  | some f =>
    jump .jump "EXIT"
    label "ELSE"
    invokeStaticBlock f 0
    label "EXIT"
  | none => label "ELSE"
  exitFrame

/-- A block if a value is true, the inverse otherwise; `skip` jumps to the inverse. -/
def conditional (skip : Opcode) (call : BlockCall) : Emit Unit := do
  let condition ← onlyParam call
  let template ← mainBlock call
  frameWithLabels do
    expression condition
    op .toBoolean
    op .enter 1
    jump skip "ELSE"
    invokeStaticBlock template 0
    elseBranch call.inverse

/-- A block with a value as its parameter if the value is true. -/
def withBlock (call : BlockCall) : Emit Unit := do
  let value ← onlyParam call
  let template ← mainBlock call
  frameWithLabels do
    expression value
    op .dup Register.sp.number 0
    op .toBoolean
    op .enter 2
    jump .jumpUnless "ELSE"
    invokeStaticBlock template 1
    elseBranch call.inverse

/-- A block for each item of a list, with the item and its number as parameters. -/
def eachBlock (call : BlockCall) : Emit Unit := do
  let list ← onlyParam call
  let template ← mainBlock call
  frameWithLabels do
    match call.hash.bind fun hash => hash.get? "key" with
    | some key => expression key
    | none => primitiveReference .null
    expression list
    op .enter 2
    op .putIterator
    jump .jumpUnless "ELSE"
    op .pushFrame
    jump .returnTo "ITER"
    op .dup Register.fp.number 1
    jump .enterList "BODY"
    label "ITER"
    jump .iterate "BREAK"
    label "BODY"
    invokeStaticBlock template 2
    op .pop 2
    exitFrame
    label "BREAK"
    op .exitList
    op .popFrame
    elseBranch call.inverse

/-- The component that a literal names. -/
def literalComponent? : Expression → Emit (Option UInt32)
  | .value (.str name) => resolve Lookup.component? name
  | _ => return none

/-- Invokes the component that the first parameter gives, with the other parameters. -/
def componentForm (name : String) (params : Option (List Expression))
    (invocation : List Expression → Invocation) : Emit Unit := do
  match params with
  | some (definition :: rest) =>
    match ← literalComponent? definition with
    | some handle => component handle (invocation rest)
    | none => dynamicComponent definition (invocation rest)
  | _ => missingDefinition name

/-- A block statement. -/
def blockCall (call : BlockCall) : Emit Unit := do
  match call.name with
  | "if" => conditional .jumpUnless call
  | "unless" => conditional .jumpIf call
  | "with" => withBlock call
  | "each" => eachBlock call
  | "component" => componentForm call.name call.params call.invocation
  | name => do
    let handle ← orFail (← resolve Lookup.component? name) (.unknownBlock name)
    component handle (call.invocation (call.params.getD []))

/-! ### Inline forms -/

/-- Renders a partial, which sees `self` and nothing else of where it stands. -/
def partialForm (name : String) (params : Option (List Expression)) : Emit Unit := do
  match params with
  | some [.value (.str partialName)] =>
    let found := (← resolve Lookup.partialNamed? partialName).bind (← read).lookup.partial?
    let f ← orFail found (.unknownPartial partialName)
    let table ← orFail f.table.asProgram? .notALayout
    op .getVariable 0
    op .rootScope (UInt32.ofNat table.symbols.length + 1) 0
    op .setVariable 0
    op .pushFrame
    invokeStatic f
    op .popFrame
    op .popScope
  | _ => fail (.arity name "a single string literal")

/-- An appended name that is a built-in form or a component; tells whether it is one. -/
def inlineCall (name : String) (params : Option (List Expression)) (hash : Option Hash) :
    Emit Bool := do
  match name with
  | "component" =>
    componentForm name params fun rest => { params := rest, hash, synthetic := true }
    return true
  | "partial" =>
    partialForm name params
    return true
  | name => do
    match ← resolve Lookup.component? name with
    | some handle =>
      component handle { params := params.getD [], hash, synthetic := true }
      return true
    | none => return false

/-- The inline form of an appended value, if it has the shape of one. -/
def inlineForm : Expression → Emit Bool
  | .unknown name => inlineCall name none none
  | .helper name params hash => inlineCall name params hash
  | _ => return false

def append (value : Expression) (trusted : Bool) : Emit Unit := do
  unless ← inlineForm value do
    if trusted || value.isGet then
      guardedAppend value trusted
    else
      expression value
      op .dynamicContent 0

/-! ### Statements -/

mutual

def statement (mode : AttrMode) : Statement → Emit Unit
  | .text s => onString .text s
  | .comment s => onString .comment s
  | .append value trusted => append value trusted
  | .openElement tag => onString .openElement tag
  | .flushElement => op .flushElement
  | .closeElement => op .closeElement
  | .staticAttr name value space => staticAttr mode name value space
  | .dynamicAttr name value space trusting => do
    expression value
    dynamicAttr mode name space trusting
  | .modifier name params hash => do
    let handle ← orFail (← resolve Lookup.modifier? name) (.unknownModifier name)
    args (params.getD []) hash true
    onHandle .modifier handle
  | .block name params hash template inverse => do
    let template ← optionalBlock template
    let inverse ← optionalBlock inverse
    blockCall { name, params, hash, template, inverse }
  | .component tag attrs hash body => do
    let block ← optionalBlock body
    match ← resolve Lookup.component? tag with
    | some handle => component handle { attrs := some (← attrsBlock attrs), hash, block }
    | none =>
      onString .openElement tag
      statements .element attrs
      op .flushElement
      if let some f := block then
        invokeStaticBlock f 0
      op .closeElement
  | .yield slot params => yield slot (params.getD [])
  | .attrSplat slot => do
    yield slot []
    op .didCreateElement current

def statements (mode : AttrMode) : List Statement → Emit Unit
  | [] => return
  | s :: rest => do
    statement mode s
    statements mode rest

end

end Emit

end TemplateMachine
