import TemplateMachine.Proofs.Walk.Basic

/-! What compilation asks of a template: that the names of helpers, modifiers, partials and blocks
are known, that literals are primitive, and that built-in forms have the parameters they take.
Whether a fragment is compilable does not depend on the fragments it refers to. -/

namespace TemplateMachine

/-- A nested block of a template, as a body. -/
def Layout.block? (l : Layout) (index : Nat) : Option Fragment :=
  (l.template.blocks[index]?).map (.ofBlock .entry l)

namespace Compilable

mutual

def expression (l : Lookup) (referer : String) : Expression → Bool
  | .value json =>
    match Primitive.ofJson json with
    | .ok _ => true
    | .error _ => false
  | .helper name params hash =>
    if name = "component" then
      match params with
      | some (definition :: rest) =>
        expression l referer definition && expressions l referer rest && namedValues l referer hash
      | _ => false
    else
      (l.helper? name referer).isSome && params? l referer params && namedValues l referer hash
  | .concat parts => expressions l referer parts
  | _ => true

def expressions (l : Lookup) (referer : String) : List Expression → Bool
  | [] => true
  | e :: rest => expression l referer e && expressions l referer rest

def params? (l : Lookup) (referer : String) : Option (List Expression) → Bool
  | none => true
  | some es => expressions l referer es

def namedValues (l : Lookup) (referer : String) : Option (HashOf Expression) → Bool
  | none => true
  | some ⟨_, values⟩ => expressions l referer values

end

def args (l : Lookup) (referer : String) (params : List Expression) (hash : Option Hash) : Bool :=
  expressions l referer params && namedValues l referer hash

/-- A symbol of a layout can be bound by an invocation. -/
def symbol (l : Lookup) (referer : String) (i : Invocation) (symbol : String) : Bool :=
  match SymbolRole.ofSymbol symbol with
  | .block symbol => (i.blockOf? symbol).isSome
  | .argument symbol bare =>
    match i.hash.bind fun hash => hash.get? (if i.synthetic then bare else symbol) with
    | some value => expression l referer value
    | none => true
  | .inner => true

/-- The invocation of a component whose layout is known. -/
def staticComponent (l : Lookup) (referer : String) (capabilities : Capabilities)
    (layout : Fragment) (i : Invocation) : Bool :=
  match layout.table.asProgram? with
  | none => false
  | some table =>
    if table.hasEval || capabilities.prepareArgs then args l referer i.params i.hash
    else
      (!capabilities.createArgs || args l referer i.params i.hash) &&
        table.symbols.all (symbol l referer i)

def component (l : Lookup) (referer : String) (handle : UInt32) (i : Invocation) : Bool :=
  match if (l.capabilities handle).dynamicLayout then none else l.layout? handle with
  | some layout => staticComponent l referer (l.capabilities handle) layout i
  | none => args l referer i.params i.hash

/-- The component that a literal names. -/
def literalComponent? (l : Lookup) (referer : String) : Expression → Option UInt32
  | .value (.str name) => l.component? name referer
  | _ => none

def componentForm (l : Lookup) (referer : String) (params : Option (List Expression))
    (invocation : List Expression → Invocation) : Bool :=
  match params with
  | some (definition :: rest) =>
    match literalComponent? l referer definition with
    | some handle => component l referer handle (invocation rest)
    | none =>
      expression l referer definition &&
        args l referer (invocation rest).params (invocation rest).hash
  | _ => false

/-- The partial that a name stands for, if it is a whole template. -/
def partial? (l : Lookup) (referer name : String) : Option (Fragment × ProgramTable) := do
  let f ← (l.partialNamed? name referer).bind l.partial?
  let table ← f.table.asProgram?
  return (f, table)

def partialForm (l : Lookup) (referer : String) (params : Option (List Expression)) : Bool :=
  match params with
  | some [.value (.str name)] => (partial? l referer name).isSome
  | _ => false

/-- An appended value has the shape of a built-in form, or of a component of a name. -/
inductive Inline where
  | component (params : Option (List Expression)) (hash : Option Hash)
  | part (params : Option (List Expression))
  | named (handle : UInt32) (params : List Expression) (hash : Option Hash)

/-- The inline form of a name with parameters. -/
def inlineCall? (l : Lookup) (referer name : String) (params : Option (List Expression))
    (hash : Option Hash) : Option Inline :=
  if name = "component" then some (.component params hash)
  else if name = "partial" then some (.part params)
  else (l.component? name referer).map fun handle => .named handle (params.getD []) hash

def inline? (l : Lookup) (referer : String) : Expression → Option Inline
  | .unknown name => inlineCall? l referer name none none
  | .helper name params hash => inlineCall? l referer name params hash
  | _ => none

/-- The parameters of an inline form as an invocation. -/
def inlineInvocation (hash : Option Hash) (params : List Expression) : Invocation :=
  { params, hash, synthetic := true }

def append (l : Lookup) (referer : String) (value : Expression) : Bool :=
  match inline? l referer value with
  | some (.component params hash) => componentForm l referer params (inlineInvocation hash)
  | some (.part params) => partialForm l referer params
  | some (.named handle params hash) => component l referer handle (inlineInvocation hash params)
  | none => expression l referer value

/-- A block form with one parameter and a main block. -/
def singleForm (l : Lookup) (referer : String) (call : BlockCall) : Bool :=
  match call.params, call.template with
  | some [param], some _ => expression l referer param
  | _, _ => false

/-- The key of an iteration. -/
def key? (call : BlockCall) : Option Expression := call.hash.bind fun hash => hash.get? "key"

def blockCall (l : Lookup) (referer : String) (call : BlockCall) : Bool :=
  if call.name = "if" ∨ call.name = "unless" ∨ call.name = "with" then singleForm l referer call
  else if call.name = "each" then
    singleForm l referer call && ((key? call).all fun key => expression l referer key)
  else if call.name = "component" then componentForm l referer call.params call.invocation
  else
    match l.component? call.name referer with
    | some handle => component l referer handle (call.invocation (call.params.getD []))
    | none => false

end Compilable

/-- The block of an index, which need not be given: none if there is no such block. -/
def Layout.optionalBlock? (l : Layout) : Option Nat → Option (Option Fragment)
  | none => some none
  | some index => (l.block? index).map some

namespace Compilable

mutual

def statement (l : Lookup) (layout : Layout) : Statement → Bool
  | .append value _ => append l layout.referer value
  | .dynamicAttr _ value _ _ => expression l layout.referer value
  | .modifier name params hash =>
    (l.modifier? name layout.referer).isSome && args l layout.referer (params.getD []) hash
  | .block name params hash template inverse =>
    match layout.optionalBlock? template, layout.optionalBlock? inverse with
    | some template, some inverse =>
      blockCall l layout.referer { name, params, hash, template, inverse }
    | _, _ => false
  | .component tag attrs hash body =>
    match layout.optionalBlock? body with
    | some block =>
      match l.component? tag layout.referer with
      | some handle =>
        component l layout.referer handle
          { attrs := some (.ofAttrs .entry layout attrs), hash, block }
      | none => statements l layout attrs
    | none => false
  | .yield _ params => expressions l layout.referer (params.getD [])
  | _ => true

def statements (l : Lookup) (layout : Layout) : List Statement → Bool
  | [] => true
  | s :: rest => statement l layout s && statements l layout rest

end

end Compilable

/-- The fragment can be compiled by itself. -/
def Fragment.isCompilable (l : Lookup) (f : Fragment) : Bool :=
  Compilable.statements l f.layout f.statements

end TemplateMachine
