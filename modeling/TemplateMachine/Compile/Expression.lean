import TemplateMachine.Compile.Block

/-! Code that computes expressions and arguments.  The code of an expression pushes one value; the
code of arguments pushes the values, the positional ones first, and gathers them. -/

namespace TemplateMachine.Emit

/-- Gathers arguments whose values are on the stack.  Synthetic ones come from curly braces, where
the names of arguments have no `@`. -/
def pushArgs (count : Nat) (names : List String) (synthetic : Bool) : Emit Unit := do
  let index ← onConstants fun c => c.stringArray names
  op .pushArgs index ((UInt32.ofNat count <<< 4) ||| (synthetic.toUInt32 <<< 3))

/-- The properties of the value on the stack, one within the other. -/
def properties : List String → Emit Unit
  | [] => return
  | key :: rest => do
    onString .getProperty key
    properties rest

def hasBlockParams (symbol : UInt32) : Emit Unit := do
  op .getBlock symbol
  resolveBlock
  op .hasBlockParams

/-- The form that makes a component a value, `(component definition …)`, got no definition. -/
def missingDefinition {α : Type} (name : String) : Emit α :=
  fail (.arity name "a component definition")

mutual

/-- Pushes the value of an expression. -/
def expression : Expression → Emit Unit
  | .value json =>
    match Primitive.ofJson json with
    | .ok p => primitiveReference p
    | .error kind => fail (.invalidPrimitive kind)
  | .undefined => primitiveReference .undefined
  | .get head path => do
    op .getVariable head
    properties path
  | .unknown name => do
    match ← resolve Lookup.helper? name with
    | some handle =>
      pushArgs 0 [] true
      onHandle .helper handle
    | none =>
      op .getVariable 0
      onString .getProperty name
  | .helper name params hash => do
    if name = "component" then
      match params with
      | some (definition :: rest) =>
        expression definition
        expressions rest
        let names ← namedValues hash
        pushArgs rest.length names true
        onReferer .curryComponent
      | _ => missingDefinition name
    else
      let handle ← orFail (← resolve Lookup.helper? name) (.unknownHelper name)
      let count ← params? params
      let names ← namedValues hash
      pushArgs count names true
      onHandle .helper handle
  | .concat parts => do
    expressions parts
    op .concat (UInt32.ofNat parts.length)
  | .hasBlock symbol => op .hasBlock symbol
  | .hasBlockParams symbol => hasBlockParams symbol

/-- Pushes the values of several expressions. -/
def expressions : List Expression → Emit Unit
  | [] => return
  | e :: rest => do
    expression e
    expressions rest

/-- Pushes positional values and tells their number. -/
def params? : Option (List Expression) → Emit Nat
  | none => return 0
  | some es => do
    expressions es
    return es.length

/-- Pushes the values of named arguments and tells their names. -/
def namedValues : Option (HashOf Expression) → Emit (List String)
  | none => return []
  | some ⟨names, values⟩ => do
    expressions values
    return names

end

/-- Pushes arguments. -/
def args (params : List Expression) (hash : Option Hash) (synthetic : Bool) : Emit Unit := do
  expressions params
  pushArgs params.length (← namedValues hash) synthetic

/-- Pushes a component with arguments as a value. -/
def curry (definition : Expression) (params : List Expression) (hash : Option Hash)
    (synthetic : Bool) : Emit Unit := do
  expression definition
  args params hash synthetic
  onReferer .curryComponent

/-- Calls the block in a slot with arguments. -/
def yield (slot : UInt32) (params : List Expression) : Emit Unit := do
  args params none false
  op .getBlock slot
  resolveBlock
  op .invokeYield
  op .popScope
  op .popFrame

end TemplateMachine.Emit
