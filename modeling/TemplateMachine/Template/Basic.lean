import TemplateMachine.Json.Basic

/-! Templates as data.  A template is a list of statements with the names of its symbols and the
blocks nested in it.  At run time slot 0 of a scope holds `self` and slot `i + 1` the symbol number
`i`; statements name slots, and nested blocks by their number. -/

namespace TemplateMachine

/-- Named arguments: names and values side by side. -/
structure HashOf (ε : Type) where
  names : List String
  values : List ε
deriving Inhabited

/-- A value to be computed when the template runs. -/
inductive Expression where
  /-- A literal. -/
  | value (json : Json)
  | undefined
  /-- The value of a slot, followed by property names. -/
  | get (head : UInt32) (path : List String)
  /-- A bare name: a helper if there is one, else a property of `self`. -/
  | unknown (name : String)
  | helper (name : String) (params : Option (List Expression)) (hash : Option (HashOf Expression))
  | concat (parts : List Expression)
  | hasBlock (symbol : UInt32)
  | hasBlockParams (symbol : UInt32)
deriving Inhabited

abbrev Hash := HashOf Expression

/-- The value of a name, by its first occurrence. -/
def HashOf.get? {ε : Type} (hash : HashOf ε) (name : String) : Option ε :=
  (hash.names.idxOf? name).bind fun i => hash.values[i]?

/-- A look-up, which may find a component to be invoked. -/
def Expression.isGet : Expression → Bool
  | .get .. => true
  | .unknown _ => true
  | _ => false

/-- A step of a template. -/
inductive Statement where
  | text (text : String)
  | comment (text : String)
  | append (value : Expression) (trusted : Bool)
  | openElement (tag : String)
  | flushElement
  | closeElement
  | staticAttr (name value : String) (space : Option String)
  | dynamicAttr (name : String) (value : Expression) (space : Option String) (trusting : Bool)
  | modifier (name : String) (params : Option (List Expression)) (hash : Option Hash)
  | block (name : String) (params : Option (List Expression)) (hash : Option Hash)
      (template inverse : Option Nat)
  /-- An invocation by tag; a plain element if the tag names no component. -/
  | component (tag : String) (attrs : List Statement) (hash : Option Hash) (block : Option Nat)
  | yield (slot : UInt32) (params : Option (List Expression))
  | attrSplat (slot : UInt32)
deriving Inhabited

/-- A nested block.  Its parameters are slots that whoever invokes it binds. -/
structure InlineBlock where
  statements : List Statement
  parameters : List UInt32
deriving Inhabited

/-- A complete template. -/
structure Template where
  statements : List Statement
  symbols : List String
  hasEval : Bool
  blocks : List InlineBlock
deriving Inhabited

end TemplateMachine
