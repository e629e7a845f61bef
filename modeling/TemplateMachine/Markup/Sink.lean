import TemplateMachine.Text.Escape

/-! Where markup is written.  The attributes of an element are gathered while it is pending and are
written with its opening tag, so attributes that an invocation passes, and those that modifiers set,
still join the ones in the layout. -/

namespace TemplateMachine

structure Attribute where
  name : String
  space : Option String
  value : String
deriving DecidableEq, Inhabited

/-- An element whose opening tag is not written yet. -/
structure PendingElement where
  tag : String
  attributes : List Attribute := []
deriving DecidableEq, Inhabited

/-- The operations that need an element. -/
inductive ElementOp where
  | setAttribute
  | setComponentAttribute
  | flushElement
  | closeElement
deriving DecidableEq, Inhabited

def ElementOp.name : ElementOp → String
  | .setAttribute => "set_attribute"
  | .setComponentAttribute => "set_component_attribute"
  | .flushElement => "flush_element"
  | .closeElement => "close_element"

/-- The elements that have no closing tag. -/
def voidElements : List String :=
  ["area", "base", "br", "col", "embed", "hr", "img", "input", "link", "meta", "source", "track",
   "wbr"]

structure Sink where
  output : String := ""
  pending : Option PendingElement := none
  /-- The tags of the open elements, the innermost first. -/
  stack : List String := []
deriving Inhabited

/-- An operation on the sink fails only for want of an element. -/
abbrev Sink.Result := Except ElementOp Sink

namespace Attribute

/-- The name as it is written: with its namespace, unless the name has one already. -/
def printedName (a : Attribute) : String :=
  match a.space with
  | some space => if a.name.toList.contains ':' then a.name else space ++ ":" ++ a.name
  | none => a.name

/-- The attribute as it is written in a tag. -/
def text (a : Attribute) : String :=
  " " ++ a.printedName ++ "=\x22" ++ Text.escapeAttribute a.value ++ "\x22"

end Attribute

namespace PendingElement

/-- Gives an attribute a value, or removes it. -/
def setAttribute (e : PendingElement) (name : String) (value : Option String)
    (space : Option String) : PendingElement :=
  let others := e.attributes.filter fun a => a.name != name
  match value with
  | some value => { e with attributes := others ++ [⟨name, space, value⟩] }
  | none => { e with attributes := others }

/-- Adds a value to the first attribute of a name. -/
def extend (name value : String) : List Attribute → List Attribute
  | [] => []
  | a :: rest =>
    if a.name = name then { a with value := a.value ++ " " ++ value } :: rest
    else a :: extend name value rest

/-- Sets an attribute on behalf of an invocation: a class is added to the one there is. -/
def setComponentAttribute (e : PendingElement) (name : String) (value : Option String)
    (space : Option String) : PendingElement :=
  match value with
  | some value =>
    if name = "class" && e.attributes.any (·.name == name) then
      { e with attributes := extend name value e.attributes }
    else e.setAttribute name (some value) space
  | none => e.setAttribute name none space

/-- The opening tag. -/
def text (e : PendingElement) : String :=
  "<" ++ e.tag ++ String.join (e.attributes.map Attribute.text) ++ ">"

end PendingElement

namespace Sink

def append (s : Sink) (markup : String) : Sink := { s with output := s.output ++ markup }

def appendText (s : Sink) (text : String) : Sink := s.append (Text.escapeText text)

def appendComment (s : Sink) (text : String) : Sink := s.append ("<!--" ++ text ++ "-->")

/-- Begins an element; one that is pending is forgotten. -/
def openElement (s : Sink) (tag : String) : Sink := { s with pending := some { tag } }

def hasPending (s : Sink) : Bool := s.pending.isSome

/-- Changes the pending element. -/
def onPending (s : Sink) (operation : ElementOp) (change : PendingElement → PendingElement) :
    Result :=
  match s.pending with
  | some e => .ok { s with pending := some (change e) }
  | none => .error operation

def setAttribute (s : Sink) (name : String) (value space : Option String) : Result :=
  s.onPending .setAttribute fun e => e.setAttribute name value space

def setComponentAttribute (s : Sink) (name : String) (value space : Option String) : Result :=
  s.onPending (if name = "class" then .setComponentAttribute else .setAttribute)
    fun e => e.setComponentAttribute name value space

/-- Writes the opening tag of the pending element. -/
def flushElement (s : Sink) : Result :=
  match s with
  | ⟨output, some e, stack⟩ => .ok ⟨output ++ e.text, none, e.tag :: stack⟩
  | ⟨_, none, _⟩ => .error .flushElement

/-- Writes the closing tag of the innermost open element. -/
def closeElement (s : Sink) : Result :=
  match s with
  | ⟨output, pending, tag :: stack⟩ =>
    let closing := if voidElements.contains tag then "" else "</" ++ tag ++ ">"
    .ok ⟨output ++ closing, pending, stack⟩
  | ⟨_, _, []⟩ => .error .closeElement

end Sink

end TemplateMachine
