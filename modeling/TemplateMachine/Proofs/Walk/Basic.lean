import TemplateMachine.Machine.State

/-! Rendering by a walk of the templates themselves, without code, stack or frames.  The walk is
what compiled code is held against.  A slot that holds a block holds it together with the slots of
the place it was written in, and whatever is rendered below a component is rendered with that
component as the current one. -/

namespace TemplateMachine

/-- The fragment without its identity: what a render of it depends on. -/
def Fragment.body (f : Fragment) : Fragment := { f with id := .entry }

/-- What a slot holds. -/
inductive Binding where
  | empty
  | value (reference : Reference)
  /-- A block, with the slots of the place it was written in. -/
  | block (body : Fragment) (written : UInt32 → Binding)

abbrev Slots := UInt32 → Binding

namespace Slots

def empty : Slots := fun _ => .empty

def bind (s : Slots) (symbol : UInt32) (binding : Binding) : Slots :=
  fun other => if other = symbol then binding else s other

/-- The value of a slot; null if it holds none. -/
def value (s : Slots) (symbol : UInt32) : Reference :=
  match s symbol with
  | .value r => r
  | _ => .null

/-- Binds parameters to values in order; those left over are null. -/
def bindValues : Slots → List UInt32 → List Reference → Slots
  | s, [], _ => s
  | s, symbol :: rest, [] => bindValues (s.bind symbol (.value .null)) rest []
  | s, symbol :: rest, value :: values => bindValues (s.bind symbol (.value value)) rest values

/-- Binds several slots, the first of the list first. -/
def bindAll (s : Slots) (bindings : List (UInt32 × Binding)) : Slots :=
  bindings.foldl (fun s binding => s.bind binding.1 binding.2) s

end Slots

/-- Why a walk fails. -/
inductive Fault where
  /-- A block or layout that cannot be compiled was to be rendered. -/
  | uncompilable
  | helperFailed (message : String)
  | managerFailed (message : String)
  | noOpenElement (operation : ElementOp)
  | notAComponent (shown : String)
  | unknownComponent (name : String)

/-- What a walk changes. -/
structure World where
  sink : Sink := {}
  /-- Instances to be destroyed of invocations in progress, the innermost and newest first. -/
  transactions : List (List Destructor) := []
  /-- Instances to be destroyed of finished invocations, the newest first. -/
  destructors : List Destructor := []
  /-- The calls of the host so far. -/
  events : History := #[]

abbrev Walk := EStateM (Stop Fault) World

/-- What is fixed for a whole render. -/
structure Scene where
  lookup : Lookup
  host : Host
  cells : Cells

/-- The component whose layout is being rendered. -/
structure Current where
  definition : UInt32
  manager : History → Manager
  inst : Instance

/-- What is fixed for the statements of one fragment. -/
structure Site where
  layout : Layout
  slots : Slots
  current : Option Current

def Site.referer (p : Site) : String := p.layout.referer

/-- Renders a fragment with slots, below a component. -/
abbrev Call := Fragment → Slots → Option Current → Walk Unit

namespace Walk

def fail {α : Type} (fault : Fault) : Walk α := throw (.fault fault)

/-- There is no result: fragments nest too deeply, or the template cannot be compiled. -/
def undefined {α : Type} : Walk α := throw .outOfFuel

def record (e : Event) : Walk Unit := modify fun w => { w with events := w.events.push e }

def emit (write : Sink → Sink) : Walk Unit := modify fun w => { w with sink := write w.sink }

/-- An operation on the sink that needs an element. -/
def onElement (change : Sink → Sink.Result) : Walk Unit := fun w =>
  match change w.sink with
  | .ok sink => .ok () { w with sink }
  | .error operation => .error (.fault (.noOpenElement operation)) w

/-- A name without its `@`. -/
def bareName (name : String) : String :=
  match name.toList with
  | '@' :: rest => String.ofList rest
  | _ => name

/-- The value of the option, without which there is no result. -/
def orUndefined {α : Type} : Option α → Walk α
  | some a => pure a
  | none => undefined

end Walk

end TemplateMachine
