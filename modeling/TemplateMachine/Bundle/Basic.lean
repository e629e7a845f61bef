import TemplateMachine.Json.Reader
import TemplateMachine.Machine.Builtin
import TemplateMachine.Machine.Registry
import TemplateMachine.Template.Decode

/-! Bundles: a template together with the components, partials, helpers and modifiers it may name,
as one document. -/

namespace TemplateMachine

/-- Which manager a component has. -/
inductive ManagerKind where
  | templateOnly
  | args
deriving DecidableEq, Inhabited

def ManagerKind.manager : ManagerKind → Manager
  | .templateOnly => .templateOnly
  | .args => .args

structure ComponentSource where
  layout : Template
  manager : ManagerKind
deriving Inhabited

structure Bundle where
  referer : String
  template : Template
  /-- Components in the order of their names. -/
  components : List (String × ComponentSource)
  partials : List (String × Template)
  /-- The names of built-in helpers. -/
  helpers : List String
  modifiers : List String
deriving Inhabited

/-- A name that is not one of a built-in. -/
inductive BuiltinError where
  | unknownHelper (name : String)
  | unknownModifier (name : String)
deriving DecidableEq, Inhabited

/-- The name of an error in reports. -/
def BuiltinError.name : BuiltinError → String
  | .unknownHelper _ => "UnknownHelper"
  | .unknownModifier _ => "UnknownModifier"

def BuiltinError.message : BuiltinError → String
  | .unknownHelper name => "unknown builtin helper " ++ CompileError.named name
  | .unknownModifier name => "unknown builtin modifier " ++ CompileError.named name

/-- The module that a template without a name belongs to. -/
def defaultReferer : String := "main"

/-! ### Decoding -/

namespace Json.Document

/-- Entries in the order of their names, with `name` set to `value`. -/
def insertEntry {α : Type} (name : String) (value : α) : List (String × α) → List (String × α)
  | [] => [(name, value)]
  | (n, v) :: rest =>
    if name = n then (name, value) :: rest
    else if name < n then (name, value) :: (n, v) :: rest
    else (n, v) :: insertEntry name value rest

/-- The members of an object in the order of their names; of several with one name the last
counts. -/
def entries? {α : Type} (d : Document) (read : Document → Option α) : Option (List (String × α)) :=
  match d with
  | .obj members => do
    let values ← members.mapM fun (name, c) => return (name, ← read c)
    return values.foldl (fun sorted (name, value) => insertEntry name value sorted) []
  | _ => none

end Json.Document

open Json Json.Document

def ManagerKind.ofDocument? (d : Document) : Option ManagerKind := do
  let (name, payload) ← d.variant?
  if !isUnit payload then none
  else match name with
    | "template-only" => some .templateOnly
    | "args" => some .args
    | _ => none

def ComponentSource.ofDocument? (d : Document) : Option ComponentSource := do
  let [layout, manager] ← d.record? ["layout", "manager"] | none
  return ⟨← required layout fun c _ => Template.ofDocument? c,
    ← orDefault manager .templateOnly fun c _ => ManagerKind.ofDocument? c⟩

namespace Bundle

def ofDocument? (d : Document) : Option Bundle := do
  let [referer, template, components, partials, helpers, modifiers] ←
    d.record? ["referer", "template", "components", "partials", "helpers", "modifiers"] | none
  return ⟨← orDefault referer defaultReferer fun c _ => c.asString?,
    ← required template fun c _ => Template.ofDocument? c,
    ← orDefault components [] fun c _ => c.entries? ComponentSource.ofDocument?,
    ← orDefault partials [] fun c _ => c.entries? Template.ofDocument?,
    ← orDefault helpers [] fun c _ => c.asStrings?,
    ← orDefault modifiers [] fun c _ => c.asStrings?⟩

/-- The bundle of a text. -/
def parse? (text : String) : Option Bundle := (Document.parse? text).bind ofDocument?

/-! ### Registration -/

/-- The entry template. -/
def entry (b : Bundle) : Fragment := .ofLayout .entry ⟨b.template, b.referer⟩

/-- The built-ins of several names. -/
def builtins {α : Type} (find : String → Option α) (unknown : String → BuiltinError)
    (names : List String) : Except BuiltinError (List (String × α)) :=
  names.mapM fun name =>
    match find name with
    | some a => .ok (name, a)
    | none => .error (unknown name)

/-- The registry of what the bundle holds. -/
def registry (b : Bundle) : Except BuiltinError Registry := do
  let helpers ← builtins Helper.builtin? .unknownHelper b.helpers
  let modifiers ← builtins Modifier.builtin? .unknownModifier b.modifiers
  return {
    components := (b.components.map fun (name, source) =>
      ⟨name, source.layout, source.manager.manager⟩).toArray,
    partials := b.partials.toArray, helpers := helpers.toArray, modifiers := modifiers.toArray }

end Bundle

end TemplateMachine
