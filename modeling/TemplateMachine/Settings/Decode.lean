import TemplateMachine.Settings.Basic
import TemplateMachine.Toml.Reader

/-! Settings from TOML.  There are two sections and the level of logging, all of which may be left
out; what is not a setting is an error.  A section may also be an array of its settings in their
order. -/

namespace TemplateMachine

namespace Toml

/-- The settings of a table, by their names; none if it has others. -/
def settings? (names : List String) (entries : Entries) : Option (List (Option Toml)) :=
  if entries.all fun (key, _) => names.contains key then
    some (names.map fun name => entries.lookup name)
  else none

/-- The settings of a section; items of an array beyond the settings are ignored. -/
def section? (names : List String) : Toml → Option (List (Option Toml))
  | .table _ entries => settings? names entries
  | .array items => some ((List.range names.length).map fun i => items[i]?)
  | .tables items => some ((List.range names.length).map fun i => items.reverse[i]?)
  | _ => none

/-- A setting with a default. -/
def orDefault {α : Type} (value : Option Toml) (default : α) (read : Toml → Option α) : Option α :=
  match value with
  | some t => read t
  | none => some default

def asBoolean? : Toml → Option Bool
  | .boolean b => some b
  | _ => none

/-- A number without sign. -/
def asNatural? : Toml → Option Nat
  | .integer n => if 0 ≤ n then some n.toNat else none
  | _ => none

def asString? : Toml → Option String
  | .string s => some s
  | _ => none

/-- A table or an array without contents. -/
def holdsNothing : Toml → Bool
  | .table _ entries => entries.isEmpty
  | .array items => items.isEmpty
  | _ => false

/-- A strategy: its name, or a table with its name as the only key and nothing in it. -/
def asStrategy? : Toml → Option Strategy
  | .string name => Strategy.ofName? name
  | .table _ [(name, value)] => if value.holdsNothing then Strategy.ofName? name else none
  | _ => none

end Toml

namespace Settings

open Toml

/-- A section that may be left out. -/
def sectionOr (value : Option Toml) (names : List String) : Option (List (Option Toml)) :=
  match value with
  | some t => t.section? names
  | none => some (names.map fun _ => none)

def ofEntries? (entries : Entries) : Option Settings := do
  let [compiler, runtime, logLevel] ← settings? ["compiler", "runtime", "log_level"] entries | none
  let [strategy, verify] ← sectionOr compiler ["strategy", "verify"] | none
  let [maxStack, traceOps] ← sectionOr runtime ["max_stack", "trace_ops"] | none
  let initial : Settings := {}
  return {
    strategy := ← orDefault strategy initial.strategy asStrategy?,
    verify := ← orDefault verify initial.verify asBoolean?,
    maxStack := ← orDefault maxStack initial.maxStack asNatural?,
    traceOps := ← orDefault traceOps initial.traceOps asBoolean?,
    logLevel := ← orDefault logLevel none fun t => t.asString?.map some }

/-- The settings of a text. -/
def parse? (text : String) : Option Settings := (Toml.parse? text).bind ofEntries?

end Settings

end TemplateMachine
