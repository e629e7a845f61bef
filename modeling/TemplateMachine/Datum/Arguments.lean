import TemplateMachine.Datum.Reference

/-! Arguments of invocations: look-up, and their combination where a component that has arguments
already is given more. -/

namespace TemplateMachine.ArgumentsOf

variable {ρ : Type}

/-- A positional value. -/
def at? (args : ArgumentsOf ρ) (index : Nat) : Option ρ := args.positional[index]?

/-- The value of a name, by its first occurrence. -/
def named? (args : ArgumentsOf ρ) (name : String) : Option ρ :=
  (args.names.idxOf? name).bind fun i => args.named[i]?

/-- Gives a name a value: the one it has is replaced, a new name comes last. -/
def setNamed (args : ArgumentsOf ρ) (name : String) (value : ρ) : ArgumentsOf ρ :=
  match args.names.idxOf? name with
  | some i => { args with named := args.named.set i value }
  | none => { args with names := args.names ++ [name], named := args.named ++ [value] }

/-- Arguments with more of them: positional ones follow, named ones replace those of their name. -/
def merge (args more : ArgumentsOf ρ) : ArgumentsOf ρ :=
  (more.names.zip more.named).foldl (fun merged (name, value) => merged.setNamed name value)
    { args with positional := args.positional ++ more.positional }

/-- The datum of a positional value; null if there is none. -/
def datumAt (args : Arguments) (cells : Cells) (index : Nat) : Datum :=
  match args.at? index with
  | some r => r.value cells
  | none => .null

/-- The positional data; components are null. -/
def positionalJson (args : Arguments) (cells : Cells) : Json :=
  .arr ((Reference.values cells args.positional).map fun d => d.toJson?.getD .null)

/-- The named data as an object; components are null in it. -/
def namedJson (args : Arguments) (cells : Cells) : Json :=
  namedObject args.names (Reference.values cells args.named)

end TemplateMachine.ArgumentsOf
