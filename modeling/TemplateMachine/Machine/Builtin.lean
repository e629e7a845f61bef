import TemplateMachine.Machine.Host
import TemplateMachine.Text.Case

/-! The helpers and modifiers that every host can offer. -/

namespace TemplateMachine

namespace Helper

/-- The positional data as JSON; components and missing ones are null. -/
def jsonAt (cells : Cells) (args : Arguments) (index : Nat) : Json :=
  ((args.datumAt cells index).toJson?).getD .null

/-- The text of a positional datum; empty if it has none. -/
def textAt (cells : Cells) (args : Arguments) (index : Nat) : String :=
  ((args.datumAt cells index).content?).getD ""

def upper : Helper := fun cells args => .ok (.data (.str (Text.toUpper (textAt cells args 0))))

def lower : Helper := fun cells args => .ok (.data (.str (Text.toLower (textAt cells args 0))))

/-- Whether two data are equal. -/
def equal : Helper := fun cells args =>
  .ok (.data (.bool ((jsonAt cells args 0).eq (jsonAt cells args 1))))

def negate : Helper := fun cells args => .ok (.data (.bool !(args.datumAt cells 0).isTruthy))

/-- The positional data as a list. -/
def array : Helper := fun cells args => .ok (.data (args.positionalJson cells))

/-- The named data as an object. -/
def hash : Helper := fun cells args => .ok (.data (args.namedJson cells))

/-- The texts of the items of a list with a separator between them, which is a comma unless it is
given. -/
def join : Helper := fun cells args =>
  let separator := ((args.named? "separator").bind fun r => (r.value cells).content?).getD ","
  match jsonAt cells args 0 with
  | .arr items =>
    .ok (.data (.str
      (separator.intercalate (items.map fun item => ((Datum.data item).content?).getD ""))))
  | _ => .error "join expects an array"

/-- The helpers by their names. -/
def builtins : List (String × Helper) :=
  [("upper", upper), ("lower", lower), ("eq", equal), ("not", negate), ("array", array),
   ("hash", hash), ("join", join)]

def builtin? (name : String) : Option Helper := builtins.lookup name

end Helper

namespace Modifier

/-- Sets the attribute of a given name. -/
def attr : Modifier := fun cells args =>
  let name := Helper.textAt cells args 0
  if name.isEmpty then .error "attr needs an attribute name"
  else .ok [(name, Helper.textAt cells args 1)]

def builtins : List (String × Modifier) := [("attr", attr)]

def builtin? (name : String) : Option Modifier := builtins.lookup name

end Modifier

end TemplateMachine
