import TemplateMachine.Machine.Host

/-! Traces of a host: what it is called upon for, as lines of text. -/

namespace TemplateMachine

/-- Arguments as text: the list of the positional ones and the object of the named ones. -/
def ArgumentsOf.described (args : Arguments) (cells : Cells) : String :=
  (args.positionalJson cells).text ++ (args.namedJson cells).text

/-- Arguments that need not be there, as text. -/
def describedArgs (cells : Cells) : Option Arguments → String
  | some args => args.described cells
  | none => "none"

namespace Event

/-- The helper that is called. -/
def helper? : Event → Option UInt32
  | .helper handle _ => some handle
  | _ => none

/-- The component whose manager is called. -/
def component? : Event → Option UInt32
  | .create handle _ | .selfReference handle _ | .hasDestructor handle _
  | .elementCreated handle _ _ | .layoutRendered handle _ | .destroy handle _ => some handle
  | _ => none

/-- The line of an event; none if it only asks for something. -/
def line? (cells : Cells) : Event → Option String
  | .helper _ args => some ("helper " ++ args.described cells)
  | .create _ asked =>
    some ("create " ++ asked.name ++ " " ++ describedArgs cells asked.args ++ " " ++
      toString asked.hasDefault ++ " " ++ toString asked.hasInverse)
  | .elementCreated _ inst pending => some ("element " ++ inst.name ++ " " ++ toString pending)
  | .layoutRendered _ inst => some ("rendered " ++ inst.name)
  | .destroy _ inst => some ("destroy " ++ inst.name)
  | .modifier .. | .selfReference .. | .hasDestructor .. => none

end Event

end TemplateMachine
