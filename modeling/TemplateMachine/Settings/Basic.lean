import TemplateMachine.Compile.Lookup

/-! Settings of compilations and renders. -/

namespace TemplateMachine

structure Settings where
  strategy : Strategy := .lazy
  /-- Programs are verified after they are compiled. -/
  verify : Bool := true
  /-- The greatest depth of the machine's stack. -/
  maxStack : Nat := 4096
  /-- Executed instructions are logged. -/
  traceOps : Bool := false
  /-- Which messages are logged. -/
  logLevel : Option String := none
deriving DecidableEq, Inhabited

end TemplateMachine
