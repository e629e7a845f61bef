import TemplateMachine.Bundle.Basic
import TemplateMachine.Code.Verify
import TemplateMachine.Machine.Render
import TemplateMachine.Settings.Basic

/-! From a bundle to markup: names are registered, the entry template is compiled, the program is
verified if that is asked for, and then it is run. -/

namespace TemplateMachine

/-- The stage at which a bundle fails. -/
inductive BundleError where
  | builtin (error : BuiltinError)
  | compile (error : CompileError)
  | verification (error : VerifyError)
  | runtime (error : RuntimeError)
deriving Inhabited

namespace BundleError

/-- What is said about the stage at which a bundle fails, once its names are registered. -/
def stage? : BundleError → Option String
  | .builtin _ => none
  | .compile _ => some "compile error"
  | .verification _ => some "verification failed"
  | .runtime _ => some "runtime error"

/-- What is said about the fault itself. -/
def fault : BundleError → String
  | .builtin e => e.message
  | .compile e => e.message
  | .verification e => e.message
  | .runtime e => e.message

def message (e : BundleError) : String :=
  match e.stage? with
  | some stage => stage ++ ": " ++ e.fault
  | none => e.fault

end BundleError

/-- The same way to stop, with the fault as one of another kind. -/
def Stop.map {ε φ : Type} (f : ε → φ) : Stop ε → Stop φ
  | .fault e => .fault (f e)
  | .outOfFuel => .outOfFuel

/-- A bundle whose entry template is compiled. -/
structure CompiledBundle where
  program : Program
  entry : UInt32
  setup : Setup

namespace CompiledBundle

def render (c : CompiledBundle) (self : Json) : Render := c.setup.render c.program c.entry self

end CompiledBundle

namespace Bundle

/-- Compiles the entry template into a new program. -/
def compile (b : Bundle) (settings : Settings) : Except (Stop BundleError) CompiledBundle := do
  let registry ← b.registry.mapError fun e => .fault (.builtin e)
  let setup : Setup := ⟨registry.options settings.strategy, registry.host, settings.maxStack⟩
  match setup.options.compile b.entry {} with
  | .error stop _ => .error (stop.map .compile)
  | .ok entry program =>
    if settings.verify then
      let _ ← (program.verifyAll true).mapError fun e => .fault (.verification e)
    return { program, entry, setup }

/-- Renders the entry template with data for `self`. -/
def render (b : Bundle) (settings : Settings) (self : Json) :
    Except (Stop BundleError) Rendered := do
  let compiled ← b.compile settings
  (compiled.render self).result.mapError (Stop.map .runtime)

end Bundle

end TemplateMachine
