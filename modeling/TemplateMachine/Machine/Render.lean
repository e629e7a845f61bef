import TemplateMachine.Machine.Step

/-! Renders: the machine is run on the block of a template until that returns.  If it fails, the
instances created so far are destroyed: those of invocations in progress first, from the inside
out, then the others, the newest first.  If it succeeds they are destroyed with the result. -/

namespace TemplateMachine

/-- What a render gives if it succeeds. -/
structure Rendered where
  html : String
  /-- The instances to be destroyed, the newest first. -/
  destructors : List Destructor
deriving Inhabited

/-- The calls of the host when a result is destroyed. -/
def Rendered.destroy (r : Rendered) : List Event := r.destructors.map Destructor.event

/-- A render together with what it did to the program and to the host. -/
structure Render where
  result : Except (Stop RuntimeError) Rendered
  program : Program
  events : List Event

namespace Machine

/-- The machine before the block at an address is run with data for `self`. -/
def start (program : Program) (address symbols : Nat) (self : Json) : Machine where
  program
  cells := ⟨#[{ json := self }]⟩
  pc := address
  scopes := ⟨#[(Scope.root (symbols + 1) none).bind 0 (.value (.root 0))]⟩
  scopeStack := [0]
  dynamicScopes := [{}]

/-- The calls that destroy all instances of a render that failed. -/
def unwind (m : Machine) : List Event :=
  (m.transactions.flatten ++ m.destructors).map Destructor.event

end Machine

/-- A bound on the instructions of a render that no render reaches in practice. -/
def instructionLimit : Nat := 0x4000000000000000

/-- Renders a block with data for `self`, within a number of instructions. -/
def Setup.renderWithin (setup : Setup) (fuel : Nat) (program : Program) (entry : UInt32)
    (self : Json) : Render :=
  match program.heap.block? entry with
  | none => ⟨.error (.fault (.invalidHandle entry)), program, []⟩
  | some block =>
    match Exec.run fuel setup (.start program block.offset.toNat block.scopeSize.toNat self) with
    | .ok _ m => ⟨.ok ⟨m.sink.output, m.destructors⟩, m.program, m.events.toList⟩
    | .error e m => ⟨.error e, m.program, m.events.toList ++ m.unwind⟩

def Setup.render (setup : Setup) (program : Program) (entry : UInt32) (self : Json) : Render :=
  setup.renderWithin instructionLimit program entry self

end TemplateMachine
