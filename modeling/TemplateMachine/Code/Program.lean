import TemplateMachine.Code.Heap
import TemplateMachine.Code.Instruction
import TemplateMachine.Code.Primitive

/-! A program: its heap of code, its constants, and which fragments are compiled already.  A
fragment that is being compiled counts as compiled, so that one that reaches itself finds the handle
that is reserved for it. -/

namespace TemplateMachine

structure Program where
  heap : Heap := {}
  constants : Constants := Constants.initial
  /-- The fragments that have a handle, the latest first. -/
  linked : List (FragmentId × UInt32) := []
  /-- The number of the next nested fragment. -/
  fresh : Nat := 0
deriving Inhabited

namespace Program

/-- The handle of a fragment. -/
def linked? (p : Program) (id : FragmentId) : Option UInt32 := p.linked.lookup id

/-- Takes back that a fragment has a handle. -/
def unlink (p : Program) (id : FragmentId) : Program :=
  { p with linked := p.linked.filter fun entry => entry.1 != id }

end Program

end TemplateMachine
