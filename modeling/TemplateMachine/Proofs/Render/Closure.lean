import TemplateMachine.Proofs.Render.Request
import TemplateMachine.Proofs.Run.Closure
import TemplateMachine.Proofs.Run.Invariant

/-! Yielded blocks are closures.  Wherever a compiled template comes to a yield, the block that is
called sees the place where it was written. -/

namespace TemplateMachine

/-! ### Runs -/

section

variable {setup : Setup} {m m' m'' : Machine} {k : Nat} {fuel : Nat} {e : Stop RuntimeError}
variable {out : EStateM.Result (Stop Fault) World Unit} {slot : UInt32} {start : Machine}

end

namespace Request

variable {q : Request} {strategy : Strategy} {maxStack : Nat} {f : Fragment} {handle : UInt32}
variable {program : Program}

end Request

/-! ### A yield, by computation -/

instance Heap.decidableHolds (h : Heap) :
    (code : List Instruction) → (address : Nat) → Decidable (h.Holds address code)
  | [], _ => .isTrue trivial
  | i :: rest, address =>
    have := decidableHolds h rest (address + 4)
    inferInstanceAs (Decidable (h.word? address = some i.op.number ∧
      h.word? (address + 1) = some i.a ∧ h.word? (address + 2) = some i.b ∧ h.word? (address + 3) =
      some i.c ∧ h.Holds (address + 4) rest))

end TemplateMachine
