import TemplateMachine.Proofs.Emission.Once

/-! The code that calls a block with values that are on the stack.  It is read off the steps of the
builder, and has its shape in every program that grows out of the one that they leave. -/

namespace TemplateMachine

/-- Among the constants no other fragment has the identity of this one. -/
def Constants.Identifies (c : Constants) (f : Fragment) : Prop :=
  ∀ index g, c.fragments.get? index = some g → g.id = f.id → g = f

namespace Emit

section

variable {c : BuildContext} {b b' : Builder}

theorem op_ok {o : Opcode} {i j k : UInt32} {u : Unit} (h : op o i j k c b = .ok u b') :
    b' = { b with code := b.code.push ⟨o, i, j, k⟩ } := modify_ok h

theorem onConstants_ok {α : Type} {add : Constants → α × Constants} {a : α}
    (h : onConstants add c b = .ok a b') :
    a = (add b.program.constants).1 ∧
      b' = { b with program := { b.program with constants := (add b.program.constants).2 } } := by
  cases h
  exact ⟨rfl, rfl⟩

theorem linked_ok {f : Fragment} {handle : UInt32} (h : linked f c b = .ok handle b') :
    ∃ p, c.link f b.program = .ok handle p ∧ b' = { b with program := p } := by
  replace h : onProgram (c.link f) c b = .ok handle b' := h
  unfold onProgram at h
  split at h
  split at h
  · cases h
    exact ⟨_, ‹_›, rfl⟩
  · cases h

theorem primitive_ok {p : Primitive} {u : Unit} (h : primitive p c b = .ok u b') :
    b' = { b with
      program := { b.program with constants := (p.encode b.program.constants).2 }
      code := b.code.push ⟨.primitive, (p.encode b.program.constants).1, 0, 0⟩ } := by
  obtain ⟨_, _, hword, h⟩ := bind_ok h
  obtain ⟨rfl, rfl⟩ := onConstants_ok hword
  exact op_ok h

theorem fragmentConstant_ok {f : Fragment} {u : Unit} (h : fragmentConstant f c b = .ok u b') :
    b' = { b with
      program := { b.program with constants := (b.program.constants.fragment f).2 }
      code := b.code.push ⟨.constant, (b.program.constants.fragment f).1, 0, 0⟩ } := by
  obtain ⟨_, _, hindex, h⟩ := bind_ok h
  obtain ⟨rfl, rfl⟩ := onConstants_ok hindex
  exact op_ok h

theorem bindParameters_ok {depth : UInt32} {symbols : List UInt32} {u : Unit}
    (h : bindParameters depth symbols c b = .ok u b') :
    b' = { b with code := b.code ++ (Coding.bindParameters depth symbols).toArray } := by
  induction symbols generalizing depth b with
  | nil =>
    obtain ⟨-, rfl⟩ := pure_ok h
    simp [Coding.bindParameters]
  | cons symbol rest ih =>
    obtain ⟨_, _, hdup, h⟩ := bind_ok h
    obtain rfl := op_ok hdup
    obtain ⟨_, _, hset, h⟩ := bind_ok h
    obtain rfl := op_ok hset
    rw [ih h]
    simp [Coding.bindParameters]

end

/-! ### Blocks -/

section

variable {outer f : Fragment} {lookup : Lookup} {strategy : Strategy} {fuel : Nat} {b b' : Builder}

/-- The code that pushes a block finds it among the constants, or has its handle. -/
theorem pushBlock_ok {u : Unit}
    (h : pushBlock (some f) (outer.context lookup strategy fuel) b = .ok u b')
    (hclosed : b.program.constants.Closed) (hown : b.program.constants.Identifies f) :
    ∃ push, b'.code.toList = b.code.toList ++ push ∧ ∀ l : Linkage, b'.program.Grows l.program →
      l.program.Fits → l.known f.id = some f →
      ((outer.context lookup strategy fuel).coding l).block (some f) push := by
  cases strategy with
  | lazy =>
    obtain rfl := fragmentConstant_ok h
    refine ⟨_, Array.toList_push, fun l hgrows hfits hknown => ?_⟩
    obtain ⟨g, hg, hid⟩ := Pool.get?_intern_self (p := b.program.constants.fragments) (v := f)
      (hgrows.constants.fits hfits.constants).fragments.numbered
    obtain rfl : g = f := (Pool.get?_intern hg).elim (fun hold => hown _ g hold (eq_of_beq hid)) id
    exact ⟨_, hknown, hgrows.constants.fragments.get? hg, rfl⟩
  | eager =>
    replace h : (linked f >>= fun handle => primitive (.number (Binary64.ofNat handle.toNat)))
        (outer.context lookup .eager fuel) b = .ok u b' := h
    obtain ⟨handle, _, hlinked, h⟩ := bind_ok h
    obtain ⟨p, hlink, rfl⟩ := linked_ok hlinked
    obtain rfl := primitive_ok h
    have hhandle : p.linked? f.id = some handle := Link.linked_of_fragment hclosed hlink
    refine ⟨_, Array.toList_push, fun l hgrows hfits hknown => ⟨handle, hknown, ?_, _, ?_, rfl⟩⟩
    · exact hgrows.linked _ _ hhandle
    · exact Primitive.decode?_encode hgrows.constants
        (hgrows.constants.fits hfits.constants).encodable

theorem resolveBlock_ok {c : BuildContext} {u : Unit} (h : resolveBlock c b = .ok u b')
    (l : Linkage) :
    b' = { b with code := b.code ++ (c.coding l).resolve.toArray } := by
  obtain ⟨lookup, strategy, layout, link⟩ := c
  cases strategy with
  | lazy =>
    rw [op_ok h]
    simp [Coding.resolve, BuildContext.coding]
  | eager =>
    obtain ⟨-, rfl⟩ := pure_ok (c := ⟨lookup, .eager, layout, link⟩) h
    simp [Coding.resolve, BuildContext.coding]

/-- Pushing a block and calling it, before other steps. -/
theorem callBlock_ok {next : Emit Unit} {u : Unit}
    (h : (do
      pushBlock (some f)
      resolveBlock
      op .invokeVirtual
      next) (outer.context lookup strategy fuel) b = .ok u b')
    (hclosed : b.program.constants.Closed) (hown : b.program.constants.Identifies f) :
    ∃ b₁ push, next (outer.context lookup strategy fuel) b₁ = .ok u b' ∧
      (∀ l : Linkage, b₁.code.toList = b.code.toList ++
        (push ++ ((outer.context lookup strategy fuel).coding l).resolve ++
          [⟨.invokeVirtual, 0, 0, 0⟩])) ∧
      ∀ l : Linkage, b₁.program.Grows l.program → l.program.Fits → l.known f.id = some f →
        ((outer.context lookup strategy fuel).coding l).block (some f) push := by
  obtain ⟨_, b₁, hpush, h⟩ := bind_ok h
  obtain ⟨push, hcode, hshape⟩ := pushBlock_ok hpush hclosed hown
  obtain ⟨_, b₂, hresolve, h⟩ := bind_ok h
  obtain ⟨_, _, hinvoke, h⟩ := bind_ok h
  obtain rfl := op_ok hinvoke
  refine ⟨_, push, h, fun l => ?_, fun l => ?_⟩
  · rw [resolveBlock_ok hresolve l]
    simp [hcode]
  · rw [resolveBlock_ok hresolve l]
    exact hshape l

/-- The call of a block has its shape wherever the program has grown. -/
theorem invokeStaticBlock_ok {supplied : UInt32} {u : Unit}
    (h : invokeStaticBlock f supplied (outer.context lookup strategy fuel) b = .ok u b')
    (hclosed : b.program.constants.Closed) (hown : b.program.constants.Identifies f) {l : Linkage}
    (hgrows : b'.program.Grows l.program) (hfits : l.program.Fits) (hknown : l.known f.id = some f)
    {code : List Instruction} (hcode : b'.code.toList = b.code.toList ++ code) :
    ((outer.context lookup strategy fuel).coding l).staticBlock f supplied code := by
  unfold invokeStaticBlock at h
  rcases hbound : f.table.parameters.take supplied.toNat with _ | ⟨symbol, rest⟩
  · simp only [hbound, List.isEmpty_nil, if_true] at h
    obtain ⟨_, _, hframe, h⟩ := bind_ok h
    obtain rfl := op_ok hframe
    obtain ⟨b₁, push, h, hcall, hpush⟩ := callBlock_ok h hclosed hown
    obtain rfl := op_ok h
    refine ⟨push, hpush l hgrows hfits hknown, ?_⟩
    refine List.append_cancel_left (hcode.symm.trans ?_)
    simp [hcall l, hbound, Coding.enterParameters, Coding.leaveParameters]
  · simp only [hbound, List.isEmpty_cons, if_false, Bool.false_eq_true] at h
    obtain ⟨_, _, hframe, h⟩ := bind_ok h
    obtain rfl := op_ok hframe
    obtain ⟨_, _, hscope, h⟩ := bind_ok h
    obtain rfl := op_ok hscope
    obtain ⟨_, _, hbind, h⟩ := bind_ok h
    obtain rfl := bindParameters_ok hbind
    obtain ⟨b₁, push, h, hcall, hpush⟩ := callBlock_ok h hclosed hown
    obtain ⟨_, _, hleave, h⟩ := bind_ok h
    obtain rfl := op_ok hleave
    obtain rfl := op_ok h
    refine ⟨push, hpush l hgrows hfits hknown, ?_⟩
    refine List.append_cancel_left (hcode.symm.trans ?_)
    simp [hcall l, hbound, Coding.enterParameters, Coding.leaveParameters]

end

end Emit

end TemplateMachine
