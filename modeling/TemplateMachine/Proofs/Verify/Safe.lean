import TemplateMachine.Proofs.Verify.Reach
import TemplateMachine.Proofs.Verify.Steady

/-! Execution of verified code.  Whatever state the machine is in, an instruction of a block that
the verifier has accepted finds its operands, and control stays among the instructions of accepted
blocks or goes where the machine was told to return to. -/

namespace TemplateMachine

/-- Where an instruction of a block leads to. -/
inductive Machine.Follows (m : Machine) (b : Block) (i : Instruction) (m' : Machine) : Prop
  /-- To the next instruction of the block.  A yield that finds no block calls nothing. -/
  | next (hret : i.op ≠ .ret) (hcalls : i.op.calls = true → i.op = .invokeYield)
      (hpc : m'.pc = m.pc + instructionWidth) (hbegins : b.Begins m'.pc)
      (hra : i.op = .popFrame ∨ (i.op = .returnTo ∧ b.Begins m'.ra) ∨
        (i.op ≠ .returnTo ∧ m'.ra = m.ra))
  /-- To another instruction of the block. -/
  | jump (hjump : i.op.isJump = true) (hop : i.op ≠ .returnTo) (hbegins : b.Begins m'.pc)
      (hra : m'.ra = m.ra)
  /-- To the beginning of a finished block, which returns to the next instruction of this one. -/
  | call {handle : UInt32} {callee : Block} (hcalls : i.op.calls = true)
      (hcallee : m.program.heap.block? handle = some callee) (hpc : m'.pc = callee.offset.toNat)
      (hra : m'.ra = m.pc + instructionWidth) (hbegins : b.Begins m'.ra)
  /-- To where the machine is to return to. -/
  | ret (hop : i.op = .ret) (hpc : m'.pc = m.ra)

/-! ### Steps -/

section

variable {setup : Setup} {m : Machine} {b : Block} {i : Instruction}

/-- An instruction that ends soundly where it may lead to follows. -/
theorem Exec.Heads.sound {x : Exec Unit} {post : Machine → Prop}
    (h : Heads m.program (m.pc + instructionWidth) m.ra x post)
    (hpost : ∀ m', post m' → m.Follows b i m') :
    EndsSound (m.Follows b i) (x setup (m.fetched i)) :=
  h.mono hpost setup (m.fetched i) rfl rfl rfl

variable (hbegins : b.Begins (m.pc + instructionWidth))

include hbegins

/-- An instruction that goes on to the next one. -/
theorem Exec.Heads.sound_next {x : Exec Unit}
    (h : Heads m.program (m.pc + instructionWidth) m.ra x fun m' =>
      m'.pc = m.pc + instructionWidth ∧ m'.ra = m.ra)
    (hret : i.op ≠ .ret) (hcalls : i.op.calls = true → i.op = .invokeYield)
    (hop : i.op ≠ .returnTo) :
    EndsSound (m.Follows b i) (x setup (m.fetched i)) :=
  h.sound fun _ hm => .next hret hcalls hm.1 (hm.1 ▸ hbegins) (.inr (.inr ⟨hop, hm.2⟩))

theorem Exec.Steady.sound {x : Exec Unit} (h : Steady m.program x) (hret : i.op ≠ .ret)
    (hcalls : i.op.calls = false) (hop : i.op ≠ .returnTo) :
    EndsSound (m.Follows b i) (x setup (m.fetched i)) :=
  (h.weaken fun _ hpc hra => ⟨hpc, hra⟩).sound_next hbegins hret
    (fun h => nomatch hcalls.symm.trans h) hop

/-- An instruction that calls a block. -/
theorem Exec.Calls.follows {m' : Machine} (h : Calls m.program (m.pc + instructionWidth) m')
    (hcalls : i.op.calls = true) : m.Follows b i m' := by
  obtain ⟨handle, callee, hcallee, hpc, hra⟩ := h
  exact .call hcalls hcallee hpc hra (hra ▸ hbegins)

end

/-! ### Operands -/

section

variable {p : Program} {i : Instruction}

/-- What an instruction names exists: the constants, the register, or the finished block. -/
def Program.Provides (p : Program) (i : Instruction) : Prop :=
  let c := p.constants
  match i.op with
  | .text | .comment | .openElement | .getProperty => (c.strings.get? i.a).isSome
  | .staticAttr =>
    (c.strings.get? i.a).isSome ∧ (c.strings.get? i.b).isSome ∧ (c.strings.get? i.c).isSome
  | .dynamicAttr | .componentAttr => (c.strings.get? i.a).isSome ∧ (c.strings.get? i.c).isSome
  | .helper | .modifier | .pushComponentSpec => (c.handles.get? i.a).isSome
  | .pushSymbolTable => (c.tables.get? i.a).isSome
  | .constant => (c.fragments.get? i.a).isSome
  | .pushArgs => (c.getStringArray? i.a).isSome
  | .pushDynamicComponentManager | .curryComponent => (c.referers.get? i.a).isSome
  | .primitive => (Primitive.decode? i.a c).isSome
  | .invokeStatic => (p.heap.block? i.a).isSome
  | .dup => Register.ofNumber? i.a = some .sp ∨ Register.ofNumber? i.a = some .fp
  | .fetch => (Register.ofNumber? i.a).isSome
  | .load | .prepareArgs | .registerComponentDestructor | .getComponentSelf | .getComponentLayout
  | .didCreateElement | .didRenderLayout => Exec.IsSaved i.a
  | .createComponent => Exec.IsSaved i.b
  | _ => True

/-- An operand that is needed is there. -/
theorem Program.of_need_eq_none {there : Bool} {missing : String × UInt32}
    (h : (if there = true then none else some missing) = none) : there = true := by
  cases there with
  | true => rfl
  | false => cases h

/-- Of two operands that are needed both are there. -/
theorem Program.of_orElse_eq_none {α : Type} {x y : Option α} (h : (x <|> y) = none) :
    x = none ∧ y = none := by
  cases x with
  | none => exact ⟨rfl, h⟩
  | some a => cases h

/-- A word that names a register that holds a value. -/
theorem Exec.isSaved_of_any {word : UInt32}
    (h : ((Register.ofNumber? word).any Register.isSaved) = true) : IsSaved word := by
  obtain ⟨r, hr, hsaved⟩ := (Option.any_eq_true _ _).mp h
  exact ⟨r, hr, hsaved⟩

/-- A word that names the top of the stack or of the frame. -/
theorem Exec.sp_or_fp_of_any {word : UInt32}
    (h : ((Register.ofNumber? word).any fun r => r == .sp || r == .fp) = true) :
    Register.ofNumber? word = some .sp ∨ Register.ofNumber? word = some .fp := by
  obtain ⟨r, hr, hends⟩ := (Option.any_eq_true _ _).mp h
  cases r <;> first | exact .inl hr | exact .inr hr | cases hends

open Program in
/-- An instruction that misses no operand is provided for. -/
theorem Program.provides_of_missingOperand? (h : p.missingOperand? i = none) : p.Provides i := by
  obtain ⟨op, x, y, z⟩ := i
  cases op with
  | staticAttr =>
    obtain ⟨hname, hothers⟩ := of_orElse_eq_none h
    obtain ⟨hvalue, hspace⟩ := of_orElse_eq_none hothers
    exact ⟨of_need_eq_none hname, of_need_eq_none hvalue, of_need_eq_none hspace⟩
  | dynamicAttr | componentAttr =>
    obtain ⟨hname, hspace⟩ := of_orElse_eq_none h
    exact ⟨of_need_eq_none hname, of_need_eq_none hspace⟩
  | dup => exact Exec.sp_or_fp_of_any (of_need_eq_none h)
  | load | prepareArgs | registerComponentDestructor | getComponentSelf | getComponentLayout
  | didCreateElement | didRenderLayout | createComponent =>
    exact Exec.isSaved_of_any (of_need_eq_none h)
  | text | comment | openElement | getProperty | helper | modifier | pushComponentSpec
  | pushSymbolTable | constant | pushArgs | pushDynamicComponentManager | curryComponent
  | primitive | invokeStatic | fetch => exact of_need_eq_none h
  | _ => trivial

end

section

variable {setup : Setup} {m : Machine} {b : Block} {i : Instruction}

open Exec Program in
/-- An instruction of an accepted block ends soundly. -/
theorem Program.Sane.perform (hsane : m.program.Sane b) (hbegins : b.Begins m.pc)
    (h : m.program.Admits b m.pc i) :
    EndsSound (m.Follows b i) (Exec.perform m.pc i setup (m.fetched i)) := by
  have hoperands := provides_of_missingOperand? h.operands
  have hnext : i.op ≠ .ret → b.Begins (m.pc + instructionWidth) := h.begins hbegins
  have hjump := h.jump
  obtain ⟨op, x, y, z⟩ := i
  cases op with
  | helper => exact (steady_callHelper hoperands).sound (hnext nofun) nofun rfl nofun
  | setVariable =>
    exact (Steady.bind steady_popRef fun _ => steady_bindSlot _ _).sound (hnext nofun)
      nofun rfl nofun
  | setBlock =>
    exact (Steady.bind steady_popBlock fun _ => steady_bindSlot _ _).sound (hnext nofun)
      nofun rfl nofun
  | getVariable => exact (steady_getVariable x).sound (hnext nofun) nofun rfl nofun
  | getProperty =>
    have hthere : (m.program.constants.strings.get? x).isSome = true := hoperands
    exact (Steady.bind (steady_constant hthere) fun _ =>
      .bind steady_popRef fun _ => steady_pushRef _).sound (hnext nofun) nofun rfl nofun
  | getBlock => exact (steady_getBlock x).sound (hnext nofun) nofun rfl nofun
  | hasBlock => exact (steady_hasBlock x).sound (hnext nofun) nofun rfl nofun
  | hasBlockParams => exact steady_hasBlockParams.sound (hnext nofun) nofun rfl nofun
  | concat =>
    exact (Steady.bind (steady_popRefs _ _) fun _ => steady_pushRef _).sound (hnext nofun)
      nofun rfl nofun
  | constant =>
    have hthere : (m.program.constants.fragments.get? x).isSome = true := hoperands
    exact (Steady.bind (steady_constant hthere) fun _ =>
      steady_push _).sound (hnext nofun) nofun rfl nofun
  | primitive =>
    have hthere : (Primitive.decode? x m.program.constants).isSome = true := hoperands
    exact (Steady.bind (steady_constant hthere) fun _ =>
      steady_push _).sound (hnext nofun) nofun rfl nofun
  | primitiveReference => exact steady_primitiveReference.sound (hnext nofun) nofun rfl nofun
  | dup =>
    exact (steady_dup y hoperands).sound (hnext nofun) nofun rfl nofun
  | pop => exact (steady_drop _).sound (hnext nofun) nofun rfl nofun
  | load => exact (steady_load hoperands).sound (hnext nofun) nofun rfl nofun
  | fetch => exact (steady_fetch hoperands).sound (hnext nofun) nofun rfl nofun
  | toBoolean =>
    exact (Steady.bind steady_popRef fun _ => steady_pushRef _).sound (hnext nofun) nofun rfl nofun
  | rootScope => exact (steady_enterRootScope _ _).sound (hnext nofun) nofun rfl nofun
  | childScope => exact steady_enterChildScope.sound (hnext nofun) nofun rfl nofun
  | popScope => exact steady_leaveScope.sound (hnext nofun) nofun rfl nofun
  | pushDynamicScope =>
    exact (Steady.modify fun _ => rfl : Steady _ enterDynamicScope).sound (hnext nofun)
      nofun rfl nofun
  | popDynamicScope => exact steady_leaveDynamicScope.sound (hnext nofun) nofun rfl nofun
  | pushFrame => exact steady_pushFrame.sound (hnext nofun) nofun rfl nofun
  | popFrame =>
    exact heads_popFrame.sound fun m' hpc => .next nofun nofun hpc (hpc ▸ hnext nofun) (.inl rfl)
  | jump =>
    exact (heads_jump hsane hbegins (hjump rfl)).sound fun m' hm => .jump rfl nofun hm.1 hm.2
  | jumpIf | jumpUnless =>
    refine (heads_jumpWhen _ hsane hbegins (hjump rfl)).sound fun m' hm => ?_
    rcases hm.1 with hthere | hpc
    · exact .jump rfl nofun hthere hm.2
    · exact .next nofun nofun hpc (hpc ▸ hnext nofun) (.inr (.inr ⟨nofun, hm.2⟩))
  | returnTo =>
    exact (heads_returnTo hsane hbegins (hjump rfl)).sound fun m' hm =>
      .next nofun nofun hm.1 (hm.1 ▸ hnext nofun) (.inr (.inl ⟨rfl, hm.2⟩))
  | ret =>
    have hret : Heads m.program (m.pc + instructionWidth) m.ra
        (modify fun m => { m with pc := m.ra } : Exec Unit) fun m' => m'.pc = m.ra :=
      .modify fun _ _ _ hra => hra
    exact hret.sound fun m' hpc => .ret rfl hpc
  | invokeVirtual => exact heads_invokeVirtual.sound fun m' hm => hm.follows (hnext nofun) rfl
  | invokeStatic => exact (heads_call x).sound fun m' hm => hm.follows (hnext nofun) rfl
  | invokeYield =>
    refine heads_invokeYield.sound fun m' hm =>
      hm.elim (fun hm => hm.follows (hnext nofun) rfl) fun hm => ?_
    exact .next nofun (fun _ => rfl) hm.1 (hm.1 ▸ hnext nofun) (.inr (.inr ⟨nofun, hm.2⟩))
  | enter =>
    exact (Steady.modify fun _ => rfl : Steady _ enterBlock).sound (hnext nofun) nofun rfl nofun
  | exit => exact steady_exitBlock.sound (hnext nofun) nofun rfl nofun
  | compileBlock => exact heads_compileBlock.sound_next (hnext nofun) nofun nofun nofun
  | pushSymbolTable =>
    have hthere : (m.program.constants.tables.get? x).isSome = true := hoperands
    exact (Steady.bind (steady_constant hthere) fun _ =>
      steady_push _).sound (hnext nofun) nofun rfl nofun
  | pushArgs => exact (steady_gatherArgs y hoperands).sound (hnext nofun) nofun rfl nofun
  | text | comment | openElement =>
    have hthere : (m.program.constants.strings.get? x).isSome = true := hoperands
    exact (Steady.bind (steady_constant hthere) fun _ =>
      steady_emit _).sound (hnext nofun) nofun rfl nofun
  | dynamicContent => exact (steady_dynamicContent _).sound (hnext nofun) nofun rfl nofun
  | flushElement =>
    show EndsSound _ (onElement Sink.flushElement setup _)
    exact (steady_onElement _).sound (hnext nofun) nofun rfl nofun
  | closeElement =>
    show EndsSound _ (onElement Sink.closeElement setup _)
    exact (steady_onElement _).sound (hnext nofun) nofun rfl nofun
  | staticAttr =>
    obtain ⟨hname, hvalue, hspace⟩ := hoperands
    exact (steady_staticAttribute hname hvalue hspace).sound (hnext nofun) nofun rfl nofun
  | dynamicAttr | componentAttr =>
    obtain ⟨hname, hspace⟩ := hoperands
    exact (steady_setAttribute _ hname hspace).sound (hnext nofun) nofun rfl nofun
  | modifier => exact (steady_applyModifier hoperands).sound (hnext nofun) nofun rfl nofun
  | putIterator => exact steady_putIterator.sound (hnext nofun) nofun rfl nofun
  | enterList =>
    exact (heads_enterList hsane hbegins (hjump rfl)).sound_next (hnext nofun) nofun nofun nofun
  | exitList => exact steady_exitList.sound (hnext nofun) nofun rfl nofun
  | iterate =>
    refine (heads_iterate hsane hbegins (hjump rfl)).sound fun m' hm => ?_
    rcases hm.1 with hthere | hpc
    · exact .jump rfl nofun hthere hm.2
    · exact .next nofun nofun hpc (hpc ▸ hnext nofun) (.inr (.inr ⟨nofun, hm.2⟩))
  | isComponent =>
    exact (Steady.bind steady_popRef fun _ => steady_pushRef _).sound (hnext nofun) nofun rfl nofun
  | curryComponent => exact (steady_curry hoperands).sound (hnext nofun) nofun rfl nofun
  | pushComponentSpec =>
    have hthere : (m.program.constants.handles.get? x).isSome = true := hoperands
    exact (Steady.bind (steady_constant hthere) fun _ =>
      steady_pushComponent _ _).sound (hnext nofun) nofun rfl nofun
  | pushDynamicComponentManager =>
    exact (steady_pushDynamicComponent hoperands).sound (hnext nofun) nofun rfl nofun
  | prepareArgs =>
    exact (steady_prepareArgs hoperands).sound (hnext nofun) nofun rfl nofun
  | createComponent =>
    exact (steady_create x hoperands).sound (hnext nofun) nofun rfl nofun
  | registerComponentDestructor =>
    exact (steady_registerComponentDestructor hoperands).sound (hnext nofun) nofun rfl nofun
  | beginComponentTransaction =>
    exact (Steady.modify fun _ => rfl : Steady _ beginTransaction).sound (hnext nofun)
      nofun rfl nofun
  | commitComponentTransaction => exact steady_commitTransaction.sound (hnext nofun) nofun rfl nofun
  | getComponentSelf =>
    exact (steady_pushSelf hoperands).sound (hnext nofun) nofun rfl nofun
  | getComponentLayout =>
    exact (heads_pushLayout hoperands).sound_next (hnext nofun) nofun nofun nofun
  | invokeComponentLayout =>
    exact heads_invokeLayout.sound fun m' hm => hm.follows (hnext nofun) rfl
  | didCreateElement =>
    exact (steady_elementCreated hoperands).sound (hnext nofun) nofun rfl nofun
  | didRenderLayout =>
    exact (steady_layoutRendered hoperands).sound (hnext nofun) nofun rfl nofun

/-- So does a step of the machine. -/
theorem Program.Sane.step (hsane : m.program.Sane b) (hbegins : b.Begins m.pc)
    (h : m.program.Admits b m.pc i) : Exec.EndsSound (m.Follows b i) (Exec.step setup m) := by
  have hperform : Exec.EndsSound (m.Follows b i) (Exec.perform m.pc i setup (m.fetched i)) :=
    hsane.perform hbegins h
  rw [Exec.step_of_next? setup h.there]
  cases hout : Exec.perform m.pc i setup (m.fetched i) with
  | error e m' =>
    rw [hout] at hperform
    cases e <;> exact hperform
  | ok u m' =>
    rw [hout] at hperform
    simp only
    split
    · exact hperform
    · split
      · exact (rfl : RuntimeError.isUnverified (.stackOverflow _ _) = false)
      · exact hperform

end

namespace Program

variable {p : Program} {b : Block} {handle : UInt32}

/-! ### Code -/

/-- A block of the heap that is code.  Nothing here is about the verifier. -/
structure IsCode (p : Program) (b : Block) : Prop where
  /-- The block lies within the heap, -/
  within : b.offset.toNat + b.size.toNat ≤ p.heap.words.size
  /-- is a whole number of instructions, -/
  whole : instructionWidth ∣ b.size.toNat
  /-- each of which is known and provided for. -/
  instructions : ∀ address, b.Begins address →
    ∃ i, p.heap.instruction? address = some i ∧ p.Provides i
  /-- Every jump leads to some other instruction of the block. -/
  jumps : ∀ address i, b.Begins address → p.heap.instruction? address = some i →
    i.op.isJump = true →
      ∃ target : Nat, target = (address : Int) + relativeOffset i.a ∧
        target ≠ address ∧ b.Begins target
  /-- The last instruction returns. -/
  returns : ∃ last i, b.Begins last ∧ last + instructionWidth = b.offset.toNat + b.size.toNat ∧
    p.heap.instruction? last = some i ∧ i.op = .ret

theorem relativeOffset_ne_zero_of_checkTarget {address : Nat} {i : Instruction}
    (h : checkTarget b address i = .ok ()) : relativeOffset i.a ≠ 0 := by
  intro hzero
  rw [checkTarget, if_pos hzero] at h
  cases h

theorem Sane.isCode (h : p.Sane b) : p.IsCode b where
  within := h.within
  whole := Nat.dvd_of_mod_eq_zero h.whole
  instructions address hbegins := by
    obtain ⟨i, hadmits⟩ := h.admits address hbegins
    exact ⟨i, hadmits.there, provides_of_missingOperand? hadmits.operands⟩
  jumps address i hbegins hi hjump := by
    obtain ⟨j, hadmits⟩ := h.admits address hbegins
    obtain rfl : i = j := Option.some.inj (hi.symm.trans hadmits.there)
    obtain ⟨target, htarget, -, hthere⟩ := h.target hbegins (hadmits.jump hjump)
    have hmoves := relativeOffset_ne_zero_of_checkTarget (hadmits.jump hjump)
    exact ⟨target, htarget.symm, by omega, hthere⟩
  returns := by
    have hwhole := h.whole
    have hnonempty := h.nonempty
    -- The block is not empty, so it has an instruction that nothing follows.
    have hlast : b.Begins (b.offset.toNat + 4 * (b.size.toNat / 4 - 1)) := ⟨_, by omega, rfl⟩
    obtain ⟨i, hadmits⟩ := h.admits _ hlast
    refine ⟨_, i, hlast, by rw [instructionWidth]; omega, hadmits.there, ?_⟩
    by_contra hop
    have hfollowed := hadmits.last hop
    omega

/-- The finished blocks of an accepted program are code. -/
theorem Accepted.isCode (h : p.Accepted) (hb : p.heap.block? handle = some b) : p.IsCode b :=
  (h.sane hb).isCode

/-- So are those of every program that is reached without a failure to compile. -/
theorem Reachable.isCode (h : p.Reachable) (hwords : p.heap.words.size < 0x80000000)
    (hb : p.heap.block? handle = some b) : p.IsCode b :=
  Accepted.isCode (h.complete.verifyAll hwords) hb

/-! ### Execution -/

/-- The finished blocks of an accepted program lie within the heap, and so does each of the slices
that a listing takes of them.  At every instruction of such a block, whatever the state of the
machine, a step does not fail because of the code, and leads to an instruction of the same block, to
the beginning of a finished block, or to where the machine is to return to. -/
theorem Accepted.executes_safely (h : p.Accepted) (hb : p.heap.block? handle = some b) :
    b.offset.toNat + b.size.toNat ≤ p.heap.words.size ∧
      (∀ address, b.Begins address →
        (p.heap.words.extract address
          (min (b.offset.toNat + b.size.toNat) (address + instructionWidth))).size =
          instructionWidth) ∧
      ∀ setup m, m.program = p → b.Begins m.pc →
        ∃ i, m.next? = some i ∧ Exec.EndsSound (m.Follows b i) (Exec.step setup m) := by
  have hsane := h.sane hb
  refine ⟨hsane.within, ?_, ?_⟩
  · rintro _ ⟨k, hk, rfl⟩
    have hwithin := hsane.within
    have hwhole := hsane.whole
    rw [Array.size_extract, instructionWidth]
    omega
  · rintro setup m rfl hbegins
    obtain ⟨i, hadmits⟩ := hsane.admits _ hbegins
    exact ⟨i, hadmits.there, hsane.step hbegins hadmits⟩

/-- The greeting at the jump over its block, with nothing on the stack that could be popped. -/
theorem greeting_executes_safely :
    let compiled := stateAfter (greetingSetup.options.compile greeting {})
    let m : Machine := { Machine.start compiled 0 0 .null with pc := 24, stack := #[] }
    ∃ b, compiled.Accepted ∧ compiled.heap.block? 0 = some b ∧ b.Begins 24 ∧
      ∃ i, m.next? = some i ∧ i.op = .jumpUnless ∧
      Exec.EndsSound (m.Follows b i) (Exec.step greetingSetup m) := by
  intro compiled m
  have haccepted : compiled.Accepted := ⟨16, by decide +kernel⟩
  have hb : compiled.heap.block? 0 = some ⟨0, 64, 0, true⟩ := by decide +kernel
  have hbegins : Block.Begins ⟨0, 64, 0, true⟩ 24 := ⟨6, by decide, rfl⟩
  have hthere : compiled.heap.instruction? 24 = some ⟨.jumpUnless, 24, 0, 0⟩ := by decide +kernel
  obtain ⟨-, -, hsafe⟩ := haccepted.executes_safely hb
  obtain ⟨i, hi, hsound⟩ := hsafe greetingSetup m rfl hbegins
  obtain rfl := Option.some.inj (hthere.symm.trans hi)
  exact ⟨_, haccepted, hb, hbegins, _, hi, rfl, hsound⟩

end Program

end TemplateMachine
