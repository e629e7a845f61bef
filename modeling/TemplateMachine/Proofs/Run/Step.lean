import TemplateMachine.Proofs.Run.Leads

/-! A step of the machine, from the code in its heap. -/

namespace TemplateMachine

theorem Opcode.ofNumber?_number (op : Opcode) : Opcode.ofNumber? op.number = some op := by
  cases op <;> rfl

namespace Exec

theorem bind_apply {α β : Type} (x : Exec α) (f : α → Exec β) (setup : Setup) (m : Machine) :
    (x >>= f) setup m =
      match x setup m with
      | .ok a m' => f a setup m'
      | .error e m' => .error e m' := by
  show EStateM.bind (x setup) (fun a => f a setup) m = _
  unfold EStateM.bind
  cases x setup m <;> rfl

theorem pure_apply {α : Type} (a : α) (setup : Setup) (m : Machine) :
    (pure a : Exec α) setup m = .ok a m := rfl

theorem get_apply (setup : Setup) (m : Machine) : (get : Exec Machine) setup m = .ok m m := rfl

theorem read_apply (setup : Setup) (m : Machine) : (read : Exec Setup) setup m = .ok setup m := rfl

theorem modify_apply (change : Machine → Machine) (setup : Setup) (m : Machine) :
    (modify change : Exec Unit) setup m = .ok () (change m) := rfl

theorem orFail_some {α : Type} (a : α) (error : RuntimeError) (setup : Setup) (m : Machine) :
    Exec.orFail (some a) error setup m = .ok a m := rfl

theorem orFail_none {α : Type} (error : RuntimeError) (setup : Setup) (m : Machine) :
    Exec.orFail (none : Option α) error setup m = .error (.fault error) m := rfl

variable {setup : Setup} {m m' : Machine} {i : Instruction} {rest : List Instruction}

theorem word_apply {address : Nat} {w : UInt32} (h : m.program.heap.word? address = some w) :
    Exec.word address setup m = .ok w m := by
  simp only [Exec.word, bind_apply, get_apply, h, orFail_some]

theorem instruction_apply {address : Nat} (h : m.program.heap.instruction? address = some i) :
    Exec.instruction address setup m = .ok i m := by
  obtain ⟨w, hw, h⟩ := Option.bind_eq_some_iff.mp h
  obtain ⟨op, hop, h⟩ := Option.bind_eq_some_iff.mp h
  obtain ⟨a, ha, h⟩ := Option.bind_eq_some_iff.mp h
  obtain ⟨b, hb, h⟩ := Option.bind_eq_some_iff.mp h
  obtain ⟨c, hc, h⟩ := Option.bind_eq_some_iff.mp h
  cases h
  simp only [Exec.instruction, bind_apply, pure_apply, word_apply hw, word_apply ha, word_apply hb,
    word_apply hc, hop, orFail_some]

end Exec

/-- The machine as an instruction finds it. -/
def Machine.fetched (m : Machine) (i : Instruction) : Machine :=
  { m with pc := m.pc + instructionWidth, current := (m.pc, i.op) }

section

variable {setup : Setup} {n : ENat} {m m' : Machine} {i : Instruction} {rest : List Instruction}

theorem Exec.step_of_next? (setup : Setup) (h : m.next? = some i) :
    Exec.step setup m =
      match Exec.perform m.pc i setup (m.fetched i) with
      | .ok _ m' =>
        if i.op = .ret ∧ m'.pc = haltAddress then .ok false m'
        else if setup.maxStack < m'.stack.size then
          .error (.fault (.stackOverflow m'.stack.size setup.maxStack)) m'
        else .ok true m'
      | .error e m' => .error e m' := by
  simp only [Exec.step, Exec.bind_apply, Exec.get_apply, Exec.instruction_apply h,
    Exec.modify_apply]
  rw [show ({ m with pc := m.pc + instructionWidth, current := (m.pc, i.op) } : Machine) =
    m.fetched i from rfl]
  cases Exec.perform m.pc i setup (m.fetched i) with
  | error e m' => rfl
  | ok u m' =>
    simp only
    by_cases hhalt : i.op = .ret ∧ m'.pc = haltAddress
    · simp only [if_pos hhalt]
      rfl
    · simp only [if_neg hhalt, Exec.bind_apply, Exec.checkStack, Exec.get_apply, Exec.read_apply]
      by_cases hstack : setup.maxStack < m'.stack.size
      · simp only [if_pos hstack]
        rfl
      · simp only [if_neg hstack]
        rfl

/-- A conditional jump, whichever value it expects. -/
theorem Exec.perform_jumpWhen (expected : Bool) (start : Nat) (a b c : UInt32) :
    Exec.perform start ⟨if expected then .jumpIf else .jumpUnless, a, b, c⟩ =
      Exec.jumpWhen expected start a := by
  cases expected <;> simp only [Bool.false_eq_true, if_false, if_true, Exec.perform]

/-- The effect of an instruction that does not fail. -/
theorem Exec.perform_of_step {more : Bool} (hi : m.next? = some i)
    (h : Exec.step setup m = .ok more m') :
    Exec.perform m.pc i setup (m.fetched i) = .ok () m' := by
  rw [Exec.step_of_next? setup hi] at h
  split at h
  · rename_i m₁ hm₁
    split at h
    · cases h
      exact hm₁
    · split at h
      · cases h
      · cases h
        exact hm₁
  · cases h

theorem Heap.Holds.instruction? {h : Heap} {address : Nat} (hcode : h.Holds address (i :: rest)) :
    h.instruction? address = some i := by
  obtain ⟨hop, ha, hb, hc, -⟩ := hcode
  simp only [Heap.instruction?, hop, ha, hb, hc, Option.bind_eq_bind, Option.bind_some,
    Opcode.ofNumber?_number]
  rfl

theorem Heap.Holds.next? (hcode : m.program.heap.Holds m.pc (i :: rest)) : m.next? = some i :=
  hcode.instruction?

theorem Exec.step_apply (setup : Setup) (h : m.program.heap.Holds m.pc (i :: rest)) :
    Exec.step setup m =
      match Exec.perform m.pc i setup (m.fetched i) with
      | .ok _ m' =>
        if i.op = .ret ∧ m'.pc = haltAddress then .ok false m'
        else if setup.maxStack < m'.stack.size then
          .error (.fault (.stackOverflow m'.stack.size setup.maxStack)) m'
        else .ok true m'
      | .error e m' => .error e m' :=
  Exec.step_of_next? setup h.next?

variable {phase phase' : Phase} {floor : Nat} {α : Type}
variable {out : EStateM.Result (Stop Fault) World α} {final : α → World → Machine → Prop}

/-- A failure of an instruction that neither creates an instance nor settles anything. -/
theorem Breaks.of_step {e : Stop RuntimeError} (hcode : m.program.heap.Holds m.pc (i :: rest))
    (hcreate : i.op ≠ .createComponent) (hsettles : i.op.settles = false)
    (hstep : Exec.step setup m = .error e m') (hfuel : e = .outOfFuel → setup.Hangs) :
    Breaks setup m e m' where
  step := hstep
  fuel := hfuel
  next := ⟨i, hcode.next?, hsettles, fun hop => absurd hop hcreate⟩

/-- What the next instruction must be for a run to be cut off by it. -/
structure Phase.Cuts (phase : Phase) (op : Opcode) : Prop where
  phase : phase.isSafe = true
  create : op ≠ .createComponent
  settles : op.settles = false

theorem Phase.Turn.prolongs (hturn : Phase.Turn floor m i phase phase')
    (hcode : m.program.heap.Holds m.pc (i :: rest)) (hstep : Exec.step setup m = .ok true m') :
    Prolongs setup phase phase' floor floor 1 m m' := by
  intro complete j m'' hpath
  rw [Nat.add_comm]
  exact .step hcode.next? hturn hstep hpath

namespace Leads

/-- An instruction that succeeds, unless it needs more stack than there is. -/
theorem turn (hcode : m.program.heap.Holds m.pc (i :: rest))
    (hturn : Phase.Turn floor m i phase phase') (hcuts : phase.Cuts i.op)
    (hhalt : ¬(i.op = .ret ∧ m'.pc = haltAddress))
    (hperform : Exec.perform m.pc i setup (m.fetched i) = .ok () m')
    (h : m'.program.Fits → Leads setup phase' floor n m' out final) :
    Leads setup phase floor (n + 1) m out final := by
  have hstep := Exec.step_apply setup hcode
  rw [hperform] at hstep
  simp only [if_neg hhalt] at hstep
  by_cases hstack : setup.maxStack < m'.stack.size
  · rw [if_pos hstack] at hstep
    exact fun _ => .inl ⟨0, m, _, m', .halfway hcuts.phase m,
      .of_step hcode hcuts.create hcuts.settles hstep nofun, trivial⟩
  · rw [if_neg hstack] at hstep
    rw [add_comm, ← Nat.cast_one]
    exact prolong (.step hstep (.refl m')) (hturn.prolongs hcode hstep) (of_fits h)

/-- An instruction that succeeds and leaves the stack no higher. -/
theorem turn_within (hcode : m.program.heap.Holds m.pc (i :: rest))
    (hturn : Phase.Turn floor m i phase phase') (hop : i.op ≠ .ret)
    (hperform : Exec.perform m.pc i setup (m.fetched i) = .ok () m')
    (hsize : m'.stack.size ≤ m.stack.size)
    (h : m'.program.Fits → Leads setup phase' floor n m' out final) :
    Leads setup phase floor (n + 1) m out final := by
  refine of_bounded fun _ hstack => ?_
  have hstep := Exec.step_apply setup hcode
  rw [hperform] at hstep
  simp only [if_neg (fun hhalt : i.op = .ret ∧ m'.pc = haltAddress => hop hhalt.1),
    if_neg (Nat.not_lt.mpr (Nat.le_trans hsize hstack))] at hstep
  rw [add_comm, ← Nat.cast_one]
  exact prolong (.step hstep (.refl m')) (hturn.prolongs hcode hstep) (of_fits h)

theorem cuts_of_plain (h : i.op.isPlain = true) : Phase.Cuts .free i.op where
  phase := rfl
  create hop := by rw [hop] at h; cases h
  settles := by
    obtain ⟨op, a, b, c⟩ := i
    cases op <;> first | rfl | cases h

theorem cuts_of_enters {s : Beginning} (h : i.op.beginning? = some s) : Phase.Cuts .free i.op where
  phase := rfl
  create hop := by rw [hop] at h; cases h
  settles := by
    obtain ⟨op, a, b, c⟩ := i
    cases op <;> first | rfl | cases h

theorem cuts_of_fills {s : Beginning} (h : i.op.fills s = true) : Phase.Cuts (.filling s) i.op where
  phase := rfl
  create hop := by rw [hop] at h; cases s <;> cases h
  settles := by
    obtain ⟨op, a, b, c⟩ := i
    cases s <;> cases op <;> first | rfl | cases h

/-- An instruction that may come anywhere. -/
theorem instruction (hcode : m.program.heap.Holds m.pc (i :: rest)) (hplain : i.op.isPlain = true)
    (hperform : Exec.perform m.pc i setup (m.fetched i) = .ok () m')
    (h : m'.program.Fits → Leads setup .free floor n m' out final) :
    Leads setup .free floor (n + 1) m out final :=
  turn hcode (.stay (.plain hplain)) (cuts_of_plain hplain)
    (fun hhalt => by rw [hhalt.1] at hplain; cases hplain) hperform h

/-- An instruction that calls a block, which is left at a return. -/
theorem calling {entered : Machine} {handle : UInt32}
    (hcode : m.program.heap.Holds m.pc (i :: rest)) (hcallee : m.callee? = some handle)
    (hfloor : floor < entered.stack.size)
    (hperform : Exec.perform m.pc i setup (m.fetched i) = .ok () entered)
    (hyield : entered.CanYield setup.options.strategy) {final' : α → World → Machine → Prop}
    (h : Leads setup .free entered.stack.size n entered out final)
    (hfinal : ∀ a w last, out = .ok a w → final a w last → last.stack.size ≤ setup.maxStack →
      ∃ i left, last.next? = some i ∧ i.op = .ret ∧ Exec.step setup last = .ok true left ∧
        entered.Returned left ∧ final' a w left) :
    Leads setup .free floor (n + 1) m out final' := by
  have hcalls := Machine.calls_of_callee? hcallee hcode.next?
  have hop (op : Opcode) (hnot : op.calls = false) : i.op ≠ op := by
    rintro rfl
    rw [hcalls] at hnot
    cases hnot
  have hsettles : i.op.settles = false := by
    obtain ⟨op, a, b, c⟩ := i
    cases op <;> first | rfl | cases hcalls
  have hstep := Exec.step_apply setup hcode
  rw [hperform] at hstep
  simp only [if_neg fun hhalt : i.op = .ret ∧ _ => hop .ret rfl hhalt.1] at hstep
  by_cases hstack : setup.maxStack < entered.stack.size
  · rw [if_pos hstack] at hstep
    exact fun _ => .inl ⟨0, m, _, entered, .refl m,
      .of_step hcode (hop _ rfl) hsettles hstep nofun, trivial⟩
  · rw [if_neg hstack] at hstep
    exact call hcallee hfloor hstep hyield h hfinal

/-- An instruction that fails, where the walk does. -/
theorem instruction_fails {e : Stop RuntimeError} {fault : Fault} {w : World}
    (hcode : m.program.heap.Holds m.pc (i :: rest)) (hcuts : phase.Cuts i.op)
    (hperform : Exec.perform m.pc i setup (m.fetched i) = .error e m')
    (hfault : e.fault? = some fault) (hw : m'.Unwinds w) (hfuel : e = .outOfFuel → setup.Hangs) :
    Leads setup phase floor n m (.error (.fault fault) w) final := by
  have hstep := Exec.step_apply setup hcode
  rw [hperform] at hstep
  exact fun _ => .inr ⟨0, m, e, m', .halfway hcuts.phase m,
    .of_step hcode hcuts.create hcuts.settles hstep hfuel, hfault, hw⟩

/-- An instruction that stops in a way that a walk does not know. -/
theorem instruction_escapes {e : Stop RuntimeError}
    (hcode : m.program.heap.Holds m.pc (i :: rest)) (hcuts : phase.Cuts i.op)
    (hperform : Exec.perform m.pc i setup (m.fetched i) = .error e m')
    (hallows : setup.Allows e) (hfuel : e = .outOfFuel → setup.Hangs) :
    Leads setup phase floor n m out final := by
  have hstep := Exec.step_apply setup hcode
  rw [hperform] at hstep
  exact fun _ => .inl ⟨0, m, e, m', .halfway hcuts.phase m,
    .of_step hcode hcuts.create hcuts.settles hstep hfuel, hallows⟩

end Leads

end

end TemplateMachine
