import TemplateMachine.Machine.Step
import TemplateMachine.Proofs.Program.Linkage

/-! Runs of compiled code, step by step.  A path is a run in which every call that has
returned left things as it found them, every new scope was filled before anything else
happened, every instance was registered as soon as it was created, and every layout that was
rendered was committed at once. -/

namespace TemplateMachine

/-- The instruction at an address. -/
def Heap.instruction? (h : Heap) (address : Nat) : Option Instruction := do
  let op ← Opcode.ofNumber? (← h.word? address)
  return ⟨op, ← h.word? (address + 1), ← h.word? (address + 2), ← h.word? (address + 3)⟩

/-- The instruction that is executed next. -/
def Machine.next? (m : Machine) : Option Instruction := m.program.heap.instruction? m.pc

/-- The block that the next instruction calls, if it calls one. -/
def Machine.callee? (m : Machine) : Option UInt32 :=
  match m.next? with
  | some ⟨.invokeStatic, handle, _, _⟩ => some handle
  | some ⟨.invokeVirtual, _, _, _⟩ => m.stack.back?.bind Value.toHandle?
  | some ⟨.invokeComponentLayout, _, _, _⟩ => m.stack.back?.bind Value.toHandle?
  | some ⟨.invokeYield, _, _, _⟩ =>
    match m.stack[m.stack.size - 2]? with
    | some (.table _) => m.stack.back?.bind Value.toHandle?
    | _ => none
  | _ => none

/-- The entries of a table are kept in another. -/
def Keeps {α : Type} (xs ys : Array α) : Prop :=
  ∀ (i : Nat) (v : α), xs[i]? = some v → ys[i]? = some v

theorem Keeps.refl {α : Type} (xs : Array α) : Keeps xs xs := fun _ _ h => h

theorem Keeps.trans {α : Type} {xs ys zs : Array α} (h : Keeps xs ys) (h' : Keeps ys zs) :
    Keeps xs zs := fun i v hv => h' i v (h i v hv)

/-- A called block is left as it was entered: control is behind the call, and whatever the caller
has on its stacks, in its registers and in its scopes is as it was. -/
structure Machine.Returned (entered left : Machine) : Prop where
  pc : left.pc = entered.ra
  ra : left.ra = entered.ra
  fp : left.fp = entered.fp
  stack : left.stack = entered.stack
  registers : left.registers = entered.registers
  scopeStack : left.scopeStack = entered.scopeStack
  dynamicScopes : left.dynamicScopes = entered.dynamicScopes
  listMarks : left.listMarks = entered.listMarks
  blockDepth : left.blockDepth = entered.blockDepth
  transactions : left.transactions = entered.transactions
  scopes : Keeps entered.scopes.entries left.scopes.entries

/-- A block can be called, once it is linked. -/
def ScopeBlock.CanBeCalled (strategy : Strategy) (b : ScopeBlock) : Prop :=
  ∃ t, b.table = .table t ∧
    match strategy with
    | .lazy => ∃ f, b.block = .fragment f
    | .eager => b.block.toHandle?.isSome = true

/-- The blocks that are there in the slots of a scope can be called, in the scope they come from. -/
def Scope.CanYield (strategy : Strategy) (scope : Scope) : Prop :=
  ∀ symbol b, scope.get symbol = .block b → b.isPresent = true →
    scope.caller.isSome = true ∧ b.CanBeCalled strategy

/-- The current scope can yield. -/
def Machine.CanYield (strategy : Strategy) (m : Machine) : Prop :=
  ∀ number rest, m.scopeStack = number :: rest → (m.scopes.get number).CanYield strategy

/-- The machine goes on for a number of steps. -/
inductive Reaches (setup : Setup) : Nat → Machine → Machine → Prop
  | refl (m : Machine) : Reaches setup 0 m m
  | step {k : Nat} {m m' m'' : Machine} :
    Exec.step setup m = .ok true m' → Reaches setup k m' m'' → Reaches setup (k + 1) m m''

/-- How a scope begins that is entered to be filled. -/
inductive Beginning where
  /-- Without anything in its slots. -/
  | empty
  /-- With what the current scope holds. -/
  | copied

/-- What a run is in the middle of. -/
inductive Phase where
  | free
  /-- A scope was entered that is still being filled. -/
  | filling (scope : Beginning)
  /-- A transaction was begun whose instance is not created yet. -/
  | opening
  /-- An instance was created that is not registered yet. -/
  | registering
  /-- A layout was rendered whose transaction is not committed yet. -/
  | closing

/-- Phases in which a run may be cut off. -/
@[simp] def Phase.isSafe : Phase → Bool
  | .registering | .closing => false
  | _ => true

/-- Operations that may come anywhere between others. -/
@[simp] def Opcode.isPlain : Opcode → Bool
  | .setVariable | .setBlock | .rootScope | .childScope | .beginComponentTransaction
  | .createComponent | .registerComponentDestructor | .didRenderLayout | .commitComponentTransaction
  | .ret | .invokeVirtual | .invokeStatic | .invokeYield | .invokeComponentLayout => false
  | _ => true

/-- How the scope begins that an operation enters to be filled, if it does so. -/
@[simp] def Opcode.beginning? : Opcode → Option Beginning
  | .rootScope => some .empty
  | .childScope => some .copied
  | _ => none

/-- Operations that fill a scope.  Blocks are only put into one that was empty. -/
@[simp] def Opcode.fills : Beginning → Opcode → Bool
  | _, .dup | _, .setVariable | .empty, .setBlock => true
  | _, _ => false

/-- Operations that leave what an invocation has entered. -/
@[simp] def Opcode.leaves : Opcode → Bool
  | .popFrame | .popScope | .popDynamicScope => true
  | _ => false

/-- Operations that may call a block. -/
def Opcode.calls : Opcode → Bool
  | .invokeVirtual | .invokeStatic | .invokeYield | .invokeComponentLayout => true
  | _ => false

/-- The next instruction neither calls nor returns.  A return that only leaves a frame finds
something on the stack above the floor. -/
inductive Machine.Stays (floor : Nat) (m : Machine) (i : Instruction) : Prop
  | plain (h : i.op.isPlain = true)
  | leave (hop : i.op = .ret) (hfloor : floor < m.stack.size)
  | absent (hop : i.op = .invokeYield) (hcallee : m.callee? = none)

/-- How an instruction leads from one phase to another. -/
inductive Phase.Turn (floor : Nat) (m : Machine) (i : Instruction) : Phase → Phase → Prop
  | stay (h : m.Stays floor i) : Turn floor m i .free .free
  | enter {s : Beginning} (h : i.op.beginning? = some s) : Turn floor m i .free (.filling s)
  | fill {s : Beginning} (h : i.op.fills s = true) : Turn floor m i (.filling s) (.filling s)
  | begin (h : i.op = .beginComponentTransaction) : Turn floor m i .free .opening
  | open (h : i.op = .pushDynamicScope) : Turn floor m i .opening .opening
  | create (h : i.op = .createComponent) (hcurrent : i.b = Emit.current) :
    Turn floor m i .opening .registering
  | unframe (h : i.op = .popFrame) : Turn floor m i .registering .registering
  | register (h : i.op = .registerComponentDestructor) (hcurrent : i.a = Emit.current) :
    Turn floor m i .registering .free
  | rendered (h : i.op = .didRenderLayout) : Turn floor m i .free .closing
  | leave (h : i.op.leaves = true) : Turn floor m i .closing .closing
  | commit (h : i.op = .commitComponentTransaction) : Turn floor m i .closing .free

/-- A run of a number of steps within a block whose caller has the stack up to a floor.  A complete
one has returned from all calls that it made. -/
inductive Path (setup : Setup) : Bool → Phase → Nat → Nat → Machine → Machine → Prop
  | refl {complete : Bool} {floor : Nat} (m : Machine) : Path setup complete .free floor 0 m m
  | halfway {phase : Phase} {floor : Nat} (h : phase.isSafe = true) (m : Machine) :
    Path setup false phase floor 0 m m
  | filled {complete : Bool} {s : Beginning} {floor k : Nat} {m m' : Machine} :
    m.CanYield setup.options.strategy → Path setup complete .free floor k m m' →
    Path setup complete (.filling s) floor k m m'
  | step {complete : Bool} {phase phase' : Phase} {floor k : Nat} {m m' m'' : Machine}
    {i : Instruction} : m.next? = some i → Phase.Turn floor m i phase phase' →
    Exec.step setup m = .ok true m' → Path setup complete phase' floor k m' m'' →
    Path setup complete phase floor (k + 1) m m''
  | call {complete : Bool} {floor j k : Nat} {m entered last left m' : Machine} {handle : UInt32}
    {i : Instruction} : m.callee? = some handle → floor < entered.stack.size →
    Exec.step setup m = .ok true entered → entered.CanYield setup.options.strategy →
    Path setup true .free entered.stack.size j entered last →
    last.next? = some i → i.op = .ret → Exec.step setup last = .ok true left →
    entered.Returned left → Path setup complete .free floor k left m' →
    Path setup complete .free floor (j + k + 2) m m'
  | inside {floor k : Nat} {m entered m' : Machine} {handle : UInt32} :
    m.callee? = some handle → floor < entered.stack.size →
    Exec.step setup m = .ok true entered → entered.CanYield setup.options.strategy →
    Path setup false .free entered.stack.size k entered m' →
    Path setup false .free floor (k + 1) m m'

theorem Machine.calls_of_callee? {m : Machine} {handle : UInt32} {i : Instruction}
    (h : m.callee? = some handle) (hi : m.next? = some i) : i.op.calls = true := by
  unfold Machine.callee? at h
  rw [hi] at h
  obtain ⟨op, a, b, c⟩ := i
  cases op <;> first | rfl | cases h

section

variable {setup : Setup} {complete : Bool} {phase : Phase} {floor j k : Nat} {m m' m'' : Machine}

theorem Reaches.trans (h : Reaches setup k m m') (h' : Reaches setup j m' m'') :
    Reaches setup (k + j) m m'' := by
  induction h with
  | refl m => rwa [Nat.zero_add]
  | step hs _ ih =>
    rw [Nat.add_right_comm]
    exact .step hs (ih h')

/-- What is left of a run from a state on its way. -/
theorem Reaches.suffix (h : Reaches setup k m m') (h' : Reaches setup (k + j) m m'') :
    Reaches setup j m' m'' := by
  induction h with
  | refl m => rwa [Nat.zero_add] at h'
  | step hs _ ih =>
    rw [Nat.add_right_comm] at h'
    cases h' with
    | step hs' h' =>
      cases hs.symm.trans hs'
      exact ih h'

theorem Reaches.unique (h : Reaches setup k m m') (h' : Reaches setup k m m'') : m' = m'' := by
  rw [← Nat.add_zero k] at h'
  cases h.suffix h'
  rfl

/-- A run to where the machine stops is the longest one. -/
theorem Reaches.le_of_stops (h : Reaches setup k m m')
    (hstop : ∀ m, Exec.step setup m' ≠ .ok true m) (h' : Reaches setup j m m'') : j ≤ k := by
  by_cases hj : j ≤ k
  · exact hj
  · obtain ⟨l, rfl⟩ := Nat.exists_eq_add_of_lt (Nat.lt_of_not_le hj)
    cases h.suffix (Nat.add_assoc k l 1 ▸ h') with
    | step hs => exact absurd hs (hstop _)

/-- A run is a run from any state that it reaches. -/
theorem Reaches.run_eq (h : Reaches setup k m m') (fuel : Nat) :
    Exec.run (fuel + k) setup m = Exec.run fuel setup m' := by
  induction h with
  | refl m => rfl
  | step hs _ ih =>
    rw [← ih, ← Nat.add_assoc, Exec.run]
    simp only [bind, ReaderT.bind, EStateM.bind, hs, if_true]

namespace Path

theorem reaches (h : Path setup complete phase floor k m m') : Reaches setup k m m' := by
  induction h with
  | refl m => exact .refl m
  | halfway _ m => exact .refl m
  | filled _ _ ih => exact ih
  | step _ _ hs _ ih => exact .step hs ih
  | call _ _ hs _ _ _ _ hret _ _ ihcallee ih =>
    have := Reaches.step hs (ihcallee.trans (.step hret ih))
    rwa [← Nat.add_assoc, Nat.add_right_comm _ _ 1] at this
  | inside _ _ hs _ _ ih => exact .step hs ih

theorem trans (h : Path setup true phase floor k m m')
    (h' : Path setup complete .free floor j m' m'') :
    Path setup complete phase floor (k + j) m m'' := by
  generalize htrue : true = c at h
  induction h with
  | refl m => rwa [Nat.zero_add]
  | halfway _ m => cases htrue
  | filled hyield _ ih => exact .filled hyield (ih h' htrue)
  | step hi hturn hs _ ih =>
    rw [Nat.add_right_comm]
    exact .step hi hturn hs (ih h' htrue)
  | @call c floor i l m entered last left m₁ handle op hcallee hfloor hs hyield hpath hi hop hret
      hreturned _ _ ih =>
    rw [show i + l + 2 + j = i + (l + j) + 2 by omega]
    subst htrue
    exact .call hcallee hfloor hs hyield hpath hi hop hret hreturned (ih h' rfl)
  | inside => cases htrue

/-- A complete run is also one that may be cut off. -/
theorem weaken (h : Path setup true phase floor k m m') : Path setup false phase floor k m m' := by
  have := h.trans (.refl m' : Path setup false .free floor 0 m' m')
  rwa [Nat.add_zero] at this

end Path

end

end TemplateMachine
