import TemplateMachine.Proofs.Program.Sound
import TemplateMachine.Proofs.Run.Path
import TemplateMachine.Proofs.Walk.Statement

/-! The state of the machine in parts.  Code saves and restores what makes up a pose; what is in the
store only grows, apart from what the newest entries still go through. -/

namespace TemplateMachine

/-- What code leaves as it found it, up to values that it pushes. -/
structure Pose where
  stack : Array Value
  ra : Nat
  fp : Nat
  registers : SavedRegisters
  /-- The scopes that are entered, the innermost first. -/
  scopeStack : List Nat
  dynamicScopes : List DynamicScope
  blockDepth : Nat
  listMarks : List Nat

namespace Pose

def push (p : Pose) (v : Value) : Pose := { p with stack := p.stack.push v }

/-- The pose with several values on the stack, the last one on top. -/
def pushAll (p : Pose) (vs : List Value) : Pose := { p with stack := p.stack ++ vs.toArray }

def enter (p : Pose) (scope : Nat) : Pose := { p with scopeStack := scope :: p.scopeStack }

/-- The pose with another address to return to. -/
def returning (p : Pose) (ra : Nat) : Pose := { p with ra }

@[simp] theorem pushAll_nil (p : Pose) : p.pushAll [] = p :=
  congrArg (fun stack => { p with stack }) Array.append_empty

@[simp] theorem pushAll_cons (p : Pose) (v : Value) (vs : List Value) :
    p.pushAll (v :: vs) = (p.push v).pushAll vs := by
  simp [pushAll, push]

@[simp] theorem size_push (p : Pose) (v : Value) : (p.push v).stack.size = p.stack.size + 1 :=
  Array.size_push v

theorem size_le_push (p : Pose) (v : Value) : p.stack.size ≤ (p.push v).stack.size :=
  (p.size_push v).symm ▸ Nat.le_succ _

@[simp] theorem size_pushAll (p : Pose) (vs : List Value) :
    (p.pushAll vs).stack.size = p.stack.size + vs.length :=
  Array.size_append

@[simp] theorem stack_enter (p : Pose) (scope : Nat) : (p.enter scope).stack = p.stack := rfl

theorem pushAll_append (p : Pose) (vs us : List Value) :
    p.pushAll (vs ++ us) = (p.pushAll vs).pushAll us := by
  simp [pushAll]

end Pose

theorem keeps_push {α : Type} (xs : Array α) (v : α) : Keeps xs (xs.push v) := by
  intro i u hu
  rw [Array.getElem?_push, if_neg (Nat.ne_of_lt (Array.getElem?_eq_some_iff.mp hu).1), hu]

theorem Keeps.size_le {α : Type} {xs ys : Array α} (h : Keeps xs ys) : xs.size ≤ ys.size := by
  by_cases hsize : xs.size ≤ ys.size
  · exact hsize
  · have := h ys.size _ (Array.getElem?_eq_getElem (by omega))
    simp at this

/-- Changing entries that are new. -/
theorem Keeps.set {α : Type} {xs ys : Array α} (h : Keeps xs ys) {i : Nat} (hi : xs.size ≤ i)
    (v : α) : Keeps xs (ys.set! i v) := by
  intro j u hu
  have hj := (Array.getElem?_eq_some_iff.mp hu).1
  rw [Array.set!_eq_setIfInBounds, Array.getElem?_setIfInBounds_ne (by omega)]
  exact h j u hu

/-- What is shared between values, and the linked blocks. -/
structure Store where
  linkage : Linkage
  scopes : Scopes
  components : Array ComponentState
  iterators : Array (List IterationItem)

namespace Store

/-- The linkage grows, and entries are kept. -/
structure Grows (t u : Store) : Prop where
  linkage : t.linkage ≤ u.linkage
  scopes : Keeps t.scopes.entries u.scopes.entries
  components : Keeps t.components u.components
  iterators : Keeps t.iterators u.iterators

instance : LE Store := ⟨Grows⟩

theorem le_refl (t : Store) : t ≤ t := ⟨t.linkage.le_refl, .refl _, .refl _, .refl _⟩

theorem le_trans {t u v : Store} (h : t ≤ u) (h' : u ≤ v) : t ≤ v :=
  ⟨Linkage.le_trans h.linkage h'.linkage, h.scopes.trans h'.scopes,
    h.components.trans h'.components, h.iterators.trans h'.iterators⟩

/-- Instructions stand at an address. -/
def HasCode (t : Store) (address : Nat) (code : List Instruction) : Prop :=
  t.linkage.program.heap.Holds address code

theorem HasCode.mono {t u : Store} {address : Nat} {code : List Instruction}
    (h : t.HasCode address code) (hu : t ≤ u) : u.HasCode address code :=
  Heap.Holds.mono (Linkage.Grows.program (Grows.linkage hu)).words h

theorem HasCode.tail {t : Store} {address : Nat} {i : Instruction} {rest : List Instruction}
    (h : t.HasCode address (i :: rest)) : t.HasCode (address + 4) rest := h.2.2.2.2

theorem HasCode.append {t : Store} {address : Nat} {first second : List Instruction}
    (h : t.HasCode address (first ++ second)) :
    t.HasCode address first ∧ t.HasCode (address + 4 * first.length) second :=
  Heap.Holds.append h

/-- The address may be computed in another way. -/
theorem HasCode.at {t : Store} {a b : Nat} {code : List Instruction} (h : t.HasCode a code)
    (hab : a = b) : t.HasCode b code := hab ▸ h

/-- A value on the stack that stands for a block: the block itself, or its handle as a number. -/
def IsBlock (strategy : Strategy) (t : Store) (value : Value) (body : Fragment) : Prop :=
  match strategy with
  | .lazy => ∃ f, value = .fragment f ∧ f.body = body ∧ t.linkage.known f.id = some f
  | .eager =>
    ∃ f handle, value = .primitive (.number (Binary64.ofNat handle.toNat)) ∧ f.body = body ∧
      t.linkage.known f.id = some f ∧ t.linkage.program.linked? f.id = some handle

theorem IsBlock.mono {strategy : Strategy} {t u : Store} {value : Value} {body : Fragment}
    (h : t.IsBlock strategy value body) (hu : t ≤ u) : u.IsBlock strategy value body := by
  have hlinkage := Grows.linkage hu
  cases strategy with
  | lazy =>
    obtain ⟨f, hvalue, hbody, hknown⟩ := h
    exact ⟨f, hvalue, hbody, Linkage.Grows.known hlinkage _ _ hknown⟩
  | eager =>
    obtain ⟨f, handle, hvalue, hbody, hknown, hlinked⟩ := h
    exact ⟨f, handle, hvalue, hbody, Linkage.Grows.known hlinkage _ _ hknown,
      Linkage.Grows.linked hlinkage hlinked⟩

/-- A slot of a scope with a caller holds a binding.  The slots of the place where a block was
written are those of the caller. -/
def Fills (strategy : Strategy) (t : Store) : Binding → Slot → Option Nat → Prop
  | .empty, slot, _ => slot = .empty ∨ slot = .block .absent
  | .value r, slot, _ => slot = .value r
  | .block body written, slot, caller =>
    (∃ value, slot = .block ⟨.table body.table, value⟩ ∧ t.IsBlock strategy value body) ∧
      ∃ number scope, caller = some number ∧ t.scopes.entries[number]? = some scope ∧
        ∀ symbol, Fills strategy t (written symbol) (scope.get symbol) scope.caller

theorem Fills.mono {strategy : Strategy} {t u : Store} {b : Binding} {slot : Slot}
    {caller : Option Nat} (h : t.Fills strategy b slot caller) (hu : t ≤ u) :
    u.Fills strategy b slot caller := by
  induction b generalizing slot caller with
  | empty => exact h
  | value r => exact h
  | block body written ih =>
    obtain ⟨⟨value, hslot, hvalue⟩, number, scope, hcaller, hscope, hwritten⟩ := h
    exact ⟨⟨value, hslot, hvalue.mono hu⟩, number, scope, hcaller,
      Grows.scopes hu _ _ hscope, fun symbol => ih symbol (hwritten symbol)⟩

/-- A scope holds bindings. -/
def Holds (strategy : Strategy) (t : Store) (scope : Scope) (slots : Slots) : Prop :=
  ∀ symbol, t.Fills strategy (slots symbol) (scope.get symbol) scope.caller

theorem Holds.mono {strategy : Strategy} {t u : Store} {scope : Scope} {slots : Slots}
    (h : t.Holds strategy scope slots) (hu : t ≤ u) : u.Holds strategy scope slots :=
  fun symbol => (h symbol).mono hu

/-- The current scope holds the slots of a place. -/
def Sees (strategy : Strategy) (t : Store) (p : Pose) (slots : Slots) : Prop :=
  ∃ number rest scope, p.scopeStack = number :: rest ∧
    t.scopes.entries[number]? = some scope ∧ t.Holds strategy scope slots

theorem Sees.mono {strategy : Strategy} {t u : Store} {p : Pose} {slots : Slots}
    (h : t.Sees strategy p slots) (hu : t ≤ u) : u.Sees strategy p slots := by
  obtain ⟨number, rest, scope, hstack, hscope, hslots⟩ := h
  exact ⟨number, rest, scope, hstack, Grows.scopes hu _ _ hscope, hslots.mono hu⟩

/-- Seeing depends on the scopes that are entered. -/
theorem Sees.of_scopeStack {strategy : Strategy} {t : Store} {p q : Pose} {slots : Slots}
    (h : t.Sees strategy p slots) (hq : q.scopeStack = p.scopeStack) :
    t.Sees strategy q slots := by
  obtain ⟨number, rest, scope, hstack, hscope, hslots⟩ := h
  exact ⟨number, rest, scope, hq.trans hstack, hscope, hslots⟩

/-- Scopes that hold bindings only hold blocks that can be called. -/
theorem Holds.canYield {strategy : Strategy} {t : Store} {scope : Scope} {slots : Slots}
    (h : t.Holds strategy scope slots) : scope.CanYield strategy := by
  intro symbol b hb hpresent
  have hfills := h symbol
  rw [hb] at hfills
  cases hslot : slots symbol with
  | empty =>
    rw [hslot] at hfills
    rcases hfills with hfills | hfills
    · cases hfills
    · cases hfills
      cases hpresent
  | value r =>
    rw [hslot] at hfills
    cases hfills
  | block body written =>
    rw [hslot] at hfills
    obtain ⟨⟨value, hfills, hvalue⟩, number, -, hcaller, -⟩ := hfills
    obtain rfl : b = ⟨.table body.table, value⟩ := Slot.block.inj hfills
    refine ⟨by rw [hcaller]; rfl, body.table, rfl, ?_⟩
    cases strategy with
    | lazy =>
      obtain ⟨f, hf, -⟩ := hvalue
      exact ⟨f, hf⟩
    | eager =>
      obtain ⟨f, handle, hf, -⟩ := hvalue
      simp only [hf, Value.toHandle?, Binary64.toWord?_ofNat, Option.isSome_some]

/-- A register holds the current component, if there is one. -/
def IsCurrent (t : Store) (value : Value) : Option Current → Prop
  | none => value = .null
  | some c =>
    ∃ number state, value = .component number ∧ t.components[number]? = some state ∧
      state.definition = c.definition ∧ state.manager = c.manager ∧ state.created = some c.inst

theorem IsCurrent.mono {t u : Store} {value : Value} {c : Option Current}
    (h : t.IsCurrent value c) (hu : t ≤ u) : u.IsCurrent value c := by
  cases c with
  | none => exact h
  | some c =>
    obtain ⟨number, state, hvalue, hstate, hc⟩ := h
    exact ⟨number, state, hvalue, Grows.components hu _ _ hstate, hc⟩

end Store

/-- The machine of its parts. -/
def Machine.of (cells : Cells) (pc : Nat) (p : Pose) (w : World) (t : Store)
    (current : Nat × Opcode) : Machine where
  program := t.linkage.program
  cells
  stack := p.stack
  pc
  ra := p.ra
  fp := p.fp
  registers := p.registers
  scopes := t.scopes
  scopeStack := p.scopeStack
  dynamicScopes := p.dynamicScopes
  sink := w.sink
  transactions := w.transactions
  destructors := w.destructors
  blockDepth := p.blockDepth
  listMarks := p.listMarks
  components := t.components
  iterators := t.iterators
  current
  events := w.events

theorem Store.Sees.canYield {strategy : Strategy} {t u : Store} {p : Pose} {slots : Slots}
    (h : t.Sees strategy p slots) (hu : t ≤ u) {m : Machine} (hscopes : m.scopes = u.scopes)
    (hscopeStack : m.scopeStack = p.scopeStack) : m.CanYield strategy := by
  obtain ⟨number, rest, scope, hstack, hscope, hslots⟩ := h.mono hu
  intro number' rest' hstack'
  obtain rfl : number = number' :=
    (List.cons.inj (hstack.symm.trans (hscopeStack.symm.trans hstack'))).1
  have hget : u.scopes.get number = scope := by
    rw [Scopes.get, Array.getD_eq_getD_getElem?, hscope]
    rfl
  rw [hscopes, hget]
  exact hslots.canYield

theorem Machine.events_of {cells : Cells} {pc : Nat} {p : Pose} {w : World} {t : Store}
    {current : Nat × Opcode} : (Machine.of cells pc p w t current).events = w.events := rfl

/-- The linkage is sound, and all templates are well-formed. -/
structure Setup.Admits (setup : Setup) (l : Linkage) : Prop extends
    l.Sound setup.options.lookup setup.options.strategy [] where
  wellFormed : ∀ layout, l.templates layout → layout.template.wellFormed

/-- The store is one that renders make. -/
def Setup.Valid (setup : Setup) (t : Store) : Prop := setup.Admits t.linkage

/-- A store that a render makes out of another, while its program is small. -/
structure Setup.Later (setup : Setup) (t u : Store) : Prop where
  le : t ≤ u
  valid : setup.Valid u
  fits : u.linkage.program.Fits

/-- What code of a linkage refers to is found in later stores. -/
theorem Setup.Later.constants {setup : Setup} {t u : Store} (h : setup.Later t u) {l : Linkage}
    (hl : l ≤ t.linkage) : l.program.constants.Extends u.linkage.program.constants :=
  Linkage.Grows.constants (Linkage.le_trans hl (Store.Grows.linkage h.le))

/-- The machine stands at an address in a pose, with a store that has grown out of `t`. -/
def Stands (setup : Setup) (cells : Cells) (pc : Nat) (p : Pose) (w : World) (t : Store)
    (m : Machine) : Prop :=
  ∃ u current, t ≤ u ∧ setup.Valid u ∧ m = .of cells pc p w u current

theorem Stands.weaken {setup : Setup} {cells : Cells} {pc : Nat} {p : Pose} {w : World}
    {t u : Store} {m : Machine} (h : Stands setup cells pc p w u m) (hu : t ≤ u) :
    Stands setup cells pc p w t m := by
  obtain ⟨v, current, hv, hvalid, hm⟩ := h
  exact ⟨v, current, Store.le_trans hu hv, hvalid, hm⟩

theorem Stands.at {setup : Setup} {cells : Cells} {a b : Nat} {p : Pose} {w : World} {t : Store}
    {m : Machine} (h : Stands setup cells a p w t m) (hab : a = b) : Stands setup cells b p w t m :=
  hab ▸ h

/-- What a walk takes from the set-up of a render. -/
def Setup.scene (setup : Setup) (cells : Cells) : Scene :=
  ⟨setup.options.lookup, setup.host, cells⟩

end TemplateMachine
