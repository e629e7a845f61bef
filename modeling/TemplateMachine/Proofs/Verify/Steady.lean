import TemplateMachine.Proofs.Run.Step
import TemplateMachine.Proofs.Verify.Sane

/-! What instructions do to the addresses of the machine.  Most of them only go on to the next
instruction, and if their operands are there then they do not fail because of the code. -/

namespace TemplateMachine

/-- Errors of code that a verifier can rule out. -/
def RuntimeError.isUnverified : RuntimeError → Bool
  | .pcOutOfBounds _ | .unknownOpcode .. | .invalidConstant .. | .invalidRegister _
  | .invalidTarget .. => true
  | _ => false

namespace Exec

/-- The result satisfies a condition, or there is an error that no verifier could rule out. -/
def EndsSound {α : Type} (post : Machine → Prop) :
    EStateM.Result (Stop RuntimeError) Machine α → Prop
  | .ok _ m => post m
  | .error (.fault e) _ => e.isUnverified = false
  | .error .outOfFuel _ => True

/-- A computation on a program ends soundly, from given addresses of the next instruction and of the
one to return to. -/
def Heads {α : Type} (p : Program) (pc ra : Nat) (x : Exec α) (post : Machine → Prop) : Prop :=
  ∀ setup m, m.program = p → m.pc = pc → m.ra = ra → EndsSound post (x setup m)

/-- A computation that only reads the program and leaves both addresses alone. -/
def Steady {α : Type} (p : Program) (x : Exec α) : Prop :=
  ∀ pc ra, Heads p pc ra x fun m => m.program = p ∧ m.pc = pc ∧ m.ra = ra

variable {p : Program} {pc ra : Nat} {post : Machine → Prop}

section

variable {α β : Type} {x : Exec α} {f : α → Exec β}

theorem Heads.mono {post' : Machine → Prop} (h : Heads p pc ra x post)
    (hpost : ∀ m, post m → post' m) : Heads p pc ra x post' := by
  intro setup m hp hpc hra
  have hx := h setup m hp hpc hra
  revert hx
  cases x setup m with
  | ok a m' => exact hpost m'
  | error e m' => cases e <;> exact id

/-- What follows a steady computation. -/
theorem Steady.next (hx : Steady p x) (hf : ∀ a, Heads p pc ra (f a) post) :
    Heads p pc ra (x >>= f) post := by
  intro setup m hp hpc hra
  have hx := hx pc ra setup m hp hpc hra
  rw [bind_apply]
  cases hxm : x setup m with
  | error e m' =>
    rw [hxm] at hx
    cases e <;> exact hx
  | ok a m' =>
    rw [hxm] at hx
    exact hf a setup m' hx.1 hx.2.1 hx.2.2

/-- What is known after a steady computation. -/
theorem Steady.weaken (hx : Steady p x) (hpost : ∀ m : Machine, m.pc = pc → m.ra = ra → post m) :
    Heads p pc ra x post := (hx pc ra).mono fun m hm => hpost m hm.2.1 hm.2.2

theorem Steady.bind (hx : Steady p x) (hf : ∀ a, Steady p (f a)) : Steady p (x >>= f) :=
  fun pc ra => hx.next fun a => hf a pc ra

theorem Steady.pure (a : α) : Steady p (pure a : Exec α) := fun _ _ _ _ hp hpc hra => ⟨hp, hpc, hra⟩

theorem Heads.fail {error : RuntimeError} (h : error.isUnverified = false) :
    Heads p pc ra (fail error : Exec α) post := fun _ _ _ _ _ => h

theorem Steady.fail {error : RuntimeError} (h : error.isUnverified = false) :
    Steady p (fail error : Exec α) := fun _ _ => .fail h

theorem Steady.get : Steady p (get : Exec Machine) := fun _ _ _ _ hp hpc hra => ⟨hp, hpc, hra⟩

theorem Steady.read : Steady p (read : Exec Setup) := fun _ _ _ _ hp hpc hra => ⟨hp, hpc, hra⟩

theorem Steady.orFail (o : Option α) {error : RuntimeError} (h : error.isUnverified = false) :
    Steady p (orFail o error) := by
  cases o with
  | none => exact .fail h
  | some a => exact .pure a

theorem Heads.modify {change : Machine → Machine}
    (h : ∀ m, m.program = p → m.pc = pc → m.ra = ra → post (change m)) :
    Heads p pc ra (modify change : Exec Unit) post := fun _ m hp hpc hra => h m hp hpc hra

/-- A change of anything but the program and the two addresses. -/
theorem Steady.modify {change : Machine → Machine}
    (h : ∀ m, ((change m).program, (change m).pc, (change m).ra) = (m.program, m.pc, m.ra)) :
    Steady p (modify change : Exec Unit) := by
  refine fun pc ra => .modify fun m hp hpc hra => ?_
  have hm := h m
  simp only [Prod.mk.injEq] at hm
  exact ⟨hm.1.trans hp, hm.2.1.trans hpc, hm.2.2.trans hra⟩

end

/-! ### The stack -/

theorem steady_underflow {α : Type} : Steady p (underflow : Exec α) := .bind .get fun _ => .fail rfl

theorem steady_mismatch {α : Type} (expected : String) : Steady p (mismatch expected : Exec α) :=
  .bind .get fun _ => .fail rfl

theorem heads_mismatch {α : Type} (expected : String) :
    Heads p pc ra (mismatch expected : Exec α) post :=
  Steady.get.next fun _ => .fail rfl

theorem steady_push (v : Value) : Steady p (push v) := .modify fun _ => rfl

theorem steady_pushRef (r : Reference) : Steady p (pushRef r) := steady_push _

theorem steady_pop : Steady p pop := by
  refine .bind .get fun m => ?_
  split
  · exact .bind (.modify fun _ => rfl) fun _ => .pure _
  · exact steady_underflow

theorem steady_popRef : Steady p popRef := by
  refine .bind steady_pop fun v => ?_
  split
  · exact .pure _
  · exact steady_mismatch _

theorem steady_popDatum : Steady p popDatum :=
  .bind steady_popRef fun _ => .bind .get fun _ => .pure _

theorem steady_popArgs : Steady p popArgs := by
  refine .bind steady_pop fun v => ?_
  split
  · exact .pure _
  · exact steady_mismatch _

theorem steady_popBlock : Steady p popBlock :=
  .bind steady_pop fun _ => .bind steady_pop fun _ => .pure _

theorem steady_popRefs (taken : List Reference) (count : Nat) : Steady p (popRefs taken count) := by
  induction count generalizing taken with
  | zero => exact .pure _
  | succ count ih => exact .bind steady_popRef fun r => ih (r :: taken)

theorem steady_drop (count : Nat) : Steady p (drop count) := by
  induction count with
  | zero => exact .pure _
  | succ count ih => exact .bind steady_pop fun _ => ih

theorem steady_record (e : Event) : Steady p (record e) := .modify fun _ => rfl

/-! ### Constants, registers and scopes -/

/-- A constant that there is. -/
theorem steady_constant {α : Type} {kind : String} {find : Constants → UInt32 → Option α}
    {index : UInt32} (h : (find p.constants index).isSome = true) :
    Steady p (constant kind find index) := by
  intro pc ra setup m hp hpc hra
  obtain ⟨a, ha⟩ := Option.isSome_iff_exists.mp h
  simp only [constant, bind_apply, get_apply, hp, ha, orFail_some]
  exact ⟨hp, hpc, hra⟩

theorem steady_namespaceConstant {index : UInt32}
    (h : (p.constants.strings.get? index).isSome = true) : Steady p (namespaceConstant index) := by
  unfold namespaceConstant
  split
  · exact .pure _
  · exact .bind (steady_constant h) fun _ => .pure _

/-- The value of a register that holds one. -/
theorem steady_savedValue {r : Register} (h : r.isSaved = true) : Steady p (savedValue r) := by
  intro pc ra setup m hp hpc hra
  have hv : (m.registers.get? r).isSome = true := by cases r <;> first | rfl | cases h
  obtain ⟨v, hv⟩ := Option.isSome_iff_exists.mp hv
  simp only [savedValue, bind_apply, get_apply, hv, orFail_some]
  exact ⟨hp, hpc, hra⟩

/-- The word of a register that holds a value. -/
def IsSaved (word : UInt32) : Prop := ∃ r, Register.ofNumber? word = some r ∧ r.isSaved = true

theorem steady_register {word : UInt32} {r : Register} (h : Register.ofNumber? word = some r) :
    Steady p (register word) := by
  rw [register, h]
  exact .pure r

/-- What follows the look-up of a register that holds a value. -/
theorem IsSaved.bind {β : Type} {word : UInt32} (h : IsSaved word) {f : Register → Exec β}
    (hf : ∀ r, r.isSaved = true → Steady p (f r)) : Steady p (register word >>= f) := by
  obtain ⟨r, hr, hsaved⟩ := h
  intro pc ra setup m
  rw [bind_apply, register, hr]
  exact hf r hsaved pc ra setup m

theorem steady_currentScope : Steady p currentScope := by
  refine .bind .get fun m => ?_
  split
  · exact .pure _
  · exact .fail rfl

theorem steady_slot (symbol : UInt32) : Steady p (slot symbol) :=
  .bind steady_currentScope fun _ => .bind .get fun _ => .pure _

theorem steady_bindSlot (symbol : UInt32) (slot : Slot) : Steady p (bindSlot symbol slot) :=
  .bind steady_currentScope fun _ => .modify fun _ => rfl

theorem steady_enterNewScope (scope : Scope) : Steady p (enterNewScope scope) :=
  .modify fun _ => rfl

theorem steady_leaveScope : Steady p leaveScope := by
  refine .bind .get fun m => ?_
  split
  · exact .modify fun _ => rfl
  · exact .fail rfl

theorem steady_leaveDynamicScope : Steady p leaveDynamicScope := by
  refine .bind .get fun m => ?_
  split
  · exact .modify fun _ => rfl
  · exact .fail rfl

theorem steady_enterRootScope (size : Nat) (bindCaller : Bool) :
    Steady p (enterRootScope size bindCaller) := .bind .get fun _ => steady_enterNewScope _

theorem steady_enterChildScope : Steady p enterChildScope :=
  .bind steady_currentScope fun _ => .bind .get fun _ => steady_enterNewScope _

/-! ### Markup -/

theorem steady_emit (write : Sink → Sink) : Steady p (emit write) := .modify fun _ => rfl

theorem steady_onElement (change : Sink → Sink.Result) : Steady p (onElement change) := by
  intro pc ra setup m hp hpc hra
  unfold onElement
  simp only
  cases change m.sink with
  | ok sink => exact ⟨hp, hpc, hra⟩
  | error operation => exact (rfl : RuntimeError.isUnverified (.noOpenElement operation) = false)

theorem steady_setAttributes (attributes : List (String × String)) :
    Steady p (setAttributes attributes) := by
  induction attributes with
  | nil => exact .pure _
  | cons first rest ih => exact .bind (steady_onElement _) fun _ => ih

theorem steady_dynamicContent (trusting : Bool) : Steady p (dynamicContent trusting) := by
  refine .bind steady_popDatum fun d => ?_
  split
  · exact steady_emit _
  · exact .pure _

/-! ### Values -/

theorem steady_getVariable (symbol : UInt32) : Steady p (getVariable symbol) := by
  refine .bind (steady_slot _) fun s => ?_
  split <;> exact steady_pushRef _

theorem steady_getBlock (symbol : UInt32) : Steady p (getBlock symbol) := by
  refine .bind (steady_slot _) fun s => ?_
  split <;> exact .bind (steady_push _) fun _ => steady_push _

theorem steady_hasBlock (symbol : UInt32) : Steady p (hasBlock symbol) := by
  refine .bind (steady_slot _) fun s => ?_
  split <;> exact steady_pushRef _

theorem steady_hasBlockParams : Steady p hasBlockParams := by
  refine .bind steady_popBlock fun b => ?_
  split <;> exact steady_pushRef _

theorem steady_primitiveReference : Steady p primitiveReference := by
  refine .bind steady_pop fun v => ?_
  split
  · exact steady_pushRef _
  · exact steady_mismatch _

theorem steady_pushOr (value? : Option Value) :
    Steady p (match value? with | some v => push v | none => underflow : Exec Unit) := by
  cases value? with
  | some v => exact steady_push v
  | none => exact steady_underflow

/-- Values are only counted from the top of the stack or of the frame. -/
theorem steady_dup {word : UInt32} (depth : UInt32)
    (h : Register.ofNumber? word = some .sp ∨ Register.ofNumber? word = some .fp) :
    Steady p (dup word depth) := by
  refine .bind .get fun m => ?_
  intro pc ra setup m'
  rcases h with h | h <;>
    · rw [bind_apply, register, h]
      simp only [orFail_some]
      exact (Steady.pure _).bind (fun _ => steady_pushOr _) pc ra setup m'

theorem steady_load {word : UInt32} (h : IsSaved word) : Steady p (load word) :=
  .bind steady_pop fun _ => h.bind fun _ hr => .bind (steady_savedValue hr) fun _ =>
    .modify fun _ => rfl

theorem steady_fetch {word : UInt32} (h : (Register.ofNumber? word).isSome = true) :
    Steady p (fetch word) := by
  obtain ⟨r, hr⟩ := Option.isSome_iff_exists.mp h
  refine .bind .get fun m => .bind (steady_register hr) fun r => ?_
  cases r <;> first
    | exact steady_push _
    | exact .bind (steady_savedValue rfl) fun _ => steady_push _

theorem steady_gatherArgs {names : UInt32} (flags : UInt32)
    (h : (p.constants.getStringArray? names).isSome = true) : Steady p (gatherArgs names flags) :=
  .bind (steady_constant h) fun _ => .bind (steady_popRefs _ _) fun _ =>
    .bind (steady_popRefs _ _) fun _ => steady_push _

theorem steady_setAttribute (set : Sink → String → Option String → Option String → Sink.Result)
    {name space : UInt32} (hname : (p.constants.strings.get? name).isSome = true)
    (hspace : (p.constants.strings.get? space).isSome = true) :
    Steady p (setAttribute set name space) :=
  .bind (steady_constant hname) fun _ => .bind (steady_namespaceConstant hspace) fun _ =>
    .bind steady_popDatum fun _ => steady_onElement _

theorem steady_staticAttribute {name value space : UInt32}
    (hname : (p.constants.strings.get? name).isSome = true)
    (hvalue : (p.constants.strings.get? value).isSome = true)
    (hspace : (p.constants.strings.get? space).isSome = true) :
    Steady p (staticAttribute name value space) :=
  .bind (steady_constant hname) fun _ => .bind (steady_constant hvalue) fun _ =>
    .bind (steady_namespaceConstant hspace) fun _ => steady_onElement _

theorem steady_callHelper {index : UInt32} (h : (p.constants.handles.get? index).isSome = true) :
    Steady p (callHelper index) := by
  refine .bind (steady_constant h) fun handle => .bind .read fun setup =>
    .bind (.orFail _ rfl) fun helper => .bind steady_popArgs fun args =>
      .bind (steady_record _) fun _ => .bind .get fun m => ?_
  split
  · exact steady_pushRef _
  · exact .fail rfl

theorem steady_applyModifier {index : UInt32} (h : (p.constants.handles.get? index).isSome = true) :
    Steady p (applyModifier index) := by
  refine .bind (steady_constant h) fun handle => .bind .read fun setup =>
    .bind (.orFail _ rfl) fun change => .bind steady_popArgs fun args =>
      .bind (steady_record _) fun _ => .bind .get fun m => ?_
  split
  · exact steady_setAttributes _
  · exact .fail rfl

/-! ### Components -/

theorem steady_componentNumber {word : UInt32} (h : IsSaved word) :
    Steady p (componentNumber word) := by
  refine h.bind fun r hr => .bind (steady_savedValue hr) fun v => ?_
  split
  · exact .pure _
  · exact steady_mismatch _

theorem steady_componentState (number : Nat) : Steady p (componentState number) := by
  refine .bind .get fun m => ?_
  split
  · exact .pure _
  · exact steady_mismatch _

theorem steady_component {word : UInt32} (h : IsSaved word) : Steady p (component word) :=
  .bind (steady_componentNumber h) fun _ => steady_componentState _

theorem steady_setComponent (number : Nat) (c : ComponentState) :
    Steady p (setComponent number c) :=
  .modify fun _ => rfl

theorem steady_createdInstance (c : ComponentState) : Steady p (createdInstance c) := .orFail _ rfl

theorem steady_pushComponent (handle : UInt32) (curried : Option Arguments) :
    Steady p (pushComponent handle curried) :=
  .bind .read fun _ => .bind (.orFail _ rfl) fun _ => .modify fun _ => rfl

theorem steady_componentNamed (name referer : String) : Steady p (componentNamed name referer) :=
  .bind .read fun _ => .orFail _ rfl

theorem steady_pushDynamicComponent {referer : UInt32}
    (h : (p.constants.referers.get? referer).isSome = true) :
    Steady p (pushDynamicComponent referer) := by
  refine .bind (steady_constant h) fun referer => .bind steady_popDatum fun d => ?_
  split
  · exact steady_pushComponent _ _
  · exact .bind (steady_componentNamed _ _) fun _ => steady_pushComponent _ _
  · exact .fail rfl

theorem steady_curry {referer : UInt32} (h : (p.constants.referers.get? referer).isSome = true) :
    Steady p (curry referer) := by
  refine .bind (steady_constant h) fun referer => .bind steady_popArgs fun args =>
    .bind steady_popDatum fun d => ?_
  split
  · exact steady_pushRef _
  · exact .bind (steady_componentNamed _ _) fun _ => steady_pushRef _
  · exact steady_pushRef _
  · exact .fail rfl

theorem steady_prepareArgs {word : UInt32} (h : IsSaved word) : Steady p (prepareArgs word) := by
  refine .bind (steady_componentNumber h) fun number =>
    .bind (steady_componentState number) fun c => ?_
  split
  · exact .bind (steady_setComponent _ _) fun _ => .bind steady_popArgs fun _ => steady_push _
  · exact .pure _

theorem steady_create (flags : UInt32) {word : UInt32} (h : IsSaved word) :
    Steady p (create flags word) := by
  refine .bind (steady_componentNumber h) fun number =>
    .bind (steady_componentState number) fun c =>
    .bind .get fun m => .bind (steady_record _) fun _ => .bind .get fun m' => ?_
  split
  · exact steady_setComponent _ _
  · exact .fail rfl

theorem steady_registerDestructor (d : Destructor) : Steady p (registerDestructor d) := by
  refine .bind .get fun m => ?_
  split
  · exact .modify fun _ => rfl
  · exact .fail rfl

theorem steady_registerComponentDestructor {word : UInt32} (h : IsSaved word) :
    Steady p (registerComponentDestructor word) := by
  refine .bind (steady_component h) fun c => ?_
  split
  · refine .bind (steady_record _) fun _ => .bind .get fun m => ?_
    split
    · exact steady_registerDestructor _
    · exact .pure _
  · exact .pure _

theorem steady_commitTransaction : Steady p commitTransaction := by
  refine .bind .get fun m => ?_
  split
  · exact .modify fun _ => rfl
  · exact .fail rfl

theorem steady_pushSelf {word : UInt32} (h : IsSaved word) : Steady p (pushSelf word) :=
  .bind (steady_component h) fun _ => .bind (steady_createdInstance _) fun _ =>
    .bind (steady_record _) fun _ => .bind .get fun _ => steady_pushRef _

theorem steady_elementCreated {word : UInt32} (h : IsSaved word) :
    Steady p (elementCreated word) := by
  refine h.bind fun r hr => .bind (steady_savedValue hr) fun v => ?_
  split
  · refine .bind (steady_componentState _) fun c => ?_
    split
    · exact .bind .get fun _ => .bind (steady_record _) fun _ => .bind .get fun _ => steady_emit _
    · exact .pure _
  · exact .pure _

theorem steady_layoutRendered {word : UInt32} (h : IsSaved word) : Steady p (layoutRendered word) :=
  .bind (steady_component h) fun _ => .bind (steady_createdInstance _) fun _ => steady_record _

/-! ### Lists -/

theorem steady_exitBlock : Steady p exitBlock := by
  refine .bind .get fun m => ?_
  split
  · exact .fail rfl
  · exact .modify fun _ => rfl

theorem steady_iterator : Steady p iterator := by
  refine .bind .get fun m => ?_
  split
  · exact .pure _
  · exact steady_mismatch _
  · exact steady_underflow

theorem steady_putIterator : Steady p putIterator :=
  .bind steady_popRef fun _ => .bind steady_popDatum fun _ => .modify fun _ => rfl

theorem steady_exitList : Steady p exitList := by
  refine .bind .get fun m => ?_
  split
  · exact .fail rfl
  · simp only
    split
    · exact .modify fun _ => rfl
    · exact .fail rfl

/-! ### Instructions that lead elsewhere -/

/-- Linking may change the program, and nothing else that matters here. -/
theorem heads_link {β : Type} (f : Fragment) {g : UInt32 → Exec β}
    (hg : ∀ (q : Program) (handle : UInt32), Steady q (g handle)) :
    Heads p pc ra (link f >>= g) fun m => m.pc = pc ∧ m.ra = ra := by
  intro setup m hp hpc hra
  rw [bind_apply]
  unfold link
  simp only
  cases setup.options.compile f m.program with
  | error e q =>
    cases e
    · exact (rfl : RuntimeError.isUnverified (.compile _) = false)
    · exact trivial
  | ok handle q =>
    exact (hg q handle).weaken (fun m hpc hra => ⟨hpc, hra⟩) setup
      { m with program := q } rfl hpc hra

theorem heads_compileBlock : Heads p pc ra compileBlock fun m => m.pc = pc ∧ m.ra = ra := by
  refine steady_pop.next fun v => ?_
  split
  · exact heads_link _ fun q handle => steady_push _
  · split
    · exact (steady_push _).weaken fun m hpc hra => ⟨hpc, hra⟩
    · exact heads_mismatch _

theorem heads_pushLayout {word : UInt32} (h : IsSaved word) :
    Heads p pc ra (pushLayout word) fun m => m.pc = pc ∧ m.ra = ra :=
  (steady_component h).next fun _ => Steady.read.next fun _ => (Steady.orFail _ rfl).next fun _ =>
    heads_link _ fun _ _ => .bind (steady_push _) fun _ => steady_push _

theorem steady_pushFrame : Steady p pushFrame := .modify fun _ => rfl

theorem heads_popFrame : Heads p pc ra popFrame fun m => m.pc = pc := by
  refine Steady.get.next fun m => ?_
  split
  · exact .modify fun m _ hpc _ => hpc
  · exact heads_mismatch _

section

variable {b : Block} {start : Nat} {i : Instruction}

/-- The address that a verified jump leads to. -/
theorem target_eq (hsane : p.Sane b) (hbegins : b.Begins start)
    (htarget : Program.checkTarget b start i = .ok ()) : ∃ address, b.Begins address ∧
      ∀ setup m, m.program = p → target start i.a setup m = .ok address m := by
  obtain ⟨address, haddress, hlt, hthere⟩ := hsane.target hbegins htarget
  refine ⟨address, hthere, fun setup m hp => ?_⟩
  simp only [target, bind_apply, get_apply, hp, haddress]
  rw [if_pos ⟨by omega, by omega⟩, Int.toNat_natCast]
  rfl

/-- What follows the look-up of the address that a verified jump leads to. -/
theorem heads_target {β : Type} {f : Nat → Exec β} (hsane : p.Sane b) (hbegins : b.Begins start)
    (htarget : Program.checkTarget b start i = .ok ())
    (hf : ∀ address, b.Begins address → Heads p pc ra (f address) post) :
    Heads p pc ra (target start i.a >>= f) post := by
  obtain ⟨address, hthere, heq⟩ := target_eq hsane hbegins htarget
  intro setup m hp hpc hra
  rw [bind_apply, heq setup m hp]
  exact hf address hthere setup m hp hpc hra

theorem heads_jump (hsane : p.Sane b) (hbegins : b.Begins start)
    (htarget : Program.checkTarget b start i = .ok ()) :
    Heads p pc ra (jump start i.a) fun m => b.Begins m.pc ∧ m.ra = ra :=
  heads_target hsane hbegins htarget fun _ hthere => .modify fun _ _ _ hra => ⟨hthere, hra⟩

theorem heads_jumpWhen (expected : Bool) (hsane : p.Sane b) (hbegins : b.Begins start)
    (htarget : Program.checkTarget b start i = .ok ()) :
    Heads p pc ra (jumpWhen expected start i.a) fun m =>
    (b.Begins m.pc ∨ m.pc = pc) ∧ m.ra = ra := by
  refine steady_popDatum.next fun d => ?_
  split
  · exact (heads_jump hsane hbegins htarget).mono fun m hm => ⟨.inl hm.1, hm.2⟩
  · exact (Steady.pure ()).weaken fun m hpc hra => ⟨.inr hpc, hra⟩

theorem heads_iterate (hsane : p.Sane b) (hbegins : b.Begins start)
    (htarget : Program.checkTarget b start i = .ok ()) :
    Heads p pc ra (iterate start i.a) fun m => (b.Begins m.pc ∨ m.pc = pc) ∧ m.ra = ra := by
  refine steady_iterator.next fun number => Steady.get.next fun m => ?_
  split
  · refine Steady.weaken ?_ fun m hpc hra => ⟨.inr hpc, hra⟩
    exact .bind (.modify fun _ => rfl) fun _ => .bind (steady_pushRef _) fun _ =>
      .bind (steady_pushRef _) fun _ => .modify fun _ => rfl
  · exact (heads_jump hsane hbegins htarget).mono fun m hm => ⟨.inl hm.1, hm.2⟩

theorem heads_returnTo (hsane : p.Sane b) (hbegins : b.Begins start)
    (htarget : Program.checkTarget b start i = .ok ()) :
    Heads p pc ra (returnTo start i.a) fun m => m.pc = pc ∧ b.Begins m.ra :=
  heads_target hsane hbegins htarget fun _ hthere => .modify fun _ _ hpc _ => ⟨hpc, hthere⟩

theorem heads_enterList (hsane : p.Sane b) (hbegins : b.Begins start)
    (htarget : Program.checkTarget b start i = .ok ()) :
    Heads p pc ra (enterList start i.a) fun m => m.pc = pc ∧ m.ra = ra :=
  steady_iterator.next fun _ => heads_target hsane hbegins htarget fun _ _ =>
    .modify fun _ _ hpc hra => ⟨hpc, hra⟩

end

/-- Control is at the beginning of a finished block, to return to where it was. -/
def Calls (p : Program) (pc : Nat) (m : Machine) : Prop :=
  ∃ handle callee, p.heap.block? handle = some callee ∧ m.pc = callee.offset.toNat ∧ m.ra = pc

theorem heads_call (handle : UInt32) : Heads p pc ra (call handle) (Calls p pc) := by
  intro setup m hp hpc hra
  simp only [call, bind_apply, get_apply, Heap.address?, hp]
  cases hb : p.heap.block? handle with
  | none => exact (rfl : RuntimeError.isUnverified (.invalidHandle _) = false)
  | some callee => exact ⟨handle, callee, hb, rfl, hpc⟩

theorem heads_invokeVirtual : Heads p pc ra invokeVirtual (Calls p pc) := by
  refine steady_pop.next fun v => ?_
  split
  · exact heads_call _
  · exact heads_mismatch _

theorem steady_enterCallerScope (parameters : List UInt32) (args : Arguments) :
    Steady p (enterCallerScope parameters args) := by
  refine .bind steady_currentScope fun current => .bind .get fun m =>
    .bind (.orFail _ rfl) fun caller => ?_
  split
  · exact .bind steady_pushFrame fun _ => .modify fun _ => rfl
  · exact .bind steady_pushFrame fun _ => steady_enterNewScope _

theorem heads_invokeYield :
    Heads p pc ra invokeYield fun m => Calls p pc m ∨ m.pc = pc ∧ m.ra = ra := by
  refine steady_pop.next fun block => steady_pop.next fun table => steady_popArgs.next fun args =>
    steady_currentScope.next fun current => ?_
  split
  · exact (steady_enterCallerScope _ _).next fun _ => (heads_call _).mono fun _ => .inl
  · refine Steady.weaken ?_ fun m hpc hra => .inr ⟨hpc, hra⟩
    exact .bind steady_pushFrame fun _ => .modify fun _ => rfl

theorem heads_invokeLayout : Heads p pc ra invokeLayout (Calls p pc) := by
  refine steady_pop.next fun v => ?_
  split
  · refine steady_pop.next fun v => ?_
    split
    · refine steady_popRef.next fun self => steady_popArgs.next fun args =>
        steady_popBlock.next fun attrs => steady_popBlock.next fun inverse =>
          steady_popBlock.next fun main => ?_
      split
      · exact Steady.get.next fun m => steady_pushFrame.next fun _ =>
          (steady_enterNewScope _).next fun _ => heads_call _
      · exact heads_mismatch _
    · exact heads_mismatch _
  · exact heads_mismatch _

end Exec

end TemplateMachine
