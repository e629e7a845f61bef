import TemplateMachine.Proofs.Run.Lasting
import TemplateMachine.Proofs.Twin.Operations

/-! The effects of instructions on two machines side by side, other than those that call, return and
jump.  The instructions differ in their operands only, which stand for the same. -/

namespace TemplateMachine

/-- The operands stand for the same constant, in whatever the programs become. -/
def Duo.Names {α : Type} (find : Constants → UInt32 → Option α) (d : Duo) (index index' : UInt32)
    (a : α) : Prop :=
  ∀ e, d.Within e → find e.left.constants index = some a ∧ find e.right.constants index' = some a

namespace CompileOptions

/-- The fragment may be linked while a template is rendered: lazily it is a constant, or else the
layout of a component. -/
def Finds (o : CompileOptions) (p : Program) (f : Fragment) : Prop :=
  o.strategy = .lazy ∧ Knows p f ∨ ∃ handle, o.lookup.layout? handle = some f

/-- What can be found in the program and be linked, one after the other,
leads from it to another. -/
inductive Gathers (o : CompileOptions) (p : Program) : Program → Prop
  | refl : Gathers o p p
  | link {q r : Program} {f : Fragment} {handle : UInt32} : Gathers o p q → o.Finds q f →
    o.compile f q = .ok handle r → Gathers o p r

theorem Gathers.trans {o : CompileOptions} {p q r : Program} (h : o.Gathers p q)
    (h' : o.Gathers q r) : o.Gathers p r := by
  induction h' with
  | refl => exact h
  | link _ hf hcompile ih => exact ih.link hf hcompile

end CompileOptions

/-- Neither of two computations could link something, and one of them found no end in it. -/
structure Stop.Endless (e e' : Stop RuntimeError) : Prop where
  left : e.isUnlinked = true
  right : e'.isUnlinked = true
  endless : e = .outOfFuel ∨ e' = .outOfFuel

/-- Ends of two steps, the first one from a given program.  Only linking may not end, and only by
linking a program gets too large. -/
inductive Setup.StepsAlike {α β : Type} (setup : Setup) (p : Program)
    (R : α → β → Machine → Machine → Prop) :
    EStateM.Result (Stop RuntimeError) Machine α →
    EStateM.Result (Stop RuntimeError) Machine β → Prop
  | ok {a : α} {b : β} {m m' : Machine} : setup.options.Gathers p m.program → R a b m m' →
    StepsAlike setup p R (.ok a m) (.ok b m')
  | fault {e e' : RuntimeError} {m m' : Machine} : e.name = e'.name →
    ((Stop.fault e).isUnlinked = false → setup.options.Gathers p m.program) →
    StepsAlike setup p R (.error (.fault e) m) (.error (.fault e') m')
  | unlinked {e e' : Stop RuntimeError} {m m' : Machine} : e.Endless e' → setup.Hangs →
    StepsAlike setup p R (.error e m) (.error e' m')
  | fullLeft {out : EStateM.Result (Stop RuntimeError) Machine α}
    {out' : EStateM.Result (Stop RuntimeError) Machine β} : ¬(stateAfter out).program.Fits →
    StepsAlike setup p R out out'
  | fullRight {out : EStateM.Result (Stop RuntimeError) Machine α}
    {out' : EStateM.Result (Stop RuntimeError) Machine β} : ¬(stateAfter out').program.Fits →
    StepsAlike setup p R out out'

/-- Steps that link nothing. -/
theorem Exec.EndsAlike.steps {α β : Type} {setup : Setup} {p : Program}
    {R : α → β → Machine → Machine → Prop} {out : EStateM.Result (Stop RuntimeError) Machine α}
    {out' : EStateM.Result (Stop RuntimeError) Machine β} (h : Exec.EndsAlike p R out out') :
    setup.StepsAlike p R out out' := by
  cases h with
  | ok hprogram h => exact .ok (hprogram ▸ .refl) h
  | fault hprogram h => exact .fault h fun _ => hprogram ▸ .refl

/-- The instructions have the same effect, on stacks of some shape. -/
def Acts (setup : Setup) (d : Duo) (i i' : Instruction) (s s' : Shape) : Prop :=
  ∀ (G : Ground setup.options) (π : Pins), d.Within π.since → ∀ (start start' : Nat) (m : Machine)
    (q : Private), Held G π s m.own q →
    setup.StepsAlike m.program (Machine.Paired fun _ _ => Held G π s')
      (Exec.perform start i setup m) (Exec.perform start' i' setup (m.beside q))

namespace Exec

section

variable {setup : Setup} {d : Duo} {G : Ground setup.options} {π : Pins} {s s' : Shape}
variable {n : Nat} {k : Kind} {pre : Private → Private → Prop} {i i' : Instruction}

theorem Acts.of {x x' : Exec Unit} (hi : ∀ start, perform start i = x)
    (hi' : ∀ start, perform start i' = x')
    (h : ∀ (G : Ground setup.options) (π : Pins), d.Within π.since →
      Tied setup (Held G π s) x x' fun _ _ => Held G π s') : Acts setup d i i' s s' := by
  intro G π hπ start start' m q hheld
  rw [hi, hi']
  exact (h G π hπ m q hheld).steps

/-- An instruction that is the same on both sides. -/
theorem acts_same (x : Exec Unit) (hi : ∀ start, perform start i = x)
    (h : ∀ (G : Ground setup.options) (π : Pins), d.Within π.since →
      Tied setup (Held G π s) x x fun _ _ => Held G π s') : Acts setup d i i s s' := Acts.of hi hi h

theorem acts_mono {e : Duo} (h : Acts setup d i i' s s') (he : d.Within e) :
    Acts setup e i i' s s' :=
  fun G π hπ => h G π (he.trans hπ)

theorem acts_of_shared {x : Exec Unit} (hi : ∀ start, perform start i = x)
    (hi' : ∀ start, perform start i' = x) (hx : Shared setup x) : Acts setup d i i' s s :=
  Acts.of hi hi' fun _ _ _ => hx.tied

/-! ### What the machines share -/

theorem shared_currentScope : Shared setup currentScope :=
  Shared.get_bind (fun _ _ => rfl) fun m => by
    cases m.scopeStack with
    | nil => exact Shared.fail _
    | cons number rest => exact Shared.pure number

theorem shared_leaveScope : Shared setup leaveScope :=
  Shared.get_bind (fun _ _ => rfl) fun m => by
    cases m.scopeStack with
    | nil => exact Shared.fail _
    | cons number rest => exact Shared.modify (fun _ _ => rfl) fun _ => rfl

theorem shared_enterScope (number : Nat) : Shared setup (enterScope number) :=
  Shared.modify (fun _ _ => rfl) fun _ => rfl

theorem shared_enterDynamicScope : Shared setup enterDynamicScope :=
  Shared.modify (fun _ _ => rfl) fun _ => rfl

theorem shared_leaveDynamicScope : Shared setup leaveDynamicScope :=
  Shared.get_bind (fun _ _ => rfl) fun m => by
    cases m.dynamicScopes with
    | nil => exact Shared.fail _
    | cons first rest => exact Shared.modify (fun _ _ => rfl) fun _ => rfl

theorem shared_record (e : Event) : Shared setup (record e) :=
  Shared.modify (fun _ _ => rfl) fun _ => rfl

theorem shared_emit (write : Sink → Sink) : Shared setup (emit write) :=
  Shared.modify (fun _ _ => rfl) fun _ => rfl

theorem shared_onElement (change : Sink → Sink.Result) : Shared setup (onElement change) := by
  intro pre m q hpre
  show EndsAlike _ _ (onElement change setup m) (onElement change setup (m.beside q))
  unfold onElement
  dsimp only
  rw [show (m.beside q).sink = m.sink from rfl]
  cases change m.sink with
  | ok sink => exact .ok rfl ⟨q, rfl, rfl, hpre⟩
  | error operation => exact .fault rfl rfl

theorem shared_setAttributes (attributes : List (String × String)) :
    Shared setup (setAttributes attributes) := by
  induction attributes with
  | nil => exact Shared.pure ()
  | cons first rest ih => exact (shared_onElement _).bind fun _ => ih

theorem shared_enterBlock : Shared setup enterBlock := Shared.modify (fun _ _ => rfl) fun _ => rfl

theorem shared_exitBlock : Shared setup exitBlock :=
  Shared.get_bind (fun _ _ => rfl) fun m => by
    split
    · exact Shared.fail _
    · exact Shared.modify (fun _ _ => rfl) fun _ => rfl

theorem shared_beginTransaction : Shared setup beginTransaction :=
  Shared.modify (fun _ _ => rfl) fun _ => rfl

theorem shared_commitTransaction : Shared setup commitTransaction :=
  Shared.get_bind (fun _ _ => rfl) fun m => by
    cases m.transactions with
    | nil => exact Shared.fail _
    | cons innermost rest => exact Shared.modify (fun _ _ => rfl) fun _ => rfl

theorem shared_registerDestructor (destructor : Destructor) :
    Shared setup (registerDestructor destructor) :=
  Shared.get_bind (fun _ _ => rfl) fun m => by
    cases m.transactions with
    | nil => exact Shared.fail _
    | cons innermost rest => exact Shared.modify (fun _ _ => rfl) fun _ => rfl

theorem shared_componentState (number : Nat) : Shared setup (componentState number) :=
  Shared.get_bind (fun _ _ => rfl) fun m => by
    cases m.components[number]? with
    | none => exact Shared.mismatch _
    | some c => exact Shared.pure c

theorem shared_setComponent (number : Nat) (c : ComponentState) :
    Shared setup (setComponent number c) :=
  Shared.modify (fun _ _ => rfl) fun _ => rfl

theorem shared_register (word : UInt32) : Shared setup (register word) := Shared.orFail _ _

theorem shared_componentNamed (name referer : String) :
    Shared setup (componentNamed name referer) :=
  Shared.read_bind (Shared.orFail _ _)

/-! ### Constants, registers and scopes -/

/-- Constants that the operands stand for. -/
theorem tied_constant {α β : Type} {kind : String} {find : Constants → UInt32 → Option α}
    {find' : Constants → UInt32 → Option β} {index index' : UInt32} {a : α} {b : β}
    (h : ∀ l r, pre l r → find l.program.constants index = some a ∧
      find' r.program.constants index' = some b) :
    Tied setup pre (constant kind find index) (constant kind find' index') fun x y l r =>
      x = a ∧ y = b ∧ pre l r := by
  refine Tied.get_bind fun m q hpre => ?_
  obtain ⟨hl, hr⟩ := h _ _ hpre
  show Tied setup _ (orFail (find m.own.program.constants index) _)
    (orFail (find' q.program.constants index') _) _
  rw [hl, hr]
  exact Tied.pure fun _ _ h => ⟨rfl, rfl, h.1 ▸ h.2 ▸ hpre⟩

theorem tied_named {α : Type} {kind : String} {find : Constants → UInt32 → Option α}
    {index index' : UInt32} {a : α} (h : d.Names find index index' a) (hπ : d.Within π.since) :
    Tied setup (Held G π s) (constant kind find index) (constant kind find index') fun x y l r =>
      x = a ∧ y = a ∧ Held G π s l r :=
  tied_constant fun l r hheld => h (l.duo r) (hπ.trans hheld.since)

theorem tied_savedValue (register : Register) :
    Tied setup (Held G π s) (savedValue register) (savedValue register) fun v v' =>
      HeldWith (fun e => v.Twin setup.options e v') G π s := by
  refine Tied.get_bind fun m q hpre => Tied.orFail_of rfl ?_
  rintro l r ⟨rfl, rfl⟩
  rcases hpre.registers.get? register with h | ⟨v, v', hv, hv', htwin⟩
  · exact .inl h
  · exact .inr ⟨v, v', hv, hv', htwin, hpre⟩

theorem tied_slot (symbol : UInt32) : Tied setup (Held G π s) (slot symbol) (slot symbol) fun x y =>
    HeldWith (fun e => x.Twin setup.options e y) G π s := by
  refine Tied.after shared_currentScope fun number => Tied.get_bind fun m q hpre => Tied.pure ?_
  rintro l r ⟨rfl, rfl⟩
  exact ⟨(hpre.scopes.get number).get symbol, hpre⟩

theorem tied_bindSlot {x y : Slot} (symbol : UInt32) (h : x.Twin setup.options π.since y) :
    Tied setup (Held G π s) (bindSlot symbol x) (bindSlot symbol y) fun _ _ => Held G π s :=
  Tied.after shared_currentScope fun number => Tied.changes (fun _ => rfl) fun _ q hheld =>
    ⟨{ q with scopes := q.scopes.bind number symbol y }, rfl,
      { hheld with scopes := hheld.scopes.bind number symbol (h.mono hheld.since) }⟩

theorem tied_enterNewScope {scope scope' : Scope} (h : scope.Twin setup.options π.since scope') :
    Tied setup (Held G π s) (enterNewScope scope) (enterNewScope scope') fun _ _ => Held G π s := by
  refine Tied.changes (fun _ => rfl) fun m q hheld => ?_
  have hsize : q.scopes.entries.size = m.scopes.entries.size := hheld.scopes.size.symm
  exact ⟨{ q with scopes := (q.scopes.add scope').2 },
    congrArg (fun number => Machine.beside { m with scopeStack := number :: m.scopeStack }
      { q with scopes := (q.scopes.add scope').2 }) hsize,
    { hheld with scopes := hheld.scopes.push (h.mono hheld.since) }⟩

theorem load_current : load Emit.current = (do
    let v ← pop
    let _ ← savedValue .s0
    modify fun m => { m with registers := m.registers.set .s0 v } : Exec Unit) := rfl

theorem tied_load
    (h : Tied setup pre pop pop fun v v' => HeldWith (fun e => v.Twin setup.options e v') G π s) :
    Tied setup pre (load Emit.current) (load Emit.current) fun _ _ => Held G π s := by
  rw [load_current]
  exact h.bind_with fun v v' e _ hv => (tied_savedValue .s0).bind_with fun _ _ e' he' _ =>
    Tied.changes (fun _ => rfl) fun _ q hheld =>
      ⟨{ q with registers := q.registers.set .s0 v' }, rfl,
      { hheld with registers := hheld.registers.set .s0 (hv.mono (he'.trans hheld.since)) }⟩

theorem shared_createWith (number : Nat) (c : ComponentState) (cells : Cells) (asked : Instance) :
    Shared setup (do
      record (.create c.definition asked)
      match (c.manager (← get).events).create cells asked with
      | .ok inst => setComponent number { c with created := some inst }
      | .error message => fail (.managerFailed message)) :=
  (shared_record _).bind fun _ => Shared.get_bind (fun _ _ => rfl) fun m => by
    split
    · exact shared_setComponent _ _
    · exact Shared.fail _

theorem tied_componentNumber : Tied setup (Held G π s) (componentNumber Emit.current)
    (componentNumber Emit.current) fun x y l r => x = y ∧ Held G π s l r := by
  refine Tied.after (shared_register _) fun r =>
    (tied_savedValue r).bind_known fun v v' e he h => ?_
  cases h with
  | component number => exact Tied.pure fun _ _ h => ⟨rfl, h.unbase he⟩
  | _ => exact Tied.mismatch _

theorem tied_component :
    Tied setup (Held G π s) (component Emit.current) (component Emit.current) fun x y l r =>
    x = y ∧ Held G π s l r :=
  tied_componentNumber.bind fun number _ => .given fun h => h ▸ shared_componentState number _

theorem tied_pushComponent (handle : UInt32) (curried : Option Arguments) :
    Tied setup (Held G π s) (pushComponent handle curried) (pushComponent handle curried) fun _ _ =>
      Held G π (s.push .solid) :=
  Tied.read_bind (Tied.after (Shared.orFail _ _) fun _ =>
    Tied.changes (fun _ => rfl) fun m q hheld =>
    ⟨{ q with stack := q.stack.push (.component m.components.size) }, rfl,
      hheld.push ⟨.component _, rfl⟩⟩)

/-- What a constant is that two operands stand for. -/
theorem tied_named_bind {α β : Type} {kind : String} {find : Constants → UInt32 → Option α}
    {index index' : UInt32} {x : α} {f g : α → Exec β} {post : β → β → Private → Private → Prop}
    (h : d.Names find index index' x) (hπ : d.Within π.since)
    (hf : Tied setup (Held G π s) (f x) (g x) post) :
    Tied setup (Held G π s) (constant kind find index >>= f)
      (constant kind find index' >>= g) post :=
  (tied_named h hπ).bind fun a b m q hpre => by
    obtain ⟨rfl, rfl, hheld⟩ := hpre
    exact hf m q hheld

/-- The namespaces are the same, or there is none. -/
def SameSpace (d : Duo) (index index' : UInt32) : Prop :=
  index = 0 ∧ index' = 0 ∨ index ≠ 0 ∧ index' ≠ 0 ∧ ∃ text, d.Names (fun c => c.strings.get?)
    index index' text

theorem tied_namespace {index index' : UInt32} (h : SameSpace d index index')
    (hπ : d.Within π.since) :
    Tied setup (Held G π s) (namespaceConstant index) (namespaceConstant index') fun x y l r =>
      x = y ∧ Held G π s l r := by
  unfold namespaceConstant
  rcases h with ⟨rfl, rfl⟩ | ⟨hne, hne', text, h⟩
  · exact Tied.pure fun _ _ h => ⟨rfl, h⟩
  · rw [if_neg hne, if_neg hne']
    exact tied_named_bind h hπ (Tied.pure fun _ _ h => ⟨rfl, h⟩)

/-- Pushing what is found on the stack. -/
theorem tied_dup {x : Exec Unit} {find : Machine → Option Value}
    (hx : x = get >>= fun m => match find m with | some v => push v | none => underflow)
    (hfind : ∀ m q, Held G π s (Machine.own m) q → find m = none ∧ find (m.beside q) = none ∨
      ∃ v v', find m = some v ∧ find (m.beside q) = some v' ∧
      k.Admits setup.options (m.own.duo q) (v, v')) :
    Tied setup (Held G π s) x x fun _ _ => Held G π (s.push k) := by
  subst hx
  refine Tied.get_bind fun m q hheld => ?_
  rcases hfind m q hheld with ⟨hnone, hnone'⟩ | ⟨v, v', hv, hv', hk⟩
  · rw [hnone, hnone']
    exact Tied.underflow
  · rw [hv, hv']
    refine ((tied_push (π := π.at (m.own.duo q)) hk).strengthen ?_).weaken fun _ _ _ _ h =>
      h.unbase hheld.since
    rintro l r ⟨rfl, rfl⟩
    exact hheld.rebase

/-- The value at a depth below the top of a stack. -/
def peek (xs : Array Value) (depth : Nat) : Option Value :=
  (if xs.size = 0 then none else some (xs.size - 1)).bind fun base =>
    if depth ≤ base then xs[base - depth]? else none

theorem peek_stackOf (vs : List Value) (depth : Nat) : peek (stackOf vs) depth = vs[depth]? := by
  rw [peek, size_stackOf]
  cases vs with
  | nil => rfl
  | cons v vs =>
    rw [if_neg (by simp), Option.bind_some, List.length_cons, Nat.add_sub_cancel]
    split
    · rw [getElem?_stackOf, List.getElem?_reverse (by simp), List.length_cons]
      congr 1
      omega
    · exact (List.getElem?_eq_none (by simp; omega)).symm

theorem dup_sp (depth : UInt32) : dup Register.sp.number depth = get >>= fun m =>
    match peek m.stack depth.toNat with
    | some v => push v
    | none => underflow := rfl

theorem dup_fp (depth : UInt32) : dup Register.fp.number depth = get >>= fun m =>
    match (if depth.toNat ≤ m.fp then m.stack[m.fp - depth.toNat]? else none) with
    | some v => push v
    | none => underflow := rfl

theorem tied_dup_fp (depth : UInt32) :
    Tied setup (Held G π s) (dup Register.fp.number depth) (dup Register.fp.number depth) fun _ _ =>
      Held G π (s.push .stray) := by
  refine tied_dup (dup_fp depth) fun m q hheld => ?_
  have hfp : q.fp = m.fp := hheld.fp'.trans hheld.fp.symm
  show _ ∧ (if depth.toNat ≤ q.fp then q.stack[q.fp - depth.toNat]? else none) = _ ∨ ∃ v v', _ ∧
    (if depth.toNat ≤ q.fp then q.stack[q.fp - depth.toNat]? else none) = _ ∧ _
  rw [hfp]
  split
  · exact hheld.pointwise.get? _
  · exact .inl ⟨rfl, rfl⟩

/-- What is known of a value is known of its copy. -/
theorem tied_dup_sp (depth : UInt32) (hk : s.kinds[depth.toNat]? = some k) :
    Tied setup (Held G π s) (dup Register.sp.number depth) (dup Register.sp.number depth) fun _ _ =>
      Held G π (s.push k) := by
  refine tied_dup (dup_sp depth) fun m q hheld => ?_
  obtain ⟨top, base, hl, hr, ⟨us, vs, rfl, hus, hvs, hn⟩, hbase⟩ := hheld.stack
  obtain ⟨c, hc, hadmits⟩ := Kind.exists_of_get? hus hk
  have hpeek (f : StackPair → Value) :
      peek (stackOf ((us ++ vs ++ base).map f)) depth.toNat = some (f c) := by
    rw [peek_stackOf, List.getElem?_map, List.append_assoc,
      List.getElem?_append_left (List.getElem?_eq_some_iff.mp hc).1, hc]
    rfl
  refine .inr ⟨c.1, c.2, ?_, ?_, hadmits⟩
  · rw [show m.stack = _ from hl]
    exact hpeek Prod.fst
  · rw [show (m.beside q).stack = _ from hr]
    exact hpeek Prod.snd

/-! ### Values -/

section

variable (setup d s)
variable (a b c : UInt32)

theorem acts_getVariable :
    Acts setup d ⟨.getVariable, a, b, c⟩ ⟨.getVariable, a, b, c⟩ s (s.push .ref) :=
  Acts.of (fun _ => rfl) (fun _ => rfl) fun _ _ _ => (tied_slot a).bind_with fun x y e _ htwin => by
      cases htwin with
      | value r => exact tied_pushRef r
      | _ => exact tied_pushRef .null

theorem acts_getBlock :
    Acts setup d ⟨.getBlock, a, b, c⟩ ⟨.getBlock, a, b, c⟩ s ((s.push .any).push .any) :=
  Acts.of (fun _ => rfl) (fun _ => rfl) fun _ _ _ => (tied_slot a).bind_with fun x y e _ htwin => by
      cases htwin with
      | block h => exact (tied_push_any h.table).bind fun _ _ => tied_push_any h.block
      | _ => exact (tied_push_any .null).bind fun _ _ => tied_push_any .null

theorem acts_hasBlock : Acts setup d ⟨.hasBlock, a, b, c⟩ ⟨.hasBlock, a, b, c⟩ s (s.push .ref) :=
  Acts.of (fun _ => rfl) (fun _ => rfl) fun _ _ _ => (tied_slot a).bind_with fun x y e _ htwin => by
      cases htwin with
      | @block b b' h =>
        show Tied setup _ (pushBool b.isPresent) (pushBool b'.isPresent) _
        rw [h.isPresent]
        exact tied_pushRef _
      | _ => exact tied_pushRef _

theorem acts_hasBlockParams :
    Acts setup d ⟨.hasBlockParams, a, b, c⟩ ⟨.hasBlockParams, a, b, c⟩ ((s.push .any).push .any)
      (s.push .ref) :=
  Acts.of (fun _ => rfl) (fun _ => rfl) fun _ _ _ =>
      tied_popBlock_known.bind_with fun x y e _ htwin => by
      obtain ⟨table, block⟩ := x
      obtain ⟨table', block'⟩ := y
      have hpresent := htwin.isPresent
      obtain ⟨htable, -⟩ := htwin
      replace htable : table.Twin setup.options e table' := htable
      cases htable with
      | table t =>
        dsimp only
        rw [hpresent]
        exact tied_pushRef _
      | _ => exact tied_pushRef _

/-- Taking a reference and pushing another. -/
theorem acts_onRef {i i' : Instruction} {f : Reference → Reference}
    (hi : ∀ start, perform start i = do pushRef (f (← popRef)))
    (hi' : ∀ start, perform start i' = do pushRef (f (← popRef))) :
    Acts setup d i i' (s.push .ref) (s.push .ref) :=
  Acts.of hi hi' fun _ _ _ => tied_popRef.bind fun r _ => .given fun h => h ▸ tied_pushRef (f r)

theorem acts_toBoolean :
    Acts setup d ⟨.toBoolean, a, b, c⟩ ⟨.toBoolean, a, b, c⟩ (s.push .ref) (s.push .ref) :=
  acts_onRef setup d s (fun _ => rfl) fun _ => rfl

theorem acts_isComponent :
    Acts setup d ⟨.isComponent, a, b, c⟩ ⟨.isComponent, a, b, c⟩ (s.push .ref) (s.push .ref) :=
  acts_onRef setup d s (fun _ => rfl) fun _ => rfl

theorem acts_concat (n : Nat) :
    Acts setup d ⟨.concat, a, b, c⟩ ⟨.concat, a, b, c⟩ (.loose n) ((Shape.loose n).push .ref) :=
  Acts.of (fun _ => rfl) (fun _ => rfl) fun _ _ _ => (tied_popRefs [] a.toNat).bind fun rs _ =>
    .given fun h => h ▸ tied_pushRef (.concat .still rs)

theorem acts_setVariable (n : Nat) :
    Acts setup d ⟨.setVariable, a, b, c⟩ ⟨.setVariable, a, b, c⟩ (.loose n) (.loose n) :=
  Acts.of (fun _ => rfl) (fun _ => rfl) fun _ _ _ => tied_popRef_loose.bind fun r _ =>
    .given fun h =>
    h ▸ tied_bindSlot a (.value r)

theorem acts_setVariable_stray :
    Acts setup d ⟨.setVariable, a, b, c⟩ ⟨.setVariable, a, b, c⟩ (s.push .stray) s :=
  Acts.of (fun _ => rfl) (fun _ => rfl) fun _ _ _ => tied_popRef_stray.bind fun r _ =>
    .given fun h =>
    h ▸ tied_bindSlot a (.value r)

theorem acts_setBlock (n : Nat) :
    Acts setup d ⟨.setBlock, a, b, c⟩ ⟨.setBlock, a, b, c⟩ (.loose (n + 2)) (.loose n) :=
  Acts.of (fun _ => rfl) (fun _ => rfl) fun _ _ _ => tied_popBlock.bind_with fun _ _ _ _ h =>
    tied_bindSlot a (.block h)

theorem acts_pop : Acts setup d ⟨.pop, a, b, c⟩ ⟨.pop, a, b, c⟩ (.loose 0) (.loose 0) :=
  Acts.of (fun _ => rfl) (fun _ => rfl) fun _ _ _ => tied_drop a.toNat

theorem acts_primitiveReference :
    Acts setup d ⟨.primitiveReference, a, b, c⟩ ⟨.primitiveReference, a, b, c⟩ (s.push .literal)
      (s.push .ref) :=
  Acts.of (fun _ => rfl) (fun _ => rfl) fun _ _ _ => tied_pop_known.bind_with fun v v' e _ h => by
    obtain ⟨p, hp⟩ := h
    cases hp
    exact tied_pushRef _

theorem acts_dynamicContent :
    Acts setup d ⟨.dynamicContent, a, b, c⟩ ⟨.dynamicContent, a, b, c⟩ (s.push .ref) s :=
  Acts.of (fun _ => rfl) (fun _ => rfl) fun _ _ _ => (tied_popDatum tied_popRef).bind fun x _ =>
      .given fun h => by
    subst h
    cases x.content? with
    | none => exact Tied.pure fun _ _ h => h
    | some content => exact (shared_emit _).tied

/-! ### Registers -/

theorem acts_fetch :
    Acts setup d ⟨.fetch, Emit.current, b, c⟩ ⟨.fetch, Emit.current, b, c⟩ s (s.push .any) :=
  Acts.of (fun _ => rfl) (fun _ => rfl) fun _ _ _ => Tied.get_same (fun _ _ => rfl) fun _ =>
    (tied_savedValue .s0).bind_with fun _ _ _ _ h => tied_push_any h

theorem acts_load :
    Acts setup d ⟨.load, Emit.current, b, c⟩ ⟨.load, Emit.current, b, c⟩ (s.push .solid) s :=
  Acts.of (fun _ => rfl) (fun _ => rfl) fun _ _ _ =>
    tied_load (tied_pop_known.weaken fun _ _ _ _ h => ⟨h.1.1, h.2⟩)

theorem acts_load_loose (n : Nat) :
    Acts setup d ⟨.load, Emit.current, b, c⟩ ⟨.load, Emit.current, b, c⟩
      (.loose (n + 1)) (.loose n) :=
  Acts.of (fun _ => rfl) (fun _ => rfl) fun _ _ _ => tied_load tied_pop_solid

theorem acts_dup_top (k : Kind) :
    Acts setup d ⟨.dup, Register.sp.number, 0, c⟩ ⟨.dup, Register.sp.number, 0, c⟩ (s.push k)
      ((s.push k).push k) :=
  Acts.of (fun _ => rfl) (fun _ => rfl) fun _ _ _ => tied_dup_sp 0 rfl

theorem acts_dup_next (k k' : Kind) :
    Acts setup d ⟨.dup, Register.sp.number, 1, c⟩ ⟨.dup, Register.sp.number, 1, c⟩
      ((s.push k).push k')
      (((s.push k).push k').push k) :=
  Acts.of (fun _ => rfl) (fun _ => rfl) fun _ _ _ => tied_dup_sp 1 rfl

theorem acts_dup_fp :
    Acts setup d ⟨.dup, Register.fp.number, b, c⟩ ⟨.dup, Register.fp.number, b, c⟩ s
      (s.push .stray) :=
  Acts.of (fun _ => rfl) (fun _ => rfl) fun _ _ _ => tied_dup_fp b

/-! ### Scopes -/

theorem acts_childScope : Acts setup d ⟨.childScope, a, b, c⟩ ⟨.childScope, a, b, c⟩ s s :=
  Acts.of (fun _ => rfl) (fun _ => rfl) fun _ _ _ => Tied.after shared_currentScope fun number =>
    Tied.get_bind fun m q hheld => by
      refine ((tied_enterNewScope (π := Pins.at _ (m.own.duo q))
        (hheld.scopes.get number)).strengthen ?_).weaken fun _ _ _ _ h => h.unbase hheld.since
      rintro l r ⟨rfl, rfl⟩
      exact hheld.rebase

theorem acts_rootScope : Acts setup d ⟨.rootScope, a, b, c⟩ ⟨.rootScope, a, b, c⟩ s s :=
  Acts.of (fun _ => rfl) (fun _ => rfl) fun _ _ _ => Tied.get_same (fun _ _ => rfl) fun _ =>
    tied_enterNewScope (.root _ _ _)

theorem acts_popScope : Acts setup d ⟨.popScope, a, b, c⟩ ⟨.popScope, a, b, c⟩ s s :=
  acts_of_shared (fun _ => rfl) (fun _ => rfl) shared_leaveScope

theorem acts_pushDynamicScope :
    Acts setup d ⟨.pushDynamicScope, a, b, c⟩ ⟨.pushDynamicScope, a, b, c⟩ s s :=
  acts_of_shared (fun _ => rfl) (fun _ => rfl) shared_enterDynamicScope

theorem acts_popDynamicScope :
    Acts setup d ⟨.popDynamicScope, a, b, c⟩ ⟨.popDynamicScope, a, b, c⟩ s s :=
  acts_of_shared (fun _ => rfl) (fun _ => rfl) shared_leaveDynamicScope

theorem acts_enter : Acts setup d ⟨.enter, a, b, c⟩ ⟨.enter, a, b, c⟩ s s :=
  acts_of_shared (fun _ => rfl) (fun _ => rfl) shared_enterBlock

theorem acts_exit : Acts setup d ⟨.exit, a, b, c⟩ ⟨.exit, a, b, c⟩ s s :=
  acts_of_shared (fun _ => rfl) (fun _ => rfl) shared_exitBlock

/-! ### Markup -/

theorem acts_flushElement : Acts setup d ⟨.flushElement, a, b, c⟩ ⟨.flushElement, a, b, c⟩ s s :=
  acts_of_shared (fun _ => rfl) (fun _ => rfl) (shared_onElement _)

theorem acts_closeElement : Acts setup d ⟨.closeElement, a, b, c⟩ ⟨.closeElement, a, b, c⟩ s s :=
  acts_of_shared (fun _ => rfl) (fun _ => rfl) (shared_onElement _)

theorem acts_beginTransaction :
    Acts setup d ⟨.beginComponentTransaction, a, b, c⟩ ⟨.beginComponentTransaction, a, b, c⟩ s s :=
  acts_of_shared (fun _ => rfl) (fun _ => rfl) shared_beginTransaction

theorem acts_commitTransaction :
    Acts setup d ⟨.commitComponentTransaction, a, b, c⟩
      ⟨.commitComponentTransaction, a, b, c⟩ s s :=
  acts_of_shared (fun _ => rfl) (fun _ => rfl) shared_commitTransaction

/-! ### Components -/

theorem acts_didRenderLayout :
    Acts setup d ⟨.didRenderLayout, Emit.current, b, c⟩
      ⟨.didRenderLayout, Emit.current, b, c⟩ s s :=
  acts_same (layoutRendered Emit.current) (fun _ => rfl) fun _ _ _ => tied_component.bind fun _ _ =>
    .given fun h => h ▸ Tied.after (Shared.orFail _ _) fun _ =>
      (shared_record _).tied

theorem acts_getComponentSelf :
    Acts setup d ⟨.getComponentSelf, Emit.current, b, c⟩ ⟨.getComponentSelf, Emit.current, b, c⟩ s
      (s.push .ref) :=
  acts_same (pushSelf Emit.current) (fun _ => rfl) fun _ _ _ => tied_component.bind fun _ _ =>
    .given fun h =>
    h ▸ Tied.after (Shared.orFail _ _) fun _ => Tied.after (shared_record _) fun _ =>
      Tied.get_same (fun _ _ => rfl) fun _ => tied_pushRef _

theorem acts_registerComponentDestructor :
    Acts setup d ⟨.registerComponentDestructor, Emit.current, b, c⟩
      ⟨.registerComponentDestructor, Emit.current, b, c⟩ s s :=
  acts_same (registerComponentDestructor Emit.current) (fun _ => rfl) fun G π _ =>
    tied_component.bind fun x _ =>
    .given fun h => h ▸ by
      cases x.created with
      | none => exact Tied.pure fun _ _ h => h
      | some inst =>
        refine Tied.after (shared_record _) fun _ => Tied.get_same (fun _ _ => rfl) fun m => ?_
        split
        · exact (shared_registerDestructor _).tied
        · exact Tied.pure fun _ _ h => h

theorem acts_didCreateElement :
    Acts setup d ⟨.didCreateElement, Emit.current, b, c⟩
      ⟨.didCreateElement, Emit.current, b, c⟩ s s :=
  acts_same (elementCreated Emit.current) (fun _ => rfl) fun G π _ =>
    Tied.after (shared_register _) fun r =>
    (tied_savedValue r).bind_with fun v v' e _ h => by
      cases h with
      | component number =>
        refine Tied.after (shared_componentState number) fun x => ?_
        cases x.created with
        | none => exact Tied.pure fun _ _ h => h
        | some inst =>
          refine Tied.get_same (fun _ _ => rfl) fun m => Tied.after (shared_record _) fun _ => ?_
          refine Tied.get_same (fun _ _ => rfl) fun m => ?_
          exact (shared_emit _).tied
      | _ => exact Tied.pure fun _ _ h => h

theorem acts_prepareArgs :
    Acts setup d ⟨.prepareArgs, Emit.current, b, c⟩ ⟨.prepareArgs, Emit.current, b, c⟩
      (s.push .solid)
      (s.push .solid) :=
  acts_same (prepareArgs Emit.current) (fun _ => rfl) fun G π _ =>
    tied_componentNumber.bind fun number _ =>
    .given fun h => h ▸ Tied.after (shared_componentState number) fun x => by
      cases x.curried with
      | none => exact Tied.pure fun _ _ h => h
      | some curried =>
        refine Tied.after (shared_setComponent _ _) fun _ => tied_popArgs.bind fun args _ =>
          .given fun h => ?_
        exact h ▸ tied_push_solid (.args _) rfl

theorem acts_createComponent :
    Acts setup d ⟨.createComponent, a, Emit.current, c⟩
      ⟨.createComponent, a, Emit.current, c⟩ s s :=
  acts_same (create a Emit.current) (fun _ => rfl) fun G π _ =>
    tied_componentNumber.bind fun number _ =>
    .given fun h => h ▸ Tied.after (shared_componentState number) fun x =>
        Tied.get_bind fun m q hheld => by
      have hsize : q.stack.size = m.stack.size := hheld.pointwise.size.symm
      have hcreate (args : Option Arguments) : Tied setup (Held G π s) _ _ fun _ _ => Held G π s :=
        (shared_createWith number x m.cells
          ⟨x.name, args, a.toNat.testBit 0, a.toNat.testBit 1⟩).tied
      refine Tied.here hheld ?_
      -- a manager that asks for arguments gets them if they are on top of the stack
      rcases hheld.pointwise.get? (m.stack.size - 1) with ⟨hl, hr⟩ | ⟨v, v', hl, hr, halike⟩
      · rw [show m.stack.back? = none from (Array.back?_eq_getElem? ..).trans hl,
          show (m.beside q).stack.back? = none from (Array.back?_eq_getElem? ..).trans (hsize ▸ hr)]
        exact hcreate _
      · rw [show m.stack.back? = some v from (Array.back?_eq_getElem? ..).trans hl,
          show (m.beside q).stack.back? = some v' from
            (Array.back?_eq_getElem? ..).trans (hsize ▸ hr)]
        cases x.capabilities.createArgs with
        | false => exact hcreate _
        | true =>
          cases halike with
          | twin h => cases h <;> exact hcreate _
          | _ => exact hcreate _

theorem acts_pushComponentSpec {handle : UInt32}
    (h : d.Names (fun c => c.handles.get?) a b handle) :
    Acts setup d ⟨.pushComponentSpec, a, 0, 0⟩ ⟨.pushComponentSpec, b, 0, 0⟩ s (s.push .solid) :=
  Acts.of (fun _ => rfl) (fun _ => rfl) fun _ _ hπ =>
    tied_named_bind h hπ (tied_pushComponent handle none)

theorem acts_pushDynamicComponentManager {name : String}
    (h : d.Names (fun c => c.referers.get?) a b name) :
    Acts setup d ⟨.pushDynamicComponentManager, a, 0, 0⟩ ⟨.pushDynamicComponentManager, b, 0, 0⟩
      (s.push .ref)
      (s.push .solid) :=
  Acts.of (fun _ => rfl) (fun _ => rfl) fun _ _ hπ => tied_named_bind h hπ <|
    (tied_popDatum tied_popRef).bind fun x _ => .given fun hx => hx ▸ by
      split
      · exact tied_pushComponent _ _
      · exact Tied.after (shared_componentNamed _ _) fun handle => tied_pushComponent handle none
      · exact Tied.fail rfl

theorem acts_curryComponent (n : Nat) {name : String}
    (h : d.Names (fun c => c.referers.get?) a b name) :
    Acts setup d ⟨.curryComponent, a, 0, 0⟩ ⟨.curryComponent, b, 0, 0⟩ ((Shape.loose n).push .solid)
      ((Shape.loose n).push .ref) :=
  Acts.of (fun _ => rfl) (fun _ => rfl) fun _ _ hπ => tied_named_bind h hπ <|
    tied_popArgs.bind fun args _ => .given fun hargs => hargs ▸
      (tied_popDatum tied_popRef_loose).bind fun x _ => .given fun hx => hx ▸ by
        split
        · exact tied_pushRef _
        · exact Tied.after (shared_componentNamed _ _) fun handle => tied_pushRef _
        · exact tied_pushRef _
        · exact Tied.fail rfl

/-! ### Constants -/

theorem acts_helper {handle : UInt32} (h : d.Names (fun c => c.handles.get?) a b handle) :
    Acts setup d ⟨.helper, a, 0, 0⟩ ⟨.helper, b, 0, 0⟩ (s.push .solid) (s.push .ref) :=
  Acts.of (fun _ => rfl) (fun _ => rfl) fun _ _ hπ => tied_named_bind h hπ <|
    Tied.read_bind <| Tied.after (Shared.orFail _ _) fun helper => tied_popArgs.bind fun args _ =>
    .given fun hargs =>
      hargs ▸ Tied.after (shared_record _) fun _ => Tied.get_same (fun _ _ => rfl) fun m => by
        cases helper m.events m.cells args with
        | ok x => exact tied_pushRef _
        | error message => exact Tied.fail rfl

theorem acts_modifier {handle : UInt32} (h : d.Names (fun c => c.handles.get?) a b handle) :
    Acts setup d ⟨.modifier, a, 0, 0⟩ ⟨.modifier, b, 0, 0⟩ (s.push .solid) s :=
  Acts.of (fun _ => rfl) (fun _ => rfl) fun _ _ hπ => tied_named_bind h hπ <|
    Tied.read_bind <| Tied.after (Shared.orFail _ _) fun change => tied_popArgs.bind fun args _ =>
    .given fun hargs =>
      hargs ▸ Tied.after (shared_record _) fun _ => Tied.get_same (fun _ _ => rfl) fun m => by
        cases change m.events m.cells args with
        | ok attributes => exact (shared_setAttributes attributes).tied
        | error message => exact Tied.fail rfl

theorem acts_pushArgs (n : Nat) {flags flags' : UInt32} {names : List String}
    (h : d.Names Constants.getStringArray? a b names)
    (hflags : (flags' >>> 4).toNat = (flags >>> 4).toNat) :
    Acts setup d ⟨.pushArgs, a, flags, 0⟩ ⟨.pushArgs, b, flags', 0⟩ (.loose n)
      ((Shape.loose n).push .solid) :=
  Acts.of (fun _ => rfl) (fun _ => rfl) fun _ _ hπ => tied_named_bind h hπ <| by
    refine (tied_popRefs [] names.length).bind fun named _ => .given fun hnamed => hnamed ▸ ?_
    dsimp only
    rw [hflags]
    exact (tied_popRefs [] _).bind fun positional _ => .given fun hpositional =>
      hpositional ▸ tied_push_solid (.args _) rfl

theorem acts_getProperty {key : String} (h : d.Names (fun c => c.strings.get?) a b key) :
    Acts setup d ⟨.getProperty, a, 0, 0⟩ ⟨.getProperty, b, 0, 0⟩ (s.push .ref) (s.push .ref) :=
  Acts.of (fun _ => rfl) (fun _ => rfl) fun _ _ hπ => tied_named_bind h hπ <|
    tied_popRef.bind fun _ _ => .given fun hr => hr ▸ tied_pushRef _

theorem acts_pushSymbolTable {t : SymbolTable} (h : d.Names (fun c => c.tables.get?) a b t) :
    Acts setup d ⟨.pushSymbolTable, a, 0, 0⟩ ⟨.pushSymbolTable, b, 0, 0⟩ s (s.push .solid) :=
  Acts.of (fun _ => rfl) (fun _ => rfl) fun _ _ hπ =>
    tied_named_bind h hπ (tied_push_solid (.table t) rfl)

theorem acts_primitive {p : Primitive} (h : d.Names (fun c w => Primitive.decode? w c) a b p) :
    Acts setup d ⟨.primitive, a, 0, 0⟩ ⟨.primitive, b, 0, 0⟩ s (s.push .literal) :=
  Acts.of (fun _ => rfl) (fun _ => rfl) fun _ _ hπ => tied_named_bind h hπ (tied_push ⟨p, rfl⟩)

theorem acts_null (h : d.Names (fun c w => Primitive.decode? w c) a b .null) :
    Acts setup d ⟨.primitive, a, 0, 0⟩ ⟨.primitive, b, 0, 0⟩ s (s.push .solid) :=
  Acts.of (fun _ => rfl) (fun _ => rfl) fun _ _ hπ =>
    tied_named_bind h hπ (tied_push_solid .null rfl)

theorem acts_number {handle handle' : UInt32} (hblocks : d.Blocks setup.options handle handle')
    (h : ∀ e, d.Within e →
      Primitive.decode? a e.left.constants = some (.number (Binary64.ofNat handle.toNat)) ∧
      Primitive.decode? b e.right.constants = some (.number (Binary64.ofNat handle'.toNat))) :
    Acts setup d ⟨.primitive, a, 0, 0⟩ ⟨.primitive, b, 0, 0⟩ s (s.push .solid) :=
  Acts.of (fun _ => rfl) (fun _ => rfl) fun _ π hπ =>
    (tied_constant fun l r hheld => h (l.duo r) (hπ.trans hheld.since)).bind fun x y m q hpre => by
      obtain ⟨rfl, rfl, hheld⟩ := hpre
      exact tied_push_solid (.number (hblocks.mono hπ)) rfl m q hheld

theorem acts_constant {f f' : Fragment} (hbody : f.body = f'.body)
    (h : ∀ e, d.Within e → e.left.constants.fragments.get? a = some f ∧
      e.right.constants.fragments.get? b = some f') :
    Acts setup d ⟨.constant, a, 0, 0⟩ ⟨.constant, b, 0, 0⟩ s (s.push .solid) :=
  Acts.of (fun _ => rfl) (fun _ => rfl) fun _ π hπ =>
    (tied_constant fun l r hheld => h (l.duo r) (hπ.trans hheld.since)).bind fun x y m q hpre => by
      obtain ⟨rfl, rfl, hheld⟩ := hpre
      exact tied_push_solid (.fragment hbody ⟨a, (h _ hπ).1⟩ ⟨b, (h _ hπ).2⟩) rfl m q hheld

/-- Writing a text. -/
theorem acts_onString {i i' : Instruction} {write : String → Sink → Sink} {text : String}
    (hi : ∀ start, perform start i = do emit (write (← stringConstant a)))
    (hi' : ∀ start, perform start i' = do emit (write (← stringConstant b)))
    (h : d.Names (fun c => c.strings.get?) a b text) : Acts setup d i i' s s :=
  Acts.of hi hi' fun _ _ hπ => tied_named_bind h hπ
    ((shared_emit (write text)).tied)

theorem acts_staticAttr {name value : String} {v v' space space' : UInt32}
    (hname : d.Names (fun c => c.strings.get?) a b name)
    (hvalue : d.Names (fun c => c.strings.get?) v v' value) (hspace : SameSpace d space space') :
    Acts setup d ⟨.staticAttr, a, v, space⟩ ⟨.staticAttr, b, v', space'⟩ s s :=
  Acts.of (fun _ => rfl) (fun _ => rfl) fun _ _ hπ => tied_named_bind hname hπ <|
    tied_named_bind hvalue hπ <| (tied_namespace hspace hπ).bind fun _ _ => .given fun hx =>
    hx ▸ (shared_onElement _).tied

/-- Setting an attribute to the value on the stack. -/
theorem acts_attribute (set : Sink → String → Option String → Option String → Sink.Result)
    {i i' : Instruction} {name : String} {space space' : UInt32}
    (hi : ∀ start, perform start i = setAttribute set a space)
    (hi' : ∀ start, perform start i' = setAttribute set b space')
    (hname : d.Names (fun c => c.strings.get?) a b name) (hspace : SameSpace d space space') :
    Acts setup d i i' (s.push .ref) s :=
  Acts.of hi hi' fun _ _ hπ => tied_named_bind hname hπ <|
      (tied_namespace hspace hπ).bind fun _ _ => .given fun hx =>
    hx ▸ (tied_popDatum tied_popRef).bind fun _ _ => .given fun hy => hy ▸ (shared_onElement _).tied

/-! ### Lists -/

theorem acts_putIterator (n : Nat) :
    Acts setup d ⟨.putIterator, a, b, c⟩ ⟨.putIterator, a, b, c⟩ (.loose n)
      (((Shape.loose n).push .solid).push .ref) :=
  acts_same putIterator (fun _ => rfl) fun G π _ => tied_popRef_loose.bind fun list _ =>
    .given fun hlist =>
    hlist ▸ (tied_popDatum tied_popRef_loose).bind fun key _ => .given fun hkey => hkey ▸ by
      refine Tied.changes (fun _ => rfl) fun m q hheld => ?_
      have hpushed := (hheld.push (k := .solid) ⟨.iterator m.iterators.size, rfl⟩).push (k := .ref)
        ⟨.ref (.presence list), rfl⟩
      exact ⟨_, rfl, hpushed⟩

theorem acts_exitList : Acts setup d ⟨.exitList, a, b, c⟩ ⟨.exitList, a, b, c⟩ s s :=
  acts_same exitList (fun _ => rfl) fun G π _ => Tied.get_bind fun m q hheld => by
    refine Tied.here hheld ?_
    rw [show (m.beside q).stack.size = m.stack.size from hheld.pointwise.size.symm,
      show (m.beside q).listMarks = m.listMarks from rfl]
    cases m.listMarks with
    | nil => exact Tied.fail rfl
    | cons expected rest =>
      dsimp only
      split
      · exact Tied.shares (fun _ _ => rfl) fun _ => rfl
      · exact Tied.fail rfl

end

end

end Exec

end TemplateMachine
