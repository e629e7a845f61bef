import TemplateMachine.Proofs.Run.Block

/-! Instructions that find components, and that create and destroy their instances. -/

namespace TemplateMachine

namespace Pose

/-- The pose in the invocation of a component, above the one of the enclosing invocation. -/
def invoking (p : Pose) (v : Value) : Pose :=
  { (p.push v).push p.registers.s0 with registers := p.registers.set .s0 v }

/-- The pose in a dynamic scope of its own. -/
def dynamic (p : Pose) : Pose :=
  { p with dynamicScopes := p.dynamicScopes.headD {} :: p.dynamicScopes }

end Pose

section

variable {setup : Setup} {cells : Cells} {a floor : Nat} {n : ENat} {p : Pose}
variable {w : World} {t : Store} {m : Machine} {rest : List Instruction} {α : Type}
variable {out : EStateM.Result (Stop Fault) World α} {final : α → World → Machine → Prop}
variable {k : Coding} {code : List Instruction}

open Exec (bind_apply pure_apply get_apply read_apply modify_apply orFail_some pop_of)

/-! ### Components as values -/

theorem leads_curry {definition : Reference} {args : Arguments}
    (hm : Stands setup cells a ((p.push (.ref definition)).push (.args args)) w t m)
    (hk : k.linkage ≤ t.linkage) (hshape : k.onReferer .curryComponent code)
    (hcode : t.HasCode a code) :
    Leads setup .free floor n m (Walk.curry (setup.scene cells) k.referer definition args w)
      fun r w' m' =>
      Stands setup cells (a + 4 * code.length) (p.push (.ref r)) w' t m' := by
  obtain ⟨index, hindex, rfl⟩ := hshape
  refine hm.agrees hcode (by simp) fun u current hu => ?_
  simp only [Exec.perform, Exec.curry, bind_apply, Exec.refererConstant,
    Exec.constant_of (fun c => c.referers.get?) ((hu.constants hk).referers.get? hindex),
    Exec.popArgs_of, Exec.popDatum_of, Walk.curry, Setup.scene]
  cases definition.value cells with
  | component d inner => exact .done rfl rfl hu.stands
  | data json =>
    cases json with
    | null => exact .done rfl rfl hu.stands
    | str name =>
      simp only [bind_apply, Exec.componentNamed, read_apply]
      cases setup.host.componentNamed? name k.referer with
      | some d => exact .done rfl rfl hu.stands
      | none => exact .failed rfl rfl rfl ⟨rfl, rfl, rfl⟩
    | _ => exact .failed rfl rfl rfl ⟨rfl, rfl, rfl⟩

/-! ### Finding components -/

/-- A component is pushed, whose state no older store has. -/
def Store.Adds (t u : Store) (number : Nat) (c : ComponentState) : Prop :=
  t ≤ u ∧ t.components.size ≤ number ∧ u.components[number]? = some c

theorem Exec.pushComponent_of {u : Store} {current : Nat × Opcode} {pc : Nat} (handle : UInt32)
    (curried : Option Arguments) (hu : setup.Later t u) :
    Agrees (Exec.pushComponent handle curried setup (.of cells pc p w u current))
      (Walk.componentState (setup.scene cells) handle curried w) fun c w' m' =>
        ∃ v number, t.Adds v number c ∧
          Stands setup cells pc (p.push (.component number)) w' v m' := by
  simp only [Exec.pushComponent, Walk.componentState, bind_apply, read_apply, Setup.scene]
  cases setup.host.component? handle with
  | none => exact .failed rfl rfl rfl ⟨rfl, rfl, rfl⟩
  | some d =>
    let c : ComponentState :=
      { definition := handle, name := d.name, capabilities := d.capabilities, manager := d.manager,
        curried }
    let v : Store := { u with components := u.components.push c }
    have hv : u ≤ v := ⟨u.linkage.le_refl, .refl _, keeps_push _ _, .refl _⟩
    exact .done rfl rfl ⟨v, u.components.size, ⟨Store.le_trans hu.le hv,
      hu.le.components.size_le, Array.getElem?_push_size⟩, v, current, v.le_refl, hu.valid, rfl⟩

theorem leads_pushComponentSpec {handle : UInt32} (hm : Stands setup cells a p w t m)
    (hk : k.linkage ≤ t.linkage) (hshape : k.onHandle .pushComponentSpec handle code)
    (hcode : t.HasCode a code) :
    Leads setup .free floor n m (Walk.componentState (setup.scene cells) handle none w)
      fun c w' m' =>
      ∃ v number, t.Adds v number c ∧
        Stands setup cells (a + 4 * code.length) (p.push (.component number)) w' v m' := by
  obtain ⟨index, hindex, rfl⟩ := hshape
  refine hm.agrees hcode (by simp) fun u current hu => ?_
  simp only [Exec.perform, bind_apply, Exec.handleConstant,
    Exec.constant_of (fun c => c.handles.get?) ((hu.constants hk).handles.get? hindex)]
  exact Exec.pushComponent_of handle none hu

theorem leads_pushDynamicComponent {definition : Reference}
    (hm : Stands setup cells a (p.push (.ref definition)) w t m) (hk : k.linkage ≤ t.linkage)
    (hshape : k.onReferer .pushDynamicComponentManager code) (hcode : t.HasCode a code) :
    Leads setup .free floor n m (Walk.dynamicState (setup.scene cells) k.referer definition w)
      fun c w' m' =>
      ∃ v number, t.Adds v number c ∧
        Stands setup cells (a + 4 * code.length) (p.push (.component number)) w' v m' := by
  obtain ⟨index, hindex, rfl⟩ := hshape
  refine hm.agrees hcode (by simp) fun u current hu => ?_
  simp only [Exec.perform, Exec.pushDynamicComponent, bind_apply, Exec.refererConstant,
    Exec.constant_of (fun c => c.referers.get?) ((hu.constants hk).referers.get? hindex),
    Exec.popDatum_of, Walk.dynamicState]
  rw [show (setup.scene cells).cells = cells from rfl]
  cases definition.value cells with
  | component d args => exact Exec.pushComponent_of d (some args) hu
  | data json =>
    cases json with
    | str name =>
      simp only [bind_apply, Exec.componentNamed, read_apply, Setup.scene]
      cases setup.host.componentNamed? name k.referer with
      | some handle => exact Exec.pushComponent_of handle none hu
      | none => exact .failed rfl rfl rfl ⟨rfl, rfl, rfl⟩
    | _ => exact .failed rfl rfl rfl ⟨rfl, rfl, rfl⟩

/-! ### Entering invocations -/

theorem leads_enterComponent {v : Value} (hm : Stands setup cells a (p.push v) w t m)
    (hcode : t.HasCode a (Coding.enterComponent ++ rest))
    (h : ∀ m', Stands setup cells (a + 12) (p.invoking v) w t m' →
      Leads setup .free floor n m' out final) :
    Leads setup .free floor (n + 1) m out final := by
  refine hm.next_succ hcode (by simp) (q := (p.push v).push p.registers.s0) (fun _ _ _ => rfl)
    fun m hm => ?_
  refine leads_dup_below hm hcode.tail fun m hm => ?_
  refine hm.next hcode.tail.tail (by simp) (q := p.invoking v) (fun u current _ => ?_) h
  simp only [Exec.perform, Exec.load, bind_apply, pop_of]
  rfl

theorem leads_leaveInvocation {v : Value} {b c : UInt32}
    (hm : Stands setup cells a (p.invoking v) w t m)
    (hcode : t.HasCode a (⟨.load, Emit.current, b, c⟩ :: rest))
    (h : ∀ m', Stands setup cells (a + 4) (p.push v) w t m' →
      Leads setup .free floor n m' out final) :
    Leads setup .free floor n m out final := by
  refine hm.next hcode (by simp) (fun u current _ => ?_) h
  rw [show p.invoking v = Pose.push { p.push v with registers := p.registers.set .s0 v }
    p.registers.s0 from rfl]
  simp only [Exec.perform, Exec.load, bind_apply, pop_of]
  rfl

/-! ### Instances -/

theorem Store.Adds.mono {u v : Store} {number : Nat} {c : ComponentState} (h : t.Adds u number c)
    (hv : u ≤ v) : t.Adds v number c :=
  ⟨Store.le_trans h.1 hv, h.2.1, hv.components _ _ h.2.2⟩

/-- The state of the added component may still change. -/
theorem Store.Adds.set {u : Store} {number : Nat} {c : ComponentState} (h : t.Adds u number c)
    (c' : ComponentState) :
    t.Adds { u with components := u.components.set! number c' } number c' := by
  obtain ⟨hu, hnumber, hc⟩ := h
  have hlt := (Array.getElem?_eq_some_iff.mp hc).1
  refine ⟨⟨hu.linkage, hu.scopes, fun i v hv => ?_, hu.iterators⟩, hnumber, ?_⟩
  · have hi := (Array.getElem?_eq_some_iff.mp hv).1
    rw [Array.set!_eq_setIfInBounds, Array.getElem?_setIfInBounds_ne (by omega)]
    exact hu.components _ _ hv
  · rw [Array.set!_eq_setIfInBounds, Array.getElem?_setIfInBounds_self_of_lt hlt]

theorem Exec.componentNumber_of {u : Store} {current : Nat × Opcode} {pc number : Nat}
    (h : p.registers.s0 = .component number) :
    Exec.componentNumber Emit.current setup (.of cells pc p w u current) =
      .ok number (.of cells pc p w u current) := by
  simp only [Exec.componentNumber, Exec.register, Exec.savedValue,
    show Register.ofNumber? Emit.current = some .s0 from rfl, bind_apply, orFail_some, get_apply,
    SavedRegisters.get?]
  rw [show (Machine.of cells pc p w u current).registers = p.registers from rfl, h]
  rfl

theorem Exec.componentState_of {u : Store} {current : Nat × Opcode} {pc number : Nat}
    {c : ComponentState} (h : u.components[number]? = some c) :
    Exec.componentState number setup (.of cells pc p w u current) =
      .ok c (.of cells pc p w u current) := by
  simp only [Exec.componentState, bind_apply, get_apply]
  rw [show (Machine.of cells pc p w u current).components = u.components from rfl, h]
  rfl

theorem Exec.component_of {u : Store} {current : Nat × Opcode} {pc number : Nat}
    {c : ComponentState} (hs0 : p.registers.s0 = .component number)
    (hc : u.components[number]? = some c) :
    Exec.component Emit.current setup (.of cells pc p w u current) =
      .ok c (.of cells pc p w u current) := by
  simp only [Exec.component, bind_apply, Exec.componentNumber_of hs0, Exec.componentState_of hc]

theorem Exec.setComponent_of {u : Store} {current : Nat × Opcode} {pc : Nat} (number : Nat)
    (c : ComponentState) :
    Exec.setComponent number c setup (.of cells pc p w u current) =
      .ok () (.of cells pc p w { u with components := u.components.set! number c } current) := rfl

theorem Exec.record_of {u : Store} {current : Nat × Opcode} {pc : Nat} (e : Event) :
    Exec.record e setup (.of cells pc p w u current) =
      .ok () (.of cells pc p { w with events := w.events.push e } u current) := rfl

/-- The arguments that the component came with are added to those on the stack. -/
theorem leads_prepareArgs {u : Store} {number : Nat} {c : ComponentState} {given : Arguments}
    {b d : UInt32} (hm : Stands setup cells a (p.push (.args given)) w u m)
    (hs0 : p.registers.s0 = .component number) (hc : t.Adds u number c)
    (hcode : t.HasCode a (⟨.prepareArgs, Emit.current, b, d⟩ :: rest))
    (h : ∀ m' v, t.Adds v number { c with curried := none } →
      Stands setup cells (a + 4) (p.push (.args (Walk.merged c given))) w v m' →
      Leads setup .free floor n m' out final) : Leads setup .free floor n m out final := by
  refine hm.change (hcode.mono hc.1) (by simp) fun v current hv => ?_
  have hc' := hc.mono hv.le
  cases hcurried : c.curried with
  | none =>
    refine ⟨_, ?_, fun _ => h _ v ?_ ⟨v, current, v.le_refl, hv.valid, rfl⟩⟩
    · rw [Walk.merged, hcurried]
      simp only [Exec.perform, Exec.prepareArgs, bind_apply,
        Exec.componentNumber_of (p := p.push (.args given)) hs0, Exec.componentState_of hc'.2.2,
        hcurried, pure_apply]
    · rw [show { c with curried := none } = c by rw [← hcurried]]
      exact hc'
  | some curried =>
    let c' : ComponentState := { c with curried := none }
    let v' : Store := { v with components := v.components.set! number c' }
    refine ⟨.of cells (a + 4) (p.push (.args (Walk.merged c given))) w v' current, ?_,
      fun _ => h _ v' (hc'.set c') ⟨v', current, v'.le_refl, hv.valid, rfl⟩⟩
    rw [Walk.merged, hcurried]
    simp only [Exec.perform, Exec.prepareArgs, bind_apply,
      Exec.componentNumber_of (p := p.push (.args given)) hs0, Exec.componentState_of hc'.2.2,
      hcurried, Exec.setComponent_of, Exec.popArgs_of]
    rfl

/-- The arguments on the top of a stack. -/
def Pose.topArgs? (p : Pose) : Option Arguments :=
  match p.stack.back? with
  | some (.args args) => some args
  | _ => none

theorem Invocation.blockFlags_bits (i : Invocation) :
    i.blockFlags.toNat.testBit 0 = i.block.isSome ∧ i.blockFlags.toNat.testBit 1 =
    i.inverse.isSome := by
  unfold Invocation.blockFlags
  cases i.block.isSome <;> cases i.inverse.isSome <;> decide

/-- Asks the manager for an instance. -/
def Exec.createAsked (number : Nat) (c : ComponentState) (cells : Cells) (asked : Instance) :
    Exec Unit := do
  Exec.record (.create c.definition asked)
  match (c.manager (← get).events).create cells asked with
  | .ok inst => Exec.setComponent number { c with created := some inst }
  | .error message => Exec.fail (.managerFailed message)

theorem Walk.asked_blockFlags (c : ComponentState) (p : Pose) (i : Invocation) :
    (⟨c.name, match c.capabilities.createArgs, p.stack.back? with
        | true, some (.args args) => some args
        | _, _ => none, i.blockFlags.toNat.testBit 0, i.blockFlags.toNat.testBit 1⟩ : Instance) =
      Walk.asked c p.topArgs? i := by
  obtain ⟨hblock, hinverse⟩ := i.blockFlags_bits
  rw [Walk.asked, Pose.topArgs?, hblock, hinverse]
  cases c.capabilities.createArgs
  · rfl
  · rcases p.stack.back? with _ | (_ | _ | _ | _ | _ | _ | _ | _ | _) <;> rfl

/-- The creation of an instance, by what the manager answers. -/
theorem Exec.create_of {u v : Store} {number pc : Nat} {c : ComponentState} {i : Invocation}
    {current : Nat × Opcode} (hs0 : p.registers.s0 = .component number) (hc : u.Adds v number c) :
    Exec.create i.blockFlags Emit.current setup (.of cells pc p w v current) =
      match (c.manager (w.events.push
        (.create c.definition (Walk.asked c p.topArgs? i)))).create cells
        (Walk.asked c p.topArgs? i) with
      | .ok inst =>
        .ok () (.of cells pc p
          { w with events := w.events.push (.create c.definition (Walk.asked c p.topArgs? i)) }
          { v with components := v.components.set! number { c with created := some inst } } current)
      | .error message =>
        .error (.fault (.managerFailed message))
          (.of cells pc p
            { w with events := w.events.push (.create c.definition (Walk.asked c p.topArgs? i)) } v
            current) := by
  have hrecord : Exec.create i.blockFlags Emit.current setup (.of cells pc p w v current) =
      Exec.createAsked number c cells (Walk.asked c p.topArgs? i) setup
        (.of cells pc p w v current) := by
    simp only [Exec.create, bind_apply, Exec.componentNumber_of hs0, Exec.componentState_of hc.2.2,
      get_apply]
    exact congrArg (fun asked => Exec.createAsked number c cells asked setup
      (.of cells pc p w v current)) (Walk.asked_blockFlags c p i)
  rw [hrecord]
  simp only [Exec.createAsked, bind_apply, Exec.record_of, get_apply, Machine.events_of]
  cases (c.manager (w.events.push (.create c.definition (Walk.asked c p.topArgs? i)))).create cells
    (Walk.asked c p.topArgs? i) <;> rfl

/-- What follows a creation is the registration of the instance. -/
theorem leads_create {u : Store} {number : Nat} {c : ComponentState} {i : Invocation} {d : UInt32}
    {next : Current → Walk α} (hm : Stands setup cells a p w u m)
    (hs0 : p.registers.s0 = .component number) (hc : t.Adds u number c)
    (hcode : t.HasCode a (⟨.createComponent, i.blockFlags, Emit.current, d⟩ :: rest))
    (h : ∀ (current : Current) (w' : World) (m' : Machine) (v : Store),
      current.definition = c.definition → current.manager = c.manager →
      w'.transactions = w.transactions → t.Adds v number { c with created := some current.inst } →
      Stands setup cells (a + 4) p w' v m' →
      Leads setup .registering floor n m' (next current w') final) :
    Leads setup .opening floor n m
      ((Walk.create (setup.scene cells) c (Walk.asked c p.topArgs? i) >>= next) w) final := by
  have hholds := hm.hasCode (hcode.mono hc.1)
  obtain ⟨v, last, hv, hvalid, rfl⟩ := hm
  have hc := hc.mono hv
  have hperform : Exec.create i.blockFlags Emit.current setup
      (.of cells (a + 4) p w v (a, .createComponent)) = _ := Exec.create_of hs0 hc
  simp only [Walk.create, Walk.bind_apply, Walk.record_apply, Walk.get_apply]
  rw [show (setup.scene cells).cells = cells from rfl]
  cases hcreate :
    (c.manager (w.events.push (.create c.definition (Walk.asked c p.topArgs? i)))).create
      cells (Walk.asked c p.topArgs? i) with
  | ok inst =>
    rw [hcreate] at hperform
    refine Leads.le (n := n + 1) ?_ le_self_add
    refine Leads.turn_within hholds (.create rfl rfl) (by simp) hperform (Nat.le_refl _) fun _ => ?_
    exact h ⟨c.definition, c.manager, inst⟩ _ _ _ rfl rfl rfl (hc.set _)
      ⟨_, _, Store.le_refl _, hvalid, rfl⟩
  | error message =>
    rw [hcreate] at hperform
    have hstep := Exec.step_apply setup hholds
    simp only [Exec.perform] at hstep
    rw [show (Machine.of cells a p w v last).fetched ⟨.createComponent, i.blockFlags,
      Emit.current, d⟩ = .of cells (a + 4) p w v (a, .createComponent) from rfl, hperform] at hstep
    exact fun _ => .inr ⟨0, _, _, _, .halfway rfl _,
      ⟨hstep, (fun h => by cases h), _, hholds.next?, rfl, fun _ => ⟨rfl, message, rfl⟩⟩,
      rfl, rfl, rfl, rfl⟩

/-! ### The life of instances -/

theorem leads_beginTransaction {b c d : UInt32} {next : Unit → Walk α}
    (hm : Stands setup cells a p w t m)
    (hcode : t.HasCode a (⟨.beginComponentTransaction, b, c, d⟩ :: rest))
    (h : ∀ w' m', w'.transactions ≠ [] → Stands setup cells (a + 4) p w' t m' →
      Leads setup .opening floor n m' (next () w') final) :
    Leads setup .free floor n m ((Walk.beginTransaction >>= next) w) final :=
  hm.turn hcode (fun _ => .begin rfl) (by simp) (fun _ _ _ => rfl) (Nat.le_refl _)
    fun m hm => h _ m (by simp) hm

theorem Exec.registerDestructor_of {u : Store} {current : Nat × Opcode} {pc : Nat} {d : Destructor}
    {innermost : List Destructor} {others : List (List Destructor)}
    (hw : w.transactions = innermost :: others) :
    Exec.registerDestructor d setup (.of cells pc p w u current) =
      .ok () (.of cells pc p { w with transactions := (d :: innermost) :: others } u current) := by
  obtain ⟨sink, transactions, destructors, events⟩ := w
  obtain rfl : transactions = innermost :: others := hw
  rfl

theorem leads_registerDestructor {current : Current} {b d : UInt32} {next : Unit → Walk α}
    (hm : Stands setup cells a p w t m) (hcurrent : t.IsCurrent p.registers.s0 (some current))
    (htransaction : w.transactions ≠ [])
    (hcode : t.HasCode a (⟨.registerComponentDestructor, Emit.current, b, d⟩ :: rest))
    (h : ∀ w' m', Stands setup cells (a + 4) p w' t m' →
      Leads setup .free floor n m' (next () w') final) :
    Leads setup .registering floor n m ((Walk.registerDestructor current >>= next) w) final := by
  obtain ⟨number, state, hs0, hstate, hdefinition, hmanager, hcreated⟩ := hcurrent
  obtain ⟨innermost, others, htransactions⟩ := List.exists_cons_of_ne_nil htransaction
  have hholds := hm.hasCode hcode
  obtain ⟨u, last, hu, hvalid, rfl⟩ := hm
  have hperform (w' : World) (hw' : Walk.registerDestructor current w = .ok () w') :
      Exec.perform a ⟨.registerComponentDestructor, Emit.current, b, d⟩ setup
        (.of cells (a + 4) p w u (a, .registerComponentDestructor)) =
          .ok () (.of cells (a + 4) p w' u (a, .registerComponentDestructor)) := by
    rw [Walk.registerDestructor_apply htransactions] at hw'
    obtain ⟨-, rfl⟩ := EStateM.Result.ok.inj hw'
    simp only [Exec.perform, Exec.registerComponentDestructor, bind_apply,
      Exec.component_of hs0 (hu.components _ _ hstate), hcreated, Exec.record_of, hdefinition,
      hmanager, get_apply, Machine.events_of]
    by_cases hoffers : (current.manager
        (w.events.push (.hasDestructor current.definition current.inst))).hasDestructor current.inst
    · rw [if_pos hoffers]
      refine (congrFun (congrFun (if_pos hoffers) _) _).trans ?_
      exact Exec.registerDestructor_of htransactions
    · rw [if_neg hoffers, ← htransactions]
      exact congrFun (congrFun (if_neg hoffers) _) _
  rw [Walk.bind_apply]
  refine Leads.le (n := n + 1) ?_ le_self_add
  exact Leads.turn_within hholds (.register rfl rfl) (by simp) (hperform _ rfl)
      (Nat.le_refl _) fun _ =>
    h _ _ ⟨u, _, hu, hvalid, rfl⟩

theorem leads_getComponentSelf {current : Current} {b d : UInt32}
    (hm : Stands setup cells a p w t m) (hcurrent : t.IsCurrent p.registers.s0 (some current))
    (hcode : t.HasCode a (⟨.getComponentSelf, Emit.current, b, d⟩ :: rest)) :
    Leads setup .free floor n m (Walk.selfReference (setup.scene cells) current w) fun r w' m' =>
      Stands setup cells (a + 4) (p.push (.ref r)) w' t m' := by
  obtain ⟨number, state, hs0, hstate, hdefinition, hmanager, hcreated⟩ := hcurrent
  refine hm.agrees hcode (by simp) fun u last hu => ?_
  simp only [Exec.perform, Exec.pushSelf, bind_apply, Exec.createdInstance,
    Exec.component_of hs0 (hu.le.components _ _ hstate), hcreated, orFail_some, Exec.record_of,
    hdefinition, hmanager, get_apply]
  exact .done rfl rfl hu.stands

/-- A layout that is done, and what follows. -/
theorem leads_didRenderLayout {current : Current} {b d : UInt32} {next : Unit → Walk α}
    (hm : Stands setup cells a p w t m) (hcurrent : t.IsCurrent p.registers.s0 (some current))
    (hcode : t.HasCode a (⟨.didRenderLayout, Emit.current, b, d⟩ :: rest))
    (h : ∀ w' m', w'.transactions = w.transactions → Stands setup cells (a + 4) p w' t m' →
      Leads setup .closing floor n m' (next () w') final) :
    Leads setup .free floor n m
      ((Walk.record (.layoutRendered current.definition current.inst) >>= next) w) final := by
  obtain ⟨number, state, hs0, hstate, hdefinition, hmanager, hcreated⟩ := hcurrent
  refine hm.turn hcode (fun _ => .rendered rfl) (by simp) (fun u last hu => ?_) (Nat.le_refl _)
    fun m hm => h _ m rfl hm
  simp only [Exec.perform, Exec.layoutRendered, bind_apply, Exec.createdInstance,
    Exec.component_of hs0 (hu.le.components _ _ hstate), hcreated, orFail_some, Exec.record_of,
    hdefinition]

theorem leads_commitTransaction {b c d : UInt32} (hm : Stands setup cells a p w t m)
    (htransaction : w.transactions ≠ [])
    (hcode : t.HasCode a (⟨.commitComponentTransaction, b, c, d⟩ :: rest)) :
    Leads setup .closing floor n m (Walk.commitTransaction w) fun _ w' m' =>
      Stands setup cells (a + 4) p w' t m' := by
  obtain ⟨innermost, others, htransactions⟩ := List.exists_cons_of_ne_nil htransaction
  have hwalk : Walk.commitTransaction w = .ok ()
      { w with transactions := others, destructors := innermost ++ w.destructors } := by
    show EStateM.Result.ok () _ = _
    simp only [htransactions]
  rw [hwalk]
  refine hm.turn hcode (fun _ => .commit rfl) (by simp) (fun u last hu => ?_) (Nat.le_refl _)
    fun m hm => Leads.done hm
  simp only [Exec.perform, Exec.commitTransaction, bind_apply, get_apply]
  rw [show (Machine.of cells (a + 4) p w u last).transactions = w.transactions from rfl,
    htransactions]
  rfl

/-- The component of the enclosing invocation is told about an element. -/
theorem leads_didCreateElement {site : Site} {b d : UInt32} (hm : Stands setup cells a p w t m)
    (hcurrent : t.IsCurrent p.registers.s0 site.current)
    (hcode : t.HasCode a (⟨.didCreateElement, Emit.current, b, d⟩ :: rest)) :
    Leads setup .free floor n m (Walk.elementCreated site w) fun _ w' m' =>
      Stands setup cells (a + 4) p w' t m' := by
  refine hm.agrees hcode (by simp) fun u last hu => ?_
  simp only [Exec.perform, Exec.elementCreated, Exec.register, Exec.savedValue,
    show Register.ofNumber? Emit.current = some .s0 from rfl, bind_apply, orFail_some, get_apply,
    SavedRegisters.get?]
  rw [show (Machine.of cells (a + 4) p w u last).registers = p.registers from rfl]
  unfold Walk.elementCreated
  cases hsite : site.current with
  | none =>
    rw [hsite] at hcurrent
    rw [show p.registers.s0 = .null from hcurrent]
    exact .done rfl rfl hu.stands
  | some current =>
    rw [hsite] at hcurrent
    obtain ⟨number, state, hs0, hstate, hdefinition, hmanager, hcreated⟩ := hcurrent
    rw [hs0]
    simp only [bind_apply, Exec.componentState_of (hu.le.components _ _ hstate), hcreated,
      get_apply, Exec.record_of, hdefinition, hmanager]
    exact .done rfl rfl hu.stands

end

end TemplateMachine
