import TemplateMachine.Proofs.Run.Layout
import TemplateMachine.Proofs.Simulation.Expression

/-! The code of an invocation enters the layout that a walk enters.  Where the layout is known, what
its symbols are bound to is pushed in their order, and bound in the opposite one. -/

namespace TemplateMachine

section

variable {setup : Setup} {cells : Cells} {a floor : Nat} {n : ENat} {p : Pose}
variable {w : World} {t u : Store} {m : Machine} {rest : List Instruction} {α : Type}
variable {out : EStateM.Result (Stop Fault) World α} {final : α → World → Machine → Prop}
variable {k : Coding} {code : List Instruction} {site : Site} {i : Invocation}
variable {c : ComponentState} {number : Nat}

/-! ### Instances -/

theorem Walk.asked_bodies (c : ComponentState) (given : Option Arguments) (i : Invocation) :
    Walk.asked c given i.bodies = Walk.asked c given i := by
  simp [Walk.asked, Invocation.bodies]

/-- The component of a register has been created. -/
def Created (setup : Setup) (cells : Cells) (pc : Nat) (p : Pose) (number : Nat)
    (c : ComponentState) (current : Current) (w : World) (t : Store) (m : Machine) : Prop :=
  ∃ v, t.Adds v number { c with created := some current.inst } ∧
    v.IsCurrent (.component number) (some current) ∧ Stands setup cells pc p w v m

/-- Code between the creation of an instance and its registration, which may leave the frame of the
arguments that the instance was created from. -/
inductive Unframes : List Instruction → Pose → Pose → Prop
  | stay (p : Pose) : Unframes [] p p
  | leave (p : Pose) (ra : Nat) (vs : List Value) :
    Unframes [⟨.popFrame, 0, 0, 0⟩] (p.within ra vs) p

theorem leads_unframes {between : List Instruction} {q : Pose} (h : Unframes between q p)
    (hm : Stands setup cells a q.dynamic w t m) (hcode : t.HasCode a (between ++ rest))
    (hnext : ∀ m', Stands setup cells (a + 4 * between.length) p.dynamic w t m' →
      Leads setup .registering floor n m' out final) :
    Leads setup .registering floor n m out final := by
  cases h with
  | stay p => exact hnext m hm
  | leave p ra vs =>
    refine hm.turn hcode (fun _ => .unframe rfl) (by simp) (fun _ _ _ => ?_) ?_ hnext
    · exact Exec.popFrame_of (p := p.dynamic)
    · simp [Pose.dynamic, Pose.within]

/-- Creating an instance, and registering it right away. -/
theorem leads_instantiate {between : List Instruction} {q : Pose}
    (hm : Stands setup cells a q w u m) (hunframes : Unframes between q p)
    (hs0 : p.registers.s0 = .component number) (hc : t.Adds u number c)
    (hcode : t.HasCode a
      (Coding.createComponent i ++ (between ++ (Coding.registerComponent ++ rest)))) :
    Leads setup .free floor n m
      (Walk.instantiate (setup.scene cells) c (Walk.asked c q.topArgs? i) w)
      fun created w' m' => created.1.definition = c.definition ∧
        Created setup cells (a + 4 * (between.length + 5))
          (p.dynamic.push (.ref created.2)) number c
          created.1 w' t m' := by
  have hq : q.registers.s0 = .component number := by
    cases hunframes with
    | stay => exact hs0
    | leave => exact hs0
  have hcode' := hcode.mono hc.1
  simp only [Walk.instantiate, Walk.createInstance, bind_assoc]
  refine leads_beginTransaction hm hcode' fun w₁ m hopen hm => ?_
  refine hm.turn hcode'.tail (q := q.dynamic) (fun _ => .open rfl) (by simp) (fun _ _ _ => rfl)
    (Nat.le_refl _) fun m (hm : Stands setup cells (a + 4 + 4) q.dynamic _ _ m) => ?_
  refine leads_create (p := q.dynamic) hm hq hc hcode.tail.tail
    fun current w₂ m v hdefinition hmanager hw₂ hv hm => ?_
  have hrest : v.HasCode (a + 4 + 4 + 4) (between ++ (Coding.registerComponent ++ rest)) :=
    hcode.tail.tail.tail.mono hv.1
  refine leads_unframes hunframes hm hrest fun m hm => ?_
  have hcurrent : v.IsCurrent p.dynamic.registers.s0 (some current) :=
    ⟨number, _, hs0, hv.2.2, hdefinition.symm, hmanager.symm, rfl⟩
  refine leads_registerDestructor hm hcurrent (hw₂ ▸ hopen) hrest.append.2 fun w₃ m hm => ?_
  refine (leads_getComponentSelf hm hcurrent hrest.append.2.tail).bind fun self w₄ m _ hm =>
    Leads.done ⟨hdefinition, v, hv, ?_, hm.at (by omega)⟩
  exact ⟨number, _, rfl, hv.2.2, hdefinition.symm, hmanager.symm, rfl⟩

/-! ### The general form -/

/-- The blocks and the arguments of an invocation are pushed. -/
theorem leads_passes (hserves : setup.Serves) (hm : Stands setup cells a p w u m)
    (hsite : site.Reads setup k u p) (hshape : k.passes i code) (hcode : u.HasCode a code) :
    Leads setup .free floor n m (Walk.args (setup.scene cells) site i.params i.hash w)
      fun args w' m' =>
      ∃ c : Exec.LayoutCall, c.args = args ∧
        (∀ v : Store, k.linkage ≤ v.linkage → c.Passes setup.options.strategy v i) ∧
        Stands setup cells (a + 4 * code.length)
          ((((p.pass c.main).pass c.inverse).pass c.attrs).push (.args args)) w' u m' := by
  obtain ⟨main, inverse, attrs, given, hmain, hinverse, hattrs, hgiven, rfl⟩ := hshape
  simp only [List.append_assoc] at hcode
  obtain ⟨hcode₁, hcode⟩ := hcode.append
  obtain ⟨hcode₂, hcode⟩ := hcode.append
  obtain ⟨hcode₃, hcode₄⟩ := hcode.append
  have hk := hsite.within
  refine leads_yieldable hm hk hmain hcode₁ fun m v₁ hv₁ hm => ?_
  refine leads_yieldable hm hk hinverse hcode₂ fun m v₂ hv₂ hm => ?_
  refine leads_yieldable hm hk hattrs hcode₃ fun m v₃ hv₃ hm => ?_
  refine (leads_args hserves hm (hsite.of_scopeStack rfl) hgiven hcode₄).mono ?_
  intro args w' m' hm
  refine ⟨⟨.null, args, ⟨tableValue i.block, v₁⟩, ⟨tableValue i.inverse, v₂⟩,
    ⟨tableValue i.attrs, v₃⟩⟩, rfl, fun v hv => ⟨⟨v₁, rfl, hv₁ v hv⟩, ⟨v₂, rfl, hv₂ v hv⟩,
    ⟨v₃, rfl, hv₃ v hv⟩⟩, hm.at ?_⟩
  simp only [List.length_append]
  omega

theorem Walk.enterLayout_of {s : Scene} {f : Fragment} (h : f.isCompilable s.lookup) (slots : Slots)
    (current : Current) (w : World) :
    Walk.enterLayout s f slots current w = .ok ⟨f, slots, current⟩ w := by
  unfold Walk.enterLayout
  rw [if_pos h]
  rfl

theorem Walk.enterLayout_fails {s : Scene} {f : Fragment} (h : f.isCompilable s.lookup = false)
    (slots : Slots) (current : Current) (w : World) :
    Walk.enterLayout s f slots current w = .error (.fault .uncompilable) w := by
  unfold Walk.enterLayout
  rw [if_neg (by simp [h])]
  rfl

/-- The layout of an invocation is given in its code, or looked up. -/
theorem leads_layout (hserves : setup.Serves) {current : Current} {layout : Option Fragment}
    (hm : Stands setup cells a p w t m) (hk : k.Within setup t)
    (hcurrent : t.IsCurrent p.registers.s0 (some current))
    (hdefinition : current.definition = c.definition)
    (hpresent : ∃ d, setup.host.component? c.definition = some d)
    (hshape : k.layoutCode layout code) (hcode : t.HasCode a code) (f : Fragment)
    (hf : layout.or (setup.options.lookup.layout? c.definition) = some f)
    (hfail : f.isCompilable setup.options.lookup = false → out = .error (.fault .uncompilable) w)
    (h : ∀ m', f.isCompilable setup.options.lookup →
      Finds setup cells (a + 4 * code.length) p f w t m' → Leads setup .free floor n m' out final) :
    Leads setup .free floor n m out final := by
  cases layout with
  | some layout =>
    obtain rfl : layout = f := Option.some.inj hf
    exact leads_givenLayout hserves hm hk hshape hcode hfail h
  | none =>
    obtain rfl : code = [⟨.getComponentLayout, Emit.current, 0, 0⟩] := hshape
    rw [← hdefinition] at hf hpresent
    exact leads_getComponentLayout hserves hm hcurrent hf hpresent hcode hfail h

/-- The code of an invocation in its general form enters the layout as the walk does. -/
theorem leads_genericEntry (hserves : setup.Serves) {layout : Option Fragment}
    {passed found : List Instruction}
    (hm : Stands setup cells a (p.invoking (.component number)) w u m) (hc : t.Adds u number c)
    (hsite : site.Reads setup k t p) (hpresent : ∃ d, setup.host.component? c.definition = some d)
    (htable : ∀ f, layout.or (setup.options.lookup.layout? c.definition) = some f →
      f.table.asProgram?.isSome)
    (hpassed : k.passes i passed) (hfound : k.layoutCode layout found)
    (hcode : t.HasCode a (passed ++ ⟨.prepareArgs, Emit.current, 0, 0⟩ ::
      (Coding.createComponent i ++ (Coding.registerComponent ++ (found ++
        ⟨.invokeComponentLayout, Emit.current, 0, 0⟩ :: rest)))))
    (hfloor : floor ≤ p.stack.size) :
    Leads setup .free floor n m (Walk.genericEntry (setup.scene cells) site c i.bodies layout w)
      fun e w' m' =>
      Arrives setup cells floor (a + 4 * (passed.length + found.length + 7))
        (p.invoking (.component number)).dynamic e w' t m' := by
  have htu := hc.1
  obtain ⟨hcode₁, hcode₂⟩ := hcode.append
  unfold Walk.genericEntry
  refine (leads_passes hserves hm ((hsite.mono htu).of_scopeStack rfl) hpassed
    (hcode₁.mono htu)).bind fun args w m _ => ?_
  rintro ⟨call, rfl, hpasses, hm⟩
  refine leads_prepareArgs hm rfl hc hcode₂ fun m v hv hm => ?_
  have hcreated : Leads setup .free floor n m _ _ :=
    leads_instantiate (i := i) hm (.stay _) rfl hv hcode₂.tail
  rw [show ∀ (p : Pose) x, (p.push (.args x)).topArgs? = some x by simp [Pose.topArgs?, Pose.push],
    ← Walk.asked_bodies] at hcreated
  refine hcreated.bind fun created w m _ => ?_
  rintro ⟨hdefinition, v, hv, hcurrent, hm⟩
  obtain ⟨current, self⟩ := created
  have hcode₃ := hcode₂.tail.append.2.append.2
  simp only at hdefinition hcurrent hm ⊢
  cases hlayout : layout.or (setup.options.lookup.layout? c.definition) with
  | none =>
    rw [show layout.or ((setup.scene cells).lookup.layout? c.definition) = none from hlayout]
    obtain ⟨rfl, hlookup⟩ := Option.or_eq_none_iff.mp hlayout
    obtain rfl : found = [⟨.getComponentLayout, Emit.current, 0, 0⟩] := hfound
    exact leads_getComponentLayout_none
      (c := { c with curried := none, created := some current.inst }) hm rfl hv.2.2 hlookup
      (hcode₃.mono hv.1)
  | some f =>
    rw [show layout.or ((setup.scene cells).lookup.layout? c.definition) = some f from hlayout]
    obtain ⟨table, hf⟩ := Option.isSome_iff_exists.mp (htable f hlayout)
    have hk := hsite.within.mono hv.1
    obtain ⟨hfound₁, hfound₂⟩ := hcode₃.append
    simp only [hf, Walk.orUndefined_some]
    refine leads_layout hserves hm hk hcurrent hdefinition hpresent hfound (hfound₁.mono hv.1) f
      hlayout (fun hnot => Walk.enterLayout_fails hnot _ _ _) fun m hcompilable hm => ?_
    rw [Walk.enterLayout_of (s := setup.scene cells) hcompilable]
    obtain ⟨hmain, hinverse, hattrs⟩ := hpasses v hk.linkage
    refine Leads.done (((hm.arrives (i := i) (p := (p.invoking (.component number)).dynamic)
      (c := { call with self, args := Walk.merged c call.args }) hf
      ((hsite.sees.mono hv.1).of_scopeStack rfl) hcurrent ⟨hmain, hinverse, hattrs⟩
      (hfound₂.mono hv.1) ?_).weaken hv.1).at ?_)
    · exact Nat.le_trans hfloor (by simp [Pose.dynamic, Pose.invoking, Pose.push]; omega)
    · simp only [List.length_nil]
      omega

end

/-- The operation that binds a slot to what is on the stack. -/
def Slot.binder : Slot → Opcode
  | .block _ => .setBlock
  | _ => .setVariable

namespace Pose

/-- The pose with the contents of a slot on the stack. -/
def hold (p : Pose) : Slot → Pose
  | .value r => p.push (.ref r)
  | .block b => p.pass b
  | .empty => p

/-- The pose with the contents of several slots on the stack, those of the first on top. -/
def holdAll (p : Pose) (slots : List (UInt32 × Slot)) : Pose :=
  slots.foldr (fun s p => p.hold s.2) p

theorem scopeStack_holdAll (p : Pose) (slots : List (UInt32 × Slot)) :
    (p.holdAll slots).scopeStack = p.scopeStack := by
  induction slots with
  | nil => rfl
  | cons s rest ih =>
    obtain ⟨symbol, slot⟩ := s
    cases slot <;> exact ih

end Pose

/-- Slots are filled with what symbols are bound to. -/
inductive Store.FillsAll (strategy : Strategy) (t : Store) (caller : Option Nat) :
    List (UInt32 × Slot) → List (UInt32 × Binding) → Prop
  | nil : FillsAll strategy t caller [] []
  | cons {symbol : UInt32} {slot : Slot} {b : Binding} {slots : List (UInt32 × Slot)}
    {bound : List (UInt32 × Binding)} : slot ≠ .empty → t.Fills strategy b slot caller →
    FillsAll strategy t caller slots bound →
    FillsAll strategy t caller ((symbol, slot) :: slots) ((symbol, b) :: bound)

/-- The operations that bind slots to what is on the stack. -/
def bindersOf (slots : List (UInt32 × Slot)) : List (UInt32 × Opcode) :=
  slots.map fun s => (s.1, s.2.binder)

section

variable {setup : Setup} {cells : Cells} {a floor : Nat} {n : ENat} {p : Pose}
variable {w : World} {t u : Store} {m : Machine} {rest : List Instruction} {α : Type}
variable {out : EStateM.Result (Stop Fault) World α} {final : α → World → Machine → Prop}
variable {k : Coding} {code : List Instruction} {site : Site} {i : Invocation}
variable {c : ComponentState} {number : Nat}

/-! ### Symbols -/

theorem Invocation.blockOf?_bodies (i : Invocation) (symbol : String) :
    i.bodies.blockOf? symbol = (i.blockOf? symbol).map (Option.map Fragment.body) := by
  unfold Invocation.blockOf?
  split
  · rfl
  · split
    · rfl
    · split <;> rfl

theorem Invocation.hasBlocks_of_blockOf? {symbol : String} {f : Fragment}
    (h : i.blockOf? symbol = some (some f)) : i.hasBlocks = true := by
  unfold Invocation.blockOf? at h
  unfold Invocation.hasBlocks
  split at h
  · simp [Option.some.inj h]
  · split at h
    · simp [Option.some.inj h]
    · split at h
      · simp [Option.some.inj h]
      · cases h

/-- What a symbol is bound to is pushed, if anything is. -/
theorem leads_symbol (hserves : setup.Serves) {others : List Nat} {caller : Option Nat}
    {symbol : String} {binder : Option Opcode} (hm : Stands setup cells a p w t m)
    (hsite : site.Reads setup k t p) (hstack : p.scopeStack = number :: others)
    (hcaller : i.hasBlocks = true → caller = some number)
    (hshape : k.symbolCode i symbol code binder) (hcode : t.HasCode a code) :
    Leads setup .free floor n m (Walk.symbolBinding (setup.scene cells) site i.bodies symbol w)
      fun bound w' m' =>
        (bound = none ∧ binder = none ∧ Stands setup cells (a + 4 * code.length) p w' t m') ∨
        ∃ b slot, bound = some b ∧ binder = some slot.binder ∧ slot ≠ .empty ∧
          t.Fills setup.options.strategy b slot caller ∧
          Stands setup cells (a + 4 * code.length) (p.hold slot) w' t m' := by
  unfold Coding.symbolCode at hshape
  unfold Walk.symbolBinding
  cases hrole : SymbolRole.ofSymbol symbol with
  | block symbol =>
    simp only [hrole] at hshape ⊢
    obtain ⟨f, hf, hyieldable, rfl⟩ := hshape
    rw [Invocation.blockOf?_bodies, hf]
    refine leads_yieldable hm hsite.within hyieldable hcode fun m v hv hm => ?_
    refine Leads.done (.inr ⟨_, .block ⟨tableValue f, v⟩, rfl, rfl, by simp, ?_, hm⟩)
    exact hsite.sees.fills_passed hstack
      (fun hsome =>
        hcaller (Invocation.hasBlocks_of_blockOf? (f := f.get hsome) (by simpa using hf)))
      (hv t hsite.within.linkage)
  | argument symbol bare =>
    simp only [hrole] at hshape ⊢
    rw [show (i.bodies.hash.bind fun hash =>
        hash.get? (if i.bodies.synthetic then bare else symbol)) =
      i.hash.bind fun hash => hash.get? (if i.synthetic then bare else symbol) from rfl]
    cases hvalue : i.hash.bind fun hash => hash.get? (if i.synthetic then bare else symbol) with
    | none =>
      rw [hvalue] at hshape
      obtain ⟨rfl, rfl⟩ := hshape
      exact Leads.done (.inl ⟨rfl, rfl, hm⟩)
    | some value =>
      rw [hvalue] at hshape
      obtain ⟨hpush, rfl⟩ := hshape
      refine (leads_expression hserves value hm hsite hpush hcode).bind fun r w m _ hm => ?_
      exact Leads.done (.inr ⟨_, .value r, rfl, rfl, by simp, rfl, hm⟩)
  | inner =>
    simp only [hrole] at hshape ⊢
    obtain ⟨rfl, rfl⟩ := hshape
    exact Leads.done (.inl ⟨rfl, rfl, hm⟩)

/-- What the symbols from a slot on are bound to is pushed above what others are bound to. -/
theorem leads_symbols (hserves : setup.Serves) {others : List Nat} {caller : Option Nat}
    {slots : List (UInt32 × Slot)} {bound : List (UInt32 × Binding)} {slot : UInt32}
    {symbols : List String} {binders : List (UInt32 × Opcode)}
    (hm : Stands setup cells a (p.holdAll slots) w t m) (hsite : site.Reads setup k t p)
    (hstack : p.scopeStack = number :: others)
    (hcaller : i.hasBlocks = true → caller = some number)
    (hbound : t.FillsAll setup.options.strategy caller slots bound)
    (hshape : k.symbolsCode i (bindersOf slots) slot symbols code binders)
    (hcode : t.HasCode a code) :
    Leads setup .free floor n m
      (Walk.symbolBindings (setup.scene cells) site i.bodies bound slot symbols w)
        fun bound' w' m' =>
        ∃ slots', binders = bindersOf slots' ∧
          t.FillsAll setup.options.strategy caller slots' bound' ∧
          Stands setup cells (a + 4 * code.length) (p.holdAll slots') w' t m' := by
  induction symbols generalizing slots bound slot code a w m with
  | nil =>
    obtain ⟨rfl, rfl⟩ := hshape
    exact Leads.done ⟨slots, rfl, hbound, hm⟩
  | cons symbol symbols ih =>
    obtain ⟨first, more, binder, hfirst, rfl, hmore⟩ := hshape
    obtain ⟨hcode₁, hcode₂⟩ := hcode.append
    have hscopes := p.scopeStack_holdAll slots
    refine (leads_symbol hserves hm (hsite.of_scopeStack hscopes) (hscopes.trans hstack)
      hcaller hfirst hcode₁).bind fun b w m _ hb => ?_
    rcases hb with ⟨rfl, rfl, hm⟩ | ⟨b, s, rfl, rfl, hs, hfills, hm⟩
    · refine (ih hm hbound hmore hcode₂).mono ?_
      rintro _ _ _ ⟨slots', hbinders, hbound', hm⟩
      exact ⟨slots', hbinders, hbound', hm.at (by rw [List.length_append]; omega)⟩
    · have hm : Stands setup cells _ (p.holdAll ((slot, s) :: slots)) w t m := hm
      refine (ih hm (.cons hs hfills hbound) hmore hcode₂).mono ?_
      rintro _ _ _ ⟨slots', hbinders, hbound', hm⟩
      exact ⟨slots', hbinders, hbound', hm.at (by rw [List.length_append]; omega)⟩

/-- The slots of a new scope are bound to what is on the stack. -/
theorem Opens.bindSymbols {scope : Scope} {slots : List (UInt32 × Slot)}
    {bound : List (UInt32 × Binding)} {held : Slots}
    (hm : Opens setup cells a (p.holdAll slots) w t scope m)
    (hbound : t.FillsAll setup.options.strategy scope.caller slots bound)
    (hholds : t.Holds setup.options.strategy scope held)
    (hcode : t.HasCode a (Coding.bindSymbols (bindersOf slots) ++ rest))
    (h : ∀ m' scope', t.Holds setup.options.strategy scope' (held.bindAll bound) →
      Opens setup cells (a + 4 * (Coding.bindSymbols (bindersOf slots)).length) p w t scope' m' →
      Leads setup (.filling .empty) floor n m' out final) : Leads setup (.filling .empty) floor n m
        out final := by
  generalize hcaller : scope.caller = caller at hbound
  induction hbound generalizing a m held scope with
  | nil => exact h m scope hholds hm
  | @cons symbol slot b slots bound hslot hfills hmore ih =>
    subst hcaller
    have hnext (m' : Machine) (hm : Opens setup cells (a + 4) (p.holdAll slots) w t
        (scope.bind symbol slot) m') : Leads setup (.filling .empty) floor n m' out final := by
      refine ih hm (hholds.bind hfills) hcode.tail
        (fun m' scope' hholds' hm => h m' scope' hholds' ?_) rfl
      have hlength : (Coding.bindSymbols (bindersOf ((symbol, slot) :: slots))).length =
        (Coding.bindSymbols (bindersOf slots)).length + 1 := rfl
      rwa [hlength, show ∀ l, a + 4 * (l + 1) = a + 4 + 4 * l by omega]
    cases slot with
    | empty => exact absurd rfl hslot
    | value r => exact Opens.setVariable hm hcode hnext
    | block b => exact Opens.setBlock hm hcode hnext

/-! ### Entering the layout -/

/-- Nothing but the component of the enclosing invocation is on top of the stack. -/
theorem Pose.topArgs?_invoking {v : Value} {current : Option Current}
    (h : t.IsCurrent p.registers.s0 current) : (p.invoking v).topArgs? = none := by
  have htop : (p.invoking v).stack.back? = some p.registers.s0 := Array.back?_push
  unfold Pose.topArgs?
  rw [htop]
  cases current with
  | none =>
    rw [show p.registers.s0 = .null from h]
    rfl
  | some current =>
    obtain ⟨number, -, hs0, -⟩ := h
    rw [hs0]

/-- An instance is created, from arguments if it asks for them. -/
theorem leads_creates (hserves : setup.Serves) {createArgs : Bool}
    (hm : Stands setup cells a (p.invoking (.component number)) w u m) (hc : t.Adds u number c)
    (hsite : site.Reads setup k t p) (hcurrent : t.IsCurrent p.registers.s0 site.current)
    (hshape : k.creates createArgs i code)
    (hcode : t.HasCode a (code ++ (Coding.registerComponent ++ rest))) :
    Leads setup .free floor n m ((do
        let given ← Walk.argsIf (setup.scene cells) site createArgs i.bodies
        Walk.instantiate (setup.scene cells) c (Walk.asked c given i.bodies) : Walk _) w)
      fun created w' m' => created.1.definition = c.definition ∧
        Created setup cells (a + 4 * (code.length + 2))
          ((p.invoking (.component number)).dynamic.push (.ref created.2)) number c created.1 w' t
          m' := by
  unfold Coding.creates at hshape
  unfold Walk.argsIf
  cases createArgs with
  | false =>
    rw [if_neg (by simp)] at hshape
    subst hshape
    have hlead : Leads setup .free floor n m _ _ := leads_instantiate hm (.stay _) rfl hc hcode
    rw [Pose.topArgs?_invoking hcurrent, ← Walk.asked_bodies] at hlead
    exact hlead
  | true =>
    rw [if_pos rfl] at hshape
    obtain ⟨given, hgiven, rfl⟩ := hshape
    simp only [List.cons_append, List.append_assoc] at hcode
    obtain ⟨hcode₁, hcode₂⟩ := hcode.tail.append
    have hsite' := (hsite.mono hc.1).of_scopeStack
      (q := (p.invoking (.component number)).within (p.invoking (.component number)).ra []) rfl
    simp only [if_true, bind_assoc, pure_bind]
    refine leads_pushFrame hm (hcode.mono hc.1) fun m hm => ?_
    refine (leads_args hserves hm hsite' hgiven (hcode₁.mono hc.1)).bind fun args w m _ hm => ?_
    rw [Pose.within_push] at hm
    have htop : ((p.invoking (.component number)).within (p.invoking (.component number)).ra
        ([] ++ [.args args])).topArgs? = some args := by
      simp [Pose.topArgs?, Pose.within]
    have hlead : Leads setup .free floor n m _ _ :=
      leads_instantiate (i := i) hm (.leave _ _ _) rfl hc hcode₂
    rw [htop, ← Walk.asked_bodies] at hlead
    refine hlead.mono fun created w' m' hcreated => ?_
    obtain ⟨hdefinition, v, hv, hcreated, hm⟩ := hcreated
    refine ⟨hdefinition, v, hv, hcreated, hm.at ?_⟩
    simp only [List.length_cons, List.length_append, List.length_nil]
    simp only [Coding.createComponent, List.length_cons, List.length_nil]
    omega

/-- The scope of the layout is entered and filled, and the frame of its call. -/
theorem leads_enterBound {others : List Nat} {caller : Option Nat} {slots : List (UInt32 × Slot)}
    {bound : List (UInt32 × Binding)} {size flag b d : UInt32}
    (hm : Stands setup cells a (p.holdAll slots) w t m) (hstack : p.scopeStack = number :: others)
    (hcaller : caller = if flag != 0 then some number else none)
    (hbound : t.FillsAll setup.options.strategy caller slots bound)
    (hcode : t.HasCode a (⟨.rootScope, size, flag, 0⟩ :: (Coding.bindSymbols (bindersOf slots) ++
      ⟨.pushFrame, 0, b, d⟩ :: rest)))
    (h : ∀ m' u inner, t ≤ u →
      u.Sees setup.options.strategy (p.enter inner) (Slots.empty.bindAll bound) →
      Stands setup cells (a + 4 * ((Coding.bindSymbols (bindersOf slots)).length + 2))
        ((p.enter inner).within p.ra []) w u m' → Leads setup .free floor n m' out final) :
    Leads setup .free floor n m out final := by
  refine leads_rootScope hm ((p.scopeStack_holdAll slots).trans hstack) hcode fun m hm => ?_
  rw [← hcaller] at hm
  refine hm.bindSymbols hbound (Store.holds_root _ _) hcode.tail fun m scope hholds hm => ?_
  obtain ⟨u, inner, hu, hinner, hm⟩ := hm.stands
  have hsees : u.Sees setup.options.strategy (p.enter inner) (Slots.empty.bindAll bound) :=
    ⟨inner, _, scope, rfl, hinner, hholds.mono hu⟩
  refine Leads.filled (hm.canYield hsees)
    (leads_pushFrame hm (hcode.tail.append.2.mono hu) fun m hm => ?_)
  exact h m u inner hu hsees (hm.at (by omega))

/-- The code of an invocation with a known layout enters it as the walk does. -/
theorem leads_boundEntry (hserves : setup.Serves) {createArgs : Bool} {layout : Fragment}
    {table : ProgramTable} {created pushed called : List Instruction}
    {binders : List (UInt32 × Opcode)}
    (hm : Stands setup cells a (p.invoking (.component number)) w u m) (hc : t.Adds u number c)
    (hsite : site.Reads setup k t p) (hcurrent : t.IsCurrent p.registers.s0 site.current)
    (hcreated : k.creates createArgs i created)
    (hpushed : k.symbolsCode i [(0, .setVariable)] 1 table.symbols pushed binders)
    (hcalled : k.staticCall layout called)
    (hcode : t.HasCode a (created ++ (Coding.registerComponent ++ (pushed ++
      ⟨.rootScope, UInt32.ofNat table.symbols.length + 1, i.hasBlocks.toUInt32, 0⟩ ::
        (Coding.bindSymbols binders ++ ⟨.pushFrame, 0, 0, 0⟩ :: (called ++ rest))))))
    (hfloor : floor ≤ p.stack.size) :
    Leads setup .free floor n m
      (Walk.boundEntry (setup.scene cells) site createArgs layout table c i.bodies w) fun e w' m' =>
        Arrives setup cells floor (a + 4 * (created.length + pushed.length +
          (Coding.bindSymbols binders).length + called.length + 4))
          (p.invoking (.component number)).dynamic e w' t m' := by
  have hwalk : Walk.boundEntry (setup.scene cells) site createArgs layout table c i.bodies =
      (do
        let given ← Walk.argsIf (setup.scene cells) site createArgs i.bodies
        Walk.instantiate (setup.scene cells) c (Walk.asked c given i.bodies) : Walk _) >>=
      fun created => Walk.symbolBindings (setup.scene cells) site i.bodies
        [(0, .value created.2)] 1 table.symbols >>= fun bound =>
          Walk.enterLayout (setup.scene cells) layout (Slots.empty.bindAll bound) created.1 := by
    simp only [Walk.boundEntry, bind_assoc]
  rw [hwalk]
  refine (leads_creates hserves hm hc hsite hcurrent hcreated hcode).bind fun new w m _ => ?_
  rintro ⟨-, v, hv, hinstance, hm⟩
  have hcode := (hcode.append.2.append.2.mono hv.1).at (b := a + 4 * (created.length + 2))
    (by simp only [Coding.registerComponent, List.length_cons, List.length_nil]; omega)
  obtain ⟨hcode₁, hcode₂⟩ := hcode.append
  have hsite := hsite.mono hv.1
  obtain ⟨outer, others, scope, hstack, hscope, hslots⟩ := id hsite.sees
  have hflag : i.hasBlocks = true →
      (if i.hasBlocks.toUInt32 != 0 then some outer else none) = some outer := by
    intro h
    rw [h]
    rfl
  have hm :
    Stands setup cells _ ((p.invoking (.component number)).dynamic.holdAll [(0, .value new.2)])
    w v m := hm
  refine (leads_symbols hserves hm (hsite.of_scopeStack rfl) hstack hflag
    (.cons (b := .value new.2) (by simp) rfl .nil) hpushed hcode₁).bind fun bound w m _ => ?_
  rintro ⟨slots, rfl, hbound, hm⟩
  have hcurrent : v.IsCurrent (p.invoking (.component number)).dynamic.registers.s0 (some new.1) :=
    hinstance
  have hcode₃ := hcode₂.tail.append.2.tail.at (b := a + 4 * (created.length + 2) +
    4 * pushed.length + 4 * ((Coding.bindSymbols (bindersOf slots)).length + 2)) (by omega)
  by_cases hcompilable : layout.isCompilable setup.options.lookup
  · rw [Walk.enterLayout_of (s := setup.scene cells) hcompilable]
    refine leads_enterBound hm hstack rfl hbound hcode₂ fun m u inner hu hsees hm => ?_
    refine leads_toStaticCall hserves hm (hsite.within.mono hu) hcalled (hcode₃.append.1.mono hu)
      (fun hnot => absurd hcompilable (by simp [hnot])) fun m u' hu' hcalls => Leads.done ?_
    refine Arrives.at ⟨u', inner, Store.le_trans hv.1 (Store.le_trans hu hu'), ?_, hcalls,
      hsees.mono hu', hcurrent.mono (Store.le_trans hu hu')⟩ (by omega)
    exact Nat.le_trans hfloor (by simp [Pose.dynamic, Pose.invoking, Pose.push]; omega)
  · have hnot : layout.isCompilable setup.options.lookup = false := by simpa using hcompilable
    rw [Walk.enterLayout_fails (s := setup.scene cells) hnot]
    refine leads_enterBound hm hstack rfl hbound hcode₂ fun m u inner hu _ hm => ?_
    exact leads_staticCall_fails hserves hm (hsite.within.mono hu) hcalled
      (hcode₃.append.1.mono hu) hnot

end

end TemplateMachine
