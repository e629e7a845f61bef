import TemplateMachine.Proofs.Run.Component

/-! Layouts that are entered, and left when they are done. -/

namespace TemplateMachine

section

variable {setup : Setup} {cells : Cells} {a floor : Nat} {n : ENat} {p : Pose}
variable {w : World} {t : Store} {m : Machine} {rest : List Instruction} {α : Type}
variable {out : EStateM.Result (Stop Fault) World α} {final : α → World → Machine → Prop}
variable {k : Coding} {code : List Instruction} {site : Site}

open Exec (bind_apply pure_apply get_apply read_apply modify_apply orFail_some pop_of)

/-! ### Finding layouts -/

/-- The machine has the symbols and the handle of a layout on its stack. -/
def Finds (setup : Setup) (cells : Cells) (pc : Nat) (p : Pose) (layout : Fragment) (w : World)
    (t : Store) (m : Machine) : Prop :=
  ∃ u v handle f, t ≤ u ∧ v.toHandle? = some handle ∧ f.body = layout.body ∧
    u.linkage.Compiled setup.options.lookup setup.options.strategy f handle ∧
    Stands setup cells pc ((p.push (.table layout.table)).push v) w u m

/-- A layout that is given in the code. -/
theorem leads_givenLayout (hserves : setup.Serves) {layout : Fragment}
    (hm : Stands setup cells a p w t m) (hk : k.Within setup t)
    (hshape : k.layoutCode (some layout) code) (hcode : t.HasCode a code)
    (hfail : layout.isCompilable setup.options.lookup = false →
      out = .error (.fault .uncompilable) w)
    (h : ∀ m', layout.isCompilable setup.options.lookup →
      Finds setup cells (a + 4 * code.length) p layout w t m' →
      Leads setup .free floor n m' out final) :
    Leads setup .free floor n m out final := by
  obtain ⟨table, push, htable, hpush, rfl⟩ := hshape
  have hyieldable : k.yieldable (some layout) (table ++ push) := ⟨table, push, htable, hpush, rfl⟩
  obtain ⟨hcode₁, hcode₂⟩ := hcode.append
  refine leads_yieldable hm hk hyieldable hcode₁ fun m v hblock hm => ?_
  rw [← List.append_nil k.resolve] at hcode₂
  refine leads_resolve hserves hm hk (hblock t hk.linkage) hcode₂
    (fun hnot => .inr (hfail hnot)) fun m u v' f handle hu hv' hm hf _ hcompiled =>
    h m ?_ ⟨u, v', handle, f, hu, hv', hf, hcompiled, hm.at ?_⟩
  · have hcompilable : f.body.isCompilable setup.options.lookup := hcompiled.isCompilable
    rwa [hf] at hcompilable
  · simp only [List.length_append]
    omega

/-- A layout that is looked up. -/
theorem leads_getComponentLayout (hserves : setup.Serves) {layout : Fragment} {current : Current}
    {b d : UInt32} (hm : Stands setup cells a p w t m)
    (hcurrent : t.IsCurrent p.registers.s0 (some current))
    (hlayout : setup.options.lookup.layout? current.definition = some layout)
    (hpresent : ∃ d, setup.host.component? current.definition = some d)
    (hcode : t.HasCode a (⟨.getComponentLayout, Emit.current, b, d⟩ :: rest))
    (hfail : layout.isCompilable setup.options.lookup = false →
      out = .error (.fault .uncompilable) w)
    (h : ∀ m', layout.isCompilable setup.options.lookup →
      Finds setup cells (a + 4) p layout w t m' → Leads setup .free floor n m' out final) :
    Leads setup .free floor n m out final := by
  obtain ⟨number, state, hs0, hstate, hdefinition, -, -⟩ := hcurrent
  refine hm.links hserves (fun u _ hvalid => hvalid.layouts _ _ hlayout) hcode (by simp)
    (q := fun handle => (p.push (.table layout.table)).push (.handle handle))
    (fun u last hu => ⟨p, ?_⟩) (fun _ => hpresent.elim fun d hd => ⟨_, d, hd, hlayout⟩)
      (fun hnot => .inr (hfail hnot)) fun m u handle hu hm hcompiled => h m hcompiled.isCompilable
      ⟨u, _, handle, layout, hu, rfl, rfl, hcompiled, hm⟩
  simp only [Exec.perform, Exec.pushLayout, bind_apply,
    Exec.component_of hs0 (hu.components _ _ hstate), read_apply, hdefinition, hlayout, orFail_some,
    Exec.link_of]
  cases setup.options.compile layout u.linkage.program <;> rfl

/-- There is no layout to be looked up. -/
theorem leads_getComponentLayout_none {number : Nat} {c : ComponentState} {b d : UInt32}
    (hm : Stands setup cells a p w t m) (hs0 : p.registers.s0 = .component number)
    (hc : t.components[number]? = some c)
    (hlayout : setup.options.lookup.layout? c.definition = none)
    (hcode : t.HasCode a (⟨.getComponentLayout, Emit.current, b, d⟩ :: rest)) :
    Leads setup .free floor n m (.error (.fault (.unknownComponent c.name)) w) final := by
  refine hm.fails hcode (by simp) fun u last hu => ?_
  simp only [Exec.perform, Exec.pushLayout, bind_apply,
    Exec.component_of hs0 (hu.le.components _ _ hc), read_apply, hlayout, Exec.orFail_none]
  exact ⟨_, _, rfl, rfl, rfl, rfl, rfl⟩

/-! ### Slots of layouts -/

/-- The block that is passed for a fragment stands for the binding of a walk. -/
theorem Store.Sees.fills_passed {f : Option Fragment} {v : Value} {number : Nat} {others : List Nat}
    (hsees : t.Sees setup.options.strategy p site.slots) (hstack : p.scopeStack = number :: others)
    {caller : Option Nat} (hcaller : f.isSome → caller = some number)
    (hv : t.Passes setup.options.strategy v f) :
    t.Fills setup.options.strategy (Walk.passed site (f.map Fragment.body))
      (.block ⟨tableValue f, v⟩) caller := by
  cases f with
  | none =>
    obtain rfl : v = .null := hv
    exact .inr rfl
  | some f =>
    obtain ⟨number', _, scope, hstack', hscope, hslots⟩ := hsees
    obtain rfl : number' = number := (List.cons.inj (hstack'.symm.trans hstack)).1
    exact ⟨⟨v, rfl, hv⟩, number', scope, hcaller rfl, hscope, hslots⟩

/-- The blocks of an invocation as they are passed. -/
structure Exec.LayoutCall.Passes (c : Exec.LayoutCall) (strategy : Strategy) (t : Store)
    (i : Invocation) : Prop where
  main : ∃ v, c.main = ⟨tableValue i.block, v⟩ ∧ t.Passes strategy v i.block
  inverse : ∃ v, c.inverse = ⟨tableValue i.inverse, v⟩ ∧ t.Passes strategy v i.inverse
  attrs : ∃ v, c.attrs = ⟨tableValue i.attrs, v⟩ ∧ t.Passes strategy v i.attrs

/-- The scope of a layout holds its symbols as a walk binds them. -/
theorem Store.Sees.holds_bind (hsees : t.Sees setup.options.strategy p site.slots) {number : Nat}
    {others : List Nat} (hstack : p.scopeStack = number :: others) {i : Invocation}
    {c : Exec.LayoutCall} (hc : c.Passes setup.options.strategy t i) {scope : Scope} {slots : Slots}
    (hcaller : scope.caller = some number)
    (h : t.Holds setup.options.strategy scope slots) (slot : UInt32) (symbols : List String) :
    t.Holds setup.options.strategy (c.bind scope slot symbols)
        (slots.bindAll (Walk.bindings site i.bodies c.args slot symbols)) ∧
      (c.bind scope slot symbols).caller = some number := by
  have hpassed {f : Option Fragment} {b : ScopeBlock}
      (hb : ∃ v, b = ⟨tableValue f, v⟩ ∧ t.Passes setup.options.strategy v f) :
      t.Fills setup.options.strategy (Walk.passed site (f.map Fragment.body)) (.block b)
        (some number) := by
    obtain ⟨v, rfl, hv⟩ := hb
    exact hsees.fills_passed hstack (fun _ => rfl) hv
  have hslot (symbol : String) :
      (Walk.binding? site i.bodies c.args symbol = none ∧ c.slot? symbol = none) ∨
        ∃ b s, Walk.binding? site i.bodies c.args symbol = some b ∧ c.slot? symbol = some s ∧
          t.Fills setup.options.strategy b s (some number) := by
    unfold Walk.binding? Exec.LayoutCall.slot?
    by_cases hmain : symbol = blockSymbols.main
    · rw [if_pos hmain, if_pos hmain]
      exact .inr ⟨_, _, rfl, rfl, hpassed hc.main⟩
    · rw [if_neg hmain, if_neg hmain]
      by_cases hinverse : symbol = blockSymbols.inverse
      · rw [if_pos hinverse, if_pos hinverse]
        exact .inr ⟨_, _, rfl, rfl, hpassed hc.inverse⟩
      · rw [if_neg hinverse, if_neg hinverse]
        by_cases hattrs : symbol = blockSymbols.attrs
        · rw [if_pos hattrs, if_pos hattrs]
          exact .inr ⟨_, _, rfl, rfl, hpassed hc.attrs⟩
        · rw [if_neg hattrs, if_neg hattrs]
          cases SymbolRole.ofSymbol symbol with
          | block symbol => exact .inl ⟨rfl, rfl⟩
          | inner => exact .inl ⟨rfl, rfl⟩
          | argument symbol bare =>
            simp only
            cases c.args.named? bare with
            | none => exact .inl ⟨rfl, rfl⟩
            | some r => exact .inr ⟨_, _, rfl, rfl, rfl⟩
  induction symbols generalizing scope slots slot with
  | nil => exact ⟨h, hcaller⟩
  | cons symbol rest ih =>
    rw [Exec.LayoutCall.bind, Walk.bindings]
    rcases hslot symbol with ⟨hb, hs⟩ | ⟨b, s, hb, hs, hfills⟩
    · rw [hb, hs]
      exact ih hcaller h (slot + 1)
    · rw [hb, hs]
      have hcaller' : (scope.bind slot s).caller = some number := by rw [Scope.caller_bind, hcaller]
      rw [← hcaller] at hfills
      exact ih hcaller' (Store.Holds.bind h hfills) (slot + 1)

/-! ### Calling layouts -/

/-- The pose with a block and its symbols on the stack. -/
def Pose.pass (p : Pose) (b : ScopeBlock) : Pose := (p.push b.table).push b.block

/-- The pose with what a layout is called with on the stack. -/
def Pose.passAll (p : Pose) (c : Exec.LayoutCall) : Pose :=
  ((((p.pass c.main).pass c.inverse).pass c.attrs).push (.args c.args)).push (.ref c.self)

theorem Exec.invokeLayout_of {u : Store} {current : Nat × Opcode} {pc number : Nat}
    {others : List Nat} {c : Exec.LayoutCall} {v : Value} {handle : UInt32} {table : SymbolTable}
    {program : ProgramTable} (hv : v.toHandle? = some handle)
    (htable : table.asProgram? = some program) (hstack : p.scopeStack = number :: others) :
    Exec.invokeLayout setup
        (.of cells pc (((p.passAll c).push (.table table)).push v) w u current) =
      Exec.call handle setup
        (.of cells pc ((p.within p.ra []).enter u.scopes.entries.size) w
          { u with
            scopes := ⟨u.scopes.entries.push
              (c.bind ((Scope.root (program.symbols.length + 1) (some number)).bind 0
                (.value c.self)) 1 program.symbols)⟩ } current) := by
  unfold Pose.passAll Pose.pass
  simp only [Exec.invokeLayout, bind_apply, pop_of, hv, Exec.popRef_of, Exec.popArgs_of,
    Exec.popBlock_of, htable, get_apply]
  rw [show (Machine.of cells pc p w u current).scopeStack = number :: others from hstack]
  simp only [Exec.pushFrame_of]
  rfl

/-- The machine is about to call the layout of an entry, in a scope that holds its slots, and comes
from there to an address. -/
def Arrives (setup : Setup) (cells : Cells) (floor back : Nat) (p : Pose)
    (e : Walk.Entry) (w : World) (t : Store) (m : Machine) : Prop :=
  ∃ u number, t ≤ u ∧ floor ≤ p.stack.size ∧
    Calls setup cells back ((p.enter number).within p.ra []) e.layout.body w u m ∧
    u.Sees setup.options.strategy (p.enter number) e.slots ∧
    u.IsCurrent p.registers.s0 (some e.current)

theorem Arrives.weaken {back : Nat} {e : Walk.Entry} {u : Store}
    (h : Arrives setup cells floor back p e w u m) (hu : t ≤ u) :
    Arrives setup cells floor back p e w t m := by
  obtain ⟨v, number, hv, hrest⟩ := h
  exact ⟨v, number, Store.le_trans hu hv, hrest⟩

theorem Arrives.at {back back' : Nat} {e : Walk.Entry}
    (h : Arrives setup cells floor back p e w t m) (hback : back = back') :
    Arrives setup cells floor back' p e w t m := hback ▸ h

/-- The layout on the stack is called next. -/
theorem Finds.arrives {layout : Fragment} {table : ProgramTable} {c : Exec.LayoutCall}
    {i : Invocation} {current : Current} {b d e : UInt32}
    (hm : Finds setup cells a (p.passAll c) layout w t m)
    (htable : layout.table.asProgram? = some table)
    (hsees : t.Sees setup.options.strategy p site.slots)
    (hcurrent : t.IsCurrent p.registers.s0 (some current))
    (hc : c.Passes setup.options.strategy t i)
    (hcode : t.HasCode a (⟨.invokeComponentLayout, b, d, e⟩ :: rest))
    (hfloor : floor ≤ p.stack.size) : Arrives setup cells floor (a + 4) p
      ⟨layout, Walk.layoutSlots site i.bodies c.self c.args table.symbols, current⟩ w t m := by
  obtain ⟨u, v, handle, f, hu, hv, hf, hcompiled, u', last, hu', hvalid, rfl⟩ := hm
  have htu := Store.le_trans hu hu'
  obtain ⟨number, others, outer, hstack, houter, hslots⟩ := hsees.mono htu
  let scope := c.bind ((Scope.root (table.symbols.length + 1) (some number)).bind 0 (.value c.self))
    1 table.symbols
  let v' : Store := { u' with scopes := ⟨u'.scopes.entries.push scope⟩ }
  have hv' : u' ≤ v' := ⟨u'.linkage.le_refl, keeps_push _ _, .refl _, .refl _⟩
  have hstart : (Scope.root (table.symbols.length + 1) (some number)).caller = some number := rfl
  have hroot : u'.Holds setup.options.strategy
      ((Scope.root (table.symbols.length + 1) (some number)).bind 0 (.value c.self))
      (Slots.empty.bind 0 (.value c.self)) :=
    (Store.holds_root _ _).bindValue 0 c.self
  obtain ⟨hholds, -⟩ := (hsees.mono htu).holds_bind (i := i) hstack
    ⟨hc.main.imp fun _ h => ⟨h.1, h.2.mono htu⟩, hc.inverse.imp fun _ h => ⟨h.1, h.2.mono htu⟩,
      hc.attrs.imp fun _ h => ⟨h.1, h.2.mono htu⟩⟩ (by rw [Scope.caller_bind, hstart]) hroot 1
    table.symbols
  have hholds' := hcode.mono htu
  have hcallee (m : Machine) (hnext : m.next? = some ⟨.invokeComponentLayout, b, d, e⟩)
      (hstack : m.stack = (((p.passAll c).push (.table layout.table)).push v).stack) :
      m.callee? = some handle := by
    simp [Machine.callee?, hnext, hstack, Pose.push, hv]
  refine ⟨v', u'.scopes.entries.size, Store.le_trans htu hv', hfloor, ?_,
    ⟨_, _, scope, rfl, Array.getElem?_push_size, hholds.mono hv'⟩, (hcurrent.mono htu).mono hv'⟩
  exact ⟨a, _, _, _, u', last, f, handle, rfl, rfl, hvalid, hholds',
    hcallee _ (Heap.Holds.next? hholds') rfl,
    Exec.invokeLayout_of hv htable hstack, hvalid, hf,
    hcompiled.mono (Store.Grows.linkage (Store.le_trans hu' hv'))⟩

/-- Rendering a layout and leaving the invocation. -/
theorem leads_renderLayout {call : Call} (hsim : Simulates setup cells (floor + 1) n call)
    {back : Nat} {e : Walk.Entry} {v : Value}
    (hm : Arrives setup cells floor back (p.invoking v).dynamic e w t m)
    (htransaction : w.transactions ≠ []) (hcode : t.HasCode back (Coding.leaveComponent ++ rest)) :
    Leads setup .free floor n m (Walk.renderLayout call e w) fun _ w' m' =>
      Stands setup cells (back + 24) (p.push v) w' t m' := by
  obtain ⟨u, number, hu, hfloor, hcalls, hsees, hcurrent⟩ := hm
  unfold Walk.renderLayout
  have hcode := hcode.mono hu
  refine (hcalls.leads hsim (hsees.of_scopeStack rfl) hcurrent ?_).bind fun _ w m hw hm => ?_
  · rw [Pose.size_within, Pose.stack_enter]
    omega
  have hopen : w.transactions ≠ [] := by
    rw [hsim.balanced _ _ _ _ _ _ hw]
    exact htransaction
  refine leads_didRenderLayout hm hcurrent hcode fun w' m hw' hm => ?_
  -- what the invocation has entered is left without a chance to fail
  refine hm.turn (q := (p.invoking v).dynamic.enter number) hcode.tail (fun _ => .leave rfl)
    (by simp) (fun _ _ _ => Exec.popFrame_of) (by simp) fun m hm => ?_
  refine hm.turn (q := (p.invoking v).dynamic) hcode.tail.tail (fun _ => .leave rfl) (by simp)
    (fun _ _ _ => rfl) (Nat.le_refl _) fun m hm => ?_
  refine hm.turn (q := p.invoking v) hcode.tail.tail.tail (fun _ => .leave rfl) (by simp)
    (fun _ _ _ => rfl) (Nat.le_refl _) fun m hm => ?_
  refine (leads_commitTransaction hm (hw' ▸ hopen) hcode.tail.tail.tail.tail).andThen
    fun _ w m hm => ?_
  exact leads_leaveInvocation hm hcode.tail.tail.tail.tail.tail fun m hm =>
    Leads.done (hm.weaken hu)

end

end TemplateMachine
