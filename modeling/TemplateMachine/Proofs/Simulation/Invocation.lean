import TemplateMachine.Proofs.Simulation.Component

/-! The code of an invocation renders the component. -/

namespace TemplateMachine

/-- The code renders a place of a template, above what the caller of the block has on the stack. -/
structure Site.Renders (site : Site) (setup : Setup) (k : Coding) (t : Store) (p : Pose)
    (floor : Nat) : Prop extends site.Reads setup k t p where
  current : t.IsCurrent p.registers.s0 site.current
  floor : floor ≤ p.stack.size

section

variable {setup : Setup} {cells : Cells} {a floor : Nat} {n : ENat} {p q : Pose}
variable {w : World} {t u : Store} {m : Machine} {rest : List Instruction} {call : Call}
variable {k : Coding} {code : List Instruction} {site : Site} {i : Invocation}
variable {c : ComponentState} {number : Nat}

namespace Site.Renders

theorem grow (h : site.Renders setup k t p floor) (hu : t ≤ u) : site.Renders setup k u p floor :=
  ⟨h.mono hu, h.current.mono hu, h.floor⟩

/-- A pose with the same scopes and component, and no less on the stack. -/
theorem of_pose (h : site.Renders setup k t p floor) (hscopes : q.scopeStack = p.scopeStack)
    (hregisters : q.registers = p.registers) (hsize : p.stack.size ≤ q.stack.size) :
    site.Renders setup k t q floor :=
  ⟨h.of_scopeStack hscopes, hregisters ▸ h.current, Nat.le_trans h.floor hsize⟩

end Site.Renders

/-! ### The component on the stack -/

theorem Store.HasCode.append_nil {code : List Instruction} (h : t.HasCode a code) :
    t.HasCode a (code ++ []) := by
  rwa [List.append_nil]

/-- After an entry a transaction is open. -/
theorem Walk.Enters.ne_nil {s : Scene} {x : Walk Walk.Entry}
    (h : Walk.Enters s (fun w w' => w'.transactions = w.transactions) x) {e : Walk.Entry}
    {w w' : World} (hx : x w = .ok e w') : w'.transactions ≠ [] := by
  obtain ⟨v, asked, -, -, hbegan⟩ := h w e w' hx
  simp [hbegan, World.began]

theorem Walk.IsHosts.present {s : Scene} (h : Walk.IsHosts s c) :
    ∃ d, s.host.component? c.definition = some d := h.imp fun _ hd => hd.1

theorem leads_genericComponent (hserves : setup.Serves)
    (hsim : Simulates setup cells (floor + 1) n call) {layout : Option Fragment}
    (hm : Stands setup cells a (p.push (.component number)) w u m) (hc : t.Adds u number c)
    (hsite : site.Renders setup k t p floor) (hhosts : Walk.IsHosts (setup.scene cells) c)
    (htable : ∀ f, layout.or (setup.options.lookup.layout? c.definition) = some f →
      f.table.asProgram?.isSome)
    (hshape : k.genericComponent i layout code) (hcode : t.HasCode a code) :
    Leads setup .free floor (n + 1) m
      (Walk.genericComponent (setup.scene cells) site call c i.bodies layout w) fun _ w' m' =>
        Stands setup cells (a + 4 * code.length) (p.push (.component number)) w' t m' := by
  obtain ⟨passed, found, hpassed, hfound, rfl⟩ := hshape
  simp only [List.append_assoc, List.cons_append] at hcode
  unfold Walk.genericComponent
  refine leads_enterComponent hm (hcode.mono hc.1) fun m hm => ?_
  refine (leads_genericEntry hserves hm hc hsite.toReads hhosts.present htable hpassed hfound
    hcode.append.2 hsite.floor).bind fun e w m hentry hm => ?_
  have hopen :=
    (Walk.Enters.genericEntry (Walk.maintains_transactions _) _ hhosts _ _).ne_nil hentry
  have hback := hcode.append.2.append.2.tail.append.2.append.2.append.2.tail.at
    (b := a + 12 + 4 * (passed.length + found.length + 7))
    (by simp only [Coding.enterComponent, Coding.createComponent, Coding.registerComponent,
      List.length_cons, List.length_nil]; omega)
  refine (leads_renderLayout hsim hm hopen hback.append_nil).mono fun _ w' m' hm => hm.at ?_
  simp only [List.length_append, List.length_cons, List.length_nil, Coding.enterComponent,
    Coding.createComponent, Coding.registerComponent, Coding.leaveComponent]
  omega

theorem leads_boundComponent (hserves : setup.Serves)
    (hsim : Simulates setup cells (floor + 1) n call) {createArgs : Bool} {layout : Fragment}
    {table : ProgramTable} (hm : Stands setup cells a (p.push (.component number)) w u m)
    (hc : t.Adds u number c) (hsite : site.Renders setup k t p floor)
    (hhosts : Walk.IsHosts (setup.scene cells) c)
    (hshape : k.boundComponent createArgs layout table i code) (hcode : t.HasCode a code) :
    Leads setup .free floor (n + 1) m ((do
        Walk.renderLayout call
          (← Walk.boundEntry (setup.scene cells) site createArgs layout table c i.bodies) :
          Walk Unit) w)
      fun _ w' m' =>
        Stands setup cells (a + 4 * code.length) (p.push (.component number)) w' t m' := by
  obtain ⟨created, pushed, binders, called, hcreated, hpushed, hcalled, rfl⟩ := hshape
  simp only [List.append_assoc, List.cons_append] at hcode
  refine leads_enterComponent hm (hcode.mono hc.1) fun m hm => ?_
  refine (leads_boundEntry hserves hm hc hsite.toReads hsite.current hcreated hpushed hcalled
    hcode.append.2 hsite.floor).bind fun e w m hentry hm => ?_
  have hopen :=
    (Walk.Enters.boundEntry (Walk.maintains_transactions _) _ _ _ _ hhosts _).ne_nil hentry
  have hback := hcode.append.2.append.2.append.2.append.2.tail.append.2.tail.append.2.at
    (b := a + 12 + 4 * (created.length + pushed.length + (Coding.bindSymbols binders).length +
      called.length + 4))
    (by simp only [Coding.enterComponent, Coding.registerComponent, List.length_cons,
      List.length_nil]; omega)
  refine (leads_renderLayout hsim hm hopen hback.append_nil).mono fun _ w' m' hm => hm.at ?_
  simp only [List.length_append, List.length_cons, List.length_nil, Coding.enterComponent,
    Coding.registerComponent, Coding.leaveComponent]
  omega

theorem leads_staticComponent (hserves : setup.Serves)
    (hsim : Simulates setup cells (floor + 1) n call) {capabilities : Capabilities}
    {layout : Fragment} (hm : Stands setup cells a (p.push (.component number)) w u m)
    (hc : t.Adds u number c) (hsite : site.Renders setup k t p floor)
    (hhosts : Walk.IsHosts (setup.scene cells) c)
    (hshape : k.staticComponent capabilities layout i code) (hcode : t.HasCode a code) :
    Leads setup .free floor (n + 1) m
      (Walk.staticComponent (setup.scene cells) site call capabilities layout c i.bodies w)
      fun _ w' m' =>
        Stands setup cells (a + 4 * code.length) (p.push (.component number)) w' t m' := by
  obtain ⟨table, htable, hform⟩ := hshape
  unfold Walk.staticComponent
  rw [htable, Walk.orUndefined_some]
  by_cases hgeneric : (table.hasEval || capabilities.prepareArgs) = true
  · rw [if_pos hgeneric] at hform ⊢
    refine leads_genericComponent hserves hsim hm hc hsite hhosts (fun f hf => ?_) hform hcode
    obtain rfl : layout = f := Option.some.inj hf
    simp [htable]
  · rw [if_neg hgeneric] at hform ⊢
    exact leads_boundComponent hserves hsim hm hc hsite hhosts hform hcode

/-! ### Components of handles and values -/

/-- A layout that is looked up is a whole template. -/
theorem Setup.Serves.table (hserves : setup.Serves) {handle : UInt32} {f : Fragment}
    (h : (none : Option Fragment).or (setup.options.lookup.layout? handle) = some f) :
    f.table.asProgram?.isSome :=
  (hserves.coherent.layout handle f h).2.2

theorem leads_component (hserves : setup.Serves) (hsim : Simulates setup cells (floor + 1) n call)
    {handle : UInt32} (hm : Stands setup cells a p w t m) (hsite : site.Renders setup k t p floor)
    (hshape : k.component handle i code) (hcode : t.HasCode a code) :
    Leads setup .free floor (n + 1) m
      (Walk.component (setup.scene cells) site call handle i.bodies w) fun _ w' m' =>
        Stands setup cells (a + 4 * code.length) p w' t m' := by
  obtain ⟨push, invoke, hpush, hinvoke, rfl⟩ := hshape
  obtain ⟨hcode₁, hcode₃⟩ := hcode.append
  obtain ⟨hcode₁, hcode₂⟩ := hcode₁.append
  rw [hsite.lookup cells] at hinvoke
  unfold Walk.component
  generalize (if ((setup.scene cells).lookup.capabilities handle).dynamicLayout then none
    else (setup.scene cells).lookup.layout? handle) = layout? at hinvoke ⊢
  refine (leads_pushComponentSpec hm hsite.within.linkage hpush hcode₁).bind fun c w m hstate => ?_
  rintro ⟨u, number, hc, hm⟩
  have hhosts := Walk.hosts_componentState _ _ _ _ _ _ hstate
  have hpop {m : Machine} {w : World}
      (hm : Stands setup cells (a + 4 * push.length + 4 * invoke.length)
        (p.push (.component number)) w t m) :
      Leads setup .free floor (n + 1) m (.ok () w) fun _ w' m' =>
        Stands setup cells (a + 4 * (push ++ invoke ++
          [(⟨.pop, 1, 0, 0⟩ : Instruction)]).length) p w' t
          m' := by
    have hm : Stands setup cells (a + 4 * push.length + 4 * invoke.length)
        (p.pushAll [.component number]) w t m := by simpa using hm
    refine leads_pop hm rfl
      (hcode₃.at (by rw [List.length_append]; omega)) fun m hm => Leads.done (hm.at ?_)
    simp only [List.length_append, List.length_cons, List.length_nil]
    omega
  cases layout? with
  | some layout =>
    exact (leads_staticComponent hserves hsim hm hc hsite hhosts hinvoke hcode₂).andThen
      fun _ _ _ hm => hpop hm
  | none =>
    exact (leads_genericComponent hserves hsim hm hc hsite hhosts (fun f hf => hserves.table hf)
      hinvoke hcode₂).andThen fun _ _ _ hm => hpop hm

/-- Invoking the component that the value on the stack gives. -/
theorem leads_dynamicComponent (hserves : setup.Serves)
    (hsim : Simulates setup cells (floor + 1) n call) {definition : Reference}
    {find invoke : List Instruction} (hm : Stands setup cells a (p.push (.ref definition)) w t m)
    (hsite : site.Renders setup k t p floor)
    (hfind : k.onReferer .pushDynamicComponentManager find)
    (hinvoke : k.genericComponent i none invoke) (hcode : t.HasCode a (find ++ invoke)) :
    Leads setup .free floor (n + 1) m
      (Walk.dynamicComponent (setup.scene cells) site call definition i.bodies w) fun _ w' m' =>
        ∃ number, Stands setup cells (a + 4 * (find.length + invoke.length))
          (p.push (.component number)) w' t m' := by
  obtain ⟨hcode₁, hcode₂⟩ := hcode.append
  unfold Walk.dynamicComponent
  rw [← hsite.referer]
  refine (leads_pushDynamicComponent hm hsite.within.linkage hfind hcode₁).bind
    fun c w m hstate => ?_
  rintro ⟨u, number, hc, hm⟩
  refine (leads_genericComponent hserves hsim hm hc hsite
    (Walk.hosts_dynamicState _ _ _ _ _ _ hstate)
    (fun f hf => hserves.table hf) hinvoke hcode₂).mono fun _ w' m' hm => ⟨number, hm.at (by omega)⟩

end

end TemplateMachine
