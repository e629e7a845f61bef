import TemplateMachine.Machine.Render
import TemplateMachine.Proofs.Simulation.Statement

/-! The code of a fragment renders it: by induction on how deeply fragments nest, what compiled code
does is what the walk does.  So the machine that renders a compiled template is led to the outcome
of its walk, or stops where a walk knows no bound: at the end of its stack, or at a layout that
cannot be linked. -/

namespace TemplateMachine

section

variable {setup : Setup} {cells : Cells} {a floor : Nat} {n : ENat} {p q : Pose}
variable {w : World} {t u : Store} {m : Machine} {rest : List Instruction} {call : Call}
variable {k : Coding} {code : List Instruction} {site : Site} {i : Invocation}

/-! ### Attributes and yields -/

theorem leads_staticAttribute {mode : AttrMode} {name value : String} {space : Option String}
    (hm : Stands setup cells a p w t m) (hk : k.linkage ≤ t.linkage)
    (hshape : k.staticAttr mode name value space code) (hcode : t.HasCode a code) :
    Leads setup .free floor n m (Walk.setAttribute mode name (some value) space w) fun _ w' m' =>
      Stands setup cells (a + 4 * code.length) p w' t m' := by
  obtain ⟨nameIndex, spaceIndex, hname, hspace, hmode⟩ := hshape
  cases mode with
  | component =>
    obtain ⟨push, hpush, rfl⟩ := hmode
    obtain ⟨hcode₁, hcode₂⟩ := hcode.append
    refine leads_reference hm hk hpush hcode₁ fun m hm => ?_
    refine (leads_setAttribute hm hk hname hspace hcode₂).mono fun _ w' m' hm => hm.at ?_
    simp only [List.length_append, List.length_cons, List.length_nil]
    omega
  | element =>
    obtain ⟨valueIndex, hvalue, rfl⟩ := hmode
    exact leads_staticAttr hm hk hname hvalue hspace hcode

theorem leads_dynamicAttribute (hserves : setup.Serves) {mode : AttrMode} {name : String}
    {value : Expression} {space : Option String} {trusting : Bool}
    (hm : Stands setup cells a p w t m) (hsite : site.Reads setup k t p)
    (hshape : k.dynamicAttr mode name value space trusting code) (hcode : t.HasCode a code) :
    Leads setup .free floor n m ((do
        let value ← Walk.expression (setup.scene cells) site value
        Walk.setAttribute mode name (Exec.attributeText? (value.value cells)) space : Walk Unit) w)
      fun _ w' m' => Stands setup cells (a + 4 * code.length) p w' t m' := by
  obtain ⟨push, nameIndex, spaceIndex, hpush, hname, hspace, rfl⟩ := hshape
  obtain ⟨hcode₁, hcode₂⟩ := hcode.append
  refine (leads_expression hserves value hm hsite hpush hcode₁).bind fun r w m _ hm => ?_
  refine (leads_setAttribute hm hsite.within.linkage hname hspace hcode₂).mono
    fun _ w' m' hm => hm.at ?_
  simp only [List.length_append, List.length_cons, List.length_nil]
  omega

theorem leads_yieldStatement (hserves : setup.Serves)
    (hsim : Simulates setup cells (floor + 1) n call) {slot : UInt32} {params : List Expression}
    (hm : Stands setup cells a p w t m) (hsite : site.Renders setup k t p floor)
    (hshape : k.yield slot params code) (hcode : t.HasCode a code) :
    Leads setup .free floor (n + 1) m (Walk.yield (setup.scene cells) site call slot params w)
      fun _ w' m' => Stands setup cells (a + 4 * code.length) p w' t m' := by
  obtain ⟨given, hgiven, rfl⟩ := hshape
  simp only [List.append_assoc, List.cons_append] at hcode
  obtain ⟨hcode₁, hcode₂⟩ := hcode.append
  unfold Walk.yield
  refine (leads_args hserves hm hsite.toReads hgiven hcode₁).bind fun args w m _ hm => ?_
  refine (leads_yield hserves hsim hm hsite.within hsite.sees hsite.current hcode₂ hsite.floor).mono
    fun _ w' m' hm => hm.at ?_
  simp only [List.length_append, List.length_cons, List.length_nil]
  omega

/-! ### Statements -/

mutual

theorem leads_statement {a : Nat} {p : Pose} {w : World} {t : Store} {m : Machine}
    {code : List Instruction} (hserves : setup.Serves)
    (hsim : Simulates setup cells (floor + 1) n call) (mode : AttrMode) (s : Statement)
    (hm : Stands setup cells a p w t m) (hsite : site.Renders setup k t p floor)
    (hshape : k.statement mode s code) (hcode : t.HasCode a code) :
    Leads setup .free floor (n + 1) m (Walk.statement (setup.scene cells) site call mode s w)
      fun _ w' m' => Stands setup cells (a + 4 * code.length) p w' t m' := by
  have hk := hsite.within.linkage
  cases s with
  | text s => exact leads_text hm hk hshape hcode
  | comment s => exact leads_comment hm hk hshape hcode
  | append value trusted => exact leads_append hserves hsim hm hsite hshape hcode
  | openElement tag => exact leads_openElement hm hk hshape hcode
  | flushElement =>
    obtain rfl : code = [⟨.flushElement, 0, 0, 0⟩] := hshape
    exact leads_flushElement hm hcode
  | closeElement =>
    obtain rfl : code = [⟨.closeElement, 0, 0, 0⟩] := hshape
    exact leads_closeElement hm hcode
  | staticAttr name value space => exact leads_staticAttribute hm hk hshape hcode
  | dynamicAttr name value space trusting =>
    exact leads_dynamicAttribute hserves hm hsite.toReads hshape hcode
  | modifier name params hash =>
    obtain ⟨handle, given, called, hhandle, hgiven, hcalled, rfl⟩ := hshape
    rw [hsite.lookup cells, hsite.referer] at hhandle
    obtain ⟨hcode₁, hcode₂⟩ := hcode.append
    unfold Walk.statement
    rw [hhandle, Walk.orUndefined_some]
    refine (leads_args hserves hm hsite.toReads hgiven hcode₁).bind fun args w m _ hm => ?_
    refine (leads_modifier hm hk hcalled hcode₂ (hserves.modifier _ _ _ hhandle)).mono
      fun _ w' m' hm => hm.at ?_
    rw [List.length_append]
    omega
  | block name params hash template inverse =>
    obtain ⟨main, other, hmain, hother, hcall⟩ := hshape
    rw [hsite.layout] at hmain hother
    unfold Walk.statement
    rw [hmain, hother, Walk.orUndefined_some, Walk.orUndefined_some]
    exact leads_blockCall (b := { name, params, hash, template := main, inverse := other }) hserves
      hsim hm hsite hcall hcode
  | component tag attrs hash body =>
    obtain ⟨block, hblock, hform⟩ := hshape
    rw [hsite.layout] at hblock hform
    rw [hsite.lookup cells, hsite.referer] at hform
    generalize hwalk :
      Walk.statement (setup.scene cells) site call mode (.component tag attrs hash body) = x
    unfold Walk.statement at hwalk
    rw [hblock, Walk.orUndefined_some] at hwalk
    cases hcomponent : (setup.scene cells).lookup.component? tag site.referer with
    | some handle =>
      rw [hcomponent] at hform hwalk
      obtain ⟨passed, hpassed, hinvoke⟩ := hform
      let i : Invocation := { attrs := some passed, hash, block }
      have hbodies : ⟨some (.ofAttrs .entry site.layout attrs), [], hash, false,
          block.map Fragment.body, none⟩ = i.bodies := by
        simp [i, Invocation.bodies, hpassed]
      simp only [hbodies] at hwalk
      subst hwalk
      exact leads_component hserves hsim hm hsite hinvoke hcode
    | none =>
      rw [hcomponent] at hform hwalk
      obtain ⟨opening, inner, content, hopening, hinner, hcontent, rfl⟩ := hform
      simp only [List.append_assoc, List.cons_append] at hcode
      obtain ⟨hcode₁, hcode⟩ := hcode.append
      obtain ⟨hcode₂, hcode⟩ := hcode.append
      obtain ⟨hcode₃, hcode₄⟩ := hcode.tail.append
      subst hwalk
      refine (leads_openElement hm hk hopening hcode₁).bind fun _ w m _ hm => ?_
      refine (leads_statements hserves hsim .element attrs hm hsite hinner hcode₂).bind
        fun _ w m _ hm => ?_
      refine (leads_flushElement hm hcode).bind fun _ w m _ hm => ?_
      have hclose {m : Machine} {w : World}
          (hm : Stands setup cells (a + 4 * opening.length + 4 * inner.length + 4 +
            4 * content.length)
            p w t m) :
          Leads setup .free floor (n + 1) m (Walk.onElement Sink.closeElement w) fun _ w' m' =>
            Stands setup cells (a + 4 * (opening ++ inner ++ ⟨.flushElement, 0, 0, 0⟩ :: content ++
              [(⟨.closeElement, 0, 0, 0⟩ : Instruction)]).length) p w' t m' := by
        refine (leads_closeElement hm hcode₄).mono fun _ w' m' hm => hm.at ?_
        simp only [List.length_append, List.length_cons, List.length_nil]
        omega
      cases block with
      | none =>
        obtain rfl : content = [] := hcontent
        exact hclose hm
      | some f =>
        exact (leads_plainBlock hserves hsim hm hsite.within hcontent hcode₃
          hsite.sees hsite.current hsite.floor).bind fun _ w m _ hm => hclose hm
  | yield slot params => exact leads_yieldStatement hserves hsim hm hsite hshape hcode
  | attrSplat slot =>
    obtain ⟨called, hcalled, rfl⟩ := hshape
    obtain ⟨hcode₁, hcode₂⟩ := hcode.append
    unfold Walk.statement
    refine (leads_yieldStatement hserves hsim hm hsite hcalled hcode₁).bind fun _ w m _ hm => ?_
    refine (leads_didCreateElement hm hsite.current hcode₂).mono fun _ w' m' hm => hm.at ?_
    simp only [List.length_append, List.length_cons, List.length_nil]
    omega
termination_by structural s

theorem leads_statements {a : Nat} {p : Pose} {w : World} {t : Store} {m : Machine}
    {code : List Instruction} (hserves : setup.Serves)
    (hsim : Simulates setup cells (floor + 1) n call) (mode : AttrMode) (ss : List Statement)
    (hm : Stands setup cells a p w t m) (hsite : site.Renders setup k t p floor)
    (hshape : k.statements mode ss code) (hcode : t.HasCode a code) :
    Leads setup .free floor (n + 1) m (Walk.statements (setup.scene cells) site call mode ss w)
      fun _ w' m' => Stands setup cells (a + 4 * code.length) p w' t m' := by
  cases ss with
  | nil =>
    obtain rfl : code = [] := hshape
    exact Leads.done hm
  | cons s rest =>
    obtain ⟨first, more, hfirst, hmore, rfl⟩ := hshape
    obtain ⟨hcode₁, hcode₂⟩ := hcode.append
    refine (leads_statement hserves hsim mode s hm hsite hfirst hcode₁).bind fun _ w m _ hm => ?_
    refine (leads_statements hserves hsim mode rest hm hsite hmore hcode₂).mono
      fun _ w' m' hm => hm.at ?_
    rw [List.length_append]
    omega
termination_by structural ss

end

/-! ### Fragments -/

/-- The code of a fragment does what rendering its body does, however deeply fragments nest in it.
Where they nest deeper than the walk follows, so does the machine, which for each of them puts
something on the stack. -/
theorem simulates_call (hserves : setup.Serves) (cells : Cells) (depth : Nat)
    {height : Nat} {n : ENat} (hdeep : n ≤ depth ∨ setup.maxStack < height + depth) :
    Simulates setup cells height n (Walk.call (setup.scene cells) depth) := by
  induction depth generalizing height n with
  | zero =>
    refine ⟨fun hheight _ _ _ _ => ?_, fun _ _ _ _ _ => .inr ⟨?_, rfl⟩, Walk.balanced_call _ 0⟩
    · rcases hdeep with hzero | hhigh
      · exact Leads.exhausted.le (by simpa using hzero)
      · obtain ⟨_, _, _, _, rfl⟩ := ‹Stands setup cells _ _ _ _ _›
        exact Leads.of_bounded fun _ hstack =>
          absurd (Nat.le_trans hheight hstack) (Nat.not_le_of_lt hhigh)
    · exact hdeep.imp_left fun hzero => by simpa using hzero
  | succ depth ih =>
    refine ⟨?_, fun body slots current w hnot => .inl ?_, Walk.balanced_call _ _⟩
    · rintro t f address slots current p w m hheight
        ⟨hwell, code, l, hcode, hl, hf⟩ hsees hcurrent hm
      have hcompilable : f.body.isCompilable (setup.scene cells).lookup = true := hf.compilable
      unfold Walk.call
      rw [if_pos hcompilable]
      have hsite : Site.Renders ⟨f.body.layout, slots, current⟩ setup
          ⟨setup.options.lookup, setup.options.strategy, l, f.layout⟩ t p p.stack.size :=
        ⟨⟨⟨rfl, rfl, hl, hwell⟩, rfl, hsees⟩, hcurrent, Nat.le_refl _⟩
      obtain ⟨n', hn', hdeep'⟩ : ∃ n', n ≤ n' + 1 ∧
          (n' ≤ depth ∨ setup.maxStack < p.stack.size + 1 + depth) := by
        rcases hdeep with hsteps | hhigh
        · exact ⟨depth, by simpa using hsteps, .inl le_rfl⟩
        · exact ⟨n, le_self_add, .inr (by omega)⟩
      exact ((leads_statements hserves (ih hdeep') f.attrMode f.statements hm hsite hf
        hcode.append.1).le hn').mono fun _ w' m' hm => ⟨_, _, [], rfl, hcode.append.2, hm⟩
    · unfold Walk.call
      rw [if_neg (by simp [Setup.scene, hnot])]
      rfl

end

/-! ### Whole renders -/

/-! ### Runs -/

section

variable {setup : Setup} {m m' m'' : Machine} {k fuel : Nat}

/-- The machine goes on only within its stack. -/
theorem Exec.stack_of_step (h : Exec.step setup m = .ok true m') :
    m'.stack.size ≤ setup.maxStack := by
  have hcheck (m₁ : Machine)
      (h : (do Exec.checkStack; return true : Exec Bool) setup m₁ = .ok true m') :
      m'.stack.size ≤ setup.maxStack := by
    simp only [Exec.checkStack, Exec.bind_apply, Exec.get_apply, Exec.read_apply] at h
    by_cases hstack : setup.maxStack < m₁.stack.size
    · rw [if_pos hstack] at h
      cases h
    · rw [if_neg hstack] at h
      cases h
      exact Nat.le_of_not_lt hstack
  simp only [Exec.step, Exec.bind_apply, Exec.get_apply, Exec.modify_apply] at h
  split at h
  · rename_i i m₁ _
    split at h
    · rename_i m₂ _
      by_cases hhalt : i.op = .ret ∧ m₂.pc = haltAddress
      · simp only [if_pos hhalt] at h
        cases h
      · simp only [if_neg hhalt] at h
        exact hcheck m₂ h
    · cases h
  · cases h

/-- Whatever is reached by a step is within the stack. -/
theorem Reaches.stack (h : Reaches setup k m m') :
    m' = m ∨ m'.stack.size ≤ setup.maxStack := by
  induction h with
  | refl m => exact .inl rfl
  | step hs _ ih =>
    rcases ih with rfl | hsize
    · exact .inr (Exec.stack_of_step hs)
    · exact .inr hsize

theorem Reaches.bounded
    (hsmall : ∀ k m', Reaches setup k m m' → m'.program.Fits ∧ m'.program.constants.Closed)
    (hstack : m.stack.size ≤ setup.maxStack) : Bounded setup m := by
  intro k m' h
  refine ⟨(hsmall k m' h).1, (hsmall k m' h).2, ?_⟩
  rcases h.stack with rfl | hsize
  · exact hstack
  · exact hsize

/-- A run that is cut off. -/
theorem Reaches.run_outOfFuel (h : Reaches setup k m m') (hk : fuel ≤ k) :
    ∃ m'', Reaches setup fuel m m'' ∧ Exec.run fuel setup m = .error .outOfFuel m'' := by
  induction fuel generalizing k m with
  | zero => exact ⟨m, .refl m, rfl⟩
  | succ fuel ih =>
    cases h with
    | refl => omega
    | @step k _ m₁ _ hs h =>
      obtain ⟨m'', hreaches, hrun⟩ := ih h (by omega)
      refine ⟨m'', .step hs hreaches, ?_⟩
      rw [Exec.run]
      simp only [Exec.bind_apply, hs, if_true, hrun]

/-- A run that comes to its end. -/
theorem Reaches.run_halts (h : Reaches setup k m m') (hs : Exec.step setup m' = .ok false m'')
    (hk : k < fuel) : Exec.run fuel setup m = .ok () m'' := by
  obtain ⟨j, rfl⟩ := Nat.exists_eq_add_of_lt hk
  rw [show k + j + 1 = j + 1 + k by omega, h.run_eq, Exec.run]
  simp only [Exec.bind_apply, hs]
  rfl

theorem Reaches.run_breaks {e : Stop RuntimeError} (h : Reaches setup k m m')
    (hs : Exec.step setup m' = .error e m'') (hk : k < fuel) :
    Exec.run fuel setup m = .error e m'' := by
  obtain ⟨j, rfl⟩ := Nat.exists_eq_add_of_lt hk
  rw [show k + j + 1 = j + 1 + k by omega, h.run_eq, Exec.run]
  simp only [Exec.bind_apply, hs]

end

/-! ### The beginning -/

/-- The data of a render. -/
def Cells.single (self : Json) : Cells := ⟨#[{ json := self }]⟩

/-- The pose in which a render begins and ends. -/
def Pose.start : Pose where
  stack := #[]
  ra := haltAddress
  fp := 0
  registers := {}
  scopeStack := [0]
  dynamicScopes := [{}]
  blockDepth := 0
  listMarks := []

/-- The scope of the template that is rendered. -/
def Store.start (l : Linkage) (symbols : Nat) : Store where
  linkage := l
  scopes := ⟨#[(Scope.root (symbols + 1) none).bind 0 (.value (.root 0))]⟩
  components := #[]
  iterators := #[]

/-- Only `self` has a value. -/
def Slots.start : Slots := Slots.empty.bind 0 (.value (.root 0))

/-- Renders a whole template. -/
def Walk.render (s : Scene) (depth : Nat) (entry : Fragment) : Walk Unit :=
  Walk.call s depth entry.body Slots.start none

section

variable {setup : Setup} {entry : Fragment} {handle : UInt32} {block : Block} {l : Linkage}

/-- The machine that renders a compiled template is led to the outcome of the walk.  If that is
deeper than the stack is high, the run does not go on for ever. -/
theorem leads_start (hserves : setup.Serves)
    (hadmits : setup.Admits l)
    (hcompiled : l.Compiled setup.options.lookup setup.options.strategy entry handle)
    (hblock : l.program.heap.block? handle = some block) (self : Json) {depth : Nat} {n : ENat}
    (hdeep : n ≤ depth ∨ setup.maxStack < depth) :
    Leads setup .free 0 n
      (.start l.program block.offset.toNat block.scopeSize.toNat self)
      (Walk.render (setup.scene (.single self)) depth entry {}) fun _ w m =>
        Ends setup (.single self) .start w (.start l block.scopeSize.toNat) m := by
  let t := Store.start l block.scopeSize.toNat
  have hstart : Machine.start l.program block.offset.toNat block.scopeSize.toNat self =
      .of (.single self) block.offset.toNat .start {} t (0, .ret) := rfl
  obtain ⟨htemplate, block', code, l', hblock', hholds, hl, hcode⟩ := hcompiled
  obtain rfl := Option.some.inj (hblock.symm.trans hblock')
  have hsees : t.Sees setup.options.strategy .start .start :=
    ⟨0, [], _, rfl, rfl, (Store.holds_root _ _).bindValue 0 _⟩
  have hcurrent : t.IsCurrent Pose.start.registers.s0 none := rfl
  rw [hstart]
  have hsim : Simulates setup (.single self) 0 n (Walk.call (setup.scene (.single self)) depth) :=
    simulates_call hserves (.single self) depth (by rwa [Nat.zero_add])
  exact hsim.compiled (t := t) (Nat.zero_le _) ⟨hadmits.wellFormed _ htemplate, code, l',
    hholds, hl, hcode⟩ hsees hcurrent ⟨t, _, t.le_refl, hadmits, rfl⟩

/-- The machine halts at the end of the template. -/
theorem Ends.halts {cells : Cells} {w : World} {t : Store} {m : Machine}
    (h : Ends setup cells .start w t m) :
    ∃ i u current, m.next? = some i ∧ i.op = .ret ∧
      Exec.step setup m = .ok false (.of cells haltAddress .start w u current) := by
  obtain ⟨a, ⟨op, b, c, d⟩, rest, hop, hcode, u, current, hu, -, rfl⟩ := h
  cases hop
  have hholds : (Machine.of cells a .start w u current).program.heap.Holds a
      (⟨.ret, b, c, d⟩ :: rest) := hcode.mono hu
  refine ⟨_, u, (a, .ret), hholds.next?, rfl, ?_⟩
  rw [Exec.step_apply setup hholds]
  rfl

/-- A run of the machine for the outcome of a walk: either the end of the stack or an unlinkable
layout is met on the way, or the run takes long, or it stops as the walk does. -/
inductive Setup.Renders (setup : Setup) (fuel : Nat) (m : Machine)
    (out : EStateM.Result (Stop Fault) World Unit) : Prop
  | exhausted {k : Nat} {m' : Machine} : Path setup false .free 0 k m m' → fuel ≤ k →
    Renders setup fuel m out
  | escaped {k : Nat} {m' m'' : Machine} {e : Stop RuntimeError} : Path setup false .free 0 k m m' →
    Breaks setup m' e m'' → setup.Allows e → Exec.run fuel setup m = .error e m'' →
    Renders setup fuel m out
  | failed {k : Nat} {m' m'' : Machine} {e : Stop RuntimeError} {fault : Fault} {w : World} :
    Path setup false .free 0 k m m' → Breaks setup m' e m'' → e.fault? = some fault →
    m''.Unwinds w → Exec.run fuel setup m = .error e m'' → out = .error (.fault fault) w →
    Renders setup fuel m out
  | finished {k : Nat} {m' : Machine} {i : Instruction} {w : World} {t : Store}
    {current : Nat × Opcode} :
    Path setup true .free 0 k m m' → m'.next? = some i → i.op = .ret →
    Exec.step setup m' = .ok false (.of m.cells haltAddress .start w t current) →
    Exec.run fuel setup m = .ok () (.of m.cells haltAddress .start w t current) → out = .ok () w →
    Renders setup fuel m out

/-- The run of a render, or at least as much of it as the fuel allows. -/
theorem Setup.Renders.path {m : Machine} {fuel : Nat} {out : EStateM.Result (Stop Fault) World Unit}
    (h : setup.Renders fuel m out) :
    ∃ k m', Path setup false .free 0 k m m' ∧
      (fuel ≤ k ∨ ∀ m'', Exec.step setup m' ≠ .ok true m'') := by
  cases h with
  | @exhausted k m' hpath hk => exact ⟨k, m', hpath, .inl hk⟩
  | @escaped k m' m'' e hpath hb =>
    exact ⟨k, m', hpath, .inr fun _ h => nomatch hb.step.symm.trans h⟩
  | @failed k m' m'' e fault w hpath hb =>
    exact ⟨k, m', hpath, .inr fun _ h => nomatch hb.step.symm.trans h⟩
  | @finished k m' i w t current hpath _ _ hs =>
    exact ⟨k, m', hpath.weaken, .inr fun _ h => nomatch hs.symm.trans h⟩

theorem renders_of_leads {m : Machine} {t : Store} {fuel : Nat} {n : ENat}
    {out : EStateM.Result (Stop Fault) World Unit} (hdepth : fuel ≤ n) (hbounded : Bounded setup m)
    (h : Leads setup .free 0 n m out fun _ w m' => Ends setup m.cells .start w t m') :
    setup.Renders fuel m out := by
  have hbreaks {k : Nat} {m' m'' : Machine} {e : Stop RuntimeError}
      (hpath : Path setup false .free 0 k m m') (hb : Breaks setup m' e m'')
      (h : Exec.run fuel setup m = .error e m'' → setup.Renders fuel m out) :
      setup.Renders fuel m out := by
    by_cases hk : k < fuel
    · exact h (hpath.reaches.run_breaks hb.step hk)
    · exact .exhausted hpath (Nat.le_of_not_lt hk)
  rcases h hbounded with ⟨k, m', e, m'', hpath, hb, hallows⟩ | hmeets
  · exact hbreaks hpath hb fun hrun => .escaped hpath hb hallows hrun
  · cases out with
    | ok u w =>
      obtain ⟨k, m', hpath, hends⟩ := hmeets
      by_cases hk : k < fuel
      · obtain ⟨i, u, current, hi, hop, hstep⟩ := hends.halts
        exact .finished hpath hi hop hstep (hpath.reaches.run_halts hstep hk) rfl
      · exact .exhausted hpath.weaken (Nat.le_of_not_lt hk)
    | error e w =>
      cases e with
      | fault fault =>
        obtain ⟨k, m', e, m'', hpath, hb, hfault, hunwinds⟩ := hmeets
        exact hbreaks hpath hb fun hrun => .failed hpath hb hfault hunwinds hrun rfl
      | outOfFuel =>
        obtain ⟨k, m', hn, hpath⟩ := hmeets
        exact .exhausted hpath (Nat.cast_le.mp (hdepth.trans hn))

end

end TemplateMachine
