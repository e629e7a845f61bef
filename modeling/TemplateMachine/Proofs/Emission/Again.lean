import TemplateMachine.Proofs.Emission.Depth
import TemplateMachine.Proofs.Emission.Lazy
import TemplateMachine.Proofs.Program.Sound

/-! Eager compilation once more.  A fragment that is compiled in a sound program has code, and so
has everything that its code calls or passes.  Whatever another program has compiled so far, the
fragment can be compiled into that as well. -/

namespace TemplateMachine

/-! ### Invocations with the same code -/

/-- Invocations with the same arguments, and with the same blocks up to their identities. -/
structure Invocation.Same (i j : Invocation) : Prop where
  params : i.params = j.params
  hash : i.hash = j.hash
  synthetic : i.synthetic = j.synthetic
  attrs : i.attrs.map Fragment.body = j.attrs.map Fragment.body
  block : i.block.map Fragment.body = j.block.map Fragment.body
  inverse : i.inverse.map Fragment.body = j.inverse.map Fragment.body

/-- Block statements with the same arguments, and with the same blocks up to their identities. -/
structure BlockCall.Same (a b : BlockCall) : Prop where
  name : a.name = b.name
  params : a.params = b.params
  hash : a.hash = b.hash
  template : a.template.map Fragment.body = b.template.map Fragment.body
  inverse : a.inverse.map Fragment.body = b.inverse.map Fragment.body

theorem BlockCall.Same.invocation {a b : BlockCall} (h : a.Same b) (es : List Expression) :
    (a.invocation es).Same (b.invocation es) := ⟨rfl, h.hash, rfl, rfl, h.template, h.inverse⟩

theorem SymbolRole.eq_of_block {symbol block : String}
    (h : SymbolRole.ofSymbol symbol = .block block) : block = symbol := by
  unfold SymbolRole.ofSymbol at h
  split at h <;> cases h
  rfl

/-- What a symbol stands for is the same block, if it is one. -/
theorem Invocation.Same.blockOf? {i j : Invocation} (h : i.Same j) (symbol : String) :
    (i.blockOf? symbol).map (Option.map Fragment.body) = (j.blockOf? symbol).map
      (Option.map Fragment.body) := by
  unfold Invocation.blockOf?
  split
  · exact congrArg some h.block
  split
  · exact congrArg some h.inverse
  split
  · exact congrArg some h.attrs
  · rfl

namespace Coding

/-- The context of the code of the same template, with another way to link. -/
def context (k : Coding) (link : Fragment → Link UInt32) : BuildContext :=
  ⟨k.lookup, k.strategy, k.layout, link⟩

@[simp] theorem context_lookup (k : Coding) (link : Fragment → Link UInt32) :
    (k.context link).lookup = k.lookup := rfl

@[simp] theorem context_strategy (k : Coding) (link : Fragment → Link UInt32) :
    (k.context link).strategy = k.strategy := rfl

@[simp] theorem context_referer (k : Coding) (link : Fragment → Link UInt32) :
    (k.context link).layout.referer = k.referer := rfl

/-- A fragment that has a handle in the coding can be linked, under the identity of another one. -/
def Attains (k : Coding) (held : FragmentId → Prop) (link : Fragment → Link UInt32)
    (f g : Fragment) : Prop :=
  k.linkage.known f.id = some f → (k.linkage.program.linked? f.id).isSome →
    ∀ p : Program, p.Has held → ∃ handle q, link g p = .ok handle q ∧ q.Has held

/-- What has a handle in the coding can be linked: layouts and partials, and blocks if they are
admitted, with whatever identity. -/
structure Guides (k : Coding) (held : FragmentId → Prop) (admits : Fragment → Prop)
    (link : Fragment → Link UInt32) : Prop where
  eager : k.strategy = .eager
  whole : ∀ f, k.lookup.Whole f → k.Attains held link f f
  block : ∀ f g : Fragment, f.body = g.body → admits g → k.Attains held link f g

section

variable {k : Coding} {held : FragmentId → Prop} {admits : Fragment → Prop}
variable {link : Fragment → Link UInt32}
variable {code : List Instruction} {f g : Fragment} {i j : Invocation} {layout : Option Fragment}

theorem attains_linked
    (h : ∀ p : Program, p.Has held → ∃ handle q, link g p = .ok handle q ∧ q.Has held) :
    Works (k.context link) held (Emit.linked g) anything := by
  rintro ⟨program, code, scopes⟩ hprogram
  obtain ⟨handle, q, hlink, hq⟩ := h program hprogram
  have happly : Emit.linked g (k.context link) ⟨program, code, scopes⟩ =
      Emit.onProgram (link g) (k.context link) ⟨program, code, scopes⟩ := rfl
  exact ⟨handle, ⟨q, code, scopes⟩, by simp only [happly, Emit.onProgram, hlink], rfl, hq, trivial⟩

theorem Guides.attains_push (hk : k.Guides held admits link) (h : k.block (some f) code)
    (hlink : k.Attains held link f g) :
    Works (k.context link) held (Emit.pushBlock (some g)) anything := by
  unfold Coding.block at h
  rw [hk.eager] at h
  obtain ⟨handle, hknown, hlinked, -⟩ := h
  refine .reads ?_
  rw [context_strategy, hk.eager]
  exact (attains_linked (hlink hknown (Option.isSome_iff_exists.mpr ⟨_, hlinked⟩))).seq fun _ =>
    works_primitive _

theorem Guides.attains_pushBlock (hk : k.Guides held admits link) {f g : Option Fragment}
    (h : k.block f code) (hfg : f.map Fragment.body = g.map Fragment.body)
    (hg : ∀ b ∈ g, admits b) :
    Works (k.context link) held (Emit.pushBlock g) anything := by
  cases f with
  | none =>
    obtain rfl : g = none := Option.map_eq_none_iff.mp hfg.symm
    exact works_primitive .null
  | some f =>
    obtain ⟨g, rfl, hbody⟩ := Option.map_eq_some_iff.mp hfg.symm
    exact hk.attains_push h (hk.block f g hbody.symm (hg g rfl))

theorem Guides.attains_pushYieldable (hk : k.Guides held admits link) {f g : Option Fragment}
    (h : k.yieldable f code) (hfg : f.map Fragment.body = g.map Fragment.body)
    (hg : ∀ b ∈ g, admits b) :
    Works (k.context link) held (Emit.pushYieldable g) anything := by
  obtain ⟨table, push, -, hpush, -⟩ := h
  exact (works_symbolTable _).seq fun _ => hk.attains_pushBlock hpush hfg hg

theorem Guides.attains_invokeStatic (hk : k.Guides held admits link) (h : k.staticCall f code)
    (hf : k.lookup.Whole f) : Works (k.context link) held (Emit.invokeStatic f) anything := by
  unfold Coding.staticCall at h
  rw [hk.eager] at h
  obtain ⟨handle, hknown, hlinked, -⟩ := h
  refine .reads ?_
  rw [context_strategy, hk.eager]
  exact (attains_linked (hk.whole f hf hknown
    (Option.isSome_iff_exists.mpr ⟨_, hlinked⟩))).seq fun _ => .op

theorem Guides.attains_invokeStaticBlock (hk : k.Guides held admits link) {supplied : UInt32}
    (h : k.staticBlock f supplied code) (hfg : f.body = g.body) (hg : admits g) :
    Works (k.context link) held (Emit.invokeStaticBlock g supplied) anything := by
  obtain ⟨push, hpush, -⟩ := h
  unfold Emit.invokeStaticBlock
  refine Works.op.seq fun _ => ?_
  have hcall (y : Emit Unit) (hy : Works (k.context link) held y anything) :
    Works (k.context link) held (do
      Emit.pushBlock (some g)
      Emit.resolveBlock
      Emit.op .invokeVirtual
      y) anything :=
    (hk.attains_push hpush (hk.block f g hfg hg)).seq fun _ => works_resolveBlock.seq fun _ =>
      Works.op.seq fun _ => hy
  cases (g.table.parameters.take supplied.toNat).isEmpty
  · exact Works.op.seq fun _ => (works_bindParameters _ _).seq fun _ =>
      hcall _ (Works.op.seq fun _ => .op)
  · exact hcall _ .op

/-! ### Expressions -/

theorem attains_expression {e : Expression} (h : k.expression e code) :
    Works (k.context link) held (Emit.expression e) anything :=
  works_expression e (expression_compilable e h)

theorem attains_args {params : List Expression} {hash : Option Hash} (synthetic : Bool)
    (h : k.args params hash code) :
    Works (k.context link) held (Emit.args params hash synthetic) anything :=
  works_args synthetic (args_compilable h)

theorem attains_yield {slot : UInt32} {params : List Expression} (h : k.yield slot params code) :
    Works (k.context link) held (Emit.yield slot params) anything := by
  obtain ⟨given, ⟨positional, named, gathered, hpositional, -⟩, -⟩ := h
  exact works_yield slot params (expressions_compilable params hpositional)

/-! ### Invocations -/

/-- What is passed for its symbols is all that is passed. -/
theorem admits_passed (hj : ∀ symbol g, j.blockOf? symbol = some (some g) → admits g) :
    ∀ g ∈ j.passed, admits g := by
  intro g hg
  simp only [Invocation.passed, List.mem_append, Option.mem_toList] at hg
  rcases hg with (hg | hg) | hg
  · exact hj "&default" g (congrArg some hg)
  · exact hj "&inverse" g (congrArg some hg)
  · exact hj "&attrs" g (congrArg some hg)

theorem Guides.attains_invokeComponent (hk : k.Guides held admits link)
    (h : k.genericComponent i layout code) (hij : i.Same j) (hj : ∀ g ∈ j.passed, admits g)
    (hlayout : ∀ f ∈ layout, k.lookup.Whole f) :
    Works (k.context link) held (Emit.invokeComponent j layout) anything := by
  obtain ⟨passed, found, ⟨main, inverse, attrs, given, hmain, hinverse, hattrs, hgiven, -⟩,
      hfound, -⟩ := h
  rw [hij.params, hij.hash] at hgiven
  simp only [Invocation.passed, List.mem_append, Option.mem_toList] at hj
  refine works_enterComponent.seq fun _ =>
    (hk.attains_pushYieldable hmain hij.block fun g hg => hj g (.inl (.inl hg))).seq fun _ =>
    (hk.attains_pushYieldable hinverse hij.inverse fun g hg => hj g (.inl (.inr hg))).seq fun _ =>
    (hk.attains_pushYieldable hattrs hij.attrs fun g hg => hj g (.inr hg)).seq fun _ =>
    (attains_args _ hgiven).seq fun _ => Works.op.seq fun _ =>
      (works_createComponent j).seq fun _ =>
    Works.op.seq fun _ => Works.op.seq fun _ => ?_
  cases layout with
  | none => exact Works.op.seq fun _ => Works.op.seq fun _ => works_leaveComponent
  | some f =>
    obtain ⟨table, push, -, hpush, -⟩ := hfound
    exact (works_symbolTable _).seq fun _ =>
      (hk.attains_push hpush (hk.whole f (hlayout f rfl))).seq fun _ =>
      works_resolveBlock.seq fun _ => Works.op.seq fun _ => works_leaveComponent

theorem Guides.attains_pushSymbol (hk : k.Guides held admits link) {symbol : String}
    {binder : Option Opcode} (h : k.symbolCode i symbol code binder) (hij : i.Same j)
    (hj : ∀ g, j.blockOf? symbol = some (some g) → admits g) :
    Works (k.context link) held (Emit.pushSymbol j symbol) (· = binder) := by
  cases hrole : SymbolRole.ofSymbol symbol with
  | block block =>
    obtain rfl := SymbolRole.eq_of_block hrole
    simp only [Coding.symbolCode, Emit.pushSymbol, hrole] at h ⊢
    obtain ⟨f, hf, hcode, rfl⟩ := h
    have hsame := hij.blockOf? block
    rw [hf] at hsame
    obtain ⟨g, hg, hfg⟩ := Option.map_eq_some_iff.mp hsame.symm
    refine .orFail hg ((hk.attains_pushYieldable hcode hfg.symm
      fun b hb => ?_).seq fun _ => .pure rfl)
    exact hj b (hg.trans (congrArg some hb))
  | argument argument bare =>
    simp only [Coding.symbolCode, Emit.pushSymbol, hrole] at h ⊢
    rw [hij.hash, hij.synthetic] at h
    generalize (j.hash.bind fun hash => hash.get?
      (if j.synthetic then bare else argument)) = value at h ⊢
    cases value with
    | none =>
      obtain ⟨-, rfl⟩ := h
      exact .pure rfl
    | some value =>
      obtain ⟨hcode, rfl⟩ := h
      exact (attains_expression hcode).seq fun _ => .pure rfl
  | inner =>
    simp only [Coding.symbolCode, Emit.pushSymbol, hrole] at h ⊢
    obtain ⟨-, rfl⟩ := h
    exact .pure rfl

theorem Guides.attains_pushSymbols (hk : k.Guides held admits link) (symbols : List String)
    {bound binders : List (UInt32 × Opcode)} {slot : UInt32}
    (h : k.symbolsCode i bound slot symbols code binders) (hij : i.Same j)
    (hj : ∀ symbol ∈ symbols, ∀ g, j.blockOf? symbol = some (some g) → admits g) :
    Works (k.context link) held (Emit.pushSymbols j bound slot symbols) anything := by
  induction symbols generalizing bound slot code with
  | nil => exact .pure trivial
  | cons symbol rest ih =>
    obtain ⟨first, more, binder, hfirst, -, hmore⟩ := h
    have hrest := List.forall_mem_cons.mp hj
    refine (hk.attains_pushSymbol hfirst hij hrest.1).bind ?_
    rintro _ rfl
    cases ‹Option Opcode› with
    | none => exact ih hmore hrest.2
    | some op => exact ih hmore hrest.2

theorem Guides.attains_invokeStaticComponent (hk : k.Guides held admits link)
    {capabilities : Capabilities} {layout : Fragment}
    (h : k.staticComponent capabilities layout i code) (hlayout : k.lookup.Whole layout)
    (hij : i.Same j) (hj : ∀ table symbol g, layout.table.asProgram? = some table →
      (table.hasEval || capabilities.prepareArgs || table.symbols.contains symbol) = true →
      j.blockOf? symbol = some (some g) → admits g) :
    Works (k.context link) held (Emit.invokeStaticComponent capabilities layout j) anything := by
  obtain ⟨table, htable, hcode⟩ := h
  refine .orFail htable ?_
  split at hcode
  · rename_i hgeneric
    rw [if_pos hgeneric]
    refine hk.attains_invokeComponent hcode hij (admits_passed fun symbol g hg => ?_)
      fun f hf => Option.some.inj hf ▸ hlayout
    exact hj table symbol g htable (by rw [hgeneric, Bool.true_or]) hg
  · rw [if_neg ‹_›]
    have hsymbols : ∀ symbol ∈ table.symbols, ∀ g, j.blockOf? symbol = some (some g) → admits g :=
      fun symbol hsymbol g hg => hj table symbol g htable (by simp [hsymbol]) hg
    obtain ⟨created, pushed, binders, called, hcreated, hpushed, hcalled, -⟩ := hcode
    have hrest : Works (k.context link) held (do
        Emit.op .registerComponentDestructor Emit.current
        Emit.op .getComponentSelf Emit.current
        let bound ← Emit.pushSymbols j [(0, .setVariable)] 1 table.symbols
        Emit.op .rootScope (UInt32.ofNat table.symbols.length + 1) j.hasBlocks.toUInt32
        Emit.bindSymbols bound
        Emit.op .pushFrame
        Emit.invokeStatic layout
        Emit.leaveComponent) anything :=
      Works.op.seq fun _ => Works.op.seq fun _ =>
        (hk.attains_pushSymbols _ hpushed hij hsymbols).seq fun bound =>
        Works.op.seq fun _ => (works_bindSymbols bound).seq fun _ => Works.op.seq fun _ =>
        (hk.attains_invokeStatic hcalled hlayout).seq fun _ => works_leaveComponent
    refine works_enterComponent.seq fun _ => ?_
    unfold Coding.creates at hcreated
    cases hcreate : capabilities.createArgs with
    | false => exact (works_createComponent j).seq fun _ => hrest
    | true =>
      rw [if_pos hcreate] at hcreated
      obtain ⟨given, hgiven, -⟩ := hcreated
      rw [hij.params, hij.hash] at hgiven
      exact Works.op.seq fun _ => (attains_args _ hgiven).seq fun _ =>
        (works_createComponent j).seq fun _ => Works.op.seq fun _ => hrest

theorem Guides.attains_component (hk : k.Guides held admits link) {handle : UInt32}
    (h : k.component handle i code) (hij : i.Same j)
    (hj : ∀ symbol g, k.lookup.passes handle symbol = true →
      j.blockOf? symbol = some (some g) → admits g) :
    Works (k.context link) held (Emit.component handle j) anything := by
  obtain ⟨push, invoke, -, hinvoke, -⟩ := h
  refine .reads ((works_onHandle _ _).seq fun _ => ?_)
  unfold Lookup.passes at hj
  have hwhole (f : Fragment) (hf : (if (k.lookup.capabilities handle).dynamicLayout then none
      else k.lookup.layout? handle) = some f) : k.lookup.Whole f := by
    split at hf
    · cases hf
    · exact .inl ⟨handle, hf⟩
  rw [context_lookup]
  generalize (if (k.lookup.capabilities handle).dynamicLayout then
    none else k.lookup.layout? handle) = layout at hinvoke hj hwhole ⊢
  cases layout with
  | some layout =>
    refine (hk.attains_invokeStaticComponent hinvoke (hwhole layout rfl) hij ?_).seq fun _ => .op
    intro table symbol g htable hpasses
    refine hj symbol g ?_
    dsimp only
    rw [htable]
    exact hpasses
  | none =>
    exact (hk.attains_invokeComponent hinvoke hij (admits_passed fun symbol g => hj symbol g rfl)
      nofun).seq fun _ => .op

/-! ### Forms -/

theorem Guides.attains_guardedAppend (hk : k.Guides held admits link) {value : Expression}
    {trusting : Bool} (h : k.guardedAppend value trusting code) :
    Works (k.context link) held (Emit.guardedAppend value trusting) anything := by
  obtain ⟨push, find, invoke, hpush, -, hinvoke, -⟩ := h
  exact works_frameWithLabels (["ELSE"] ++ ([] ++ [])) ([] ++ (["ELSE"] ++ []))
    (.code_seq (attains_expression hpush) fun _ _ =>
      .code_seq .op fun _ _ => .code_seq .op fun _ _ =>
      .code_seq .op fun _ _ => (Jumps.jump .jumpUnless "ELSE").seq <|
      .code_seq (works_onReferer _) fun _ _ =>
      .code_seq (hk.attains_invokeComponent (j := {}) hinvoke
        ⟨rfl, rfl, rfl, rfl, rfl, rfl⟩ nofun nofun) fun _ _ =>
      .code_seq works_exitFrame fun _ _ => (Jumps.label "ELSE").seq <|
      .code_seq .op fun _ _ => .of_works works_exitFrame) (by simp)

theorem Guides.attains_dynamicComponent (hk : k.Guides held admits link) {definition : Expression}
    (h : k.dynamicComponent definition i code) (hij : i.Same j) (hj : ∀ g ∈ j.passed, admits g) :
    Works (k.context link) held (Emit.dynamicComponent definition j) anything := by
  obtain ⟨push, find, invoke, hpush, -, hinvoke, -⟩ := h
  exact works_frameWithLabels (["ELSE"] ++ ([] ++ [])) ([] ++ (["ELSE"] ++ []))
    (.code_seq (attains_expression hpush) fun _ _ =>
      .code_seq .op fun _ _ => .code_seq .op fun _ _ =>
      (Jumps.jump .jumpUnless "ELSE").seq <| .code_seq (works_onReferer _) fun _ _ =>
      .code_seq (hk.attains_invokeComponent hinvoke hij hj nofun) fun _ _ =>
        (Jumps.label "ELSE").seq <|
      .of_works works_exitFrame) (by simp)

/-- The end of a conditional form places its label, and the one that it uses. -/
theorem Guides.attains_elseBranch (hk : k.Guides held admits link) {op : Opcode}
    {main : List Instruction} {f g : Option Fragment}
    (h : k.otherwise op f main code) (hfg : f.map Fragment.body = g.map Fragment.body)
    (hg : ∀ b ∈ g, admits b) :
    ∃ uses places, Jumps (k.context link) held (Emit.elseBranch g) uses places ∧ "ELSE" ∈ places ∧
      uses ⊆ places := by
  cases f with
  | none =>
    obtain rfl : g = none := Option.map_eq_none_iff.mp hfg.symm
    exact ⟨_, _, (Jumps.label "ELSE").seq (.of_works works_exitFrame), by simp, by simp⟩
  | some f =>
    obtain ⟨g, rfl, hbody⟩ := Option.map_eq_some_iff.mp hfg.symm
    obtain ⟨other, hother, -⟩ := h
    exact ⟨_, _, (Jumps.jump .jump "EXIT").seq <| (Jumps.label "ELSE").seq <|
      .code_seq (hk.attains_invokeStaticBlock hother hbody.symm (hg g rfl)) fun _ _ =>
      (Jumps.label "EXIT").seq <| .of_works works_exitFrame, by simp, by simp⟩

/-- A block form with one parameter and a main block. -/
theorem attains_single {call call' : BlockCall} {form : Expression → Fragment → Prop}
    {x : Expression → Fragment → Emit Unit} (h : single call form) (hcall : call.Same call')
    (hmain : ∀ b ∈ call'.template, admits b)
    (hx : ∀ param main main', form param main → main.body = main'.body → admits main' →
      Works (k.context link) held (x param main') anything) :
    Works (k.context link) held (do
      let param ← Emit.onlyParam call'
      let main ← Emit.mainBlock call'
      x param main) anything := by
  obtain ⟨name, params, hash, template, inverse⟩ := call
  obtain ⟨name', params', hash', template', inverse'⟩ := call'
  obtain ⟨rfl, rfl, rfl, htemplate, -⟩ := hcall
  rcases params with _ | _ | ⟨param, _ | _⟩ <;> rcases template with _ | main <;> try exact h.elim
  obtain ⟨main', hmain', hbody⟩ := Option.map_eq_some_iff.mp htemplate.symm
  obtain rfl : template' = some main' := hmain'
  exact hx param main main' h hbody.symm (hmain main' rfl)

variable {call call' : BlockCall} (hmains : ∀ b ∈ call'.template, admits b)
variable (hothers : ∀ b ∈ call'.inverse, admits b)

include hmains hothers in
theorem Guides.attains_conditional (hk : k.Guides held admits link) (skip : Opcode)
    (h : single call fun e main => k.conditional skip e main call.inverse code)
    (hcall : call.Same call') :
    Works (k.context link) held (Emit.conditional skip call') anything := by
  refine attains_single h hcall hmains fun condition main main' hform hbody hadmits => ?_
  obtain ⟨value, body, hvalue, hmain, branches, hbranches, -⟩ := hform
  obtain ⟨uses, places, helse, hplaced, huses⟩ :=
    hk.attains_elseBranch hbranches hcall.inverse hothers
  exact works_frameWithLabels (["ELSE"] ++ uses) ([] ++ places)
    (.code_seq (attains_expression hvalue) fun _ _ =>
      .code_seq .op fun _ _ => .code_seq .op fun _ _ =>
      (Jumps.jump skip "ELSE").seq <|
      .code_seq (hk.attains_invokeStaticBlock hmain hbody hadmits) fun _ _ => helse)
    (by simpa [hplaced] using List.Subset.trans huses (List.subset_cons_self _ _))

include hmains hothers in
theorem Guides.attains_withBlock (hk : k.Guides held admits link)
    (h : single call fun e main => k.withBlock e main call.inverse code) (hcall : call.Same call') :
    Works (k.context link) held (Emit.withBlock call') anything := by
  refine attains_single h hcall hmains fun value main main' hform hbody hadmits => ?_
  obtain ⟨push, body, hpush, hmain, branches, hbranches, -⟩ := hform
  obtain ⟨uses, places, helse, hplaced, huses⟩ :=
    hk.attains_elseBranch hbranches hcall.inverse hothers
  exact works_frameWithLabels (["ELSE"] ++ uses) ([] ++ places)
    (.code_seq (attains_expression hpush) fun _ _ =>
      .code_seq .op fun _ _ => .code_seq .op fun _ _ =>
      .code_seq .op fun _ _ => (Jumps.jump .jumpUnless "ELSE").seq <|
      .code_seq (hk.attains_invokeStaticBlock hmain hbody hadmits) fun _ _ => helse)
    (by simpa [hplaced] using List.Subset.trans huses (List.subset_cons_self _ _))

include hmains hothers in
theorem Guides.attains_eachBlock (hk : k.Guides held admits link)
    (h : single call fun e main => k.eachBlock (Compilable.key? call) e main call.inverse code)
    (hcall : call.Same call') : Works (k.context link) held (Emit.eachBlock call') anything := by
  rw [Emit.eachBlock_eq]
  refine attains_single h hcall hmains fun list main main' hform hbody hadmits => ?_
  obtain ⟨keys, push, body, hkeys, hpush, hmain, branches, hbranches, -⟩ := hform
  obtain ⟨uses, places, helse, hplaced, huses⟩ :=
    hk.attains_elseBranch hbranches hcall.inverse hothers
  have hiteration : Jumps (k.context link) held (Emit.iteration list main' call'.inverse)
      (["ELSE"] ++ (["ITER"] ++ (["BODY"] ++ ([] ++ (["BREAK"] ++ ([] ++ ([] ++ uses)))))))
      ([] ++ ([] ++ ([] ++ (["ITER"] ++ ([] ++ (["BODY"] ++ (["BREAK"] ++ places))))))) :=
    .code_seq (attains_expression hpush) fun _ _ => .code_seq .op fun _ _ =>
      .code_seq .op fun _ _ =>
      (Jumps.jump .jumpUnless "ELSE").seq <|
      .code_seq .op fun _ _ => (Jumps.jump .returnTo "ITER").seq <|
      .code_seq .op fun _ _ => (Jumps.jump .enterList "BODY").seq <|
      (Jumps.label "ITER").seq <| (Jumps.jump .iterate "BREAK").seq <|
      (Jumps.label "BODY").seq <| .code_seq
        (hk.attains_invokeStaticBlock hmain hbody hadmits) fun _ _ =>
      .code_seq .op fun _ _ => .code_seq works_exitFrame fun _ _ =>
      (Jumps.label "BREAK").seq <| .code_seq .op fun _ _ => .code_seq .op fun _ _ => helse
  have hplaces : (["ELSE"] ++ (["ITER"] ++ (["BODY"] ++ ([] ++ (["BREAK"] ++
      ([] ++ ([] ++ uses))))))) ⊆ "END" :: ([] ++ ([] ++ ([] ++ (["ITER"] ++ ([] ++ (["BODY"] ++
      (["BREAK"] ++ places))))))) := by
    simp only [List.nil_append, List.cons_append, List.cons_subset, List.mem_cons]
    refine ⟨by simp [hplaced], by simp, by simp, by simp, fun l hl => ?_⟩
    simp [huses hl]
  rw [Compilable.key?, hcall.hash] at hkeys
  generalize (call'.hash.bind fun hash => hash.get? "key") = key at hkeys ⊢
  cases key with
  | none =>
    exact works_frameWithLabels _ _
      (.code_seq (works_reference .null) fun _ _ => hiteration) hplaces
  | some key =>
    exact works_frameWithLabels _ _ (.code_seq (attains_expression (e := key) hkeys) fun _ _ =>
      hiteration) hplaces

theorem literalComponent?_eq (l : Lookup) (referer : String) (e : Expression) :
    Compilable.literalComponent? l referer e = e.component? l referer := by
  cases e with
  | value json => cases json <;> rfl
  | _ => rfl

theorem Guides.attains_componentForm (hk : k.Guides held admits link) (name : String)
    {params : Option (List Expression)} {invocation invocation' : List Expression → Invocation}
    (h : k.componentForm params invocation code)
    (hsame : ∀ rest, (invocation rest).Same (invocation' rest))
    (hj : ∀ symbol g rest, k.lookup.takes k.referer "component" params symbol = true →
      (invocation' rest).blockOf? symbol = some (some g) → admits g) :
    Works (k.context link) held (Emit.componentForm name params invocation') anything := by
  rcases params with _ | _ | ⟨definition, rest⟩
  · exact h.elim
  · exact h.elim
  · refine (works_literalComponent? definition).bind ?_
    rintro _ rfl
    unfold Coding.componentForm at h
    dsimp only at h
    have htakes (symbol : String) : k.lookup.takes k.referer "component"
      (some (definition :: rest)) symbol =
        (definition.component? k.lookup k.referer).all (k.lookup.passes · symbol) := rfl
    simp only [htakes] at hj
    rw [context_lookup, context_referer, literalComponent?_eq]
    rw [literalComponent?_eq] at h
    generalize definition.component? k.lookup k.referer = found at h hj ⊢
    cases found with
    | some handle =>
      exact hk.attains_component h (hsame rest) fun symbol g hpasses => hj symbol g rest hpasses
    | none =>
      exact hk.attains_dynamicComponent h (hsame rest) (admits_passed fun symbol g =>
        hj symbol g rest rfl)

theorem Guides.attains_blockCall (hk : k.Guides held admits link) (h : k.blockCall call code)
    (hcall : call.Same call')
    (hj : ∀ symbol g rest, k.lookup.takes k.referer call'.name call'.params symbol = true →
      (call'.invocation rest).blockOf? symbol = some (some g) → admits g) :
    Works (k.context link) held (Emit.blockCall call') anything := by
  -- the forms compile both of their blocks
  have hforms (hname : call'.name ∈ ["if", "unless", "with", "each"]) :
      (∀ b ∈ call'.template, admits b) ∧ ∀ b ∈ call'.inverse, admits b := by
    have htakes (symbol : String) : k.lookup.takes k.referer call'.name call'.params symbol =
        true := if_pos hname
    exact ⟨fun b hb => hj "&default" b [] (htakes _) (congrArg some hb),
      fun b hb => hj "&inverse" b [] (htakes _) (congrArg some hb)⟩
  unfold Coding.blockCall at h
  rw [hcall.name] at h
  unfold Emit.blockCall
  split
  · rename_i hname
    rw [hname] at hforms
    rw [hname, if_pos rfl] at h
    obtain ⟨hmains, hothers⟩ := hforms (by simp)
    exact hk.attains_conditional hmains hothers .jumpUnless h hcall
  · rename_i hname
    rw [hname] at hforms
    rw [hname, if_neg (by simp), if_pos rfl] at h
    obtain ⟨hmains, hothers⟩ := hforms (by simp)
    exact hk.attains_conditional hmains hothers .jumpIf h hcall
  · rename_i hname
    rw [hname] at hforms
    rw [hname, if_neg (by simp), if_neg (by simp), if_pos rfl] at h
    obtain ⟨hmains, hothers⟩ := hforms (by simp)
    exact hk.attains_withBlock hmains hothers h hcall
  · rename_i hname
    rw [hname] at hforms
    rw [hname, if_neg (by simp), if_neg (by simp), if_neg (by simp), if_pos rfl] at h
    obtain ⟨hmains, hothers⟩ := hforms (by simp)
    exact hk.attains_eachBlock hmains hothers h hcall
  · rename_i hname
    rw [hname] at hj
    rw [hname, if_neg (by simp), if_neg (by simp), if_neg (by simp), if_neg (by simp),
      if_pos rfl] at h
    rw [hname, ← hcall.params]
    exact hk.attains_componentForm _ h hcall.invocation (hcall.params ▸ hj)
  · rename_i hif hunless hwith heach hcomponent
    rw [if_neg hif, if_neg hunless, if_neg hwith, if_neg heach, if_neg hcomponent] at h
    obtain ⟨handle, hhandle, hcode⟩ := h
    rw [hcall.params] at hcode
    refine Works.orFail (f := fun handle => Emit.component handle _) hhandle
      (hk.attains_component hcode (hcall.invocation _) fun symbol g hpasses => hj symbol g _ ?_)
    unfold Lookup.takes
    have hother : call'.name ∉ ["if", "unless", "with", "each"] := by
      simp only [List.mem_cons, List.not_mem_nil, or_false, not_or]
      exact ⟨hif, hunless, hwith, heach⟩
    rw [if_neg hother, if_neg hcomponent, hhandle]
    exact hpasses

/-! ### Appended values -/

theorem Guides.attains_partialForm (hk : k.Guides held admits link) (name : String)
    {params : Option (List Expression)} (h : k.partialForm params code) :
    Works (k.context link) held (Emit.partialForm name params) anything := by
  unfold Coding.partialForm at h
  unfold Emit.partialForm
  split at h
  · rename_i partialName
    obtain ⟨f, table, call, hpart, hcall, -⟩ := h
    obtain ⟨g, hg, hpart⟩ := Option.bind_eq_some_iff.mp hpart
    obtain ⟨table', htable, hpart⟩ := Option.bind_eq_some_iff.mp hpart
    cases hpart
    obtain ⟨handle, -, hwhole⟩ := Option.bind_eq_some_iff.mp hg
    have hwhole : ∃ handle, k.lookup.partial? handle = some f := ⟨handle, hwhole⟩
    refine Works.orFail (v := (k.lookup.partialNamed? partialName k.layout.referer).bind
      k.lookup.partial?) (e := .unknownPartial partialName) hg (Works.orFail htable ?_)
    exact Works.op.seq fun _ => Works.op.seq fun _ => Works.op.seq fun _ => Works.op.seq fun _ =>
      (hk.attains_invokeStatic hcall (.inr hwhole)).seq fun _ => Works.op.seq fun _ => .op
  · exact h.elim

/-- Inline forms pass no blocks. -/
theorem blockOf?_inline {params : List Expression} {hash : Option Hash} {synthetic : Bool}
    (symbol : String) (g : Fragment) :
    ({ params, hash, synthetic : Invocation } : Invocation).blockOf? symbol ≠ some (some g) := by
  unfold Invocation.blockOf?
  split
  · nofun
  split
  · nofun
  split <;> nofun

theorem Guides.attains_inlineCall (hk : k.Guides held admits link) (name : String)
    (params : Option (List Expression)) (hash : Option Hash)
    (h : ∀ form, Compilable.inlineCall? k.lookup k.referer name params hash = some form →
      k.inlined (some form) code) :
    Works (k.context link) held (Emit.inlineCall name params hash) fun inlined =>
      inlined = (Compilable.inlineCall? k.lookup k.referer name params hash).isSome := by
  have hsame (invocation : Invocation) : invocation.Same invocation :=
    ⟨rfl, rfl, rfl, rfl, rfl, rfl⟩
  unfold Emit.inlineCall
  unfold Compilable.inlineCall? at h ⊢
  split
  · exact (hk.attains_componentForm _ (h _ rfl) (fun _ => hsame _) fun symbol g _ _ hg =>
      absurd hg (blockOf?_inline symbol g)).seq fun _ => .pure rfl
  · exact (hk.attains_partialForm _ (h _ rfl)).seq fun _ => .pure rfl
  · rename_i hcomponent hpartial
    rw [if_neg hcomponent, if_neg hpartial] at h ⊢
    refine Works.resolve.bind ?_
    rintro _ rfl
    rw [context_lookup, context_referer]
    cases hhandle : k.lookup.component? name k.referer with
    | none => exact .pure rfl
    | some handle =>
      rw [hhandle] at h
      exact (hk.attains_component (h _ rfl) (hsame _) fun symbol g _ hg =>
        absurd hg (blockOf?_inline symbol g)).seq fun _ => .pure rfl

theorem Guides.attains_append (hk : k.Guides held admits link) {value : Expression} {trusted : Bool}
    (h : k.append value trusted code) :
    Works (k.context link) held (Emit.append value trusted) anything := by
  have hinlined (form : Compilable.Inline)
    (hform : Compilable.inline? k.lookup k.referer value = some form) :
      k.inlined (some form) code := by
    unfold Coding.append at h
    rw [hform] at h
    cases form <;> exact h
  have hform : Works (k.context link) held (Emit.inlineForm value) fun inlined =>
      inlined = (Compilable.inline? k.lookup k.referer value).isSome := by
    cases value with
    | unknown name => exact hk.attains_inlineCall name none none hinlined
    | helper name params hash => exact hk.attains_inlineCall name params hash hinlined
    | _ => exact .pure rfl
  refine hform.bind fun inlined heq => ?_
  cases inlined with
  | true => exact .pure trivial
  | false =>
    have hnone := Option.isNone_iff_eq_none.mp (Option.isSome_eq_false_iff.mp heq.symm)
    unfold Coding.append at h
    rw [hnone] at h
    show Works (k.context link) held (if trusted || value.isGet then
      Emit.guardedAppend value trusted else do
        Emit.expression value
        Emit.op .dynamicContent 0) anything
    dsimp only at h
    split at h
    · rw [if_pos ‹_›]
      exact hk.attains_guardedAppend h
    · rw [if_neg ‹_›]
      obtain ⟨push, hpush, -⟩ := h
      exact (attains_expression hpush).seq fun _ => .op

/-! ### Statements -/

/-- The block is the one that the statement names. -/
theorem attains_optionalBlock {index : Option Nat} {body : Option Fragment}
    (h : k.layout.optionalBlock? index = some body) :
    Works (k.context link) held (Emit.optionalBlock index) fun f => f.map Fragment.body = body ∧
      ∀ g ∈ f, g.layout = k.layout ∧ g.statements ∈ k.layout.template.bodies index := by
  cases index with
  | none =>
    obtain rfl := Option.some.inj h
    exact .pure ⟨rfl, nofun⟩
  | some index =>
    obtain ⟨f, hf, rfl⟩ := Option.map_eq_some_iff.mp h
    obtain ⟨block, hblock, rfl⟩ := Option.map_eq_some_iff.mp hf
    have hnew : Works (k.context link) held (Emit.newFragment fun id layout =>
      .ofBlock id layout block)
        fun g => ∃ id, g = .ofBlock id k.layout block := fun b hb => ⟨_, _, rfl, rfl, hb, _, rfl⟩
    have hinline : Works (k.context link) held (Emit.inlineBlock index)
        fun g => ∃ id, g = .ofBlock id k.layout block :=
      Works.orFail hblock (f := fun block =>
        Emit.newFragment fun id layout => .ofBlock id layout block) hnew
    refine hinline.bind ?_
    rintro _ ⟨id, rfl⟩
    refine .pure ⟨rfl, ?_⟩
    rintro _ ⟨⟩
    exact ⟨rfl, Template.mem_bodies.mpr ⟨index, block, rfl, hblock, rfl⟩⟩

mutual

theorem Guides.attains_statement (hk : k.Guides held admits link) (mode : AttrMode) (s : Statement)
    {code : List Instruction} (h : k.statement mode s code)
    (hs : ∀ g : Fragment, g.layout = k.layout →
      g.statements ∈ s.embedded k.lookup k.layout → admits g) :
    Works (k.context link) held (Emit.statement mode s) anything := by
  cases s with
  | text s => exact works_onString .text s
  | comment s => exact works_onString .comment s
  | append value trusted => exact hk.attains_append h
  | openElement tag => exact works_onString .openElement tag
  | flushElement => exact .op
  | closeElement => exact .op
  | staticAttr name value space => exact works_staticAttr mode name value space
  | dynamicAttr name value space trusting =>
    obtain ⟨push, nameIndex, spaceIndex, hpush, -⟩ := h
    exact (attains_expression hpush).seq fun _ => works_dynamicAttr mode name space trusting
  | modifier name params hash =>
    obtain ⟨handle, given, call, hhandle, hgiven, -⟩ := h
    exact Works.orFail (v := k.lookup.modifier? name k.layout.referer) (e := .unknownModifier name)
      hhandle ((attains_args true hgiven).seq fun _ => works_onHandle .modifier handle)
  | block name params hash template inverse =>
    obtain ⟨main, other, hmain, hother, hcode⟩ := h
    refine (attains_optionalBlock hmain).bind fun f hf =>
      (attains_optionalBlock hother).bind fun g hg =>
      hk.attains_blockCall hcode ⟨rfl, rfl, rfl, hf.1.symm, hg.1.symm⟩
        fun symbol b rest htakes hb => ?_
    unfold Invocation.blockOf? at hb
    split at hb
    · subst symbol
      obtain ⟨hlayout, hbody⟩ := hf.2 b (Option.some.inj hb)
      exact hs b hlayout (List.mem_append_left _ (List.mem_ite_nil_right.mpr ⟨htakes, hbody⟩))
    split at hb
    · subst symbol
      obtain ⟨hlayout, hbody⟩ := hg.2 b (Option.some.inj hb)
      exact hs b hlayout (List.mem_append_right _ (List.mem_ite_nil_right.mpr ⟨htakes, hbody⟩))
    split at hb
    · cases hb
    · cases hb
  | component tag attrs hash body =>
    obtain ⟨block, hblock, hcode⟩ := h
    refine (attains_optionalBlock hblock).bind fun f hf => ?_
    show Works (k.context link) held (match k.lookup.component? tag k.referer with
      | some handle => do
        let attrs ← Emit.attrsBlock attrs
        Emit.component handle { attrs := some attrs, hash, block := f }
      | none => do
        Emit.onString .openElement tag
        Emit.statements .element attrs
        Emit.op .flushElement
        if let some g := f then
          Emit.invokeStaticBlock g 0
        Emit.op .closeElement) anything
    unfold Statement.embedded at hs
    change ∀ g : Fragment, g.layout = k.layout →
        g.statements ∈ (match k.lookup.component? tag k.referer with
      | some handle =>
        (if k.lookup.passes handle "&default" then k.layout.template.bodies body else []) ++
          (if k.lookup.passes handle "&attrs" then [attrs] else [])
      | none =>
        Statement.allEmbedded k.lookup k.layout attrs ++ k.layout.template.bodies body) →
          admits g at hs
    cases hhandle : k.lookup.component? tag k.referer with
    | some handle =>
      rw [hhandle] at hcode hs
      obtain ⟨passed, hpassed, hcode⟩ := hcode
      have hattrs : Works (k.context link) held (Emit.attrsBlock attrs) fun g =>
          ∃ id, g = .ofAttrs id k.layout attrs :=
        fun b hb => ⟨_, _, rfl, rfl, hb, _, rfl⟩
      refine hattrs.bind ?_
      rintro _ ⟨id, rfl⟩
      refine hk.attains_component hcode ⟨rfl, rfl, rfl, congrArg some hpassed, hf.1.symm, rfl⟩
        fun symbol b hpasses hb => ?_
      unfold Invocation.blockOf? at hb
      split at hb
      · subst symbol
        obtain ⟨hlayout, hbody⟩ := hf.2 b (Option.some.inj hb)
        exact hs b hlayout (List.mem_append_left _ (List.mem_ite_nil_right.mpr ⟨hpasses, hbody⟩))
      split at hb
      · cases hb
      split at hb
      · subst symbol
        cases hb
        exact hs _ rfl (List.mem_append_right _ (List.mem_ite_nil_right.mpr ⟨hpasses, .head _⟩))
      · cases hb
    | none =>
      rw [hhandle] at hcode hs
      obtain ⟨opening, inner, content, -, hinner, hcontent, -⟩ := hcode
      refine (works_onString .openElement tag).seq fun _ =>
        (hk.attains_statements .element attrs hinner fun g hlayout hg =>
          hs g hlayout (List.mem_append_left _ hg)).seq fun _ => Works.op.seq fun _ => ?_
      cases block with
      | none =>
        obtain rfl : f = none := Option.map_eq_none_iff.mp hf.1
        exact .op
      | some block =>
        obtain ⟨g, rfl, hbody⟩ := Option.map_eq_some_iff.mp hf.1
        obtain ⟨hlayout, hg⟩ := hf.2 g rfl
        exact (hk.attains_invokeStaticBlock hcontent hbody.symm
          (hs g hlayout (List.mem_append_right _ hg))).seq fun _ => .op
  | yield slot params => exact attains_yield h
  | attrSplat slot =>
    obtain ⟨called, hcalled, -⟩ := h
    exact (attains_yield hcalled).seq fun _ => .op
termination_by structural s

theorem Guides.attains_statements (hk : k.Guides held admits link) (mode : AttrMode)
    (ss : List Statement) {code : List Instruction} (h : k.statements mode ss code)
    (hss : ∀ g : Fragment, g.layout = k.layout →
      g.statements ∈ Statement.allEmbedded k.lookup k.layout ss → admits g) :
    Works (k.context link) held (Emit.statements mode ss) anything := by
  cases ss with
  | nil => exact .pure trivial
  | cons s rest =>
    obtain ⟨first, more, hfirst, hmore, -⟩ := h
    exact (hk.attains_statement mode s hfirst fun g hlayout hg =>
      hss g hlayout (List.mem_append_left _ hg)).seq
      fun _ => hk.attains_statements mode rest hmore fun g hlayout hg =>
        hss g hlayout (List.mem_append_right _ hg)
termination_by structural ss

end

end

end Coding

/-! ### Linking once more -/

/-- What has a handle in a sound program, in which hopeless templates have none, can be linked
eagerly into any program, with whatever identity. -/
theorem Link.fragment_again {lookup : Lookup} {wholes : List Fragment}
    (hlisted : lookup.Listed wholes) {l : Linkage} (hsound : l.Sound lookup .eager [])
    (hhopeful : ∀ w, lookup.Whole w → (l.program.linked? w.id).isSome → ¬lookup.Hopeless w)
    (fuel : Nat) {f g : Fragment} (hknown : l.known f.id = some f)
    (hlinked : (l.program.linked? f.id).isSome) (hfg : f.body = g.body) (hg : ¬lookup.Hopeless g)
    {p : Program} (hfuel : p.linked? g.id = none →
      lookup.depth g.layout g.statements + (p.reserve g.id).outstanding wholes < fuel) :
    ∃ handle q, Link.fragment lookup .eager fuel g p = .ok handle q ∧
      q.Has fun id => (p.linked? id).isSome := by
  induction fuel generalizing f g p with
  | zero =>
    cases hnone : p.linked? g.id with
    | some handle => exact ⟨handle, p, Link.fragment_of_linked hnone, fun _ h => h⟩
    | none => exact absurd (hfuel hnone) (Nat.not_lt_zero _)
  | succ fuel ih =>
    cases hnone : p.linked? g.id with
    | some handle => exact ⟨handle, p, Link.fragment_of_linked hnone, fun _ h => h⟩
    | none =>
      obtain ⟨handle, hhandle⟩ := Option.isSome_iff_exists.mp hlinked
      obtain ⟨f', hf', hpending | ⟨-, block, code, m, -, -, hm, hcode⟩⟩ := hsound.linked _ _ hhandle
      · cases hpending
      obtain rfl := Option.some.inj (hknown.symm.trans hf')
      have hlayout : f.layout = g.layout := (congrArg Fragment.layout hfg :)
      have hmode : f.attrMode = g.attrMode := (congrArg Fragment.attrMode hfg :)
      have hstatements : f.statements = g.statements := (congrArg Fragment.statements hfg :)
      have hbound := hfuel hnone
      -- what is linked on the way nests less deeply, or is a whole template
      -- that is still outstanding
      have hless (q : Program) (hq : q.Has fun id => ((p.reserve g.id).linked? id).isSome) :
          q.outstanding wholes ≤ (p.reserve g.id).outstanding wholes :=
          Program.outstanding_le_of_linked hq
      have hgrown {w : Fragment} (h : (m.program.linked? w.id).isSome) :
          (l.program.linked? w.id).isSome := by
        obtain ⟨handle', hhandle'⟩ := Option.isSome_iff_exists.mp h
        exact Option.isSome_iff_exists.mpr ⟨handle', Linkage.Grows.linked hm hhandle'⟩
      have hagain {w v : Fragment} (hwv : w.body = v.body) (hv : ¬lookup.Hopeless v)
          (hdepth : ∀ q : Program, (q.Has fun id => ((p.reserve g.id).linked? id).isSome) →
            q.linked? v.id = none →
            lookup.depth v.layout v.statements + (q.reserve v.id).outstanding wholes < fuel) :
          Coding.Attains ⟨lookup, .eager, m, f.layout⟩
            (fun id => ((p.reserve g.id).linked? id).isSome)
            (Link.fragment lookup .eager fuel) w v := by
        intro hw hwlinked q hq
        obtain ⟨handle', r, hlink, hr⟩ :=
          ih (Linkage.Grows.known hm _ _ hw) (hgrown hwlinked) hwv hv (hdepth q hq)
        exact ⟨handle', r, hlink, fun id hid => hr id (hq id hid)⟩
      have hguides : Coding.Guides ⟨lookup, .eager, m, f.layout⟩
        (fun id => ((p.reserve g.id).linked? id).isSome)
          (fun v => v.layout = f.layout ∧ lookup.Nests f.layout f.statements v.statements)
          (Link.fragment lookup .eager fuel) := by
        refine ⟨rfl, fun w hw hknown' hlinked' => ?_, fun w v hwv hv => ?_⟩
        · refine hagain rfl (hhopeful w hw (hgrown hlinked')) (fun q hq hunlinked => ?_)
            hknown' hlinked'
          have hmem := hlisted.mem hw
          have hreserve := Program.outstanding_reserve hmem hunlinked
          have hdepth := lookup.depth_template w.layout
          rw [← hlisted.whole w hmem] at hdepth
          have := hless q hq
          omega
        · obtain ⟨hvlayout, hnests⟩ := hv
          rw [hlayout, hstatements] at hnests
          refine hagain hwv (Lookup.not_hopeless_nested hg (hvlayout.trans hlayout) hnests)
            fun q hq hunlinked => ?_
          have hdepth := Lookup.depth_nested hg hnests
          rw [hvlayout, hlayout]
          have hreserve : (q.reserve v.id).outstanding wholes ≤ q.outstanding wholes :=
            Program.outstanding_le (Linkage.grows_reserve hunlinked)
          have := hless q hq
          omega
      have hworks := hguides.attains_statements f.attrMode f.statements hcode fun v hvlayout hv =>
        ⟨hvlayout, hv⟩
      have hcontext : g.context lookup .eager fuel =
          Coding.context ⟨lookup, .eager, m, f.layout⟩ (Link.fragment lookup .eager fuel) := by
        rw [Coding.context, hlayout]
        rfl
      rw [← hcontext, hmode, hstatements] at hworks
      obtain ⟨_, b, hbody, hscopes, hhas, -⟩ := hworks { program := p.reserve g.id } fun _ h => h
      obtain ⟨handle', q, hlink⟩ := Link.fragment_of_ok hnone hbody hscopes
      refine ⟨handle', q, hlink, fun id hid => ?_⟩
      rcases Link.fragment_ok hlink with ⟨h, -⟩ | ⟨-, -, n, b', hn, hbody', rfl⟩
      · cases hnone.symm.trans h
      · obtain rfl := Nat.succ.inj hn
        cases hbody.symm.trans hbody'
        obtain ⟨found, hfound⟩ := Option.isSome_iff_exists.mp hid
        exact hhas id (Option.isSome_iff_exists.mpr
          ⟨found, (Linkage.grows_reserve hnone).linked _ _ hfound⟩)

end TemplateMachine
