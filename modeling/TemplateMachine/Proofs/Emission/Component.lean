import TemplateMachine.Proofs.Emission.Block

/-! Emission of expressions and invocations: the code that is emitted has
the shape that they have. -/

namespace TemplateMachine

/-- The operand of an instruction that gathers arguments tells how many there are. -/
theorem count_flags (count : Nat) (synthetic : Bool) :
    (((UInt32.ofNat count <<< 4) ||| (synthetic.toUInt32 <<< 3)) >>> 4).toNat =
      count % 0x10000000 := by
  have hlow : (synthetic.toUInt32 <<< 3) >>> 4 = 0 := by cases synthetic <;> decide
  have hshift : ((UInt32.ofNat count <<< 4) >>> 4).toNat = count % 0x10000000 := by
    rw [UInt32.toNat_shiftRight, UInt32.toNat_shiftLeft, UInt32.toNat_ofNat']
    simp only [UInt32.reduceToNat, Nat.shiftLeft_eq, Nat.shiftRight_eq_div_pow, Nat.reduceMod,
      Nat.reducePow]
    omega
  rw [UInt32.shiftRight_or, hlow, UInt32.or_zero, hshift]

section

variable {c : BuildContext} {pre : Linkage → Prop}

theorem emits_pushArgs (hpre : Persistent pre) (count : Nat) (names : List String)
    (synthetic : Bool) :
    Emits c pre (Emit.pushArgs count names synthetic) fun l _ code =>
      (c.wellFormed → count < 0x10000000) → (c.coding l).gather count names code := by
  refine (emits_stringArray names).seq hpre fun index code => Emits.op ?_
  rintro l ⟨rfl, hi⟩ hcount
  exact ⟨index, _, hi, count_flags count synthetic, hcount, rfl⟩

theorem emits_properties (hpre : Persistent pre) (path : List String) :
    Emits c pre (Emit.properties path) fun l _ code => (c.coding l).properties path code := by
  induction path with
  | nil => exact Emits.pure () fun _ => rfl
  | cons key rest ih =>
    refine (emits_onString hpre .getProperty key).seq hpre fun _ first => ih.mono ?_
    rintro l _ more hmore hfirst
    exact ⟨first, more, hfirst, hmore, rfl⟩

theorem length_getD_lt {params : Option (List Expression)}
    (h : Expression.paramsWellFormed params) : (params.getD []).length < 0x10000000 := by
  cases params with
  | none => decide
  | some es =>
    simp only [Expression.paramsWellFormed, Bool.and_eq_true, decide_eq_true_eq] at h
    exact h.1

mutual

theorem emits_expression (hpre : Persistent pre) (e : Expression)
    (he : c.wellFormed → e.wellFormed) :
    Emits c pre (Emit.expression e) fun l _ code => (c.coding l).expression e code := by
  cases e with
  | value json =>
    simp only [Emit.expression]
    cases hp : Primitive.ofJson json with
    | ok p =>
      refine (emits_reference hpre p).mono ?_
      rintro l _ code hcode
      exact ⟨p, hp, hcode⟩
    | error kind => exact Emits.fail
  | undefined => exact emits_reference hpre .undefined
  | get head path =>
    refine Emits.op_seq ((emits_properties hpre path).mono ?_)
    rintro l _ more hmore
    exact ⟨more, hmore, rfl⟩
  | unknown name =>
    simp only [Emit.expression]
    refine Emits.resolve ?_
    cases hh : c.lookup.helper? name c.layout.referer with
    | some handle =>
      refine (emits_pushArgs hpre 0 [] true).seq hpre fun _ args => ?_
      refine (emits_onHandle hpre .helper handle).mono ?_
      rintro l _ call hcall hargs
      show match c.lookup.helper? name c.layout.referer with | some _ => _ | none => _
      rw [hh]
      exact ⟨args, call, hargs fun _ => by decide, hcall, rfl⟩
    | none =>
      refine Emits.op_seq ((emits_onString hpre .getProperty name).mono ?_)
      rintro l _ more hmore
      show match c.lookup.helper? name c.layout.referer with | some _ => _ | none => _
      rw [hh]
      exact ⟨more, hmore, rfl⟩
  | helper name params hash =>
    simp only [Expression.wellFormed, Bool.and_eq_true, imp_and] at he
    obtain ⟨hparams, hhash⟩ := he
    unfold Emit.expression
    by_cases hname : name = "component"
    · simp only [if_pos hname]
      rcases params with _ | ⟨_ | ⟨definition, rest⟩⟩
      · exact Emits.fail
      · exact Emits.fail
      · simp only [Expression.paramsWellFormed, Expression.allWellFormed, Bool.and_eq_true,
          decide_eq_true_eq, List.length_cons, imp_and] at hparams
        obtain ⟨hlength, hdefinition, hrest⟩ := hparams
        refine (emits_expression hpre definition hdefinition).seq hpre fun _ first => ?_
        refine (emits_expressions hpre rest hrest).seq hpre fun _ positional => ?_
        refine (emits_namedValues hpre hash hhash).seq hpre fun names named => ?_
        refine (emits_pushArgs hpre rest.length names true).seq hpre fun _ args => ?_
        refine (emits_onReferer hpre .curryComponent).mono ?_
        rintro l _ curry hcurry hargs ⟨rfl, hnamed⟩ hpositional hfirst
        simp only [Coding.expression, if_pos hname]
        exact ⟨first, positional, named, args, curry, hfirst, hpositional, hnamed,
          hargs fun h => Nat.lt_of_succ_lt (hlength h), hcurry, by simp⟩
    · simp only [if_neg hname]
      refine Emits.resolve (Emits.orFail fun handle hhandle => ?_)
      refine (emits_params? hpre params hparams).seq hpre fun count positional => ?_
      refine (emits_namedValues hpre hash hhash).seq hpre fun names named => ?_
      refine (emits_pushArgs hpre count names true).seq hpre fun _ args => ?_
      refine (emits_onHandle hpre .helper handle).mono ?_
      rintro l _ call hcall hargs ⟨rfl, hnamed⟩ ⟨rfl, hpositional⟩
      unfold Coding.expression
      rw [if_neg hname]
      exact ⟨handle, positional, named, args, call, hhandle, hpositional, hnamed,
        hargs fun h => length_getD_lt (hparams h), hcall, by simp⟩
  | concat parts =>
    refine (emits_expressions hpre parts he).seq hpre fun _ values => Emits.op ?_
    rintro l hvalues
    exact ⟨values, hvalues, rfl⟩
  | hasBlock symbol => exact Emits.op fun _ => rfl
  | hasBlockParams symbol =>
    refine Emits.op_seq (emits_resolveBlock.seq hpre fun _ resolve => Emits.op ?_)
    rintro l rfl
    rfl
termination_by structural e

theorem emits_expressions (hpre : Persistent pre) (es : List Expression)
    (hes : c.wellFormed → Expression.allWellFormed es) :
    Emits c pre (Emit.expressions es) fun l _ code => (c.coding l).expressions es code := by
  cases es with
  | nil => exact Emits.pure () fun _ => rfl
  | cons e rest =>
    simp only [Expression.allWellFormed, Bool.and_eq_true, imp_and] at hes
    refine (emits_expression hpre e hes.1).seq hpre fun _ first => ?_
    refine (emits_expressions hpre rest hes.2).mono ?_
    rintro l _ more hmore hfirst
    exact ⟨first, more, hfirst, hmore, rfl⟩
termination_by structural es

theorem emits_params? (hpre : Persistent pre) (params : Option (List Expression))
    (hparams : c.wellFormed → Expression.paramsWellFormed params) :
    Emits c pre (Emit.params? params) fun l count code =>
      count = (params.getD []).length ∧ (c.coding l).params? params code := by
  cases params with
  | none => exact Emits.pure 0 fun _ => ⟨rfl, rfl⟩
  | some es =>
    simp only [Expression.paramsWellFormed, Bool.and_eq_true, imp_and] at hparams
    refine (emits_expressions hpre es hparams.2).seq hpre fun _ code => Emits.pure es.length ?_
    intro l hcode
    exact ⟨rfl, by simpa [Coding.params?] using hcode⟩
termination_by structural params

theorem emits_namedValues (hpre : Persistent pre) (hash : Option (HashOf Expression))
    (hhash : c.wellFormed → Expression.hashWellFormed hash) :
    Emits c pre (Emit.namedValues hash) fun l names code =>
      names = HashOf.namesOf hash ∧ (c.coding l).namedValues hash code := by
  rcases hash with _ | ⟨names, values⟩
  · exact Emits.pure [] fun _ => ⟨rfl, rfl⟩
  · simp only [Expression.hashWellFormed, Bool.and_eq_true, imp_and, beq_iff_eq] at hhash
    refine (emits_expressions hpre values hhash.2).seq hpre fun _ code => Emits.pure names ?_
    intro l hcode
    exact ⟨rfl, hhash.1, by simpa using hcode⟩
termination_by structural hash

end

theorem emits_args (hpre : Persistent pre) {params : List Expression} {hash : Option Hash}
    (hparams : c.wellFormed → Expression.paramsWellFormed (some params))
    (hhash : c.wellFormed → Expression.hashWellFormed hash) (synthetic : Bool) :
    Emits c pre (Emit.args params hash synthetic) fun l _ code =>
      (c.coding l).args params hash code := by
  have hlength (h : c.wellFormed) := length_getD_lt (hparams h)
  simp only [Expression.paramsWellFormed, Bool.and_eq_true, imp_and] at hparams
  refine (emits_expressions hpre params hparams.2).seq hpre fun _ positional => ?_
  refine (emits_namedValues hpre hash hhash).seq hpre fun names named => ?_
  refine (emits_pushArgs hpre params.length names synthetic).mono ?_
  rintro l _ gathered hgathered ⟨rfl, hnamed⟩ hpositional
  exact ⟨positional, named, gathered, hpositional, hnamed, hgathered hlength, by simp⟩

theorem emits_yield (hpre : Persistent pre) (slot : UInt32) (params : List Expression)
    (hparams : c.wellFormed → Expression.paramsWellFormed (some params)) :
    Emits c pre (Emit.yield slot params) fun l _ code => (c.coding l).yield slot params code := by
  refine (emits_args hpre hparams (fun _ => rfl) false).seq hpre fun _ given => Emits.op_seq ?_
  refine emits_resolveBlock.seq hpre fun _ resolve => Emits.op_seq (Emits.op_seq (Emits.op ?_))
  rintro l rfl hgiven
  exact ⟨given, hgiven, by simp⟩

end

/-- The fragments of the invocation are known. -/
structure Linkage.KnowsAll (l : Linkage) (i : Invocation) : Prop where
  block : l.knows i.block
  inverse : l.knows i.inverse
  attrs : l.knows i.attrs

theorem Persistent.knowsAll (i : Invocation) : Persistent fun l => l.KnowsAll i :=
  fun l m h hi => ⟨Persistent.knows _ l m h hi.block, Persistent.knows _ l m h hi.inverse,
    Persistent.knows _ l m h hi.attrs⟩

/-- The arguments of the invocation are well-formed if the template is,
and its blocks are regular. -/
structure Invocation.Regular (c : BuildContext) (i : Invocation) : Prop where
  params : c.wellFormed → Expression.paramsWellFormed (some i.params)
  hash : c.wellFormed → Expression.hashWellFormed i.hash
  block : Fragment.AllRegular i.block
  inverse : Fragment.AllRegular i.inverse
  attrs : Fragment.AllRegular i.attrs

section

variable {c : BuildContext} {pre : Linkage → Prop}

theorem emits_enterComponent :
    Emits c pre Emit.enterComponent fun _ _ code => code = Coding.enterComponent :=
  Emits.op_seq (Emits.op_seq (Emits.op fun _ => rfl))

theorem emits_createComponent (i : Invocation) :
    Emits c pre (Emit.createComponent i) fun _ _ code => code = Coding.createComponent i :=
  Emits.op_seq (Emits.op_seq (Emits.op fun _ => rfl))

theorem emits_leaveComponent :
    Emits c pre Emit.leaveComponent fun _ _ code => code = Coding.leaveComponent :=
  Emits.op_seq (Emits.op_seq (Emits.op_seq (Emits.op_seq (Emits.op_seq (Emits.op fun _ => rfl)))))

theorem emits_invokeComponent (layout : Option Fragment) (hc : c.Faithful) {i : Invocation}
    (hi : i.Regular c) (hlayout : Fragment.AllRegular layout) :
    Emits c (fun l => l.KnowsAll i ∧ l.knows layout) (Emit.invokeComponent i layout) fun l _ code =>
      (c.coding l).genericComponent i layout code := by
  have hpre : Persistent fun l => l.KnowsAll i ∧ l.knows layout :=
    (Persistent.knowsAll i).and (Persistent.knows layout)
  refine emits_enterComponent.seq hpre fun _ enter => ?_
  refine ((emits_pushYieldable hc hi.block).strengthen fun l hl => hl.1.block).seq hpre
    fun _ main => ?_
  refine ((emits_pushYieldable hc hi.inverse).strengthen fun l hl => hl.1.inverse).seq hpre
    fun _ inverse => ?_
  refine ((emits_pushYieldable hc hi.attrs).strengthen fun l hl => hl.1.attrs).seq hpre
    fun _ attrs => ?_
  refine (emits_args hpre hi.params hi.hash i.synthetic).seq hpre fun _ given => Emits.op_seq ?_
  refine (emits_createComponent i).seq hpre fun _ create => Emits.op_seq (Emits.op_seq ?_)
  cases layout with
  | none =>
    refine Emits.op_seq (Emits.op_seq (emits_leaveComponent.mono ?_))
    rintro l _ _ rfl rfl hgiven hattrs hinverse hmain rfl
    exact ⟨_, _, ⟨main, inverse, attrs, given, hmain, hinverse, hattrs, hgiven, rfl⟩, rfl,
      by simp [Coding.registerComponent]⟩
  | some f =>
    refine (emits_symbolTable hpre (some f.table)).seq hpre fun _ table => ?_
    refine ((emits_pushBlock hc hlayout).strengthen fun l hl => hl.2).seq hpre fun _ push => ?_
    refine emits_resolveBlock.seq hpre fun _ resolve => Emits.op_seq (emits_leaveComponent.mono ?_)
    rintro l _ _ rfl rfl hpush htable rfl hgiven hattrs hinverse hmain rfl
    exact ⟨_, _, ⟨main, inverse, attrs, given, hmain, hinverse, hattrs, hgiven, rfl⟩,
      ⟨table, push, htable, hpush, rfl⟩, by simp [Coding.registerComponent]⟩

/-! ### Known layouts -/

theorem knows_of_blockOf? {l : Linkage} {i : Invocation} (hi : l.KnowsAll i) {symbol : String}
    {f : Option Fragment} (h : i.blockOf? symbol = some f) : l.knows f := by
  unfold Invocation.blockOf? at h
  split at h
  · exact Option.some.inj h ▸ hi.block
  · split at h
    · exact Option.some.inj h ▸ hi.inverse
    · split at h
      · exact Option.some.inj h ▸ hi.attrs
      · cases h

theorem regular_of_blockOf? {i : Invocation} (hi : i.Regular c) {symbol : String}
    {f : Option Fragment} (h : i.blockOf? symbol = some f) : Fragment.AllRegular f := by
  unfold Invocation.blockOf? at h
  split at h
  · exact Option.some.inj h ▸ hi.block
  · split at h
    · exact Option.some.inj h ▸ hi.inverse
    · split at h
      · exact Option.some.inj h ▸ hi.attrs
      · cases h

theorem emits_pushSymbol (hc : c.Faithful) {i : Invocation} (hi : i.Regular c) (symbol : String) :
    Emits c (fun l => l.KnowsAll i) (Emit.pushSymbol i symbol) fun l binder code =>
      (c.coding l).symbolCode i symbol code binder := by
  have hpre := Persistent.knowsAll i
  cases hrole : SymbolRole.ofSymbol symbol with
  | block symbol =>
    simp only [Emit.pushSymbol, Coding.symbolCode, hrole]
    refine Emits.orFail fun f hf => ?_
    refine ((emits_pushYieldable hc (regular_of_blockOf? hi hf)).strengthen
      fun l hl => knows_of_blockOf? hl hf).seq hpre fun _ code => Emits.pure _ ?_
    intro l hcode
    exact ⟨f, hf, by simpa using hcode, rfl⟩
  | argument symbol bare =>
    simp only [Emit.pushSymbol, Coding.symbolCode, hrole]
    cases hvalue : i.hash.bind fun hash => hash.get? (if i.synthetic then bare else symbol) with
    | none => exact Emits.pure none fun _ => ⟨rfl, rfl⟩
    | some value =>
      obtain ⟨hash, hhash, hget⟩ := Option.bind_eq_some_iff.mp hvalue
      have hvalue (h : c.wellFormed) : value.wellFormed :=
        Hash.wellFormed_of_get? (hhash ▸ hi.hash h) hget
      refine (emits_expression hpre value hvalue).seq hpre fun _ code => Emits.pure _ ?_
      intro l hcode
      exact ⟨by simpa using hcode, rfl⟩
  | inner =>
    simp only [Emit.pushSymbol, Coding.symbolCode, hrole]
    exact Emits.pure none fun _ => ⟨rfl, rfl⟩

theorem emits_pushSymbols (hc : c.Faithful) {i : Invocation} (hi : i.Regular c)
    (symbols : List String) (bound : List (UInt32 × Opcode)) (slot : UInt32) :
    Emits c (fun l => l.KnowsAll i) (Emit.pushSymbols i bound slot symbols) fun l binders code =>
      (c.coding l).symbolsCode i bound slot symbols code binders := by
  have hpre := Persistent.knowsAll i
  induction symbols generalizing bound slot with
  | nil => exact Emits.pure bound fun _ => ⟨rfl, rfl⟩
  | cons symbol rest ih =>
    refine (emits_pushSymbol hc hi symbol).seq hpre fun binder first => ?_
    cases binder with
    | none =>
      refine (ih bound (slot + 1)).mono ?_
      intro l binders more hmore hfirst
      exact ⟨first, more, none, hfirst, rfl, hmore⟩
    | some op =>
      refine (ih ((slot, op) :: bound) (slot + 1)).mono ?_
      intro l binders more hmore hfirst
      exact ⟨first, more, some op, hfirst, rfl, hmore⟩

theorem emits_bindSymbols (binders : List (UInt32 × Opcode)) :
    Emits c pre (Emit.bindSymbols binders) fun _ _ code =>
      code = Coding.bindSymbols binders := by
  induction binders with
  | nil => exact Emits.pure () fun _ => rfl
  | cons binder rest ih =>
    refine Emits.op_seq (ih.mono ?_)
    rintro l _ _ rfl
    rfl

/-- Creates an instance, from arguments if it asks for them, and what follows. -/
theorem emits_creates {i : Invocation} (hi : i.Regular c) (hpre : Persistent pre)
    {createArgs : Bool} {x : Emit Unit} {spec : Linkage → Unit → List Instruction → Prop}
    (hx : ∀ code, Emits c pre x fun l r more =>
      (c.coding l).creates createArgs i code → spec l r (code ++ more)) :
    Emits c pre (do
      if createArgs then
        Emit.op .pushFrame
        Emit.args i.params i.hash i.synthetic
      Emit.createComponent i
      if createArgs then
        Emit.op .popFrame
      x) spec := by
  cases createArgs with
  | false =>
    refine (emits_createComponent i).seq hpre fun _ create => (hx create).mono ?_
    rintro l _ more hmore rfl
    exact hmore rfl
  | true =>
    refine Emits.op_seq ((emits_args hpre hi.params hi.hash i.synthetic).seq hpre fun _ given => ?_)
    refine (emits_createComponent i).seq hpre fun _ create => Emits.op_seq ?_
    refine (hx (⟨.pushFrame, 0, 0, 0⟩ :: given ++ create ++ [⟨.popFrame, 0, 0, 0⟩])).mono ?_
    rintro l _ more hmore rfl hgiven
    have := hmore ⟨given, hgiven, rfl⟩
    simpa using this

theorem emits_invokeStaticComponent (hc : c.Faithful) {i : Invocation} (hi : i.Regular c)
    (capabilities : Capabilities) {layout : Fragment} (hlayout : layout.Regular) :
    Emits c (fun l => l.KnowsAll i ∧ l.known layout.id = some layout)
      (Emit.invokeStaticComponent capabilities layout i) fun l _ code =>
      (c.coding l).staticComponent capabilities layout i code := by
  have hpre : Persistent fun l => l.KnowsAll i ∧ l.known layout.id = some layout :=
    (Persistent.knowsAll i).and (Persistent.known layout)
  refine Emits.orFail fun table htable => ?_
  by_cases hgeneric : (table.hasEval || capabilities.prepareArgs) = true
  · rw [if_pos hgeneric]
    refine ((emits_invokeComponent (some layout) hc hi
      fun _ hg => Option.some.inj hg ▸ hlayout).strengthen ?_).mono ?_
    · rintro l ⟨hl, hlayout⟩
      exact ⟨hl, fun g hg => Option.some.inj hg ▸ hlayout⟩
    · rintro l _ code hcode
      refine ⟨table, htable, ?_⟩
      rw [if_pos hgeneric]
      exact hcode
  · rw [if_neg hgeneric]
    refine emits_enterComponent.seq hpre fun _ enter => emits_creates hi hpre fun create => ?_
    refine Emits.op_seq (Emits.op_seq ?_)
    refine ((emits_pushSymbols hc hi table.symbols [(0, .setVariable)] 1).strengthen
      fun l hl => hl.1).seq hpre fun binders pushed => Emits.op_seq ?_
    refine (emits_bindSymbols binders).seq hpre fun _ bind => Emits.op_seq ?_
    refine ((emits_invokeStatic hc hlayout).strengthen fun l hl => hl.2).seq hpre
      fun _ called => emits_leaveComponent.mono ?_
    rintro l _ _ rfl hcalled rfl hpushed hcreated rfl
    refine ⟨table, htable, ?_⟩
    rw [if_neg hgeneric]
    exact ⟨create, pushed, binders, called, hcreated, hpushed, hcalled,
      by simp [Coding.registerComponent]⟩

/-- The layouts and partials of the lookup are known. -/
structure Linkage.KnowsLookup (l : Linkage) (lookup : Lookup) : Prop where
  layout : ∀ handle f, lookup.layout? handle = some f → l.known f.id = some f
  part : ∀ handle f, lookup.partial? handle = some f → l.known f.id = some f

theorem Persistent.knowsLookup (lookup : Lookup) : Persistent fun l => l.KnowsLookup lookup :=
  fun _ _ h hl => ⟨fun handle f hf => Linkage.Grows.known h _ _ (hl.layout handle f hf),
    fun handle f hf => Linkage.Grows.known h _ _ (hl.part handle f hf)⟩

theorem Emits.of_knowsLookup {α : Type} {x : Emit α} {spec : Linkage → α → List Instruction → Prop}
    (h : Emits c (fun l => pre l ∧ l.KnowsLookup c.lookup) x spec) : Emits c pre x spec := by
  intro b a b' hx
  obtain ⟨hgrows, hdraft⟩ := h b a b' hx
  exact ⟨hgrows, fun hfits l pending hl hsound hlayout hp =>
    hdraft hfits l pending hl hsound hlayout ⟨hp, hsound.layouts, hsound.partials⟩⟩

theorem emits_component (hc : c.Faithful) {i : Invocation} (hi : i.Regular c) (handle : UInt32) :
    Emits c (fun l => l.KnowsAll i) (Emit.component handle i) fun l _ code =>
      (c.coding l).component handle i code := by
  refine Emits.of_knowsLookup ?_
  have hpre : Persistent fun l => l.KnowsAll i ∧ l.KnowsLookup c.lookup :=
    (Persistent.knowsAll i).and (Persistent.knowsLookup c.lookup)
  refine .reads ((emits_onHandle hpre .pushComponentSpec handle).seq hpre fun _ push => ?_)
  cases hlayout : (if (c.lookup.capabilities handle).dynamicLayout then none
      else c.lookup.layout? handle) with
  | none =>
    refine ((emits_invokeComponent none hc hi nofun).strengthen fun l hl => ⟨hl.1, nofun⟩).seq hpre
      fun _ invoke => Emits.op ?_
    rintro l hinvoke hpush
    refine ⟨push, invoke, hpush, ?_, by simp⟩
    rw [show (if ((c.coding l).lookup.capabilities handle).dynamicLayout then none
      else (c.coding l).lookup.layout? handle) = none from hlayout]
    exact hinvoke
  | some layout =>
    have hsome : c.lookup.layout? handle = some layout := by
      split at hlayout
      · cases hlayout
      · exact hlayout
    refine ((emits_invokeStaticComponent hc hi (c.lookup.capabilities handle)
      (hc.coherent.layout handle layout hsome).2.1).strengthen
        fun l hl => ⟨hl.1, hl.2.layout handle layout hsome⟩).seq hpre fun _ invoke => Emits.op ?_
    rintro l hinvoke hpush
    refine ⟨push, invoke, hpush, ?_, by simp⟩
    rw [show (if ((c.coding l).lookup.capabilities handle).dynamicLayout then none
      else (c.coding l).lookup.layout? handle) = some layout from hlayout]
    exact hinvoke

end

end TemplateMachine
