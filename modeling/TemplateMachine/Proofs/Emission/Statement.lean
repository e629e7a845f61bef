import TemplateMachine.Proofs.Emission.Form

/-! Emission of statements. -/

namespace TemplateMachine

section

variable {c : BuildContext} {pre : Linkage → Prop}

/-! ### Forms by name -/

/-- Code that depends on what component a literal names. -/
theorem Emits.literalComponent {α : Type} {definition : Expression} {g : Option UInt32 → Emit α}
    {spec : Linkage → α → List Instruction → Prop}
    (hg : Emits c pre
      (g (Compilable.literalComponent? c.lookup c.layout.referer definition)) spec) :
    Emits c pre (Emit.literalComponent? definition >>= g) spec := by
  cases definition with
  | value json => cases json <;> exact hg
  | _ => exact hg

theorem emits_componentForm (hc : c.Faithful) (name : String)
    {params : Option (List Expression)}
    (hparams : c.wellFormed → Expression.paramsWellFormed params)
    {invocation : List Expression → Invocation}
    (hi : ∀ es, (c.wellFormed → Expression.paramsWellFormed (some es)) → (invocation es).Regular c)
    (hknows : ∀ es l, pre l → l.KnowsAll (invocation es)) :
    Emits c pre (Emit.componentForm name params invocation) fun l _ code =>
      (c.coding l).componentForm params invocation code := by
  rcases params with _ | _ | ⟨definition, rest⟩
  · exact Emits.fail
  · exact Emits.fail
  · simp only [Expression.paramsWellFormed, Expression.allWellFormed, Bool.and_eq_true, imp_and,
      decide_eq_true_eq, List.length_cons] at hparams
    have hrest : (invocation rest).Regular c := by
      refine hi rest fun h => ?_
      simp only [Expression.paramsWellFormed, hparams.2.2 h, Bool.and_true, decide_eq_true_eq]
      exact Nat.lt_of_succ_lt (hparams.1 h)
    have hdynamic (hnone : Compilable.literalComponent? c.lookup c.layout.referer definition =
        none) : Emits c pre (Emit.dynamicComponent definition (invocation rest)) fun l _ code =>
          (c.coding l).componentForm (some (definition :: rest)) invocation code := by
      refine ((emits_dynamicComponent hc hparams.2.1 hrest).strengthen (hknows rest)).mono ?_
      intro l _ code hcode
      have heq : Compilable.literalComponent? (c.coding l).lookup (c.coding l).referer definition =
          none := hnone
      simp only [Coding.componentForm, heq]
      exact hcode
    have hstatic (handle : UInt32) (hsome : Compilable.literalComponent? c.lookup c.layout.referer
        definition = some handle) : Emits c pre (Emit.component handle (invocation rest))
          fun l _ code => (c.coding l).componentForm (some (definition :: rest))
            invocation code := by
      refine ((emits_component hc hrest handle).strengthen (hknows rest)).mono ?_
      intro l _ code hcode
      have heq : Compilable.literalComponent? (c.coding l).lookup (c.coding l).referer definition =
          some handle := hsome
      simp only [Coding.componentForm, heq]
      exact hcode
    refine Emits.literalComponent ?_
    cases hfound : Compilable.literalComponent? c.lookup c.layout.referer definition with
    | none => exact hdynamic hfound
    | some handle => exact hstatic handle hfound

theorem BlockCall.Regular.invocation {call : BlockCall} (h : call.Regular c)
    {es : List Expression} (hes : c.wellFormed → Expression.paramsWellFormed (some es)) :
    (call.invocation es).Regular c := ⟨hes, h.hash, h.template, h.inverse, nofun⟩

theorem Linkage.KnowsBlocks.all {l : Linkage} {call : BlockCall} (h : l.KnowsBlocks call)
    (es : List Expression) : l.KnowsAll (call.invocation es) := ⟨h.template, h.inverse, nofun⟩

theorem paramsWellFormed_getD {params : Option (List Expression)}
    (h : Expression.paramsWellFormed params) :
    Expression.paramsWellFormed (some (params.getD [])) := by
  cases params with
  | none => rfl
  | some es => exact h

theorem emits_blockCall (hc : c.Faithful) {call : BlockCall} (hcall : call.Regular c) :
    Emits c (fun l => l.KnowsBlocks call) (Emit.blockCall call) fun l _ code =>
      (c.coding l).blockCall call code := by
  unfold Emit.blockCall
  split
  · refine (emits_conditional hc .jumpUnless hcall).mono fun l _ code hcode => ?_
    simpa only [Coding.blockCall, ‹call.name = _›, if_true] using hcode
  · refine (emits_conditional hc .jumpIf hcall).mono fun l _ code hcode => ?_
    simpa only [Coding.blockCall, ‹call.name = _›, String.reduceEq, if_true, if_false] using hcode
  · refine (emits_withBlock hc hcall).mono fun l _ code hcode => ?_
    simpa only [Coding.blockCall, ‹call.name = _›, String.reduceEq, if_true, if_false] using hcode
  · refine (emits_eachBlock hc hcall).mono fun l _ code hcode => ?_
    simpa only [Coding.blockCall, ‹call.name = _›, String.reduceEq, if_true, if_false] using hcode
  · refine (emits_componentForm hc call.name hcall.params (fun es hes => hcall.invocation hes)
      fun es l hl => hl.all es).mono fun l _ code hcode => ?_
    simpa only [Coding.blockCall, ‹call.name = _›, String.reduceEq, if_true, if_false] using hcode
  · rename_i hif hunless hwith heach hcomponent
    refine Emits.resolve (Emits.orFail fun handle hhandle => ?_)
    refine ((emits_component hc (hcall.invocation fun h =>
      paramsWellFormed_getD (hcall.params h)) handle).strengthen fun l hl => hl.all _).mono
        fun l _ code hcode => ?_
    unfold Coding.blockCall
    rw [if_neg hif, if_neg hunless, if_neg hwith, if_neg heach, if_neg hcomponent]
    exact ⟨handle, hhandle, hcode⟩

/-! ### Appended values -/

theorem emits_partialForm (hc : c.Faithful) (name : String) (params : Option (List Expression)) :
    Emits c pre (Emit.partialForm name params) fun l _ code =>
      (c.coding l).partialForm params code := by
  unfold Emit.partialForm
  split
  · rename_i partialName
    show Emits c pre (Emit.orFail ((c.lookup.partialNamed? partialName c.layout.referer).bind
      c.lookup.partial?) (.unknownPartial partialName) >>= _) _
    refine Emits.orFail fun f hf => Emits.orFail fun table htable => Emits.of_knowsLookup ?_
    have hpart : Compilable.partial? c.lookup c.layout.referer partialName = some (f, table) := by
      simp only [Compilable.partial?, hf, htable, Option.bind_eq_bind, Option.bind_some,
        Option.pure_def]
    obtain ⟨handle, -, hget⟩ := Option.bind_eq_some_iff.mp hf
    refine Emits.strengthen (?_ : Emits c (fun l => l.known f.id = some f) _ _)
      fun l hl => hl.2.part handle f hget
    have hpre := Persistent.known f
    refine Emits.op_seq (Emits.op_seq (Emits.op_seq (Emits.op_seq ?_)))
    refine (emits_invokeStatic hc (hc.coherent.part handle f hget).2.1).seq hpre fun _ call =>
      Emits.op_seq (Emits.op ?_)
    intro l hcall
    exact ⟨f, table, call, hpart, hcall, by simp⟩
  · exact Emits.fail

/-- The invocation of an inline form has no blocks. -/
theorem regular_inlineInvocation {hash : Option Hash}
    (hhash : c.wellFormed → Expression.hashWellFormed hash) {es : List Expression}
    (hes : c.wellFormed → Expression.paramsWellFormed (some es)) :
    (Compilable.inlineInvocation hash es).Regular c := ⟨hes, hhash, nofun, nofun, nofun⟩

theorem knowsAll_inlineInvocation (l : Linkage) (hash : Option Hash) (es : List Expression) :
    l.KnowsAll (Compilable.inlineInvocation hash es) := ⟨nofun, nofun, nofun⟩

/-- The shape of the code of an inline form, if there is one. -/
def Coding.inlined (k : Coding) (form : Option Compilable.Inline) (code : List Instruction) :
    Prop :=
  match form with
  | some (.component params hash) => k.componentForm params (Compilable.inlineInvocation hash) code
  | some (.part params) => k.partialForm params code
  | some (.named handle params hash) =>
    k.component handle (Compilable.inlineInvocation hash params) code
  | none => code = []

theorem emits_inlineCall (hc : c.Faithful) (name : String) {params : Option (List Expression)}
    (hparams : c.wellFormed → Expression.paramsWellFormed params) {hash : Option Hash}
    (hhash : c.wellFormed → Expression.hashWellFormed hash) :
    Emits c (fun _ => True) (Emit.inlineCall name params hash) fun l inlined code =>
      inlined = (Compilable.inlineCall? c.lookup c.layout.referer name params hash).isSome ∧
        (c.coding l).inlined
          (Compilable.inlineCall? c.lookup c.layout.referer name params hash) code := by
  have hpre := Persistent.true
  unfold Emit.inlineCall Compilable.inlineCall?
  split
  · refine (emits_componentForm hc "component" hparams
      (fun es hes => regular_inlineInvocation hhash hes)
      fun es l _ => knowsAll_inlineInvocation l hash es).seq hpre fun _ form => Emits.pure true ?_
    intro l hform
    rw [if_pos rfl, List.append_nil]
    exact ⟨rfl, hform⟩
  · refine (emits_partialForm hc "partial" params).seq hpre fun _ form => Emits.pure true ?_
    intro l hform
    rw [if_neg (by decide), if_pos rfl, List.append_nil]
    exact ⟨rfl, hform⟩
  · rename_i hcomponent hpartial
    rw [if_neg hcomponent, if_neg hpartial]
    refine Emits.resolve ?_
    cases hhandle : c.lookup.component? name c.layout.referer with
    | none => exact Emits.pure false fun _ => ⟨rfl, rfl⟩
    | some handle =>
      refine ((emits_component hc (regular_inlineInvocation hhash
        fun h => paramsWellFormed_getD (hparams h)) handle).strengthen
        fun l _ => knowsAll_inlineInvocation l hash _).seq hpre fun _ form => Emits.pure true ?_
      intro l hform
      rw [List.append_nil]
      exact ⟨rfl, hform⟩

theorem emits_inlineForm (hc : c.Faithful) {value : Expression}
    (hvalue : c.wellFormed → value.wellFormed) :
    Emits c (fun _ => True) (Emit.inlineForm value) fun l inlined code =>
      inlined = (Compilable.inline? c.lookup c.layout.referer value).isSome ∧
        (c.coding l).inlined (Compilable.inline? c.lookup c.layout.referer value) code := by
  cases value with
  | unknown name => exact emits_inlineCall hc name (fun _ => rfl) fun _ => rfl
  | helper name params hash =>
    simp only [Expression.wellFormed, Bool.and_eq_true, imp_and] at hvalue
    exact emits_inlineCall hc name hvalue.1 hvalue.2
  | _ => exact Emits.pure false fun _ => ⟨rfl, rfl⟩

theorem emits_append (hc : c.Faithful) {value : Expression}
    (hvalue : c.wellFormed → value.wellFormed) (trusted : Bool) :
    Emits c (fun _ => True) (Emit.append value trusted) fun l _ code =>
      (c.coding l).append value trusted code := by
  have hpre := Persistent.true
  have hplain : Emits c (fun _ => True) (if trusted || value.isGet then
        Emit.guardedAppend value trusted
      else do
        Emit.expression value
        Emit.op .dynamicContent 0) fun l _ code =>
        if trusted || value.isGet then (c.coding l).guardedAppend value trusted code
        else ∃ push, (c.coding l).expression value push ∧
          code = push ++ [⟨.dynamicContent, 0, 0, 0⟩] := by
    split
    · exact emits_guardedAppend hc hvalue trusted
    · exact (emits_expression hpre value hvalue).seq hpre fun _ push => Emits.op
        fun l hpush => ⟨push, hpush, rfl⟩
  refine (emits_inlineForm hc hvalue).seq hpre fun inlined form => ?_
  cases inlined with
  | false =>
    refine hplain.mono ?_
    rintro l _ code hcode ⟨hnone, hform⟩
    have heq := Option.isNone_iff_eq_none.mp (Option.isSome_eq_false_iff.mp hnone.symm)
    have heq' : Compilable.inline? (c.coding l).lookup (c.coding l).referer value = none := heq
    rw [heq] at hform
    obtain rfl := hform
    simpa only [Coding.append, heq', List.nil_append] using hcode
  | true =>
    refine Emits.pure () ?_
    rintro l ⟨hsome, hform⟩
    obtain ⟨found, heq⟩ := Option.isSome_iff_exists.mp hsome.symm
    have heq' : Compilable.inline? (c.coding l).lookup (c.coding l).referer value =
      some found := heq
    rw [heq] at hform
    simp only [Coding.append, heq', List.append_nil]
    cases found <;> exact hform

/-! ### Attributes -/

theorem emits_staticAttr (mode : AttrMode) (name value : String) (space : Option String) :
    Emits c (fun _ => True) (Emit.staticAttr mode name value space) fun l _ code =>
      (c.coding l).staticAttr mode name value space code := by
  have hpre := Persistent.true
  refine (emits_string name).seq hpre fun nameIndex nameCode => ?_
  refine (emits_namespaceString space).seq hpre fun spaceIndex spaceCode => ?_
  cases mode with
  | component =>
    refine (emits_reference hpre (.string value)).seq hpre fun _ push => Emits.op ?_
    rintro l hpush ⟨rfl, hspace⟩ ⟨rfl, hname⟩
    exact ⟨nameIndex, spaceIndex, hname, hspace, push, hpush, rfl⟩
  | element =>
    refine (emits_string value).seq hpre fun valueIndex valueCode => Emits.op ?_
    rintro l ⟨rfl, hvalue⟩ ⟨rfl, hspace⟩ ⟨rfl, hname⟩
    exact ⟨nameIndex, spaceIndex, hname, hspace, valueIndex, hvalue, rfl⟩

theorem emits_dynamicAttr (mode : AttrMode) (name : String) {value : Expression}
    (hvalue : c.wellFormed → value.wellFormed) (space : Option String) (trusting : Bool) :
    Emits c (fun _ => True) (do
        Emit.expression value
        Emit.dynamicAttr mode name space trusting) fun l _ code =>
      (c.coding l).dynamicAttr mode name value space trusting code := by
  have hpre := Persistent.true
  refine (emits_expression hpre value hvalue).seq hpre fun _ push => ?_
  refine (emits_string name).seq hpre fun nameIndex nameCode => ?_
  refine (emits_namespaceString space).seq hpre fun spaceIndex spaceCode => Emits.op ?_
  rintro l ⟨rfl, hspace⟩ ⟨rfl, hname⟩ hpush
  exact ⟨push, nameIndex, spaceIndex, hpush, hname, hspace, by cases mode <;> simp⟩

/-! ### Statements -/

/-- Calls a block, if there is one, between the parts of an element. -/
theorem emits_element (hc : c.Faithful) {tag : String} {x : Emit Unit}
    {inner : Linkage → List Instruction → Prop} {block : Option Fragment}
    (hblock : Fragment.AllRegular block)
    (hx : Emits c (fun l => l.knows block) x fun l _ code => inner l code) :
    Emits c (fun l => l.knows block) (do
        Emit.onString .openElement tag
        x
        Emit.op .flushElement
        if let some f := block then
          Emit.invokeStaticBlock f 0
        Emit.op .closeElement) fun l _ code =>
      ∃ opening attrs content, (c.coding l).onString .openElement tag opening ∧ inner l attrs ∧
        (c.coding l).optionalCall block content ∧
        code = opening ++ attrs ++ ⟨.flushElement, 0, 0, 0⟩ :: content ++
          [⟨.closeElement, 0, 0, 0⟩] := by
  have hpre := Persistent.knows block
  refine (emits_onString hpre .openElement tag).seq hpre fun _ opening => ?_
  refine hx.seq hpre fun _ attrs => Emits.op_seq ?_
  cases block with
  | none =>
    refine Emits.op ?_
    intro l hattrs hopening
    exact ⟨opening, attrs, [], hopening, hattrs, rfl, by simp⟩
  | some f =>
    refine ((emits_invokeStaticBlock hc (hblock f rfl) 0).strengthen fun l hl =>
      Linkage.knows_some hl).seq hpre fun _ content => Emits.op ?_
    intro l hcontent hattrs hopening
    exact ⟨opening, attrs, content, hopening, hattrs, hcontent, by simp⟩

mutual

theorem emits_statement (hc : c.Faithful) (mode : AttrMode) (s : Statement)
    (hs : c.wellFormed → s.wellFormed)
    (hattributes : ∀ attrs ∈ s.attributes, attrs ∈ c.layout.template.attributes) :
    Emits c (fun _ => True) (Emit.statement mode s) fun l _ code =>
      (c.coding l).statement mode s code := by
  have hpre := Persistent.true
  cases s with
  | text s => exact emits_onString hpre .text s
  | comment s => exact emits_onString hpre .comment s
  | append value trusted => exact emits_append hc hs trusted
  | openElement tag => exact emits_onString hpre .openElement tag
  | flushElement => exact Emits.op fun _ => rfl
  | closeElement => exact Emits.op fun _ => rfl
  | staticAttr name value space => exact emits_staticAttr mode name value space
  | dynamicAttr name value space trusting => exact emits_dynamicAttr mode name hs space trusting
  | modifier name params hash =>
    simp only [Statement.wellFormed, Bool.and_eq_true, imp_and] at hs
    refine Emits.resolve (Emits.orFail fun handle hhandle => ?_)
    refine (emits_args hpre (fun h => paramsWellFormed_getD (hs.1 h)) hs.2 true).seq hpre
      fun _ given => ?_
    refine (emits_onHandle hpre .modifier handle).mono ?_
    intro l _ call hcall hgiven
    exact ⟨handle, given, call, hhandle, hgiven, hcall, rfl⟩
  | block name params hash template inverse =>
    simp only [Statement.wellFormed, Bool.and_eq_true, imp_and] at hs
    refine (emits_optionalBlock template).bind (fun main l => l.knows main)
      (fun _ _ _ h => regular_of_optionalBlock h) (fun _ _ _ _ _ _ h => h.2.1)
      fun main code hmain => ?_
    refine (emits_optionalBlock inverse).bind
      (fun other l => l.knows main ∧ l.knows other)
      (fun _ _ _ h => regular_of_optionalBlock h)
      (fun l m _ _ hl hle h => ⟨Persistent.knows main l m hle hl, h.2.1⟩)
      fun other code' hother => ?_
    refine ((emits_blockCall hc
      ⟨hs.1, hs.2, hmain, hother⟩).strengthen fun l hl => ⟨hl.1, hl.2⟩).mono ?_
    rintro l _ more hmore ⟨rfl, -, hother⟩ ⟨rfl, -, hmain⟩
    exact ⟨main, other, hmain, hother, hmore⟩
  | component tag attrs hash body =>
    simp only [Statement.wellFormed, Bool.and_eq_true, imp_and] at hs
    refine (emits_optionalBlock body).bind (fun block l => l.knows block)
      (fun _ _ _ h => regular_of_optionalBlock h) (fun _ _ _ _ _ _ h => h.2.1)
      fun block code hblock => Emits.resolve ?_
    cases hhandle : c.lookup.component? tag c.layout.referer with
    | none =>
      refine (emits_element hc hblock ((emits_statements hc .element attrs hs.1 fun inner hinner =>
        hattributes inner (List.mem_cons_of_mem _ hinner)).strengthen
        fun _ _ => trivial)).mono ?_
      rintro l _ more hmore ⟨rfl, -, hblock⟩
      have heq : (c.coding l).lookup.component? tag (c.coding l).referer = none := hhandle
      refine ⟨block, hblock, ?_⟩
      rw [heq]
      exact hmore
    | some handle =>
      have hattrs := hattributes attrs (List.mem_cons_self ..)
      refine (emits_attrsBlock hattrs).bind
        (fun passed l => l.knows block ∧ l.known passed.id = some passed)
        (fun _ _ _ h => regular_of_attrsBlock hattrs h)
        (fun l m _ _ hl hle h => ⟨Persistent.knows block l m hle hl, h.2.1⟩)
        fun passed code' hpassed => ?_
      refine ((emits_component hc (i := { attrs := some passed, hash, block })
        ⟨fun _ => rfl, hs.2, hblock, nofun, fun _ hg => Option.some.inj hg ▸ hpassed⟩
          handle).strengthen
          fun l hl => ⟨hl.1, nofun, ?_⟩).mono ?_
      · rintro g ⟨⟩
        exact hl.2
      · rintro l _ more hmore ⟨rfl, -, hpassed⟩ ⟨rfl, -, hblock⟩
        have heq : (c.coding l).lookup.component? tag (c.coding l).referer = some handle := hhandle
        refine ⟨block, hblock, ?_⟩
        rw [heq]
        exact ⟨passed, hpassed, hmore⟩
  | yield slot params =>
    exact emits_yield hpre slot _ fun h => paramsWellFormed_getD (hs h)
  | attrSplat slot =>
    refine (emits_yield hpre slot [] fun _ => rfl).seq hpre fun _ called => Emits.op ?_
    intro l hcalled
    exact ⟨called, hcalled, rfl⟩
termination_by structural s

theorem emits_statements (hc : c.Faithful) (mode : AttrMode) (ss : List Statement)
    (hss : c.wellFormed → Statement.allWellFormed ss)
    (hattributes : ∀ attrs ∈ Statement.allAttributes ss, attrs ∈ c.layout.template.attributes) :
    Emits c (fun _ => True) (Emit.statements mode ss) fun l _ code =>
      (c.coding l).statements mode ss code := by
  cases ss with
  | nil => exact Emits.pure () fun _ => rfl
  | cons s rest =>
    simp only [Statement.allWellFormed, Bool.and_eq_true, imp_and] at hss
    refine (emits_statement hc mode s hss.1 fun attrs hattrs =>
      hattributes attrs (List.mem_append_left _ hattrs)).seq Persistent.true fun _ first => ?_
    refine (emits_statements hc mode rest hss.2 fun attrs hattrs =>
      hattributes attrs (List.mem_append_right _ hattrs)).mono ?_
    intro l _ more hmore hfirst
    exact ⟨first, more, hfirst, hmore, rfl⟩
termination_by structural ss

end

end

end TemplateMachine
