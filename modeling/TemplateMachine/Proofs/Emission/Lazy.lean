import TemplateMachine.Proofs.Emission.Link
import TemplateMachine.Proofs.Emission.Success
import TemplateMachine.Proofs.Shape.Compilable

/-! What is compilable can be emitted lazily. -/

namespace TemplateMachine

section

variable {c : BuildContext} {held : FragmentId → Prop}

/-! ### Constants and blocks -/

theorem works_onString (op : Opcode) (s : String) : Works c held (Emit.onString op s) anything :=
  Works.onConstants.seq fun _ => Works.op

theorem works_onHandle (op : Opcode) (handle : UInt32) :
    Works c held (Emit.onHandle op handle) anything :=
  Works.onConstants.seq fun _ => Works.op

theorem works_onReferer (op : Opcode) : Works c held (Emit.onReferer op) anything := by
  show Works c held
    (do Emit.op op (← Emit.onConstants fun d => d.referer c.layout.referer)) anything
  exact Works.onConstants.seq fun _ => Works.op

theorem works_primitive (p : Primitive) : Works c held (Emit.primitive p) anything :=
  Works.onConstants.seq fun _ => Works.op

theorem works_reference (p : Primitive) : Works c held (Emit.primitiveReference p) anything :=
  (works_primitive p).seq fun _ => Works.op

theorem works_symbolTable (table : Option SymbolTable) :
    Works c held (Emit.symbolTable table) anything := by
  cases table with
  | none => exact works_primitive .null
  | some t => exact Works.onConstants.seq fun _ => Works.op

theorem works_namespaceString (space : Option String) :
    Works c held (Emit.namespaceString space) anything := by
  cases space with
  | none => exact Works.pure trivial
  | some s =>
    exact (Works.onConstants : Works c held (Emit.onConstants fun d => d.string s) anything)

theorem works_optionalBlock {index : Option Nat} {body : Option Fragment}
    (h : c.layout.optionalBlock? index = some body) :
    Works c held (Emit.optionalBlock index) fun f => f.isSome = body.isSome := by
  cases index with
  | none =>
    obtain rfl := Option.some.inj h
    exact Works.pure rfl
  | some index =>
    obtain ⟨f, hf, rfl⟩ := Option.map_eq_some_iff.mp h
    obtain ⟨block, hblock, -⟩ := Option.map_eq_some_iff.mp hf
    have hinline : Works c held (Emit.inlineBlock index) anything :=
      Works.orFail hblock (f := fun block =>
        Emit.newFragment fun id layout => .ofBlock id layout block) (Works.newFragment _)
    exact hinline.seq fun f => Works.pure rfl

theorem works_fragmentConstant (f : Fragment) : Works c held (Emit.fragmentConstant f) anything :=
  Works.onConstants.seq fun _ => Works.op

theorem Works.lazily {α : Type} {x y : Emit α} {result : α → Prop} (hlazy : c.strategy = .lazy)
    (hx : Works c held x result) :
    Works c held (do match (← read).strategy with | .lazy => x | .eager => y) result := by
  obtain ⟨lookup, strategy, layout, link⟩ := c
  obtain rfl : strategy = .lazy := hlazy
  exact hx

theorem works_pushBlock (hlazy : c.strategy = .lazy) (f : Option Fragment) :
    Works c held (Emit.pushBlock f) anything := by
  cases f with
  | none => exact works_primitive .null
  | some f => exact Works.lazily hlazy (works_fragmentConstant f)

theorem works_resolveBlock : Works c held Emit.resolveBlock anything := by
  obtain ⟨lookup, strategy, layout, link⟩ := c
  cases strategy with
  | lazy => exact Works.op
  | eager => exact fun b hb => ⟨(), b, rfl, rfl, hb, trivial⟩

theorem works_pushYieldable (hlazy : c.strategy = .lazy) (f : Option Fragment) :
    Works c held (Emit.pushYieldable f) anything :=
  (works_symbolTable _).seq fun _ => works_pushBlock hlazy f

theorem works_invokeStatic (hlazy : c.strategy = .lazy) (f : Fragment) :
    Works c held (Emit.invokeStatic f) anything :=
  Works.lazily hlazy ((works_fragmentConstant f).seq fun _ => Works.op.seq fun _ => Works.op)

theorem works_bindParameters (depth : UInt32) (symbols : List UInt32) :
    Works c held (Emit.bindParameters depth symbols) anything := by
  induction symbols generalizing depth with
  | nil => exact Works.pure trivial
  | cons symbol rest ih => exact Works.op.seq fun _ => Works.op.seq fun _ => ih (depth - 1)

theorem works_invokeStaticBlock (hlazy : c.strategy = .lazy) (f : Fragment) (supplied : UInt32) :
    Works c held (Emit.invokeStaticBlock f supplied) anything := by
  unfold Emit.invokeStaticBlock
  refine Works.op.seq fun _ => ?_
  have hcall (y : Emit Unit) (hy : Works c held y anything) : Works c held (do
      Emit.pushBlock (some f)
      Emit.resolveBlock
      Emit.op .invokeVirtual
      y) anything :=
    (works_pushBlock hlazy _).seq fun _ => works_resolveBlock.seq fun _ =>
      Works.op.seq fun _ => hy
  cases hbound : (f.table.parameters.take supplied.toNat).isEmpty
  · exact Works.op.seq fun _ => (works_bindParameters _ _).seq fun _ =>
      hcall _ (Works.op.seq fun _ => Works.op)
  · exact hcall _ Works.op

/-! ### Expressions -/

theorem works_pushArgs (count : Nat) (names : List String) (synthetic : Bool) :
    Works c held (Emit.pushArgs count names synthetic) anything :=
  Works.onConstants.seq fun _ => Works.op

theorem works_properties (path : List String) : Works c held (Emit.properties path) anything := by
  induction path with
  | nil => exact Works.pure trivial
  | cons key path ih => exact (works_onString .getProperty key).seq fun _ => ih

mutual

theorem works_expression (e : Expression)
    (he : Compilable.expression c.lookup c.layout.referer e) :
    Works c held (Emit.expression e) anything := by
  cases e with
  | value json =>
    unfold Compilable.expression at he
    unfold Emit.expression
    cases hprimitive : Primitive.ofJson json with
    | error kind =>
      rw [hprimitive] at he
      cases he
    | ok p => exact works_reference p
  | undefined => exact works_reference .undefined
  | get head path => exact Works.op.seq fun _ => works_properties path
  | unknown name =>
    show Works c held (match c.lookup.helper? name c.layout.referer with
      | some handle => do
        Emit.pushArgs 0 [] true
        Emit.onHandle .helper handle
      | none => do
        Emit.op .getVariable 0
        Emit.onString .getProperty name) anything
    cases c.lookup.helper? name c.layout.referer with
    | none => exact Works.op.seq fun _ => works_onString .getProperty name
    | some handle => exact (works_pushArgs 0 [] true).seq fun _ => works_onHandle .helper handle
  | helper name params hash =>
    unfold Compilable.expression at he
    unfold Emit.expression
    split at he
    · rename_i hname
      rw [if_pos hname]
      rcases params with _ | _ | ⟨definition, rest⟩
      · cases he
      · cases he
      · simp only [Bool.and_eq_true] at he
        exact (works_expression definition he.1.1).seq fun _ =>
          (works_expressions rest he.1.2).seq fun _ =>
            (works_namedValues hash he.2).seq fun names =>
            (works_pushArgs rest.length names true).seq fun _ => works_onReferer .curryComponent
    · rename_i hname
      rw [if_neg hname]
      simp only [Bool.and_eq_true] at he
      obtain ⟨handle, hhandle⟩ := Option.isSome_iff_exists.mp he.1.1
      show Works c held (do
        let handle ← Emit.orFail (c.lookup.helper? name c.layout.referer) (.unknownHelper name)
        let count ← Emit.params? params
        let names ← Emit.namedValues hash
        Emit.pushArgs count names true
        Emit.onHandle .helper handle) anything
      exact Works.orFail hhandle <| (works_params? params he.1.2).seq fun count =>
        (works_namedValues hash he.2).seq fun names =>
          (works_pushArgs count names true).seq fun _ => works_onHandle .helper _
  | concat parts => exact (works_expressions parts he).seq fun _ => Works.op
  | hasBlock symbol => exact Works.op
  | hasBlockParams symbol =>
    exact Works.op.seq fun _ => works_resolveBlock.seq fun _ => Works.op
termination_by structural e

theorem works_expressions (es : List Expression)
    (hes : Compilable.expressions c.lookup c.layout.referer es) :
    Works c held (Emit.expressions es) anything := by
  cases es with
  | nil => exact Works.pure trivial
  | cons e rest =>
    simp only [Compilable.expressions, Bool.and_eq_true] at hes
    exact (works_expression e hes.1).seq fun _ => works_expressions rest hes.2
termination_by structural es

theorem works_params? (params : Option (List Expression))
    (hparams : Compilable.params? c.lookup c.layout.referer params) :
    Works c held (Emit.params? params) anything := by
  cases params with
  | none => exact Works.pure trivial
  | some es => exact (works_expressions es hparams).seq fun _ => Works.pure trivial
termination_by structural params

theorem works_namedValues (hash : Option (HashOf Expression))
    (hhash : Compilable.namedValues c.lookup c.layout.referer hash) :
    Works c held (Emit.namedValues hash) anything := by
  rcases hash with _ | ⟨names, values⟩
  · exact Works.pure trivial
  · exact (works_expressions values hhash).seq fun _ => Works.pure trivial
termination_by structural hash

end

theorem works_args {params : List Expression} {hash : Option Hash} (synthetic : Bool)
    (h : Compilable.args c.lookup c.layout.referer params hash) :
    Works c held (Emit.args params hash synthetic) anything := by
  simp only [Compilable.args, Bool.and_eq_true] at h
  exact (works_expressions params h.1).seq fun _ =>
    (works_namedValues hash h.2).seq fun names => works_pushArgs params.length names synthetic

theorem works_yield (slot : UInt32) (params : List Expression)
    (h : Compilable.expressions c.lookup c.layout.referer params) :
    Works c held (Emit.yield slot params) anything := by
  refine (works_args false ?_).seq fun _ => Works.op.seq fun _ =>
    works_resolveBlock.seq fun _ => Works.op.seq fun _ => Works.op.seq fun _ => Works.op
  rw [Compilable.args, h]
  rfl

/-! ### Invocations -/

theorem works_enterComponent : Works c held Emit.enterComponent anything :=
  Works.op.seq fun _ => Works.op.seq fun _ => Works.op

theorem works_createComponent (i : Invocation) : Works c held (Emit.createComponent i) anything :=
  Works.op.seq fun _ => Works.op.seq fun _ => Works.op

theorem works_leaveComponent : Works c held Emit.leaveComponent anything :=
  Works.op.seq fun _ => Works.op.seq fun _ => Works.op.seq fun _ => Works.op.seq fun _ =>
    Works.op.seq fun _ => Works.op

theorem works_invokeComponent (hlazy : c.strategy = .lazy) {i : Invocation}
    (layout : Option Fragment) (h : Compilable.args c.lookup c.layout.referer i.params i.hash) :
    Works c held (Emit.invokeComponent i layout) anything := by
  refine works_enterComponent.seq fun _ => (works_pushYieldable hlazy _).seq fun _ =>
    (works_pushYieldable hlazy _).seq fun _ => (works_pushYieldable hlazy _).seq fun _ =>
    (works_args _ h).seq fun _ => Works.op.seq fun _ => (works_createComponent i).seq fun _ =>
    Works.op.seq fun _ => Works.op.seq fun _ => ?_
  cases layout with
  | none => exact Works.op.seq fun _ => Works.op.seq fun _ => works_leaveComponent
  | some f =>
    exact (works_symbolTable _).seq fun _ => (works_pushBlock hlazy _).seq fun _ =>
      works_resolveBlock.seq fun _ => Works.op.seq fun _ => works_leaveComponent

theorem works_pushSymbol (hlazy : c.strategy = .lazy) {i : Invocation} {symbol : String}
    (h : Compilable.symbol c.lookup c.layout.referer i symbol) :
    Works c held (Emit.pushSymbol i symbol) anything := by
  cases hrole : SymbolRole.ofSymbol symbol with
  | block block =>
    simp only [Compilable.symbol, Emit.pushSymbol, hrole] at h ⊢
    obtain ⟨f, hf⟩ := Option.isSome_iff_exists.mp h
    exact Works.orFail hf ((works_pushYieldable hlazy _).seq fun _ => Works.pure trivial)
  | argument argument bare =>
    simp only [Compilable.symbol, Emit.pushSymbol, hrole] at h ⊢
    generalize (i.hash.bind fun hash => hash.get?
      (if i.synthetic then bare else argument)) = value at h ⊢
    cases value with
    | none => exact Works.pure trivial
    | some value => exact (works_expression value h).seq fun _ => Works.pure trivial
  | inner =>
    simp only [Emit.pushSymbol, hrole]
    exact Works.pure trivial

theorem works_pushSymbols (hlazy : c.strategy = .lazy) {i : Invocation} (symbols : List String)
    (bound : List (UInt32 × Opcode)) (slot : UInt32)
    (h : symbols.all (Compilable.symbol c.lookup c.layout.referer i)) :
    Works c held (Emit.pushSymbols i bound slot symbols) anything := by
  induction symbols generalizing bound slot with
  | nil => exact Works.pure trivial
  | cons symbol rest ih =>
    rw [List.all_cons, Bool.and_eq_true] at h
    refine (works_pushSymbol hlazy h.1).seq fun binder => ?_
    cases binder with
    | none => exact ih _ _ h.2
    | some op => exact ih _ _ h.2

theorem works_bindSymbols (binders : List (UInt32 × Opcode)) :
    Works c held (Emit.bindSymbols binders) anything := by
  induction binders with
  | nil => exact Works.pure trivial
  | cons binder rest ih => exact Works.op.seq fun _ => ih

theorem works_invokeStaticComponent (hlazy : c.strategy = .lazy) {capabilities : Capabilities}
    {layout : Fragment} {i : Invocation}
    (h : Compilable.staticComponent c.lookup c.layout.referer capabilities layout i) :
    Works c held (Emit.invokeStaticComponent capabilities layout i) anything := by
  unfold Compilable.staticComponent at h
  cases htable : layout.table.asProgram? with
  | none =>
    rw [htable] at h
    cases h
  | some table =>
    rw [htable] at h
    refine Works.orFail htable ?_
    by_cases hgeneric : (table.hasEval || capabilities.prepareArgs) = true
    · simp only [if_pos hgeneric] at h ⊢
      exact works_invokeComponent hlazy (some layout) h
    · simp only [if_neg hgeneric, Bool.and_eq_true] at h ⊢
      have hrest : Works c held (do
          Emit.op .registerComponentDestructor Emit.current
          Emit.op .getComponentSelf Emit.current
          let bound ← Emit.pushSymbols i [(0, .setVariable)] 1 table.symbols
          Emit.op .rootScope (UInt32.ofNat table.symbols.length + 1) i.hasBlocks.toUInt32
          Emit.bindSymbols bound
          Emit.op .pushFrame
          Emit.invokeStatic layout
          Emit.leaveComponent) anything :=
        Works.op.seq fun _ => Works.op.seq fun _ => (works_pushSymbols hlazy _ _ _ h.2).seq
          fun bound => Works.op.seq fun _ => (works_bindSymbols bound).seq fun _ => Works.op.seq
          fun _ => (works_invokeStatic hlazy layout).seq fun _ => works_leaveComponent
      refine works_enterComponent.seq fun _ => ?_
      cases hcreate : capabilities.createArgs with
      | false => exact (works_createComponent i).seq fun _ => hrest
      | true =>
        rw [hcreate] at h
        exact Works.op.seq fun _ => (works_args _ h.1).seq fun _ =>
          (works_createComponent i).seq fun _ => Works.op.seq fun _ => hrest

theorem works_component (hlazy : c.strategy = .lazy) {handle : UInt32} {i : Invocation}
    (h : Compilable.component c.lookup c.layout.referer handle i) :
    Works c held (Emit.component handle i) anything := by
  unfold Compilable.component at h
  refine .reads ((works_onHandle _ _).seq fun _ => ?_)
  generalize (if (c.lookup.capabilities handle).dynamicLayout then none
    else c.lookup.layout? handle) = layout at h ⊢
  cases layout with
  | some layout => exact (works_invokeStaticComponent hlazy h).seq fun _ => Works.op
  | none => exact (works_invokeComponent hlazy none h).seq fun _ => Works.op

/-! ### Forms -/

theorem works_exitFrame : Works c held Emit.exitFrame anything := Works.op.seq fun _ => Works.op

theorem works_guardedAppend (hlazy : c.strategy = .lazy) {value : Expression} (trusting : Bool)
    (h : Compilable.expression c.lookup c.layout.referer value) :
    Works c held (Emit.guardedAppend value trusting) anything :=
  works_frameWithLabels (["ELSE"] ++ ([] ++ [])) ([] ++ (["ELSE"] ++ []))
    (.code_seq (works_expression value h) fun _ _ => .code_seq Works.op fun _ _ =>
      .code_seq Works.op fun _ _ => .code_seq Works.op fun _ _ =>
      (Jumps.jump .jumpUnless "ELSE").seq <| .code_seq (works_onReferer _) fun _ _ =>
      .code_seq (works_invokeComponent hlazy (i := {}) none rfl) fun _ _ =>
      .code_seq works_exitFrame fun _ _ => (Jumps.label "ELSE").seq <|
      .code_seq Works.op fun _ _ => .of_works works_exitFrame) (by simp)

theorem works_dynamicComponent (hlazy : c.strategy = .lazy) {definition : Expression}
    {i : Invocation} (h : Compilable.expression c.lookup c.layout.referer definition)
    (hi : Compilable.args c.lookup c.layout.referer i.params i.hash) :
    Works c held (Emit.dynamicComponent definition i) anything :=
  works_frameWithLabels (["ELSE"] ++ ([] ++ [])) ([] ++ (["ELSE"] ++ []))
    (.code_seq (works_expression definition h) fun _ _ => .code_seq Works.op fun _ _ =>
      .code_seq Works.op fun _ _ => (Jumps.jump .jumpUnless "ELSE").seq <|
      .code_seq (works_onReferer _) fun _ _ =>
      .code_seq (works_invokeComponent hlazy none hi) fun _ _ => (Jumps.label "ELSE").seq <|
      .of_works works_exitFrame) (by simp)

/-- The end of a conditional form places its label, and the one that it uses. -/
theorem jumps_elseBranch (hlazy : c.strategy = .lazy) (inverse : Option Fragment) :
    ∃ uses places, Jumps c held (Emit.elseBranch inverse) uses places ∧ "ELSE" ∈ places ∧
      uses ⊆ places := by
  cases inverse with
  | none => exact ⟨_, _, (Jumps.label "ELSE").seq (.of_works works_exitFrame), by simp, by simp⟩
  | some f =>
    exact ⟨_, _, (Jumps.jump .jump "EXIT").seq <| (Jumps.label "ELSE").seq <|
      .code_seq (works_invokeStaticBlock hlazy f 0) fun _ _ => (Jumps.label "EXIT").seq <|
      .of_works works_exitFrame, by simp, by simp⟩

/-- A block form with one parameter and a main block. -/
theorem works_single {call : BlockCall} {f : Expression → Fragment → Emit Unit}
    (h : Compilable.singleForm c.lookup c.layout.referer call)
    (hf : ∀ param main, Compilable.expression c.lookup c.layout.referer param →
      Works c held (f param main) anything) :
    Works c held (do
      let param ← Emit.onlyParam call
      let main ← Emit.mainBlock call
      f param main) anything := by
  obtain ⟨name, params, hash, template, inverse⟩ := call
  rcases params with _ | _ | ⟨param, _ | _⟩ <;> cases template
  case some.cons.nil.some main => exact hf param main h
  all_goals cases h

theorem works_conditional (hlazy : c.strategy = .lazy) (skip : Opcode) {call : BlockCall}
    (h : Compilable.singleForm c.lookup c.layout.referer call) :
    Works c held (Emit.conditional skip call) anything := by
  refine works_single h fun condition main hcondition => ?_
  obtain ⟨uses, places, helse, hplaced, huses⟩ := jumps_elseBranch hlazy call.inverse
  exact works_frameWithLabels (["ELSE"] ++ uses) ([] ++ places)
    (.code_seq (works_expression condition hcondition) fun _ _ => .code_seq Works.op fun _ _ =>
      .code_seq Works.op fun _ _ => (Jumps.jump skip "ELSE").seq <|
      .code_seq (works_invokeStaticBlock hlazy main 0) fun _ _ => helse)
    (by simpa [hplaced] using List.Subset.trans huses (List.subset_cons_self _ _))

theorem works_withBlock (hlazy : c.strategy = .lazy) {call : BlockCall}
    (h : Compilable.singleForm c.lookup c.layout.referer call) :
    Works c held (Emit.withBlock call) anything := by
  refine works_single h fun value main hvalue => ?_
  obtain ⟨uses, places, helse, hplaced, huses⟩ := jumps_elseBranch hlazy call.inverse
  exact works_frameWithLabels (["ELSE"] ++ uses) ([] ++ places)
    (.code_seq (works_expression value hvalue) fun _ _ => .code_seq Works.op fun _ _ =>
      .code_seq Works.op fun _ _ => .code_seq Works.op fun _ _ =>
      (Jumps.jump .jumpUnless "ELSE").seq <|
      .code_seq (works_invokeStaticBlock hlazy main 1) fun _ _ => helse)
    (by simpa [hplaced] using List.Subset.trans huses (List.subset_cons_self _ _))

theorem works_eachBlock (hlazy : c.strategy = .lazy) {call : BlockCall}
    (h : Compilable.singleForm c.lookup c.layout.referer call)
    (hkey : (Compilable.key? call).all fun key =>
      Compilable.expression c.lookup c.layout.referer key) :
    Works c held (Emit.eachBlock call) anything := by
  rw [Emit.eachBlock_eq]
  refine works_single h fun list main hlist => ?_
  obtain ⟨uses, places, helse, hplaced, huses⟩ := jumps_elseBranch hlazy call.inverse
  have hiteration : Jumps c held (Emit.iteration list main call.inverse)
      (["ELSE"] ++ (["ITER"] ++ (["BODY"] ++ ([] ++ (["BREAK"] ++ ([] ++ ([] ++ uses)))))))
      ([] ++ ([] ++ ([] ++ (["ITER"] ++ ([] ++ (["BODY"] ++ (["BREAK"] ++ places))))))) :=
    .code_seq (works_expression list hlist) fun _ _ => .code_seq Works.op fun _ _ =>
      .code_seq Works.op fun _ _ => (Jumps.jump .jumpUnless "ELSE").seq <|
      .code_seq Works.op fun _ _ => (Jumps.jump .returnTo "ITER").seq <|
      .code_seq Works.op fun _ _ => (Jumps.jump .enterList "BODY").seq <|
      (Jumps.label "ITER").seq <| (Jumps.jump .iterate "BREAK").seq <|
      (Jumps.label "BODY").seq <| .code_seq (works_invokeStaticBlock hlazy main 2) fun _ _ =>
      .code_seq Works.op fun _ _ => .code_seq works_exitFrame fun _ _ =>
      (Jumps.label "BREAK").seq <| .code_seq Works.op fun _ _ => .code_seq Works.op fun _ _ => helse
  have hplaces : (["ELSE"] ++ (["ITER"] ++ (["BODY"] ++ ([] ++ (["BREAK"] ++
      ([] ++ ([] ++ uses))))))) ⊆ "END" :: ([] ++ ([] ++ ([] ++ (["ITER"] ++ ([] ++ (["BODY"] ++
      (["BREAK"] ++ places))))))) := by
    simp only [List.nil_append, List.cons_append, List.cons_subset, List.mem_cons]
    refine ⟨by simp [hplaced], by simp, by simp, by simp, fun l hl => ?_⟩
    simp [huses hl]
  cases hfound : call.hash.bind fun hash => hash.get? "key" with
  | none =>
    exact works_frameWithLabels _ _
      (.code_seq (works_reference .null) fun _ _ => hiteration) hplaces
  | some key =>
    rw [show Compilable.key? call = some key from hfound] at hkey
    exact works_frameWithLabels _ _ (.code_seq (works_expression key hkey) fun _ _ => hiteration)
      hplaces

theorem works_literalComponent? (definition : Expression) :
    Works c held (Emit.literalComponent? definition) fun found =>
      found = Compilable.literalComponent? c.lookup c.layout.referer definition := by
  have hfind : Emit.literalComponent? definition c =
      (Pure.pure (Compilable.literalComponent? c.lookup c.layout.referer definition) :
        Emit (Option UInt32)) c := by
    cases definition with
    | value json => cases json <;> rfl
    | _ => rfl
  exact fun b hb => ⟨_, b, by rw [hfind]; rfl, rfl, hb, rfl⟩

theorem works_componentForm (hlazy : c.strategy = .lazy) (name : String)
    {params : Option (List Expression)} {invocation : List Expression → Invocation}
    (h : Compilable.componentForm c.lookup c.layout.referer params invocation) :
    Works c held (Emit.componentForm name params invocation) anything := by
  rcases params with _ | _ | ⟨definition, rest⟩
  · cases h
  · cases h
  · refine (works_literalComponent? definition).bind ?_
    rintro _ rfl
    cases hfound : Compilable.literalComponent? c.lookup c.layout.referer definition with
    | some handle =>
      simp only [Compilable.componentForm, hfound] at h
      exact works_component hlazy h
    | none =>
      simp only [Compilable.componentForm, hfound, Bool.and_eq_true] at h
      exact works_dynamicComponent hlazy h.1 h.2

theorem works_blockCall (hlazy : c.strategy = .lazy) {call : BlockCall}
    (h : Compilable.blockCall c.lookup c.layout.referer call) :
    Works c held (Emit.blockCall call) anything := by
  unfold Compilable.blockCall at h
  unfold Emit.blockCall
  split
  · rw [if_pos (.inl ‹_›)] at h
    exact works_conditional hlazy .jumpUnless h
  · rw [if_pos (.inr (.inl ‹_›))] at h
    exact works_conditional hlazy .jumpIf h
  · rw [if_pos (.inr (.inr ‹_›))] at h
    exact works_withBlock hlazy h
  · rename_i heach
    rw [heach, if_neg (by simp), if_pos rfl, Bool.and_eq_true] at h
    exact works_eachBlock hlazy h.1 h.2
  · rename_i hcomponent
    rw [hcomponent, if_neg (by simp), if_neg (by simp), if_pos rfl] at h
    rw [hcomponent]
    exact works_componentForm hlazy _ h
  · rename_i hif hunless hwith heach hcomponent
    rw [if_neg (fun hor => hor.elim hif fun hor => hor.elim hunless hwith), if_neg heach,
      if_neg hcomponent] at h
    split at h
    · rename_i handle hhandle
      exact Works.orFail (f := fun handle => Emit.component handle _) hhandle
        (works_component hlazy h)
    · cases h

/-! ### Appended values -/

theorem works_partialForm (hlazy : c.strategy = .lazy) (name : String)
    {params : Option (List Expression)}
    (h : Compilable.partialForm c.lookup c.layout.referer params) :
    Works c held (Emit.partialForm name params) anything := by
  unfold Compilable.partialForm at h
  unfold Emit.partialForm
  split at h
  · rename_i partialName
    obtain ⟨⟨f, table⟩, hpart⟩ := Option.isSome_iff_exists.mp h
    obtain ⟨g, hg, hpart⟩ := Option.bind_eq_some_iff.mp hpart
    obtain ⟨table', htable, hpart⟩ := Option.bind_eq_some_iff.mp hpart
    cases hpart
    refine Works.orFail (v := (c.lookup.partialNamed? partialName c.layout.referer).bind
      c.lookup.partial?) (e := .unknownPartial partialName) hg (Works.orFail htable ?_)
    exact Works.op.seq fun _ => Works.op.seq fun _ => Works.op.seq fun _ => Works.op.seq fun _ =>
      (works_invokeStatic hlazy f).seq fun _ => Works.op.seq fun _ => Works.op
  · cases h

/-- What is asked of an inline form, if there is one. -/
def Compilable.inlined (l : Lookup) (referer : String) : Option Inline → Bool
  | some (.component params hash) => componentForm l referer params (inlineInvocation hash)
  | some (.part params) => partialForm l referer params
  | some (.named handle params hash) => component l referer handle (inlineInvocation hash params)
  | none => true

theorem works_inlineCall (hlazy : c.strategy = .lazy) (name : String)
    (params : Option (List Expression)) (hash : Option Hash)
    (h : Compilable.inlined c.lookup c.layout.referer
      (Compilable.inlineCall? c.lookup c.layout.referer name params hash)) :
    Works c held (Emit.inlineCall name params hash) fun inlined =>
      inlined = (Compilable.inlineCall? c.lookup c.layout.referer name params hash).isSome := by
  unfold Emit.inlineCall
  unfold Compilable.inlineCall? at h ⊢
  split
  · exact (works_componentForm hlazy _ h).seq fun _ => Works.pure rfl
  · exact (works_partialForm hlazy _ h).seq fun _ => Works.pure rfl
  · rename_i hcomponent hpartial
    rw [if_neg hcomponent, if_neg hpartial] at h ⊢
    show Works c held (match c.lookup.component? name c.layout.referer with
      | some handle => do
        Emit.component handle { params := params.getD [], hash, synthetic := true }
        return true
      | none => return false) _
    cases hhandle : c.lookup.component? name c.layout.referer with
    | none => exact Works.pure rfl
    | some handle =>
      rw [hhandle] at h
      exact (works_component hlazy h).seq fun _ => Works.pure rfl

theorem works_append (hlazy : c.strategy = .lazy) {value : Expression} (trusted : Bool)
    (h : Compilable.append c.lookup c.layout.referer value) :
    Works c held (Emit.append value trusted) anything := by
  have hinlined : Compilable.inlined c.lookup c.layout.referer
      (Compilable.inline? c.lookup c.layout.referer value) := by
    unfold Compilable.append at h
    cases hinline : Compilable.inline? c.lookup c.layout.referer value with
    | none => rfl
    | some inline =>
      rw [hinline] at h
      cases inline <;> exact h
  have hform : Works c held (Emit.inlineForm value) fun inlined =>
      inlined = (Compilable.inline? c.lookup c.layout.referer value).isSome := by
    cases value with
    | unknown name => exact works_inlineCall hlazy name none none hinlined
    | helper name params hash => exact works_inlineCall hlazy name params hash hinlined
    | _ => exact Works.pure rfl
  refine hform.bind fun inlined heq => ?_
  cases inlined with
  | true => exact Works.pure trivial
  | false =>
    have hnone := Option.isNone_iff_eq_none.mp (Option.isSome_eq_false_iff.mp heq.symm)
    unfold Compilable.append at h
    rw [hnone] at h
    show Works c held (if trusted || value.isGet then Emit.guardedAppend value trusted
      else do
        Emit.expression value
        Emit.op .dynamicContent 0) anything
    split
    · exact works_guardedAppend hlazy trusted h
    · exact (works_expression value h).seq fun _ => Works.op

/-! ### Statements -/

theorem works_staticAttr (mode : AttrMode) (name value : String) (space : Option String) :
    Works c held (Emit.staticAttr mode name value space) anything := by
  refine Works.onConstants.seq fun _ => (works_namespaceString space).seq fun _ => ?_
  cases mode with
  | component => exact (works_reference _).seq fun _ => Works.op
  | element => exact Works.onConstants.seq fun _ => Works.op

theorem works_dynamicAttr (mode : AttrMode) (name : String) (space : Option String)
    (trusting : Bool) : Works c held (Emit.dynamicAttr mode name space trusting) anything :=
  Works.onConstants.seq fun _ => (works_namespaceString space).seq fun _ => Works.op

mutual

theorem works_statement (hlazy : c.strategy = .lazy) (mode : AttrMode) (s : Statement)
    (h : Compilable.statement c.lookup c.layout s) :
    Works c held (Emit.statement mode s) anything := by
  cases s with
  | text s => exact works_onString .text s
  | comment s => exact works_onString .comment s
  | append value trusted => exact works_append hlazy trusted h
  | openElement tag => exact works_onString .openElement tag
  | flushElement => exact Works.op
  | closeElement => exact Works.op
  | staticAttr name value space => exact works_staticAttr mode name value space
  | dynamicAttr name value space trusting =>
    exact (works_expression value h).seq fun _ => works_dynamicAttr mode name space trusting
  | modifier name params hash =>
    unfold Compilable.statement at h
    rw [Bool.and_eq_true] at h
    obtain ⟨handle, hhandle⟩ := Option.isSome_iff_exists.mp h.1
    exact Works.orFail (v := c.lookup.modifier? name c.layout.referer) (e := .unknownModifier name)
      hhandle
      ((works_args true h.2).seq fun _ => works_onHandle .modifier handle)
  | block name params hash template inverse =>
    unfold Compilable.statement at h
    split at h
    · rename_i main other hmain hother
      refine (works_optionalBlock hmain).bind fun f hf => (works_optionalBlock hother).seq
        fun g => works_blockCall hlazy (Eq.trans (Compilable.blockCall_alike ?_) h)
      exact ⟨rfl, rfl, rfl, hf⟩
    · cases h
  | component tag attrs hash body =>
    unfold Compilable.statement at h
    split at h
    · rename_i block hblock
      refine (works_optionalBlock hblock).seq fun f => ?_
      show Works c held (match c.lookup.component? tag c.layout.referer with
        | some handle => do
          let attrs ← Emit.attrsBlock attrs
          Emit.component handle { attrs := some attrs, hash, block := f }
        | none => do
          Emit.onString .openElement tag
          Emit.statements .element attrs
          Emit.op .flushElement
          if let some g := f then
            Emit.invokeStaticBlock g 0
          Emit.op .closeElement) anything
      cases hhandle : c.lookup.component? tag c.layout.referer with
      | some handle =>
        rw [hhandle] at h
        have hattrs : Works c held (Emit.attrsBlock attrs) anything := Works.newFragment _
        refine hattrs.seq fun passed => works_component hlazy ?_
        refine Eq.trans (Compilable.component_alike ?_ handle) h
        exact ⟨rfl, rfl, rfl⟩
      | none =>
        rw [hhandle] at h
        refine (works_onString .openElement tag).seq fun _ =>
          (works_statements hlazy .element attrs h).seq fun _ => Works.op.seq fun _ => ?_
        cases f with
        | none => exact Works.op
        | some g => exact (works_invokeStaticBlock hlazy g 0).seq fun _ => Works.op
    · cases h
  | yield slot params => exact works_yield slot _ h
  | attrSplat slot => exact (works_yield slot [] rfl).seq fun _ => Works.op
termination_by structural s

theorem works_statements (hlazy : c.strategy = .lazy) (mode : AttrMode) (ss : List Statement)
    (h : Compilable.statements c.lookup c.layout ss) :
    Works c held (Emit.statements mode ss) anything := by
  cases ss with
  | nil => exact Works.pure trivial
  | cons s rest =>
    unfold Compilable.statements at h
    rw [Bool.and_eq_true] at h
    exact (works_statement hlazy mode s h.1).seq fun _ => works_statements hlazy mode rest h.2
termination_by structural ss

end

end

/-- What is compilable can be linked lazily, into any program. -/
theorem Link.fragment_lazy {lookup : Lookup} {f : Fragment} (h : f.isCompilable lookup) (fuel : Nat)
    (p : Program) : ∃ handle p', Link.fragment lookup .lazy (fuel + 1) f p = .ok handle p' := by
  cases hlinked : p.linked? f.id with
  | some handle => exact ⟨handle, p, Link.fragment_of_linked hlinked⟩
  | none =>
    obtain ⟨_, b, hbody, hscopes, -⟩ := works_statements (c := f.context lookup .lazy fuel) rfl
      f.attrMode f.statements h { program := p.reserve f.id } (fun _ => False.elim)
    exact Link.fragment_of_ok hlinked hbody hscopes

end TemplateMachine
