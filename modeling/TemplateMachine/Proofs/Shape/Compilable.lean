import TemplateMachine.Proofs.Shape.Statement

/-! Only what is compilable has code. -/

namespace TemplateMachine.Coding

variable {k : Coding} {code : List Instruction}

mutual

theorem expression_compilable (e : Expression) {code : List Instruction}
    (h : k.expression e code) : Compilable.expression k.lookup k.referer e := by
  cases e with
  | value json =>
    obtain ⟨p, hp, -⟩ := h
    simp only [Compilable.expression, hp]
  | undefined => rfl
  | get head path => rfl
  | unknown name => rfl
  | helper name params hash =>
    unfold Coding.expression at h
    unfold Compilable.expression
    split at h
    · rename_i hname
      rw [if_pos hname]
      rcases params with _ | _ | ⟨definition, rest⟩
      · exact h.elim
      · exact h.elim
      · obtain ⟨first, positional, named, -, -, hfirst, hpositional, hnamed, -⟩ := h
        simp only [Bool.and_eq_true]
        exact ⟨⟨expression_compilable definition hfirst, expressions_compilable rest hpositional⟩,
          namedValues_compilable hash hnamed⟩
    · rename_i hname
      rw [if_neg hname]
      obtain ⟨handle, positional, named, -, -, hhandle, hpositional, hnamed, -⟩ := h
      simp only [Bool.and_eq_true, hhandle, Option.isSome_some, true_and]
      exact ⟨params?_compilable params hpositional, namedValues_compilable hash hnamed⟩
  | concat parts =>
    obtain ⟨values, hvalues, -⟩ := h
    exact expressions_compilable parts hvalues
  | hasBlock symbol => rfl
  | hasBlockParams symbol => rfl
termination_by structural e

theorem expressions_compilable (es : List Expression) {code : List Instruction}
    (h : k.expressions es code) : Compilable.expressions k.lookup k.referer es := by
  cases es with
  | nil => rfl
  | cons e rest =>
    obtain ⟨first, more, hfirst, hmore, -⟩ := h
    simp only [Compilable.expressions, Bool.and_eq_true]
    exact ⟨expression_compilable e hfirst, expressions_compilable rest hmore⟩
termination_by structural es

theorem params?_compilable (params : Option (List Expression)) {code : List Instruction}
    (h : k.params? params code) : Compilable.params? k.lookup k.referer params := by
  cases params with
  | none => rfl
  | some es => exact expressions_compilable es h
termination_by structural params

theorem namedValues_compilable (hash : Option (HashOf Expression)) {code : List Instruction}
    (h : k.namedValues hash code) : Compilable.namedValues k.lookup k.referer hash := by
  rcases hash with _ | ⟨names, values⟩
  · rfl
  · exact expressions_compilable values h.2
termination_by structural hash

end

theorem args_compilable {params : List Expression} {hash : Option Hash}
    (h : k.args params hash code) :
    Compilable.args k.lookup k.referer params hash := by
  obtain ⟨positional, named, gathered, hpositional, hnamed, -⟩ := h
  simp only [Compilable.args, Bool.and_eq_true]
  exact ⟨expressions_compilable params hpositional, namedValues_compilable hash hnamed⟩

/-! ### Invocations -/

theorem genericComponent_compilable {i : Invocation} {layout : Option Fragment}
    (h : k.genericComponent i layout code) :
    Compilable.args k.lookup k.referer i.params i.hash := by
  obtain ⟨passed, found, ⟨main, inverse, attrs, given, -, -, -, hgiven, -⟩, -⟩ := h
  exact args_compilable hgiven

theorem symbolCode_compilable {i : Invocation} {symbol : String} {binder : Option Opcode}
    (h : k.symbolCode i symbol code binder) :
    Compilable.symbol k.lookup k.referer i symbol := by
  cases hrole : SymbolRole.ofSymbol symbol with
  | block block =>
    simp only [Coding.symbolCode, Compilable.symbol, hrole] at h ⊢
    obtain ⟨f, hf, -⟩ := h
    rw [hf, Option.isSome_some]
  | argument argument bare =>
    simp only [Coding.symbolCode, Compilable.symbol, hrole] at h ⊢
    generalize (i.hash.bind fun hash => hash.get?
      (if i.synthetic then bare else argument)) = value at h ⊢
    cases value with
    | none => rfl
    | some value => exact expression_compilable value h.1
  | inner => simp only [Compilable.symbol, hrole]

theorem symbolsCode_compilable {i : Invocation} {symbols : List String}
    {bound binders : List (UInt32 × Opcode)} {slot : UInt32}
    (h : k.symbolsCode i bound slot symbols code binders) :
    symbols.all (Compilable.symbol k.lookup k.referer i) := by
  induction symbols generalizing bound slot code with
  | nil => rfl
  | cons symbol rest ih =>
    obtain ⟨first, more, binder, hfirst, -, hrest⟩ := h
    rw [List.all_cons, symbolCode_compilable hfirst, Bool.true_and]
    cases binder with
    | none => exact ih hrest
    | some op => exact ih hrest

theorem staticComponent_compilable {capabilities : Capabilities} {layout : Fragment}
    {i : Invocation} (h : k.staticComponent capabilities layout i code) :
    Compilable.staticComponent k.lookup k.referer capabilities layout i := by
  obtain ⟨table, htable, hcode⟩ := h
  unfold Compilable.staticComponent
  simp only [htable]
  split at hcode
  · rw [if_pos ‹_›]
    exact genericComponent_compilable hcode
  · rw [if_neg ‹_›, Bool.and_eq_true]
    obtain ⟨created, pushed, binders, called, hcreated, hpushed, -⟩ := hcode
    refine ⟨?_, symbolsCode_compilable hpushed⟩
    unfold Coding.creates at hcreated
    split at hcreated
    · obtain ⟨given, hgiven, -⟩ := hcreated
      rw [args_compilable hgiven, Bool.or_true]
    · rename_i hcreate
      rw [Bool.not_eq_true] at hcreate
      rw [hcreate]
      rfl

theorem component_compilable {handle : UInt32} {i : Invocation} (h : k.component handle i code) :
    Compilable.component k.lookup k.referer handle i := by
  obtain ⟨push, invoke, -, hinvoke, -⟩ := h
  unfold Compilable.component
  generalize (if (k.lookup.capabilities handle).dynamicLayout then none
    else k.lookup.layout? handle) = layout at hinvoke ⊢
  cases layout with
  | some layout => exact staticComponent_compilable hinvoke
  | none => exact genericComponent_compilable hinvoke

theorem componentForm_compilable {params : Option (List Expression)}
    {invocation : List Expression → Invocation} (h : k.componentForm params invocation code) :
    Compilable.componentForm k.lookup k.referer params invocation := by
  rcases params with _ | _ | ⟨definition, rest⟩
  · exact h.elim
  · exact h.elim
  · cases hliteral : Compilable.literalComponent? k.lookup k.referer definition with
    | some handle =>
      simp only [Coding.componentForm, Compilable.componentForm, hliteral] at h ⊢
      exact component_compilable h
    | none =>
      simp only [Coding.componentForm, Compilable.componentForm, hliteral, Bool.and_eq_true] at h ⊢
      obtain ⟨push, find, invoke, hpush, -, hinvoke, -⟩ := h
      exact ⟨expression_compilable _ hpush, genericComponent_compilable hinvoke⟩

/-! ### Statements -/

theorem single_compilable {call : BlockCall} {form : Expression → Fragment → Prop}
    (h : Coding.single call form)
    (hform : ∀ e main, form e main → Compilable.expression k.lookup k.referer e) :
    Compilable.singleForm k.lookup k.referer call := by
  unfold Coding.single at h
  unfold Compilable.singleForm
  generalize call.params = params, call.template = template at h ⊢
  rcases params with _ | _ | ⟨param, _ | _⟩ <;> rcases template with _ | main <;> try exact h.elim
  exact hform param main h

theorem each_compilable {call : BlockCall}
    (h : Coding.single call fun e main =>
      k.eachBlock (Compilable.key? call) e main call.inverse code) :
    (Compilable.singleForm k.lookup k.referer call &&
      ((Compilable.key? call).all fun key => Compilable.expression k.lookup k.referer key)) := by
  rw [Bool.and_eq_true]
  refine ⟨single_compilable h fun e main => ?_, ?_⟩
  · rintro ⟨keys, push, body, -, hpush, -⟩
    exact expression_compilable e hpush
  · unfold Coding.single at h
    split at h
    · obtain ⟨keys, push, body, hkeys, -⟩ := h
      cases hkey : Compilable.key? call with
      | none => rfl
      | some key =>
        rw [hkey] at hkeys
        exact expression_compilable key hkeys
    · exact h.elim

theorem blockCall_compilable {call : BlockCall} (h : k.blockCall call code) :
    Compilable.blockCall k.lookup k.referer call := by
  have hconditional (op : Opcode) (e : Expression) (main : Fragment)
      (h : k.conditional op e main call.inverse code) :
      Compilable.expression k.lookup k.referer e := by
    obtain ⟨value, body, hvalue, -⟩ := h
    exact expression_compilable e hvalue
  unfold Coding.blockCall at h
  unfold Compilable.blockCall
  split at h
  · rw [if_pos (.inl ‹_›)]
    exact single_compilable h (hconditional _)
  · split at h
    · rw [if_pos (.inr (.inl ‹_›))]
      exact single_compilable h (hconditional _)
    · split at h
      · rw [if_pos (.inr (.inr ‹_›))]
        refine single_compilable h fun e main => ?_
        rintro ⟨push, body, hpush, -⟩
        exact expression_compilable e hpush
      · rw [if_neg (by simp [*])]
        split at h
        · rw [if_pos ‹_›]
          exact each_compilable h
        · rw [if_neg ‹_›]
          split at h
          · rw [if_pos ‹_›]
            exact componentForm_compilable h
          · rw [if_neg ‹_›]
            obtain ⟨handle, hhandle, hcode⟩ := h
            simp only [hhandle]
            exact component_compilable hcode

theorem partialForm_compilable {params : Option (List Expression)} (h : k.partialForm params code) :
    Compilable.partialForm k.lookup k.referer params := by
  unfold Coding.partialForm at h
  split at h
  · obtain ⟨f, table, call, hpart, -⟩ := h
    simp only [Compilable.partialForm, hpart, Option.isSome_some]
  · exact h.elim

theorem append_compilable {value : Expression} {trusted : Bool} (h : k.append value trusted code) :
    Compilable.append k.lookup k.referer value := by
  rcases hform : Compilable.inline? k.lookup k.referer value with _ | form
  · simp only [Coding.append, Compilable.append, hform] at h ⊢
    split at h
    · obtain ⟨push, find, invoke, hpush, -⟩ := h
      exact expression_compilable value hpush
    · obtain ⟨push, hpush, -⟩ := h
      exact expression_compilable value hpush
  · simp only [Coding.append, Compilable.append, hform] at h ⊢
    cases form with
    | component params hash => exact componentForm_compilable h
    | named handle params hash => exact component_compilable h
    | part params => exact partialForm_compilable h

end TemplateMachine.Coding

namespace TemplateMachine

/-! ### Fragments

Whether a piece is compilable does not depend on the identities of fragments. -/

/-- Invocations with the same arguments. -/
structure Invocation.Alike (i j : Invocation) : Prop where
  params : i.params = j.params
  hash : i.hash = j.hash
  synthetic : i.synthetic = j.synthetic

/-- Block statements with the same arguments. -/
structure BlockCall.Alike (a b : BlockCall) : Prop where
  name : a.name = b.name
  params : a.params = b.params
  hash : a.hash = b.hash
  template : a.template.isSome = b.template.isSome

theorem BlockCall.Alike.invocation {a b : BlockCall} (h : a.Alike b) (es : List Expression) :
    (a.invocation es).Alike (b.invocation es) := ⟨rfl, h.hash, rfl⟩

namespace Compilable

variable {l : Lookup} {referer : String} {i j : Invocation}

theorem symbol_alike (h : i.Alike j) (name : String) :
    symbol l referer i name = symbol l referer j name := by
  unfold symbol
  rw [h.hash, h.synthetic]
  cases SymbolRole.ofSymbol name with
  | block symbol =>
    unfold Invocation.blockOf?
    simp only
    repeat' split
    all_goals rfl
  | argument symbol bare => rfl
  | inner => rfl

theorem component_alike (h : i.Alike j) (handle : UInt32) :
    component l referer handle i = component l referer handle j := by
  have hsymbol : symbol l referer i = symbol l referer j := funext (symbol_alike h)
  unfold component staticComponent
  simp only [h.params, h.hash, hsymbol]

theorem componentForm_alike {f g : List Expression → Invocation} (h : ∀ es, (f es).Alike (g es))
    (params : Option (List Expression)) :
    componentForm l referer params f = componentForm l referer params g := by
  unfold componentForm
  split
  · split
    · exact component_alike (h _) _
    · rw [(h _).params, (h _).hash]
  · rfl

theorem singleForm_alike {a b : BlockCall} (h : a.Alike b) :
    singleForm l referer a = singleForm l referer b := by
  obtain ⟨name, params, hash, template, inverse⟩ := a
  obtain ⟨name', params', hash', template', inverse'⟩ := b
  obtain rfl : params = params' := h.params
  have htemplate := h.template
  rcases params with _ | _ | ⟨e, _ | _⟩ <;> cases template <;> cases template' <;>
    first | rfl | cases htemplate

theorem blockCall_alike {a b : BlockCall} (h : a.Alike b) :
    blockCall l referer a = blockCall l referer b := by
  unfold blockCall key?
  rw [singleForm_alike h, componentForm_alike h.invocation, h.name, h.params, h.hash]
  simp only [component_alike (h.invocation _)]

end Compilable

namespace Coding

mutual

theorem statement_compilable {k : Coding} {mode : AttrMode} (s : Statement)
    {code : List Instruction} (h : k.statement mode s code) :
    Compilable.statement k.lookup k.layout s := by
  cases s with
  | append value trusted => exact append_compilable h
  | dynamicAttr name value space trusting =>
    obtain ⟨push, nameIndex, spaceIndex, hpush, -⟩ := h
    exact expression_compilable value hpush
  | modifier name params hash =>
    obtain ⟨handle, given, call, hhandle, hgiven, -⟩ := h
    unfold Compilable.statement
    rw [show k.lookup.modifier? name k.layout.referer = some handle from hhandle,
      Option.isSome_some, Bool.true_and]
    exact args_compilable hgiven
  | block name params hash template inverse =>
    obtain ⟨main, other, hmain, hother, hcode⟩ := h
    unfold Compilable.statement
    simp only [hmain, hother]
    refine Eq.trans (Compilable.blockCall_alike ?_) (blockCall_compilable hcode)
    exact ⟨rfl, rfl, rfl, Option.isSome_map⟩
  | component tag attrs hash body =>
    obtain ⟨block, hblock, hcode⟩ := h
    unfold Compilable.statement
    simp only [hblock]
    split at hcode
    · rename_i handle hhandle
      obtain ⟨passed, hpassed, hcode⟩ := hcode
      rw [show k.lookup.component? tag k.layout.referer = some handle from hhandle]
      refine Eq.trans (Compilable.component_alike ?_ handle) (component_compilable hcode)
      exact ⟨rfl, rfl, rfl⟩
    · rename_i hhandle
      obtain ⟨opening, inner, content, -, hinner, -⟩ := hcode
      rw [show k.lookup.component? tag k.layout.referer = none from hhandle]
      exact statements_compilable attrs hinner
  | yield slot params =>
    obtain ⟨given, ⟨positional, named, gathered, hpositional, -⟩, -⟩ := h
    exact expressions_compilable _ hpositional
  | _ => rfl
termination_by structural s

theorem statements_compilable {k : Coding} {mode : AttrMode} (ss : List Statement)
    {code : List Instruction} (h : k.statements mode ss code) :
    Compilable.statements k.lookup k.layout ss := by
  cases ss with
  | nil => rfl
  | cons s rest =>
    obtain ⟨first, more, hfirst, hmore, -⟩ := h
    unfold Compilable.statements
    rw [Bool.and_eq_true]
    exact ⟨statement_compilable s hfirst, statements_compilable rest hmore⟩
termination_by structural ss

end

end Coding

theorem Fragment.HasCode.compilable {f : Fragment} {lookup : Lookup} {strategy : Strategy}
    {l : Linkage} {code : List Instruction} (h : f.HasCode lookup strategy l code) :
    f.isCompilable lookup :=
  Coding.statements_compilable f.statements h

end TemplateMachine
