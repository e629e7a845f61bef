import Mathlib.Data.List.Perm.Subperm
import Mathlib.Logic.Relation
import TemplateMachine.Proofs.Plain.Follow
import TemplateMachine.Proofs.Walk.Statement

/-! Walks of statements where nothing is a component, given that the fragments which they refer to
are rendered as in plain rendering. -/

namespace TemplateMachine

/-! ### References -/

/-- The partial that is rendered where an expression is appended. -/
def Expression.partial? (l : Lookup) (referer : String) (e : Expression) : Option Fragment :=
  match e.call? with
  | some ("partial", some [.value (.str name)]) =>
    (Compilable.partial? l referer name).map fun found => found.1.body
  | _ => none

/-- The block of an index that need not be given. -/
def Layout.references (layout : Layout) (index : Option Nat) : List Fragment :=
  (index.bind layout.block?).toList

mutual

/-- The nested blocks and the partial that a statement refers to. -/
def Statement.references (l : Lookup) (layout : Layout) : Statement → List Fragment
  | .append value _ => (value.partial? l layout.referer).toList
  | .block _ _ _ template inverse => layout.references template ++ layout.references inverse
  | .component _ attrs _ body => layout.references body ++ Statement.allReferences l layout attrs
  | _ => []

def Statement.allReferences (l : Lookup) (layout : Layout) : List Statement → List Fragment
  | [] => []
  | st :: rest => st.references l layout ++ Statement.allReferences l layout rest

end

/-- The nested blocks and partials that a fragment refers to. -/
def Fragment.references (l : Lookup) (f : Fragment) : List Fragment :=
  Statement.allReferences l f.layout f.statements

theorem Plain.append_of {s : Scene} {p : Place} {call : Call} {value : Expression} {trusted : Bool}
    {name : String} {params : Option (List Expression)} (hcall : value.call? = some (name, params))
    (hcomponent : name ≠ "component") (hpartial : name ≠ "partial") :
    append s p call value trusted = (do content s trusted (← expression s p value)) := by
  unfold append
  rw [hcall]
  split
  · exact absurd (congrArg Prod.fst (Option.some.inj ‹_›)) hcomponent
  · exact absurd (congrArg Prod.fst (Option.some.inj ‹_›)) hpartial
  · rfl

namespace Walk

/-- Walks of a fragment do what plain rendering does. -/
def Mirrors (s : Scene) (call : Call) (render : Plain.Call) (f : Fragment) : Prop :=
  ∀ slots v, slots.Shows s.cells v → Follows (call f slots none) (render f v) fun _ => True

variable {s : Scene} {call : Call} {render : Plain.Call} {layout : Layout}
variable {slots : Slots} {v : Values}

theorem follows_block (hv : slots.Shows s.cells v) {f : Fragment} (hf : Mirrors s call render f)
    (given : List Reference) (hgiven : ∀ r ∈ given, r.IsData s.cells) :
    Follows (staticBlock ⟨layout, slots, none⟩ call f given)
      (Plain.block ⟨layout, v⟩ render f given)
      fun _ => True :=
  hf _ _ (hv.bindValues f.table.parameters given hgiven)

/-- The blocks of a block statement are rendered as in plain rendering. -/
structure MirrorsBlocks (s : Scene) (call : Call) (render : Plain.Call) (b : BlockCall) : Prop where
  template : ∀ f, b.template = some f → Mirrors s call render f
  inverse : ∀ f, b.inverse = some f → Mirrors s call render f

/-! ### Block forms -/

section

variable {b : BlockCall} (hv : slots.Shows s.cells v) (hb : MirrorsBlocks s call render b)

include hv hb

theorem follows_inverse :
    Follows (inverse ⟨layout, slots, none⟩ call b) (Plain.inverse ⟨layout, v⟩ render b)
      fun _ => True := by
  unfold inverse Plain.inverse
  cases hinverse : b.inverse with
  | none => exact .pure trivial
  | some f => exact follows_block hv (hb.inverse f hinverse) [] (List.forall_mem_nil _)

omit hv hb in
/-- A block form that can be compiled has one parameter and a main block. -/
theorem single_of (h : Compilable.singleForm s.lookup layout.referer b) :
    ∃ param main, b.params = some [param] ∧ b.template = some main ∧
      Compilable.expression s.lookup layout.referer param ∧
      single b = pure (param, main) ∧ Plain.single b = pure (param, main) := by
  unfold Compilable.singleForm at h
  unfold single Plain.single
  split at h
  · rename_i param main hparams htemplate
    refine ⟨param, main, hparams, htemplate, h, ?_, ?_⟩ <;> simp only [hparams, htemplate]
  · cases h

variable (hs : s.ComponentFree)

include hs

theorem follows_conditional (expected : Bool)
    (h : Compilable.singleForm s.lookup layout.referer b) :
    Follows (conditional s ⟨layout, slots, none⟩ call expected b)
      (Plain.conditional s ⟨layout, v⟩ render expected b) fun _ => True := by
  obtain ⟨param, main, -, htemplate, hparam, hwalk, hplain⟩ := single_of h
  unfold conditional Plain.conditional
  rw [hwalk, hplain, pure_bind, pure_bind]
  refine (follows_expression hs hv param hparam).bind fun value _ => ?_
  split
  · exact follows_block hv (hb.template main htemplate) [] (List.forall_mem_nil _)
  · exact follows_inverse hv hb

theorem follows_withBlock (h : Compilable.singleForm s.lookup layout.referer b) :
    Follows (withBlock s ⟨layout, slots, none⟩ call b) (Plain.withBlock s ⟨layout, v⟩ render b)
      fun _ => True := by
  obtain ⟨param, main, -, htemplate, hparam, hwalk, hplain⟩ := single_of h
  unfold withBlock Plain.withBlock
  rw [hwalk, hplain, pure_bind, pure_bind]
  refine (follows_expression hs hv param hparam).bind fun value hvalue => ?_
  split
  · exact follows_block hv (hb.template main htemplate) [value]
      (List.forall_mem_singleton.mpr hvalue)
  · exact follows_inverse hv hb

omit hs hb in
/-- Items are rendered one after the other, whatever their keys. -/
theorem follows_eachItem {main : Fragment} (hmain : Mirrors s call render main) (i : Iteration)
    (seen : List String) (index count : Nat) :
    Follows (eachItem ⟨layout, slots, none⟩ call main (i.itemsFrom s.cells seen index count))
      (Plain.eachItem ⟨layout, v⟩ render main i.list (List.range' index count)) fun _ => True := by
  induction count generalizing seen index with
  | zero => exact .pure trivial
  | succ count ih =>
    unfold Iteration.itemsFrom
    rw [List.range'_succ]
    refine Follows.bind (follows_block hv hmain _ fun r hr => ?_) fun _ _ => ih _ _
    rcases List.mem_cons.mp hr with rfl | hr
    · exact Reference.isData_property _ _ _
    · rw [List.mem_singleton.mp hr]
      exact Reference.isData_ofJson _ _

omit hs in
/-- A list is rendered item by item; if it has no items the inverse is rendered. -/
theorem follows_items {main : Fragment} (hmain : Mirrors s call render main) (i : Iteration)
    (count : Nat) :
    Follows
      (if (i.itemsFrom s.cells [] 0 count).isEmpty then inverse ⟨layout, slots, none⟩ call b
        else eachItem ⟨layout, slots, none⟩ call main (i.itemsFrom s.cells [] 0 count))
      (if count = 0 then Plain.inverse ⟨layout, v⟩ render b
        else Plain.eachItem ⟨layout, v⟩ render main i.list (List.range count)) fun _ => True := by
  have hitems : Follows
      (eachItem ⟨layout, slots, none⟩ call main (i.itemsFrom s.cells [] 0 count))
      (Plain.eachItem ⟨layout, v⟩ render main i.list (List.range' 0 count)) fun _ => True :=
    follows_eachItem hv hmain i [] 0 count
  rw [List.range_eq_range']
  cases count with
  | zero => exact follows_inverse hv hb
  | succ count => exact hitems

theorem follows_eachBlock (h : Compilable.singleForm s.lookup layout.referer b)
    (hkey : (Compilable.key? b).all fun key => Compilable.expression s.lookup layout.referer key) :
    Follows (eachBlock s ⟨layout, slots, none⟩ call b) (Plain.eachBlock s ⟨layout, v⟩ render b)
      fun _ => True := by
  obtain ⟨param, main, -, htemplate, hparam, hwalk, hplain⟩ := single_of h
  unfold eachBlock Plain.eachBlock keyValue
  rw [hwalk, hplain, pure_bind, pure_bind]
  cases hfound : Compilable.key? b with
  | none =>
    simp only [pure_bind]
    exact (follows_expression hs hv param hparam).bind fun list _ =>
      follows_items hv hb (hb.template main htemplate) _ _
  | some key =>
    rw [hfound] at hkey
    simp only
    exact (follows_expression hs hv key hkey).bind fun _ _ =>
      (follows_expression hs hv param hparam).bind fun list _ =>
        follows_items hv hb (hb.template main htemplate) _ _

omit hv hb in
/-- A value that stands for a component is none here, if it is not null. -/
theorem follows_noComponent (call : Call) (i : Invocation) {value : Reference}
    (hdata : value.IsData s.cells) (htrue : (value.value s.cells).isTruthy) :
    Follows (dynamicComponent s ⟨layout, slots, none⟩ call value i) (Plain.noComponent s value)
      fun _ => True := by
  unfold Reference.IsData at hdata
  unfold dynamicComponent dynamicState Plain.noComponent
  cases hvalue : value.value s.cells with
  | component handle inner =>
    rw [hvalue] at hdata
    cases hdata
  | data json =>
    rw [hvalue] at htrue
    cases json with
    | null => cases htrue
    | str name =>
      simp only [hs.unknown]
      exact .fail rfl
    | _ => exact .fail rfl

omit hb in
theorem follows_componentForm (params : Option (List Expression))
    (invocation : List Expression → Invocation)
    (h : Compilable.componentForm s.lookup layout.referer params invocation) :
    Follows (componentForm s ⟨layout, slots, none⟩ call params invocation)
      (Plain.componentForm s ⟨layout, v⟩ params) fun _ => True := by
  rcases params with _ | ⟨_ | ⟨definition, rest⟩⟩
  · cases h
  · cases h
  · have hnone : Compilable.literalComponent? s.lookup layout.referer definition = none := by
      unfold Compilable.literalComponent?
      split
      · exact hs.unnamed _ _
      · rfl
    unfold Compilable.componentForm at h
    unfold componentForm Plain.componentForm
    rw [show (Site.mk layout slots none).referer = layout.referer from rfl]
    simp only [hnone, Bool.and_eq_true] at h ⊢
    refine (follows_expression hs hv definition h.1).bind fun value hvalue => ?_
    split
    · exact follows_noComponent hs call _ hvalue ‹_›
    · exact .pure trivial

theorem follows_blockCall (h : Compilable.blockCall s.lookup layout.referer b) :
    Follows (blockCall s ⟨layout, slots, none⟩ call b) (Plain.blockCall s ⟨layout, v⟩ render b)
      fun _ => True := by
  unfold Compilable.blockCall at h
  unfold blockCall Plain.blockCall
  split
  · rename_i hname
    simp only [hname, true_or, if_true] at h ⊢
    exact follows_conditional hv hb hs true h
  · rename_i hname
    simp only [hname, or_true, true_or, if_true] at h ⊢
    exact follows_conditional hv hb hs false h
  · rename_i hname
    simp only [hname, or_true, if_true] at h ⊢
    exact follows_withBlock hv hb hs h
  · rename_i hname
    simp only [hname, String.reduceEq, or_self, if_false, if_true, Bool.and_eq_true] at h ⊢
    exact follows_eachBlock hv hb hs h.1 h.2
  · rename_i hname
    simp only [hname, String.reduceEq, or_self, if_false, if_true] at h ⊢
    exact follows_componentForm hv hs _ _ h
  · rename_i hif hunless hwith heach hcomponent
    rw [if_neg fun h => h.elim hif fun h => h.elim hunless hwith, if_neg heach, if_neg hcomponent,
      hs.unnamed] at h
    cases h

end

/-! ### Appended values -/

section

variable (hs : s.ComponentFree) (hv : slots.Shows s.cells v)

omit hs hv in
theorem follows_content (trusting : Bool) (value : Reference) :
    Follows (content s trusting value) (Plain.content s trusting value) fun _ => True := by
  unfold content Plain.content
  cases (value.value s.cells).content? with
  | some content => exact follows_emit _
  | none => exact .pure trivial

include hv

theorem follows_partialForm {params : Option (List Expression)}
    (h : Compilable.partialForm s.lookup layout.referer params) {value : Expression}
    (hvalue : value.call? = some ("partial", params))
    (hpart : ∀ f ∈ value.partial? s.lookup layout.referer, Mirrors s call render f) :
    Follows (partialForm s ⟨layout, slots, none⟩ call params)
      (Plain.partialForm s ⟨layout, v⟩ render params) fun _ => True := by
  unfold Compilable.partialForm at h
  unfold Expression.partial? at hpart
  rw [hvalue] at hpart
  unfold partialForm Plain.partialForm
  split at h
  · rename_i name
    obtain ⟨⟨f, table⟩, hf⟩ := Option.isSome_iff_exists.mp h
    simp only [hf] at hpart
    rw [show (Site.mk layout slots none).referer = layout.referer from rfl,
      show (Plain.Place.mk layout v).referer = layout.referer from rfl]
    simp only [hf, orUndefined_some, Plain.orFail_some]
    exact hpart f.body rfl _ _ hv.ofSelf
  · cases h

include hs

/-- An appended value that is no form is written. -/
theorem follows_written (value : Expression) (trusted : Bool)
    (h : Compilable.expression s.lookup layout.referer value) :
    Follows
      (if trusted || value.isGet then guardedAppend s ⟨layout, slots, none⟩ call value trusted
        else do content s false (← expression s ⟨layout, slots, none⟩ value))
      (do Plain.content s trusted (← Plain.expression s ⟨layout, v⟩ value)) fun _ => True := by
  split
  · unfold guardedAppend
    refine (follows_expression hs hv value h).bind fun r hr => ?_
    unfold Reference.IsData at hr
    rw [hr]
    exact follows_content trusted r
  · rename_i hguarded
    rw [Bool.or_eq_true, not_or, Bool.not_eq_true] at hguarded
    rw [hguarded.1]
    exact (follows_expression hs hv value h).bind fun r _ => follows_content false r

/-- The call of a name is a form, or else a value that is written. -/
theorem follows_appendCall {value : Expression} (trusted : Bool) {name : String}
    {params : Option (List Expression)} (hash : Option Hash)
    (hcall : value.call? = some (name, params))
    (hinline : Compilable.inline? s.lookup layout.referer value =
      Compilable.inlineCall? s.lookup layout.referer name params hash)
    (h : Compilable.append s.lookup layout.referer value)
    (hpart : ∀ f ∈ value.partial? s.lookup layout.referer, Mirrors s call render f) :
    Follows (append s ⟨layout, slots, none⟩ call value trusted)
      (Plain.append s ⟨layout, v⟩ render value trusted) fun _ => True := by
  unfold Compilable.append at h
  unfold append
  rw [show (Site.mk layout slots none).referer = layout.referer from rfl]
  rw [hinline] at h ⊢
  unfold Compilable.inlineCall? at h ⊢
  by_cases hcomponent : name = "component"
  · unfold Plain.append
    simp only [hcomponent, if_true] at h hcall ⊢
    rw [hcall]
    exact follows_componentForm hv hs params _ h
  · by_cases hpartial : name = "partial"
    · unfold Plain.append
      simp only [hpartial, String.reduceEq, if_false, if_true] at h hcall ⊢
      rw [hcall]
      exact follows_partialForm hv h hcall hpart
    · rw [Plain.append_of hcall hcomponent hpartial]
      simp only [if_neg hcomponent, if_neg hpartial, hs.unnamed, Option.map_none] at h ⊢
      exact follows_written hs hv value trusted h

theorem follows_append (value : Expression) (trusted : Bool)
    (h : Compilable.append s.lookup layout.referer value)
    (hpart : ∀ f ∈ value.partial? s.lookup layout.referer, Mirrors s call render f) :
    Follows (append s ⟨layout, slots, none⟩ call value trusted)
      (Plain.append s ⟨layout, v⟩ render value trusted) fun _ => True := by
  cases value with
  | unknown name => exact follows_appendCall hs hv trusted none rfl rfl h hpart
  | helper name params hash => exact follows_appendCall hs hv trusted hash rfl rfl h hpart
  | _ => exact follows_written hs hv _ trusted h

end

/-! ### Statements -/

theorem follows_setAttribute (name : String) (value space : Option String) :
    Follows (setAttribute .element name value space) (Plain.setAttribute name value space)
      fun _ => True :=
  follows_onElement _

theorem follows_setAttributes (attributes : List (String × String)) :
    Follows (setAttributes attributes) (Plain.setAttributes attributes) fun _ => True := by
  induction attributes with
  | nil => exact .pure trivial
  | cons first rest ih => exact (follows_onElement _).bind fun _ _ => ih

theorem follows_applyModifier (hs : s.ComponentFree) {name referer : String} {handle : UInt32}
    (h : s.lookup.modifier? name referer = some handle) (args : Arguments) :
    Follows (applyModifier s handle args) (Plain.applyModifier s handle args) fun _ => True := by
  obtain ⟨change, hchange⟩ := Option.isSome_iff_exists.mp (hs.modifier name referer handle h)
  unfold applyModifier Plain.applyModifier
  rw [hchange, orUndefined_some]
  refine (follows_record _).bind fun _ _ => .get fun w => ?_
  rw [show w.page.events = w.events from rfl]
  cases change w.events s.cells args with
  | ok attributes => exact follows_setAttributes attributes
  | error message => exact .fail rfl

/-- A yield finds no block. -/
theorem follows_yield (hs : s.ComponentFree) (hv : slots.Shows s.cells v) (slot : UInt32)
    (params : List Expression) (h : Compilable.expressions s.lookup layout.referer params) :
    Follows (yield s ⟨layout, slots, none⟩ call slot params)
      (do let _ ← Plain.expressions s ⟨layout, v⟩ params) fun _ => True := by
  unfold yield args
  rw [bind_assoc]
  refine (follows_expressions hs hv params h).bind fun given _ => ?_
  unfold namedValues
  simp only [pure_bind]
  split
  · rename_i f written hblock
    exact absurd hblock (hv.noBlock slot f written)
  · exact .pure trivial

/-- The block of an index, if one is given and there is such a block. -/
theorem optionalBlock_of {index : Option Nat} {block : Option Fragment}
    (h : layout.optionalBlock? index = some block) :
    Plain.optionalBlock ⟨layout, v⟩ index = pure block ∧
    block.toList = layout.references index := by
  unfold Plain.optionalBlock Layout.references
  cases index with
  | none =>
    obtain rfl := Option.some.inj h
    exact ⟨rfl, rfl⟩
  | some index =>
    obtain ⟨f, hf, rfl⟩ := Option.map_eq_some_iff.mp h
    simp only [hf, Plain.orFail_some, Option.bind_some]
    exact ⟨trivial, trivial⟩

mutual

theorem follows_statement (hs : s.ComponentFree) (hv : slots.Shows s.cells v) (st : Statement)
    (h : Compilable.statement s.lookup layout st)
    (hreferences : ∀ f ∈ st.references s.lookup layout, Mirrors s call render f) :
    Follows (statement s ⟨layout, slots, none⟩ call .element st)
      (Plain.statement s ⟨layout, v⟩ render st) fun _ => True := by
  cases st with
  | text text => exact follows_emit fun sink => sink.appendText text
  | comment text => exact follows_emit fun sink => sink.appendComment text
  | append value trusted =>
    exact follows_append hs hv value trusted h fun f hf => hreferences f (Option.mem_toList.mpr hf)
  | openElement tag => exact follows_emit fun sink => sink.openElement tag
  | flushElement => exact follows_onElement _
  | closeElement => exact follows_onElement _
  | staticAttr name value space => exact follows_setAttribute _ _ _
  | dynamicAttr name value space trusting =>
    exact (follows_expression hs hv value h).bind fun _ _ => follows_setAttribute _ _ _
  | modifier name params hash =>
    unfold Compilable.statement Compilable.args at h
    simp only [Bool.and_eq_true] at h
    obtain ⟨handle, hhandle⟩ := Option.isSome_iff_exists.mp h.1
    unfold statement Plain.statement args
    rw [show (Site.mk layout slots none).referer = layout.referer from rfl,
      show (Plain.Place.mk layout v).referer = layout.referer from rfl, hhandle, orUndefined_some,
      Plain.orFail_some, bind_assoc]
    refine (follows_expressions hs hv _ h.2.1).bind fun positional _ => ?_
    rw [bind_assoc]
    refine (follows_namedValues hs hv hash h.2.2).bind fun named _ => ?_
    exact follows_applyModifier hs hhandle ⟨positional, named.1.map bareName, named.2⟩
  | block name params hash template inverse =>
    unfold Compilable.statement at h
    unfold Statement.references at hreferences
    unfold statement Plain.statement
    split at h
    · rename_i template' inverse' htemplate hinverse
      obtain ⟨ht, ht'⟩ := optionalBlock_of (v := v) htemplate
      obtain ⟨hi, hi'⟩ := optionalBlock_of (v := v) hinverse
      rw [← ht', ← hi', List.forall_mem_append] at hreferences
      simp only [htemplate, hinverse, ht, hi, orUndefined_some, pure_bind]
      exact follows_blockCall hv ⟨fun f hf => hreferences.1 f (Option.mem_toList.mpr hf),
        fun f hf => hreferences.2 f (Option.mem_toList.mpr hf)⟩ hs h
    · cases h
  | component tag attrs hash body =>
    unfold Compilable.statement at h
    unfold Statement.references at hreferences
    unfold statement Plain.statement
    rw [show (Site.mk layout slots none).referer = layout.referer from rfl]
    split at h
    · rename_i block hblock
      obtain ⟨hplain, hreference⟩ := optionalBlock_of (v := v) hblock
      rw [← hreference, List.forall_mem_append] at hreferences
      rw [hs.unnamed] at h ⊢
      simp only [hblock, hplain, orUndefined_some, pure_bind]
      refine (follows_emit fun sink => sink.openElement tag).bind fun _ _ =>
        (follows_statements hs hv attrs h hreferences.2).bind fun _ _ =>
          (follows_onElement Sink.flushElement).bind fun _ _ => ?_
      cases block with
      | none => exact follows_onElement Sink.closeElement
      | some f =>
        exact (follows_block hv (hreferences.1 f (List.mem_singleton_self f)) []
          (List.forall_mem_nil _)).bind fun _ _ => follows_onElement Sink.closeElement
    · cases h
  | yield slot params => exact follows_yield hs hv slot _ h
  | attrSplat slot =>
    have hcreated : Follows (elementCreated ⟨layout, slots, none⟩) (pure ()) fun _ => True :=
      fun _ => ⟨trivial, rfl⟩
    exact (follows_yield hs hv slot [] rfl).bind fun _ _ => hcreated
termination_by structural st

theorem follows_statements (hs : s.ComponentFree) (hv : slots.Shows s.cells v)
    (sts : List Statement) (h : Compilable.statements s.lookup layout sts)
    (hreferences : ∀ f ∈ Statement.allReferences s.lookup layout sts, Mirrors s call render f) :
    Follows (statements s ⟨layout, slots, none⟩ call .element sts)
      (Plain.statements s ⟨layout, v⟩ render sts) fun _ => True := by
  cases sts with
  | nil => exact .pure trivial
  | cons st rest =>
    unfold Compilable.statements at h
    unfold Statement.allReferences at hreferences
    rw [Bool.and_eq_true] at h
    rw [List.forall_mem_append] at hreferences
    exact (follows_statement hs hv st h.1 hreferences.1).bind fun _ _ =>
      follows_statements hs hv rest h.2 hreferences.2
termination_by structural sts

end

end Walk

end TemplateMachine

namespace TemplateMachine

/-! ### Fragments that do not come back to themselves.  Along references from such a fragment no
fragment occurs twice, so rendering needs no more depth than there are fragments. -/

namespace Lookup

/-- One fragment refers to another. -/
def Refers (l : Lookup) (f g : Fragment) : Prop := g ∈ f.references l

/-- A fragment is rendered below another, or is that itself. -/
def Reaches (l : Lookup) : Fragment → Fragment → Prop := Relation.ReflTransGen l.Refers

/-- No fragment in reach is rendered below itself. -/
def AcyclicFrom (l : Lookup) (f : Fragment) : Prop :=
  ∀ g, l.Reaches f g → ¬ Relation.TransGen l.Refers g g

end Lookup

/-- What plain rendering asks of a fragment. -/
structure Fragment.IsPlain (l : Lookup) (f : Fragment) : Prop where
  mode : f.attrMode = .element
  compilable : f.isCompilable l

namespace Walk

variable {s : Scene} {entry : Fragment} {all : List Fragment}

/-- A walk at a fragment that was come to by others, all different.  Since no more of them can come
than there are fragments, the depth is enough. -/
theorem mirrors_below (hs : s.ComponentFree)
    (hplain : ∀ f, s.lookup.Reaches entry f → f.IsPlain s.lookup ∧ f ∈ all)
    (hacyclic : s.lookup.AcyclicFrom entry) (depth : Nat) (path : List Fragment) (f : Fragment)
    (hf : s.lookup.Reaches entry f) (hpath : (f :: path).Nodup)
    (habove : ∀ g ∈ path, s.lookup.Reaches entry g ∧ Relation.TransGen s.lookup.Refers g f)
    (hdepth : all.length ≤ depth + path.length) :
    Mirrors s (call s depth) (Plain.fragment s depth) f := by
  induction depth generalizing path f with
  | zero =>
    have hsubset : f :: path ⊆ all := by
      intro g hg
      rcases List.mem_cons.mp hg with rfl | hg
      · exact (hplain g hf).2
      · exact (hplain g (habove g hg).1).2
    have hlength := (hpath.subperm hsubset).length_le
    rw [List.length_cons] at hlength
    omega
  | succ depth ih =>
    intro slots v hv
    obtain ⟨⟨hmode, hcompilable⟩, -⟩ := hplain f hf
    unfold call Plain.fragment
    simp only [if_pos hcompilable, hmode]
    refine follows_statements hs hv f.statements hcompilable fun g hg => ?_
    have hfg : Relation.TransGen s.lookup.Refers f g := .single hg
    have habove' : ∀ h ∈ f :: path, s.lookup.Reaches entry h ∧
        Relation.TransGen s.lookup.Refers h g := by
      intro h hh
      rcases List.mem_cons.mp hh with rfl | hh
      · exact ⟨hf, hfg⟩
      · exact ⟨(habove h hh).1, (habove h hh).2.trans hfg⟩
    have hnew : g ∉ f :: path := fun hmem =>
      hacyclic g (habove' g hmem).1 (habove' g hmem).2
    refine ih (f :: path) g (hf.tail hg) (List.nodup_cons.mpr ⟨hnew, hpath⟩) habove' ?_
    rw [List.length_cons]
    omega

/-- A walk does what plain rendering does, at the depth of as many
fragments as there are or more. -/
theorem mirrors_of_acyclic (hs : s.ComponentFree)
    (hplain : ∀ f, s.lookup.Reaches entry f → f.IsPlain s.lookup ∧ f ∈ all)
    (hacyclic : s.lookup.AcyclicFrom entry) {depth : Nat} (hdepth : all.length ≤ depth) :
    Mirrors s (call s depth) (Plain.fragment s depth) entry :=
  mirrors_below hs hplain hacyclic depth [] entry .refl
    (List.nodup_cons.mpr ⟨List.not_mem_nil, List.nodup_nil⟩) (List.forall_mem_nil _) hdepth

end Walk

/-! ### References within a lookup -/

theorem Expression.partial?_eq_some {l : Lookup} {referer : String} {e : Expression} {g : Fragment}
    (h : e.partial? l referer = some g) : ∃ handle f, l.partial? handle = some f ∧ g = f.body := by
  unfold Expression.partial? at h
  split at h
  · obtain ⟨found, hfound, rfl⟩ := Option.map_eq_some_iff.mp h
    unfold Compilable.partial? at hfound
    simp only [Option.bind_eq_bind, Option.bind_eq_some_iff, Option.pure_def, Option.some.injEq]
      at hfound
    obtain ⟨f, ⟨handle, -, hf⟩, table, -, rfl⟩ := hfound
    exact ⟨handle, f, hf, rfl⟩
  · cases h

theorem Layout.mem_references {layout : Layout} {index : Option Nat} {g : Fragment}
    (h : g ∈ layout.references index) : ∃ i, layout.block? i = some g := by
  unfold Layout.references at h
  obtain ⟨i, -, hi⟩ := Option.bind_eq_some_iff.mp (Option.mem_toList.mp h)
  exact ⟨i, hi⟩

mutual

/-- References are to nested blocks of the template, and to partials. -/
theorem Statement.mem_references {l : Lookup} {layout : Layout} {g : Fragment} (st : Statement)
    (h : g ∈ st.references l layout) :
    (∃ i, layout.block? i = some g) ∨ ∃ handle f, l.partial? handle = some f ∧ g = f.body := by
  cases st with
  | append value trusted => exact .inr (Expression.partial?_eq_some (Option.mem_toList.mp h))
  | block name params hash template inverse =>
    rcases List.mem_append.mp h with h | h <;> exact .inl (Layout.mem_references h)
  | component tag attrs hash body =>
    rcases List.mem_append.mp h with h | h
    · exact .inl (Layout.mem_references h)
    · exact Statement.mem_allReferences attrs h
  | _ => cases h
termination_by structural st

theorem Statement.mem_allReferences {l : Lookup} {layout : Layout} {g : Fragment}
    (sts : List Statement) (h : g ∈ Statement.allReferences l layout sts) :
    (∃ i, layout.block? i = some g) ∨ ∃ handle f, l.partial? handle = some f ∧ g = f.body := by
  cases sts with
  | nil => cases h
  | cons st rest =>
    rcases List.mem_append.mp h with h | h
    · exact Statement.mem_references st h
    · exact Statement.mem_allReferences rest h
termination_by structural sts

end

end TemplateMachine
