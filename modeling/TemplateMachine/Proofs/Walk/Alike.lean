import Mathlib.Data.List.Forall2
import TemplateMachine.Proofs.Datum.Literal
import TemplateMachine.Proofs.Walk.Keep

/-! Appended values, and walks that go alike.  What a value is decides what becomes of it: a
component is invoked where one is looked for, and the content of anything else is written.  Walks go
alike if they change the world in the same way, fail in the same way, and come to values that are
related.  A literal and a path to the same datum do so wherever the value is written or tested, as
it is or within a concatenation. -/

namespace TemplateMachine

/-! ### Appended values -/

theorem Sink.append_empty (s : Sink) : s.append "" = s := by
  rw [Sink.append, String.append_empty]

/-- The world with a text at the end of its output. -/
def World.write (w : World) (text : String) : World := { w with sink := w.sink.append text }

namespace Walk

variable {s : Scene} {p : Site} {call : Call} {e : Expression} {trusted : Bool} {w w' : World}
variable {r : Reference}

/-- The text of a datum in a page; empty if it has none. -/
def contentOf (cells : Cells) (r : Reference) : String := ((r.value cells).content?).getD ""

/-- The content of a value is written, escaped unless it is trusted. -/
theorem content_apply (s : Scene) (trusted : Bool) (r : Reference) (w : World) :
    content s trusted r w =
      .ok () (w.write
        (if trusted then contentOf s.cells r else Text.escapeText (contentOf s.cells r))) := by
  unfold content contentOf
  cases (r.value s.cells).content? with
  | some text =>
    cases trusted <;> rfl
  | none =>
    have hempty : (if trusted then "" else Text.escapeText "") = "" := by
      cases trusted <;> rfl
    rw [Option.getD_none, hempty, World.write, Sink.append_empty]
    rfl

/-- A component has no content. -/
theorem content_component (h : (r.value s.cells).isComponent = true) :
    content s trusted r w = .ok () w := by
  unfold content
  cases hvalue : r.value s.cells with
  | data json =>
    rw [hvalue] at h
    cases h
  | component definition args => rfl

/-- Trust does not matter to the built-in forms and the components of a name. -/
theorem append_inline (h : (Compilable.inline? s.lookup p.referer e).isSome) :
    append s p call e true = append s p call e false := by
  obtain ⟨form, hform⟩ := Option.isSome_iff_exists.mp h
  unfold append
  simp only [hform]
  cases form <;> rfl

/-- A value is invoked if it is a component and one is looked for, which is in
trusted values and in paths. -/
theorem append_apply (hinline : Compilable.inline? s.lookup p.referer e = none)
    (hvalue : expression s p e w = .ok r w') :
    append s p call e trusted w =
      if (r.value s.cells).isComponent && (trusted || e.isGet) then
        dynamicComponent s p call r {} w'
      else content s trusted r w' := by
  unfold append
  rw [hinline]
  cases hguarded : trusted || e.isGet with
  | true =>
    simp only [if_true, Bool.and_true, guardedAppend, bind_apply, hvalue]
    split <;> rfl
  | false =>
    obtain ⟨rfl, -⟩ := Bool.or_eq_false_iff.mp hguarded
    simp only [Bool.false_eq_true, if_false, Bool.and_false, bind_apply, hvalue]

/-- A value that cannot be computed is not appended. -/
theorem append_error (hinline : Compilable.inline? s.lookup p.referer e = none) {fault : Stop Fault}
    (hvalue : expression s p e w = .error fault w') :
    append s p call e trusted w = .error fault w' := by
  unfold append
  rw [hinline]
  dsimp only
  split
  · rw [guardedAppend, bind_apply, hvalue]
  · rw [bind_apply, hvalue]

/-- What is no component is written, whether or not one is looked for. -/
theorem append_of_data (hinline : Compilable.inline? s.lookup p.referer e = none)
    (hdata : ∀ w r w', expression s p e w = .ok r w' → (r.value s.cells).isComponent = false) :
    append s p call e trusted = expression s p e >>= content s trusted := by
  funext w
  rw [bind_apply]
  cases hvalue : expression s p e w with
  | ok r w' =>
    rw [append_apply hinline hvalue, hdata w r w' hvalue, Bool.false_and, if_neg Bool.false_ne_true]
  | error fault w' => rw [append_error hinline hvalue]

end Walk

/-! ### Outcomes -/

/-- Two outcomes that only differ in their values, which are related. -/
inductive Outcome.Alike {α β : Type} (R : α → β → Prop) :
    EStateM.Result (Stop Fault) World α → EStateM.Result (Stop Fault) World β → Prop
  | ok {a : α} {b : β} (w : World) : R a b → Alike R (.ok a w) (.ok b w)
  | error (e : Stop Fault) (w : World) : Alike R (.error e w) (.error e w)

namespace Walk

variable {α β α' β' : Type} {R : α → β → Prop} {R' : α' → β' → Prop}

/-- From each world two walks come to outcomes that are alike. -/
def Alike (R : α → β → Prop) (x : Walk α) (y : Walk β) : Prop := ∀ w, Outcome.Alike R (x w) (y w)

namespace Alike

theorem pure {a : α} {b : β} (h : R a b) : Alike R (return a) (return b) := fun w => .ok w h

theorem refl {R : α → α → Prop} (hR : ∀ a, R a a) (x : Walk α) : Alike R x x := by
  intro w
  cases x w with
  | ok a w' => exact .ok w' (hR a)
  | error e w' => exact .error e w'

theorem bind {x : Walk α} {y : Walk β} {f : α → Walk α'} {g : β → Walk β'} (hxy : Alike R x y)
    (hfg : ∀ a b, R a b → Alike R' (f a) (g b)) : Alike R' (x >>= f) (y >>= g) := by
  intro w
  rw [bind_apply, bind_apply]
  have hw := hxy w
  revert hw
  generalize x w = out, y w = out'
  rintro (⟨w', h⟩ | ⟨e, w'⟩)
  · exact hfg _ _ h w'
  · exact .error e w'

/-- What does the same with values that are related does the same after walks that go alike. -/
theorem bind_eq {x : Walk α} {y : Walk β} {f : α → Walk α'} {g : β → Walk α'} (hxy : Alike R x y)
    (hfg : ∀ a b, R a b → f a = g b) : (x >>= f) = (y >>= g) := by
  funext w
  rw [bind_apply, bind_apply]
  have hw := hxy w
  revert hw
  generalize x w = out, y w = out'
  rintro (⟨w', h⟩ | ⟨e, w'⟩)
  · exact congrFun (hfg _ _ h) w'
  · rfl

end Alike

end Walk

/-! ### References -/

namespace Reference

/-- Two references lead to data that are alike. -/
def Alike (cells : Cells) (r r' : Reference) : Prop := (r.value cells).Alike (r'.value cells)

theorem Alike.refl (cells : Cells) (r : Reference) : Alike cells r r := Datum.Alike.refl _

/-- Concatenations of data that are alike have the same text. -/
theorem Alike.concat {cells : Cells} {parts parts' : List Reference}
    (h : List.Forall₂ (Alike cells) parts parts') :
    Alike cells (.concat .still parts) (.concat .still parts') := by
  have hcontents : (values cells parts).filterMap Datum.content? =
      (values cells parts').filterMap Datum.content? := by
    induction h with
    | nil => rfl
    | cons hfirst _ ih =>
      rw [values, values, List.filterMap_cons, List.filterMap_cons, hfirst.content, ih]
  rw [Alike, value, value, hcontents]
  exact .refl _

end Reference

/-! ### A literal and a path -/

/-- The second expression has a path where the first has a literal: as a whole, or in a
concatenation. -/
inductive Expression.Replaces (v : Json) (head : UInt32) (path : List String) :
    Expression → Expression → Prop
  | here : Replaces v head path (.value v) (.get head path)
  | part (before after : List Expression) {e e' : Expression} : Replaces v head path e e' →
    Replaces v head path (.concat (before ++ e :: after)) (.concat (before ++ e' :: after))

/-- The second statement has a path where the first has a literal: in what is appended, in the value
of an attribute, or in the condition of a block. -/
inductive Statement.Replaces (v : Json) (head : UInt32) (path : List String) :
    Statement → Statement → Prop
  | append {e e' : Expression} (trusted : Bool) : e.Replaces v head path e' →
    Replaces v head path (.append e trusted) (.append e' trusted)
  | dynamicAttr {e e' : Expression} (name : String) (space : Option String) (trusting : Bool) :
    e.Replaces v head path e' →
    Replaces v head path (.dynamicAttr name e space trusting) (.dynamicAttr name e' space trusting)
  | condition {e e' : Expression} {name : String} (hash : Option Hash)
    (template inverse : Option Nat) : name = "if" ∨ name = "unless" → e.Replaces v head path e' →
    Replaces v head path (.block name (some [e]) hash template inverse)
      (.block name (some [e']) hash template inverse)

namespace Walk

variable {s : Scene} {p : Site} {v : Json} {head : UInt32} {path : List String} {e e' : Expression}

theorem alike_expressions {before after : List Expression}
    (h : Alike (Reference.Alike s.cells) (expression s p e) (expression s p e')) :
    Alike (List.Forall₂ (Reference.Alike s.cells)) (expressions s p (before ++ e :: after))
      (expressions s p (before ++ e' :: after)) := by
  have hsame (rs : List Reference) : List.Forall₂ (Reference.Alike s.cells) rs rs :=
    List.forall₂_same.mpr fun r _ => .refl _ r
  induction before with
  | nil =>
    refine h.bind fun r r' hr => ?_
    exact (Alike.refl hsame _).bind fun rs rs' hrs => .pure (.cons hr hrs)
  | cons first before ih =>
    refine (Alike.refl (Reference.Alike.refl s.cells) (expression s p first)).bind fun r r' hr => ?_
    exact ih.bind fun rs rs' hrs => .pure (.cons hr hrs)

/-- A literal and a path to the same datum come to references that are alike. -/
theorem alike_of_replaces (hv : v.IsScalar)
    (hdatum : (path.foldl Reference.property (p.slots.value head)).value s.cells = .data v)
    (h : e.Replaces v head path e') :
    Alike (Reference.Alike s.cells) (expression s p e) (expression s p e') := by
  induction h with
  | here =>
    obtain ⟨literal, hliteral⟩ := Primitive.ofJson_of_isScalar hv
    unfold expression
    rw [hliteral]
    refine .pure ?_
    rw [Reference.Alike, hdatum]
    exact Primitive.alike_of_ofJson hv hliteral
  | part before after _ ih =>
    unfold expression
    exact (alike_expressions ih).bind fun rs rs' hrs => .pure (.concat hrs)

/-- Neither a literal of a scalar nor a path to one is a component, and concatenations are none. -/
theorem isComponent_of_replaces (hv : v.IsScalar)
    (hdatum : (path.foldl Reference.property (p.slots.value head)).value s.cells = .data v)
    (h : e.Replaces v head path e') {w w' : World} {r : Reference}
    (hr : expression s p e w = .ok r w' ∨ expression s p e' w = .ok r w') :
    (r.value s.cells).isComponent = false := by
  have hconcat {parts : List Expression} (hr : expression s p (.concat parts) w = .ok r w') :
      (r.value s.cells).isComponent = false := by
    unfold expression at hr
    obtain ⟨rs, w₁, -, hr⟩ := ok_bind hr
    cases hr
    rfl
  cases h with
  | here =>
    obtain ⟨literal, hliteral⟩ := Primitive.ofJson_of_isScalar hv
    unfold expression at hr
    rw [hliteral] at hr
    obtain hr | hr := hr
    · cases hr
      rfl
    · cases hr
      rw [hdatum]
      rfl
  | part before after h => exact hr.elim hconcat hconcat

/-! ### Statements -/

/-- A literal, a path or a concatenation is no inline form. -/
theorem inline?_of_replaces (l : Lookup) (referer : String) (h : e.Replaces v head path e') :
    Compilable.inline? l referer e = none ∧ Compilable.inline? l referer e' = none := by
  cases h <;> exact ⟨rfl, rfl⟩

theorem conditional_of_replaces (hv : v.IsScalar)
    (hdatum : (path.foldl Reference.property (p.slots.value head)).value s.cells = .data v)
    (h : e.Replaces v head path e') (call : Call) (expected : Bool) {name : String}
    {hash : Option Hash} {main other : Option Fragment} :
    conditional s p call expected ⟨name, some [e], hash, main, other⟩ =
      conditional s p call expected ⟨name, some [e'], hash, main, other⟩ := by
  cases main with
  | none => rfl
  | some main =>
    refine (alike_of_replaces hv hdatum h).bind_eq fun r r' hr => ?_
    rw [hr.truth]
    rfl

/-- A statement does the same with a path as with a literal. -/
theorem statement_of_replaces (hv : v.IsScalar)
    (hdatum : (path.foldl Reference.property (p.slots.value head)).value s.cells = .data v)
    {t t' : Statement} (h : t.Replaces v head path t') (call : Call) (mode : AttrMode) :
    statement s p call mode t = statement s p call mode t' := by
  cases h with
  | append trusted he =>
    unfold statement
    obtain ⟨hinline, hinline'⟩ := inline?_of_replaces s.lookup p.referer he
    rw [append_of_data hinline fun w r w' hr => isComponent_of_replaces hv hdatum he (.inl hr),
      append_of_data hinline' fun w r w' hr => isComponent_of_replaces hv hdatum he (.inr hr)]
    refine (alike_of_replaces hv hdatum he).bind_eq fun r r' hr => ?_
    rw [content, content, hr.content]
  | dynamicAttr name space trusting he =>
    unfold statement
    refine (alike_of_replaces hv hdatum he).bind_eq fun r r' hr => ?_
    rw [hr.attributeText]
  | condition hash template inverse hname he =>
    unfold statement
    refine congrArg _ (funext fun main => congrArg _ (funext fun other => ?_))
    obtain rfl | rfl := hname
    · exact conditional_of_replaces hv hdatum he call true
    · exact conditional_of_replaces hv hdatum he call false

end Walk

end TemplateMachine
