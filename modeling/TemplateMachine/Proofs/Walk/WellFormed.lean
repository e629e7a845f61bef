import TemplateMachine.Machine.Registry
import TemplateMachine.Proofs.Emission.Nesting
import TemplateMachine.Proofs.Walk.Compilable

/-! Templates that can be written down: every name of an argument has a value, and no call has more
parameters than an operand can count. -/

namespace TemplateMachine

mutual

def Expression.wellFormed : Expression → Bool
  | .helper _ params hash => Expression.paramsWellFormed params && Expression.hashWellFormed hash
  | .concat parts => Expression.allWellFormed parts
  | _ => true

def Expression.allWellFormed : List Expression → Bool
  | [] => true
  | e :: rest => e.wellFormed && Expression.allWellFormed rest

def Expression.paramsWellFormed : Option (List Expression) → Bool
  | none => true
  | some es => es.length < 0x10000000 && Expression.allWellFormed es

def Expression.hashWellFormed : Option (HashOf Expression) → Bool
  | none => true
  | some ⟨names, values⟩ => names.length == values.length && Expression.allWellFormed values

end

mutual

def Statement.wellFormed : Statement → Bool
  | .append value _ => value.wellFormed
  | .dynamicAttr _ value _ _ => value.wellFormed
  | .modifier _ params hash =>
    Expression.paramsWellFormed params && Expression.hashWellFormed hash
  | .block _ params hash _ _ =>
    Expression.paramsWellFormed params && Expression.hashWellFormed hash
  | .component _ attrs hash _ =>
    Statement.allWellFormed attrs && Expression.hashWellFormed hash
  | .yield _ params => Expression.paramsWellFormed params
  | _ => true

def Statement.allWellFormed : List Statement → Bool
  | [] => true
  | s :: rest => s.wellFormed && Statement.allWellFormed rest

end

def Template.wellFormed (t : Template) : Bool :=
  Statement.allWellFormed t.statements &&
    t.blocks.all fun b => Statement.allWellFormed b.statements

/-! ### Fragments -/

/-- A fragment is a whole template, or a block or the attributes of an invocation in one.  What is
numbered is no whole template. -/
inductive Fragment.Regular : Fragment → Prop
  | whole (id : FragmentId) (layout : Layout) (h : ∀ n, id ≠ .nested n) :
    Regular (.ofLayout id layout)
  | block (id : FragmentId) (layout : Layout) {b : InlineBlock} (h : b ∈ layout.template.blocks) :
    Regular (.ofBlock id layout b)
  | attrs (id : FragmentId) (layout : Layout) {attrs : List Statement}
    (h : attrs ∈ layout.template.attributes) : Regular (.ofAttrs id layout attrs)

/-- All templates of the registry are well-formed. -/
def Registry.WellFormed (r : Registry) : Prop :=
  (∀ c ∈ r.components, c.layout.wellFormed) ∧ ∀ p ∈ r.partials, p.2.wellFormed

/-- Layouts and partials are whole templates, each with an identity of its own. -/
structure Lookup.Coherent (l : Lookup) : Prop where
  layout : ∀ handle f, l.layout? handle = some f →
    f.id = .layout handle ∧ f.Regular ∧ f.table.asProgram?.isSome
  part : ∀ handle f, l.partial? handle = some f →
    f.id = .part handle ∧ f.Regular ∧ f.table.asProgram?.isSome

theorem Registry.coherent (r : Registry) : r.lookup.Coherent := by
  constructor
  · intro handle f hf
    obtain ⟨c, -, rfl⟩ := Option.map_eq_some_iff.mp hf
    exact ⟨rfl, .whole _ _ nofun, rfl⟩
  · intro handle f hf
    obtain ⟨p, -, rfl⟩ := Option.map_eq_some_iff.mp hf
    exact ⟨rfl, .whole _ _ nofun, rfl⟩

theorem Registry.WellFormed.layout {r : Registry} (h : r.WellFormed) {handle : UInt32}
    {f : Fragment} (hf : r.lookup.layout? handle = some f) : f.layout.template.wellFormed := by
  obtain ⟨c, hc, rfl⟩ := Option.map_eq_some_iff.mp hf
  exact h.1 c (Array.mem_of_getElem? hc)

theorem Registry.WellFormed.part {r : Registry} (h : r.WellFormed) {handle : UInt32} {f : Fragment}
    (hf : r.lookup.partial? handle = some f) : f.layout.template.wellFormed := by
  obtain ⟨p, hp, rfl⟩ := Option.map_eq_some_iff.mp hf
  exact h.2 p (Array.mem_of_getElem? hp)

/-! ### Parts of well-formed pieces -/

theorem Expression.wellFormed_of_mem {es : List Expression} (h : Expression.allWellFormed es)
    {e : Expression} (he : e ∈ es) : e.wellFormed := by
  induction es with
  | nil => cases he
  | cons first rest ih =>
    simp only [Expression.allWellFormed, Bool.and_eq_true] at h
    cases he with
    | head => exact h.1
    | tail _ he => exact ih h.2 he

mutual

theorem Statement.wellFormed_of_mem_attributes {attrs : List Statement} {s : Statement}
    (h : s.wellFormed) (hattrs : attrs ∈ s.attributes) : Statement.allWellFormed attrs := by
  cases s with
  | component tag attrs' hash body =>
    simp only [Statement.wellFormed, Bool.and_eq_true] at h
    rcases List.mem_cons.mp hattrs with rfl | hattrs
    · exact h.1
    · exact Statement.wellFormed_of_mem_allAttributes h.1 hattrs
  | _ => cases hattrs
termination_by structural s

theorem Statement.wellFormed_of_mem_allAttributes {attrs : List Statement} {ss : List Statement}
    (h : Statement.allWellFormed ss) (hattrs : attrs ∈ Statement.allAttributes ss) :
    Statement.allWellFormed attrs := by
  cases ss with
  | nil => cases hattrs
  | cons s rest =>
    simp only [Statement.allWellFormed, Bool.and_eq_true] at h
    rcases List.mem_append.mp hattrs with hattrs | hattrs
    · exact Statement.wellFormed_of_mem_attributes h.1 hattrs
    · exact Statement.wellFormed_of_mem_allAttributes h.2 hattrs
termination_by structural ss

end

theorem Template.wellFormed_of_mem_attributes {t : Template} (h : t.wellFormed)
    {attrs : List Statement} (hattrs : attrs ∈ t.attributes) : Statement.allWellFormed attrs := by
  simp only [Template.wellFormed, Bool.and_eq_true, List.all_eq_true] at h
  rcases Template.mem_attributes.mp hattrs with hattrs | ⟨b, hb, hattrs⟩
  · exact Statement.wellFormed_of_mem_allAttributes h.1 hattrs
  · exact Statement.wellFormed_of_mem_allAttributes (h.2 b hb) hattrs

namespace Fragment.Regular

variable {f : Fragment}

/-- Fragments of well-formed templates are well-formed. -/
theorem wellFormed (hf : f.Regular) (h : f.layout.template.wellFormed) :
    Statement.allWellFormed f.statements := by
  cases hf with
  | whole id layout _ =>
    replace h : layout.template.wellFormed := h
    simp only [Template.wellFormed, Bool.and_eq_true] at h
    exact h.1
  | block id layout hb =>
    replace h : layout.template.wellFormed := h
    simp only [Template.wellFormed, Bool.and_eq_true, List.all_eq_true] at h
    exact h.2 _ hb
  | attrs id layout hattrs => exact Template.wellFormed_of_mem_attributes h hattrs

/-- The attributes in a fragment are those of its template. -/
theorem mem_attributes (hf : f.Regular) {attrs : List Statement}
    (h : attrs ∈ Statement.allAttributes f.statements) : attrs ∈ f.layout.template.attributes := by
  cases hf with
  | whole id layout _ => exact Template.mem_attributes.mpr (.inl h)
  | block id layout hb => exact Template.mem_attributes.mpr (.inr ⟨_, hb, h⟩)
  | attrs id layout hattrs =>
    refine Template.mem_attributes.mpr ?_
    exact (Template.mem_attributes.mp hattrs).imp (Statement.allAttributes_trans · h)
      fun ⟨b, hb, hattrs⟩ => ⟨b, hb, Statement.allAttributes_trans hattrs h⟩

end Fragment.Regular

theorem Hash.wellFormed_of_get? {hash : Hash} (h : Expression.hashWellFormed (some hash))
    {name : String} {e : Expression} (he : hash.get? name = some e) : e.wellFormed := by
  obtain ⟨names, values⟩ := hash
  simp only [Expression.hashWellFormed, Bool.and_eq_true] at h
  obtain ⟨i, -, hi⟩ := Option.bind_eq_some_iff.mp he
  exact Expression.wellFormed_of_mem h.2 (List.mem_of_getElem? hi)

end TemplateMachine
