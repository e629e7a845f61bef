import TemplateMachine.Proofs.Walk.Passing

/-! Whom a splat tells.  A walk tells the component whose layout is being rendered, and statements
have an owner, the component in whose layout they are written.  The two differ in a block that was
passed on: it belongs to where it was written, and is rendered below the component that yields to
it.  If a layout passes no splats on, all splats in it tell their owner. -/

namespace TemplateMachine

/-! ### Layouts that pass no splats on -/

mutual

/-- The statement is no splat, and refers to no other blocks than those that are free of splats. -/
def Statement.isSplatFree (free : Nat → Bool) : Statement → Bool
  | .attrSplat _ => false
  | .block _ _ _ template inverse => template.all free && inverse.all free
  | .component _ attrs _ body => areSplatFree free attrs && body.all free
  | _ => true

def Statement.areSplatFree (free : Nat → Bool) : List Statement → Bool
  | [] => true
  | st :: rest => st.isSplatFree free && areSplatFree free rest

end

mutual

/-- What the statement passes to a component is free of splats. -/
def Statement.passesSplatFree (l : Lookup) (referer : String) (free : Nat → Bool) : Statement → Bool
  | .block name _ _ template inverse =>
    Walk.isInPlace name || (template.all free && inverse.all free)
  | .component tag attrs _ body =>
    match l.component? tag referer with
    | some _ => Statement.areSplatFree free attrs && body.all free
    | none => passSplatFree l referer free attrs
  | _ => true

def Statement.passSplatFree (l : Lookup) (referer : String) (free : Nat → Bool) :
    List Statement → Bool
  | [] => true
  | st :: rest => st.passesSplatFree l referer free && passSplatFree l referer free rest

end

/-- What nested blocks pass to components is free of splats. -/
def Layout.PassesSplatFree (l : Lookup) (free : Nat → Bool) (layout : Layout) : Prop :=
  ∀ i b, layout.template.blocks[i]? = some b →
    Statement.passSplatFree l layout.referer free b.statements ∧
      (free i = true → Statement.areSplatFree free b.statements)

/-- No splat is in a block or in attributes that the layout passes to a component. -/
def Fragment.KeepsSplats (l : Lookup) (f : Fragment) : Prop :=
  ∃ free, f.layout.PassesSplatFree l free ∧ Statement.passSplatFree l f.layout.referer
    free f.statements

/-- The layouts of the components that are told pass no splats on. -/
def Lookup.KeepsSplats (l : Lookup) (told : UInt32 → Bool) : Prop :=
  ∀ handle f, told handle = true → l.layout? handle = some f → f.KeepsSplats l

mutual

/-- What is free of splats passes none on. -/
theorem Statement.passesSplatFree_of_isSplatFree {l : Lookup} {referer : String}
    {free : Nat → Bool} : ∀ st : Statement, st.isSplatFree free → st.passesSplatFree l referer free
  | .block name _ _ template inverse, h => by
    rw [isSplatFree] at h
    rw [passesSplatFree, h, Bool.or_true]
  | .component tag attrs _ body, h => by
    rw [isSplatFree] at h
    rw [passesSplatFree]
    split
    · exact h
    · exact passSplatFree_of_areSplatFree attrs (Bool.and_eq_true_iff.mp h).1
  | .text _, _ | .comment _, _ | .append .., _ | .openElement _, _ | .flushElement,
    _ | .closeElement, _
  | .staticAttr .., _ | .dynamicAttr .., _ | .modifier .., _ | .yield .., _ | .attrSplat _, _ => rfl

theorem Statement.passSplatFree_of_areSplatFree {l : Lookup} {referer : String}
    {free : Nat → Bool} :
    ∀ sts : List Statement, areSplatFree free sts → passSplatFree l referer free sts
  | [], _ => rfl
  | st :: rest, h => by
    rw [areSplatFree, Bool.and_eq_true] at h
    rw [passSplatFree, passesSplatFree_of_isSplatFree st h.1,
      passSplatFree_of_areSplatFree rest h.2]
    rfl

end

/-! ### Owners -/

/-- On behalf of which component a place is rendered, then on behalf of which the place where the
blocks in its slots were written, and so on.  There need not be one. -/
abbrev Owners := List (Option Current)

def Owners.here (owners : Owners) : Option Current := owners.headD none

namespace Walk

/-- Renders a block in its place, on behalf of the same component, or the layout of a component, on
behalf of that if it is to be told. -/
def below (told : UInt32 → Bool) (render : Owners → Call) (owners : Owners) : Call :=
  fun f slots current =>
    match f.table with
    | .program _ => render (current.filter (fun c => told c.definition) :: owners) f slots current
    | .block _ => render owners f slots current

mutual

/-- As a statement is rendered, but that a splat tells its owner, if it has one. -/
def ownedStatement (s : Scene) (told : UInt32 → Bool) (p : Site) (render : Owners → Call)
    (owners : Owners) (mode : AttrMode) : Statement → Walk Unit
  | .append value trusted =>
    match Compilable.inline? s.lookup p.referer value with
    | some (.part params) => partialForm s p (render (none :: owners)) params
    | _ => append s p (below told render owners) value trusted
  | .component tag attrs hash body => do
    let block ← orUndefined (p.layout.optionalBlock? body)
    match s.lookup.component? tag p.referer with
    | some handle =>
      component s p (below told render owners) handle
        { attrs := some (.ofAttrs .entry p.layout attrs), hash, block }
    | none =>
      emit fun sink => sink.openElement tag
      ownedStatements s told p render owners .element attrs
      onElement Sink.flushElement
      if let some f := block then
        staticBlock p (below told render owners) f []
      onElement Sink.closeElement
  | .yield slot params => yield s p (render owners.tail) slot (params.getD [])
  | .attrSplat slot => do
    yield s p (render owners.tail) slot []
    elementCreated { p with current := owners.here.or p.current }
  | st => statement s p (below told render owners) mode st

def ownedStatements (s : Scene) (told : UInt32 → Bool) (p : Site) (render : Owners → Call)
    (owners : Owners) (mode : AttrMode) : List Statement → Walk Unit
  | [] => return
  | first :: rest => do
    ownedStatement s told p render owners mode first
    ownedStatements s told p render owners mode rest

end

/-- Renders fragments as they are rendered, but that splats tell their owners. -/
def owned (s : Scene) (told : UInt32 → Bool) : Nat → Owners → Call
  | 0, _ => fun _ _ _ => undefined
  | depth + 1, owners => fun body slots current =>
    if body.isCompilable s.lookup then
      ownedStatements s told ⟨body.layout, slots, current⟩ (owned s told depth) owners body.attrMode
        body.statements
    else fail .uncompilable

end Walk

/-! ### What owners are told -/

/-- The statements can be rendered wherever they are passed to: if they have an
owner, none of them is a splat. -/
def Owners.Pass (l : Lookup) (owners : Owners) (layout : Layout) (sts : List Statement) : Prop :=
  owners.here = none ∨ ∃ free, layout.PassesSplatFree l free ∧ Statement.areSplatFree free sts

/-- The statements can be rendered below a component: if they have another
owner, none of them is a splat. -/
def Owners.Tell (l : Lookup) (owners : Owners) (current : Option Current) (layout : Layout)
    (sts : List Statement) : Prop :=
  owners.here = none ∨ ∃ free, layout.PassesSplatFree l free ∧
    Statement.passSplatFree l layout.referer free sts ∧
    (owners.here = current ∨ Statement.areSplatFree free sts)

/-- The blocks in the binding can be rendered wherever they were passed to. -/
def Binding.Pass (l : Lookup) : Owners → Binding → Prop
  | owners, .block body written =>
    owners.Pass l body.layout body.statements ∧ ∀ slot, (written slot).Pass l owners.tail
  | _, .empty => True
  | _, .value _ => True

def Slots.Pass (l : Lookup) (owners : Owners) (slots : Slots) : Prop :=
  ∀ slot, (slots slot).Pass l owners

theorem Owners.Pass.tell {l : Lookup} {owners : Owners} {layout : Layout} {sts : List Statement}
    (h : owners.Pass l layout sts) (current : Option Current) : owners.Tell l current layout sts :=
  h.imp id fun ⟨free, hlayout, hsts⟩ =>
    ⟨free, hlayout, Statement.passSplatFree_of_areSplatFree sts hsts, .inr hsts⟩

namespace Owners.Tell

variable {l : Lookup} {owners : Owners} {current : Option Current} {layout : Layout}

theorem head {st : Statement} {rest : List Statement}
    (h : owners.Tell l current layout (st :: rest)) :
    owners.Tell l current layout [st] := by
  refine h.imp id fun ⟨free, hlayout, hpass, htell⟩ =>
    ⟨free, hlayout, ?_, htell.imp id fun hfree => ?_⟩
  · rw [Statement.passSplatFree, Bool.and_eq_true] at hpass
    rw [Statement.passSplatFree, hpass.1]
    rfl
  · rw [Statement.areSplatFree, Bool.and_eq_true] at hfree
    rw [Statement.areSplatFree, hfree.1]
    rfl

theorem tail {st : Statement} {rest : List Statement}
    (h : owners.Tell l current layout (st :: rest)) :
    owners.Tell l current layout rest := by
  refine h.imp id fun ⟨free, hlayout, hpass, htell⟩ =>
    ⟨free, hlayout, ?_, htell.imp id fun hfree => ?_⟩
  · rw [Statement.passSplatFree, Bool.and_eq_true] at hpass
    exact hpass.2
  · rw [Statement.areSplatFree, Bool.and_eq_true] at hfree
    exact hfree.2

/-- A splat tells its owner, which is the component whose layout is being rendered. -/
theorem or_current {slot : UInt32} (h : owners.Tell l current layout [.attrSplat slot]) :
    owners.here.or current = current := by
  rcases h with h | ⟨free, -, -, h | h⟩
  · rw [h, Option.none_or]
  · rw [h, Option.or_self]
  · exact absurd h (by simp [Statement.areSplatFree, Statement.isSplatFree])

/-- What a place may tell, a block that a block statement refers to may tell in it. -/
theorem inPlace {name : String} {params : Option (List Expression)} {hash : Option Hash}
    {template inverse : Option Nat}
    (h : owners.Tell l current layout [.block name params hash template inverse]) {i : Nat}
    {b : InlineBlock} (hi : template = some i ∨ inverse = some i)
    (hb : layout.template.blocks[i]? = some b) :
    owners.Tell l current layout b.statements := by
  refine h.imp id fun ⟨free, hlayout, _, htell⟩ =>
    ⟨free, hlayout, (hlayout i b hb).1, htell.imp id fun h => ?_⟩
  simp only [Statement.areSplatFree, Statement.isSplatFree, Bool.and_true, Bool.and_eq_true] at h
  refine (hlayout i b hb).2 ?_
  rcases hi with rfl | rfl
  · exact h.1
  · exact h.2

/-- A block that a block statement passes to a component may be rendered wherever that puts it. -/
theorem passed {name : String} {params : Option (List Expression)} {hash : Option Hash}
    {template inverse : Option Nat} (hname : Walk.isInPlace name = false)
    (h : owners.Tell l current layout [.block name params hash template inverse]) {i : Nat}
    {b : InlineBlock} (hi : template = some i ∨ inverse = some i)
    (hb : layout.template.blocks[i]? = some b) :
    owners.Pass l layout b.statements := by
  refine h.imp id fun ⟨free, hlayout, hpass, _⟩ => ⟨free, hlayout, (hlayout i b hb).2 ?_⟩
  simp only [Statement.passSplatFree, Statement.passesSplatFree, hname, Bool.false_or,
    Bool.and_true, Bool.and_eq_true] at hpass
  rcases hi with rfl | rfl
  · exact hpass.1
  · exact hpass.2

section

variable {tag : String} {attrs : List Statement} {hash : Option Hash} {body : Option Nat}
variable (h : owners.Tell l current layout [.component tag attrs hash body])

include h

/-- Attributes and a block that are passed to a component may be
rendered wherever that puts them. -/
theorem byTag {handle : UInt32} (htag : l.component? tag layout.referer = some handle) :
    owners.Pass l layout attrs ∧ ∀ i b, body = some i → layout.template.blocks[i]? = some b →
      owners.Pass l layout b.statements := by
  rcases h with h | ⟨free, hlayout, hpass, -⟩
  · exact ⟨.inl h, fun _ _ _ _ => .inl h⟩
  · simp only [Statement.passSplatFree, Statement.passesSplatFree, htag, Bool.and_true,
      Bool.and_eq_true] at hpass
    refine ⟨.inr ⟨free, hlayout, hpass.1⟩,
      fun i b hi hb => .inr ⟨free, hlayout, (hlayout i b hb).2 ?_⟩⟩
    rw [hi] at hpass
    exact hpass.2

/-- Attributes and a block of a plain element are rendered in their place. -/
theorem byElement (htag : l.component? tag layout.referer = none) :
    owners.Tell l current layout attrs ∧ ∀ i b, body = some i →
    layout.template.blocks[i]? = some b →
      owners.Tell l current layout b.statements := by
  rcases h with h | ⟨free, hlayout, hpass, htell⟩
  · exact ⟨.inl h, fun _ _ _ _ => .inl h⟩
  · simp only [Statement.passSplatFree, Statement.passesSplatFree, htag, Bool.and_true] at hpass
    simp only [Statement.areSplatFree, Statement.isSplatFree, Bool.and_true,
      Bool.and_eq_true] at htell
    refine ⟨.inr ⟨free, hlayout, hpass, htell.imp id And.left⟩, fun i b hi hb =>
      .inr ⟨free, hlayout, (hlayout i b hb).1, htell.imp id fun h => (hlayout i b hb).2 ?_⟩⟩
    rw [hi] at h
    exact h.2

end

end Owners.Tell

namespace Walk

variable {s : Scene} {told : UInt32 → Bool} {p : Site} {call : Call} {render : Owners → Call}
variable {owners : Owners}

/-- On behalf of owners fragments are rendered as they are rendered below the current component. -/
def Agree (l : Lookup) (render : Owners → Call) (call : Call) : Prop :=
  ∀ (owners : Owners) (f : Fragment) (slots : Slots) (current : Option Current),
    owners.Tell l current f.layout f.statements → slots.Pass l owners.tail →
      render owners f slots current = call f slots current

/-- A block of a template that a statement refers to. -/
theorem eq_of_optionalBlock {layout : Layout} {index : Option Nat} {block : Option Fragment}
    (h : layout.optionalBlock? index = some block) {f : Fragment} (hf : block = some f) :
    ∃ i b, index = some i ∧ layout.template.blocks[i]? = some b ∧ f = .ofBlock .entry layout b := by
  subst hf
  cases index with
  | none => cases h
  | some i =>
    obtain ⟨f', hf', heq⟩ := Option.map_eq_some_iff.mp h
    obtain rfl := Option.some.inj heq
    obtain ⟨b, hb, rfl⟩ := Option.map_eq_some_iff.mp hf'
    exact ⟨i, b, rfl, hb, rfl⟩

section

variable (hagree : Agree s.lookup render call) (hslots : p.slots.Pass s.lookup owners.tail)

include hagree hslots

/-- A block is rendered in its place on behalf of the same owner. -/
theorem sameBlock_below {b : InlineBlock}
    (h : owners.Tell s.lookup p.current p.layout b.statements) :
    SameBlock p (below told render owners) call (.ofBlock .entry p.layout b) := fun values =>
  hagree owners _ _ _ h (Slots.forall_bindValues hslots (fun _ => trivial) _ values)

variable (hlookup : s.lookup.Coherent) (htold : s.lookup.KeepsSplats told)

include hlookup htold

/-- A layout is rendered on behalf of its instance, with blocks on behalf of the owner of the place
that they are passed from. -/
theorem sameLayouts_below {i : Invocation}
    (h : ∀ f, i.block = some f ∨ i.inverse = some f ∨ i.attrs = some f →
      owners.Pass s.lookup f.layout f.statements) :
    SameLayouts s.lookup p i (below told render owners) call := by
  intro e he
  obtain ⟨-, -, htable⟩ := hlookup.layout _ _ he.layout
  obtain ⟨table, htable⟩ : ∃ table, e.layout.table = .program table := by
    cases hlayout : e.layout.table with
    | program table => exact ⟨table, rfl⟩
    | block table =>
      rw [hlayout] at htable
      cases htable
  have hpass (slot : UInt32) : (e.slots slot).Pass s.lookup owners := by
    have hpassed := he.slots slot
    cases hb : e.slots slot with
    | empty | value => trivial
    | block body written =>
      rw [hb] at hpassed
      obtain ⟨rfl, hbody⟩ := hpassed
      exact ⟨h body hbody, hslots⟩
  have htell : Owners.Tell s.lookup
    (Option.filter (fun c => told c.definition) (some e.current) :: owners)
      (some e.current) e.layout.layout e.layout.statements := by
    by_cases hcurrent : told e.current.definition
    · obtain ⟨free, hfree, hpasses⟩ := htold _ _ hcurrent he.layout
      exact .inr ⟨free, hfree, hpasses, .inl (by simp [Owners.here, hcurrent])⟩
    · exact .inl (by simp [Owners.here, hcurrent])
  have hbelow : below told render owners e.layout.body e.slots (some e.current) =
      render (Option.filter (fun c => told c.definition) (some e.current) :: owners)
        e.layout.body e.slots
        (some e.current) := by
    unfold below
    rw [show e.layout.body.table = .program table from htable]
  rw [hbelow]
  exact hagree _ _ _ _ htell hpass

omit hlookup htold in
/-- A block in a slot is rendered on behalf of the owner of the place where it was written. -/
theorem yield_owned (slot : UInt32) (params : List Expression) :
    yield s p (render owners.tail) slot params = yield s p call slot params := by
  refine bind_congr fun given => ?_
  have hpass := hslots slot
  split
  · rename_i body written hblock
    rw [hblock] at hpass
    exact hagree owners.tail _ _ _ (hpass.1.tell _)
      (Slots.forall_bindValues hpass.2 (fun _ => trivial) _ _)
  · rfl

theorem append_owned (value : Expression) (trusted : Bool) (mode : AttrMode) :
    ownedStatement s told p render owners mode (.append value trusted) =
    append s p call value trusted := by
  rw [ownedStatement]
  split
  · rename_i params hinline
    rw [append, hinline]
    unfold partialForm
    dsimp only
    split
    · refine bind_congr fun found => ?_
      exact hagree _ _ _ _ (.inl rfl) (Slots.forall_bind (fun _ => trivial) trivial)
    · rfl
  · rename_i hpart
    refine append_congr trusted hpart fun i hblock hinverse hattrs =>
      sameLayouts_below hagree hslots hlookup htold fun f hf => ?_
    rw [hblock, hinverse, hattrs] at hf
    rcases hf with hf | hf | hf <;> cases hf

theorem blockCall_owned {name : String} {params : Option (List Expression)} {hash : Option Hash}
    {template inverse : Option Nat}
    (h : owners.Tell s.lookup p.current p.layout [.block name params hash template inverse])
    (mode : AttrMode) :
    statement s p (below told render owners) mode (.block name params hash template inverse) =
      statement s p call mode (.block name params hash template inverse) := by
  refine (Gives.orUndefined _).bind_congr fun main hmain =>
    (Gives.orUndefined _).bind_congr fun other hother =>
      blockCall_congr (fun _ f hf => ?_) fun hname rest => ?_
  · rcases hf with hf | hf
    · obtain ⟨i, b, hi, hb, rfl⟩ := eq_of_optionalBlock hmain hf
      exact sameBlock_below hagree hslots (h.inPlace (.inl hi) hb)
    · obtain ⟨i, b, hi, hb, rfl⟩ := eq_of_optionalBlock hother hf
      exact sameBlock_below hagree hslots (h.inPlace (.inr hi) hb)
  · refine sameLayouts_below hagree hslots hlookup htold fun f hf => ?_
    rcases hf with hf | hf | hf
    · obtain ⟨i, b, hi, hb, rfl⟩ := eq_of_optionalBlock hmain hf
      exact h.passed hname (.inl hi) hb
    · obtain ⟨i, b, hi, hb, rfl⟩ := eq_of_optionalBlock hother hf
      exact h.passed hname (.inr hi) hb
    · cases hf

end

mutual

/-- A statement is rendered as it is, if it may tell what it tells. -/
theorem ownedStatement_eq (hagree : Agree s.lookup render call)
    (hslots : p.slots.Pass s.lookup owners.tail) (hlookup : s.lookup.Coherent)
    (htold : s.lookup.KeepsSplats told) (mode : AttrMode) : ∀ st : Statement,
    owners.Tell s.lookup p.current p.layout [st] →
      ownedStatement s told p render owners mode st = statement s p call mode st
  | .append value trusted, _ => append_owned hagree hslots hlookup htold value trusted mode
  | .block .., h => by
    rw [ownedStatement]
    · exact blockCall_owned hagree hslots hlookup htold h mode
    all_goals nofun
  | .component tag attrs hash body, h => by
    rw [ownedStatement, statement]
    refine (Gives.orUndefined _).bind_congr fun block hblock => ?_
    cases htag : s.lookup.component? tag p.referer with
    | some handle =>
      obtain ⟨hattrs, hbody⟩ := h.byTag htag
      refine component_congr handle (sameLayouts_below hagree hslots hlookup htold fun f hf => ?_)
      rcases hf with hf | hf | hf
      · obtain ⟨i, b, hi, hb, rfl⟩ := eq_of_optionalBlock hblock hf
        exact hbody i b hi hb
      · cases hf
      · cases hf
        exact hattrs
    | none =>
      obtain ⟨hattrs, hbody⟩ := h.byElement htag
      dsimp only
      rw [ownedStatements_eq hagree hslots hlookup htold .element attrs hattrs]
      refine bind_congr fun _ => bind_congr fun _ => bind_congr fun _ => ?_
      cases hf : block with
      | none => rfl
      | some f =>
        obtain ⟨i, b, hi, hb, rfl⟩ := eq_of_optionalBlock hblock hf
        dsimp only
        rw [sameBlock_below hagree hslots (hbody i b hi hb)]
  | .yield slot params, _ => by
    rw [ownedStatement]
    exact yield_owned hagree hslots slot _
  | .attrSplat slot, h => by
    rw [ownedStatement, statement, yield_owned hagree hslots, h.or_current]
  | .text _, _ | .comment _, _ | .openElement _, _ | .flushElement, _ | .closeElement,
    _ | .staticAttr .., _
  | .dynamicAttr .., _ | .modifier .., _ => rfl

theorem ownedStatements_eq (hagree : Agree s.lookup render call)
    (hslots : p.slots.Pass s.lookup owners.tail) (hlookup : s.lookup.Coherent)
    (htold : s.lookup.KeepsSplats told) (mode : AttrMode) : ∀ sts : List Statement,
    owners.Tell s.lookup p.current p.layout sts →
      ownedStatements s told p render owners mode sts = statements s p call mode sts
  | [], _ => rfl
  | st :: rest, h => by
    rw [ownedStatements, statements, ownedStatement_eq hagree hslots hlookup htold mode st h.head,
      ownedStatements_eq hagree hslots hlookup htold mode rest h.tail]

end

/-- Splats tell their owners. -/
theorem agree_owned (hlookup : s.lookup.Coherent) (htold : s.lookup.KeepsSplats told)
    (depth : Nat) :
    Agree s.lookup (owned s told depth) (Walk.call s depth) := by
  induction depth with
  | zero => exact fun _ _ _ _ _ _ => rfl
  | succ depth ih =>
    intro owners f slots current h hslots
    rw [owned, Walk.call]
    dsimp only
    split
    · exact ownedStatements_eq ih hslots hlookup htold f.attrMode f.statements h
    · rfl

end Walk

end TemplateMachine
