import TemplateMachine.Proofs.Walk.Component
import TemplateMachine.Proofs.Walk.WellFormed

/-! Content.  A list of statements is content if the elements in it are complete: each is opened, is
given its attributes, and holds content until it is closed.  What may give an element attributes is
an attribute statement; the attributes of an invocation are such statements, and a layout may splat
them on an element of its own, but not yield to them as if they were content. -/

namespace TemplateMachine

/-- What the slots of a template may hold besides values. -/
structure Signature where
  /-- The attributes of an invocation. -/
  attrs : UInt32 → Bool
  /-- One of its other blocks. -/
  blocks : UInt32 → Bool

namespace Signature

/-- The slots of a template that no component is invoked with. -/
def empty : Signature := ⟨fun _ => false, fun _ => false⟩

/-- The slots of a layout, by its symbols from a slot on. -/
def ofSymbols : UInt32 → List String → Signature
  | _, [] => empty
  | slot, symbol :: rest =>
    let others := ofSymbols (slot + 1) rest
    { attrs := fun other => (other == slot && symbol == blockSymbols.attrs) || others.attrs other
      blocks := fun other =>
        (other == slot && (symbol == blockSymbols.main || symbol == blockSymbols.inverse)) ||
          others.blocks other }

/-- The slots of a layout. -/
def ofLayout (symbols : List String) : Signature := ofSymbols 1 symbols

end Signature

/-! ### Statements -/

/-- A statement that gives attributes to the pending element. -/
def Statement.isAttribute (σ : Signature) : Statement → Bool
  | .staticAttr .. | .dynamicAttr .. | .modifier .. => true
  | .attrSplat slot => !σ.blocks slot
  | _ => false

/-- A statement that is content by itself. -/
def Statement.isContent (σ : Signature) : Statement → Bool
  | .text _ | .comment _ | .append .. | .block .. => true
  | .component _ attrs _ _ => attrs.all (isAttribute σ)
  | .yield slot _ => !σ.attrs slot
  | _ => false

/-- The statements of complete elements, and what may stand between them. -/
inductive Content (σ : Signature) : List Statement → Prop
  | nil : Content σ []
  | cons {first : Statement} {rest : List Statement} :
    first.isContent σ → Content σ rest → Content σ (first :: rest)
  | element {tag : String} {attrs inner rest : List Statement} :
    attrs.all (Statement.isAttribute σ) → Content σ inner → Content σ rest →
    Content σ (.openElement tag :: (attrs ++ .flushElement :: (inner ++ .closeElement :: rest)))

/-- The template and all blocks nested in it are content. -/
structure Template.Bracketed (σ : Signature) (t : Template) : Prop where
  statements : Content σ t.statements
  blocks : ∀ b ∈ t.blocks, Content σ b.statements

/-- The fragment is content, or the attributes of an invocation, of a template
whose blocks are content. -/
structure Fragment.Bracketed (σ : Signature) (f : Fragment) : Prop where
  content : f.attrMode = .element → Content σ f.statements
  attributes : f.attrMode = .component → f.statements.all (Statement.isAttribute σ)
  blocks : ∀ b ∈ f.layout.template.blocks, Content σ b.statements

theorem Template.Bracketed.fragment {σ : Signature} {layout : Layout}
    (h : layout.template.Bracketed σ) (id : FragmentId) :
    (Fragment.ofLayout id layout).Bracketed σ where
  content _ := h.statements
  attributes := nofun
  blocks := h.blocks

/-- Layouts are content, and partials are content that no component is invoked with. -/
structure Lookup.Bracketed (l : Lookup) : Prop where
  layout : ∀ handle f, l.layout? handle = some f → f.attrMode = .element ∧
    ∀ table, f.table.asProgram? = some table → f.Bracketed (.ofLayout table.symbols)
  part : ∀ handle f, l.partial? handle = some f → f.attrMode = .element ∧ f.Bracketed .empty

/-- All templates of the registry are content. -/
structure Registry.Bracketed (r : Registry) : Prop where
  layouts : ∀ c ∈ r.components, c.layout.Bracketed (.ofLayout c.layout.symbols)
  partials : ∀ p ∈ r.partials, p.2.Bracketed .empty

theorem Registry.Bracketed.lookup {r : Registry} (h : r.Bracketed) : r.lookup.Bracketed where
  layout handle f hf := by
    obtain ⟨c, hc, rfl⟩ := Option.map_eq_some_iff.mp hf
    refine ⟨rfl, fun table htable => ?_⟩
    obtain rfl := Option.some.inj htable
    exact Template.Bracketed.fragment (h.layouts c (Array.mem_of_getElem? hc)) _
  part handle f hf := by
    obtain ⟨p, hp, rfl⟩ := Option.map_eq_some_iff.mp hf
    exact ⟨rfl, Template.Bracketed.fragment (h.partials p (Array.mem_of_getElem? hp)) _⟩

/-- A partial that a name stands for is one of those that there are. -/
theorem Compilable.partial?_eq_some {l : Lookup} {referer name : String} {f : Fragment}
    {table : ProgramTable} (h : partial? l referer name = some (f, table)) :
    ∃ number, l.partialNamed? name referer = some number ∧ l.partial? number = some f := by
  obtain ⟨f', hf', h⟩ := Option.bind_eq_some_iff.mp h
  obtain ⟨number, hnumber, hf'⟩ := Option.bind_eq_some_iff.mp hf'
  obtain ⟨table', -, h⟩ := Option.bind_eq_some_iff.mp h
  cases h
  exact ⟨number, hnumber, hf'⟩

/-! ### Slots -/

/-- Whether a slot may hold fragments of this kind. -/
def AttrMode.choose (attrs blocks : Bool) : AttrMode → Bool
  | .element => blocks
  | .component => attrs

/-- What a slot holds is what it may hold: of blocks with the slots of the place where they were
written, the attributes of an invocation or another one. -/
def Binding.Fits : Binding → (attrs blocks : Bool) → Prop
  | .empty, _, _ => True
  | .value _, _, _ => True
  | .block body written, attrs, blocks =>
    body.attrMode.choose attrs blocks ∧
    ∃ σ : Signature, body.Bracketed σ ∧ ∀ slot, (written slot).Fits (σ.attrs slot) (σ.blocks slot)

/-- All slots hold what they may hold. -/
def Slots.Fits (σ : Signature) (slots : Slots) : Prop :=
  ∀ slot, (slots slot).Fits (σ.attrs slot) (σ.blocks slot)

theorem Binding.Fits.mono {b : Binding} {attrs attrs' blocks blocks' : Bool}
    (h : b.Fits attrs blocks) (hattrs : attrs = true → attrs' = true)
    (hblocks : blocks = true → blocks' = true) : b.Fits attrs' blocks' := by
  cases b with
  | empty | value => trivial
  | block body written =>
    obtain ⟨hmode, hwritten⟩ := h
    refine ⟨?_, hwritten⟩
    revert hmode
    cases body.attrMode with
    | element => exact hblocks
    | component => exact hattrs

namespace Slots

variable {σ : Signature} {slots : Slots}

theorem fits_empty (σ : Signature) : Fits σ empty := fun _ => trivial

theorem Fits.bind (h : slots.Fits σ) {slot : UInt32} {b : Binding}
    (hb : b.Fits (σ.attrs slot) (σ.blocks slot)) : (slots.bind slot b).Fits σ := by
  intro other
  rw [Slots.bind]
  split
  · rename_i heq
    rwa [heq]
  · exact h other

theorem Fits.bindValue (h : slots.Fits σ) (slot : UInt32) (value : Reference) :
    (slots.bind slot (.value value)).Fits σ := h.bind trivial

theorem Fits.bindValues (h : slots.Fits σ) (symbols : List UInt32) (values : List Reference) :
    (slots.bindValues symbols values).Fits σ := by
  induction symbols generalizing slots values with
  | nil => exact h
  | cons symbol rest ih =>
    cases values with
    | nil => exact ih (h.bindValue symbol .null) []
    | cons value values => exact ih (h.bindValue symbol value) values

theorem Fits.bindAll (h : slots.Fits σ) {bindings : List (UInt32 × Binding)}
    (hbindings : ∀ b ∈ bindings, b.2.Fits (σ.attrs b.1) (σ.blocks b.1)) :
    (slots.bindAll bindings).Fits σ := by
  induction bindings generalizing slots with
  | nil => exact h
  | cons first rest ih =>
    exact ih (h.bind (hbindings first (.head _))) fun b hb => hbindings b (.tail _ hb)

end Slots

/-! ### Invocations -/

/-- The blocks of an invocation are content, and its attributes are attribute statements. -/
structure Invocation.Bracketed (σ : Signature) (i : Invocation) : Prop where
  block : ∀ f, i.block = some f → f.attrMode = .element ∧ f.Bracketed σ
  inverse : ∀ f, i.inverse = some f → f.attrMode = .element ∧ f.Bracketed σ
  attrs : ∀ f, i.attrs = some f → f.attrMode = .component ∧ f.Bracketed σ

/-- The blocks of a block statement are content. -/
structure BlockCall.Bracketed (σ : Signature) (b : BlockCall) : Prop where
  template : ∀ f, b.template = some f → f.attrMode = .element ∧ f.Bracketed σ
  inverse : ∀ f, b.inverse = some f → f.attrMode = .element ∧ f.Bracketed σ

namespace Walk

variable {σ : Signature} {p : Site} {i : Invocation}

theorem fits_passed (hp : p.slots.Fits σ) {o : Option Fragment} {mode : AttrMode}
    {attrs blocks : Bool} (ho : ∀ f, o = some f → f.attrMode = mode ∧ f.Bracketed σ)
    (hmode : mode.choose attrs blocks) :
    (passed p o).Fits attrs blocks := by
  cases o with
  | none => trivial
  | some f =>
    obtain ⟨rfl, hf⟩ := ho f rfl
    exact ⟨hmode, σ, hf, hp⟩

/-- A symbol that a block is passed for stands for a slot that may hold it. -/
theorem fits_block (hp : p.slots.Fits σ) (hi : i.Bracketed σ) (slot : UInt32) (rest : List String)
    {symbol : String} {o : Option Fragment} (ho : i.blockOf? symbol = some o) :
    (passed p o).Fits ((Signature.ofSymbols slot (symbol :: rest)).attrs slot)
      ((Signature.ofSymbols slot (symbol :: rest)).blocks slot) := by
  unfold Invocation.blockOf? at ho
  split at ho
  · obtain rfl := Option.some.inj ho
    exact fits_passed hp hi.block (by simp [AttrMode.choose, Signature.ofSymbols, *])
  · split at ho
    · obtain rfl := Option.some.inj ho
      exact fits_passed hp hi.inverse (by simp [AttrMode.choose, Signature.ofSymbols, *])
    · split at ho
      · obtain rfl := Option.some.inj ho
        exact fits_passed hp hi.attrs (by simp [AttrMode.choose, Signature.ofSymbols, *])
      · cases ho

/-- What fits the slots of the symbols from the next slot on fits those from this one on. -/
theorem fits_rest {b : UInt32 × Binding} {slot : UInt32} {rest : List String} (symbol : String)
    (h : b.2.Fits ((Signature.ofSymbols (slot + 1) rest).attrs b.1)
      ((Signature.ofSymbols (slot + 1) rest).blocks b.1)) :
    b.2.Fits ((Signature.ofSymbols slot (symbol :: rest)).attrs b.1)
      ((Signature.ofSymbols slot (symbol :: rest)).blocks b.1) :=
  h.mono (fun h => by simp [Signature.ofSymbols, h]) (fun h => by simp [Signature.ofSymbols, h])

theorem binding?_eq (p : Site) (i : Invocation) (args : Arguments) (symbol : String) :
    binding? p i args symbol =
      match i.blockOf? symbol with
      | some o => some (passed p o)
      | none =>
        match SymbolRole.ofSymbol symbol with
        | .argument _ bare => (args.named? bare).map .value
        | _ => none := by
  unfold binding? Invocation.blockOf?
  by_cases hmain : symbol = blockSymbols.main
  · simp only [if_pos hmain]
  · by_cases hinverse : symbol = blockSymbols.inverse
    · simp only [if_neg hmain, if_pos hinverse]
    · by_cases hattrs : symbol = blockSymbols.attrs
      · simp only [if_neg hmain, if_neg hinverse, if_pos hattrs]
      · cases SymbolRole.ofSymbol symbol <;> simp only [if_neg hmain, if_neg hinverse,
          if_neg hattrs]

theorem fits_bindings (hp : p.slots.Fits σ) (hi : i.Bracketed σ) (args : Arguments) (slot : UInt32)
    (symbols : List String) : ∀ b ∈ bindings p i args slot symbols,
      b.2.Fits ((Signature.ofSymbols slot symbols).attrs b.1)
        ((Signature.ofSymbols slot symbols).blocks b.1) := by
  induction symbols generalizing slot with
  | nil => exact nofun
  | cons symbol rest ih =>
    have hrest : ∀ b ∈ bindings p i args (slot + 1) rest, _ := fun b hb =>
      fits_rest symbol (ih (slot + 1) b hb)
    rw [bindings]
    cases hbinding : binding? p i args symbol with
    | none => exact hrest
    | some binding =>
      refine fun b hb => (List.mem_cons.mp hb).elim (fun heq => ?_) (hrest b)
      subst heq
      rw [binding?_eq] at hbinding
      cases ho : i.blockOf? symbol with
      | some o =>
        rw [ho] at hbinding
        obtain rfl := Option.some.inj hbinding
        exact fits_block hp hi slot rest ho
      | none =>
        rw [ho] at hbinding
        simp only at hbinding
        split at hbinding
        · obtain ⟨value, -, rfl⟩ := Option.map_eq_some_iff.mp hbinding
          trivial
        · cases hbinding

/-- The slots of a layout hold what they may hold. -/
theorem fits_layoutSlots (hp : p.slots.Fits σ) (hi : i.Bracketed σ) (self : Reference)
    (args : Arguments) (symbols : List String) :
    (layoutSlots p i self args symbols).Fits (.ofLayout symbols) := by
  refine (Slots.fits_empty _).bindAll fun b hb => ?_
  rcases List.mem_cons.mp hb with rfl | hb
  · trivial
  · exact fits_bindings hp hi args 1 symbols b hb

end Walk

end TemplateMachine
