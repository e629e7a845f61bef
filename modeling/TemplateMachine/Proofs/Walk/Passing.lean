import TemplateMachine.Proofs.Walk.Bracket
import TemplateMachine.Proofs.Walk.Places

/-! What a statement has rendered.  It is nested blocks of its own template, in their place, and the
layouts of components, which are entered with slots that hold the blocks of the invocation.  To a
statement two ways of rendering fragments are the same if they agree on these. -/

namespace TemplateMachine

/-- A block in the binding is one of the invocation, with the slots of its place. -/
def Binding.IsPassed (p : Site) (i : Invocation) : Binding → Prop
  | .block body written =>
    written = p.slots ∧ (i.block = some body ∨ i.inverse = some body ∨ i.attrs = some body)
  | _ => True

namespace Slots

variable {P : Binding → Prop} {slots : Slots}

theorem forall_bind (hslots : ∀ slot, P (slots slot)) {symbol : UInt32} {b : Binding} (hb : P b)
    (slot : UInt32) : P (slots.bind symbol b slot) := by
  rw [bind]
  split
  · exact hb
  · exact hslots slot

/-- What holds of the bindings, and of what slots hold before, holds of
what they hold afterwards. -/
theorem forall_bindAll (hslots : ∀ slot, P (slots slot)) {bindings : List (UInt32 × Binding)}
    (hbindings : ∀ b ∈ bindings, P b.2) (slot : UInt32) : P (slots.bindAll bindings slot) := by
  induction bindings generalizing slots with
  | nil => exact hslots slot
  | cons first rest ih =>
    exact ih (forall_bind hslots (hbindings first (.head _))) fun b hb => hbindings b (.tail _ hb)

theorem forall_bindValues (hslots : ∀ slot, P (slots slot)) (hvalue : ∀ value, P (.value value))
    (symbols : List UInt32) (values : List Reference) (slot : UInt32) :
    P (slots.bindValues symbols values slot) := by
  induction symbols generalizing slots values with
  | nil => exact hslots slot
  | cons symbol rest ih =>
    cases values with
    | nil => exact ih (forall_bind hslots (hvalue .null)) []
    | cons value values => exact ih (forall_bind hslots (hvalue value)) values

end Slots

namespace Walk

variable {s : Scene} {p : Site} {i : Invocation} {call call' : Call}

/-- The entry of the layout of a component, with what an invocation passes. -/
structure Entry.IsPassed (l : Lookup) (p : Site) (i : Invocation) (e : Entry) : Prop where
  layout : l.layout? e.current.definition = some e.layout
  slots : ∀ slot, (e.slots slot).IsPassed p i

theorem isPassed_passed {symbol : String} {o : Option Fragment} (h : i.blockOf? symbol = some o) :
    (passed p o).IsPassed p i := by
  cases o with
  | none => trivial
  | some f =>
    refine ⟨rfl, ?_⟩
    unfold Invocation.blockOf? at h
    split at h
    · exact .inl (Option.some.inj h)
    · split at h
      · exact .inr (.inl (Option.some.inj h))
      · split at h
        · exact .inr (.inr (Option.some.inj h))
        · cases h

theorem isPassed_bindings (p : Site) (i : Invocation) (args : Arguments) (slot : UInt32)
    (symbols : List String) : ∀ b ∈ bindings p i args slot symbols, b.2.IsPassed p i := by
  induction symbols generalizing slot with
  | nil => exact nofun
  | cons symbol rest ih =>
    rw [bindings]
    cases hbinding : binding? p i args symbol with
    | none => exact ih (slot + 1)
    | some binding =>
      refine fun b hb => (List.mem_cons.mp hb).elim (fun heq => ?_) (ih (slot + 1) b)
      subst heq
      rw [binding?_eq] at hbinding
      cases ho : i.blockOf? symbol with
      | some o =>
        rw [ho] at hbinding
        obtain rfl := Option.some.inj hbinding
        exact isPassed_passed ho
      | none =>
        rw [ho] at hbinding
        simp only at hbinding
        split at hbinding
        · obtain ⟨value, -, rfl⟩ := Option.map_eq_some_iff.mp hbinding
          trivial
        · cases hbinding

theorem isPassed_symbolBindings (s : Scene) (p : Site) (i : Invocation)
    {bound : List (UInt32 × Binding)} (hbound : ∀ b ∈ bound, b.2.IsPassed p i) (slot : UInt32)
    (symbols : List String) :
    (symbolBindings s p i bound slot symbols).Gives fun bindings =>
    ∀ b ∈ bindings, b.2.IsPassed p i := by
  have hbinding (symbol : String) :
      (symbolBinding s p i symbol).Gives fun o => ∀ b, o = some b → b.IsPassed p i := by
    unfold symbolBinding
    split
    · refine .bind_of (.orUndefined _) fun o ho => .pure ?_
      rintro _ ⟨⟩
      exact isPassed_passed ho
    · split
      · refine .bind fun _ => .pure ?_
        rintro _ ⟨⟩
        trivial
      · exact .pure nofun
    · exact .pure nofun
  induction symbols generalizing bound slot with
  | nil => exact .pure hbound
  | cons symbol rest ih =>
    refine .bind_of (hbinding symbol) fun o ho => ?_
    cases o with
    | none => exact ih hbound (slot + 1)
    | some b =>
      refine ih (fun other hother => ?_) (slot + 1)
      rcases List.mem_cons.mp hother with rfl | hother
      · exact ho b rfl
      · exact hbound other hother

theorem definition_componentState (s : Scene) (handle : UInt32) (curried : Option Arguments) :
    (componentState s handle curried).Gives fun c => c.definition = handle := by
  unfold componentState
  split
  · exact .pure rfl
  · exact .fail _

theorem definition_instantiate (s : Scene) (c : ComponentState) (asked : Instance) :
    (instantiate s c asked).Gives fun created => created.1.definition = c.definition := by
  have hcreate : (create s c asked).Gives fun current => current.definition = c.definition := by
    refine .bind fun _ => .bind fun w => ?_
    split
    · exact .pure rfl
    · exact .fail _
  exact .bind_of (.bind fun _ => hcreate) fun _ hcurrent => .bind fun _ => .bind fun _ =>
    .pure hcurrent

theorem isPassed_enterLayout {layout : Fragment} {slots : Slots} {c : Current}
    (hlayout : s.lookup.layout? c.definition = some layout)
    (hslots : ∀ slot, (slots slot).IsPassed p i) :
    (enterLayout s layout slots c).Gives (Entry.IsPassed s.lookup p i) :=
  (gives_enterLayout s layout slots c).mono fun _ he => by
    subst he
    exact ⟨hlayout, hslots⟩

section

variable {c : ComponentState}

theorem isPassed_genericEntry (s : Scene) (p : Site) (i : Invocation) {layout : Option Fragment}
    (hlayout : ∀ f, layout = some f → s.lookup.layout? c.definition = some f) :
    (genericEntry s p c i layout).Gives (Entry.IsPassed s.lookup p i) := by
  refine .bind fun args => .bind_of (definition_instantiate s c _) fun created hcurrent => ?_
  obtain ⟨current, self⟩ := created
  dsimp only at hcurrent ⊢
  cases hf : layout.or (s.lookup.layout? c.definition) with
  | none => exact .fail _
  | some f =>
    refine .bind fun table => isPassed_enterLayout ?_ ?_
    · rw [hcurrent]
      rcases Option.or_eq_some_iff.mp hf with hf | ⟨-, hf⟩
      · exact hlayout f hf
      · exact hf
    · refine Slots.forall_bindAll (fun _ => trivial) fun b hb => ?_
      rcases List.mem_cons.mp hb with rfl | hb
      · trivial
      · exact isPassed_bindings p i _ 1 _ b hb

theorem isPassed_boundEntry (s : Scene) (p : Site) (createArgs : Bool) {layout : Fragment}
    (hlayout : s.lookup.layout? c.definition = some layout) (table : ProgramTable)
    (i : Invocation) :
    (boundEntry s p createArgs layout table c i).Gives (Entry.IsPassed s.lookup p i) := by
  refine .bind fun given => .bind_of (definition_instantiate s c _) fun created hcurrent => ?_
  obtain ⟨current, self⟩ := created
  refine .bind_of (isPassed_symbolBindings s p i (fun b hb => ?_) 1 table.symbols)
      fun bound hbound =>
    isPassed_enterLayout (hcurrent ▸ hlayout) (Slots.forall_bindAll (fun _ => trivial) hbound)
  obtain rfl := List.mem_singleton.mp hb
  trivial

end

/-! ### Invocations -/

/-- The layouts that an invocation enters are rendered alike. -/
def SameLayouts (l : Lookup) (p : Site) (i : Invocation) (call call' : Call) : Prop :=
  ∀ e : Entry, e.IsPassed l p i →
    call e.layout.body e.slots (some e.current) = call' e.layout.body e.slots (some e.current)

theorem renderLayout_congr {x : Walk Entry} (hx : x.Gives (Entry.IsPassed s.lookup p i))
    (h : SameLayouts s.lookup p i call call') :
    x >>= renderLayout call = x >>= renderLayout call' :=
  hx.bind_congr fun e he => by rw [renderLayout, renderLayout, h e he]

theorem genericComponent_congr {c : ComponentState} {layout : Option Fragment}
    (hlayout : ∀ f, layout = some f → s.lookup.layout? c.definition = some f)
    (h : SameLayouts s.lookup p i call call') :
    genericComponent s p call c i layout = genericComponent s p call' c i layout :=
  renderLayout_congr (isPassed_genericEntry s p i hlayout) h

theorem component_congr (handle : UInt32) (h : SameLayouts s.lookup p i call call') :
    component s p call handle i = component s p call' handle i := by
  refine (definition_componentState s handle none).bind_congr fun c hc => ?_
  split
  · rename_i layout hf
    have hlayout : s.lookup.layout? c.definition = some layout := by
      split at hf
      · cases hf
      · rwa [hc]
    refine bind_congr fun table => ?_
    split
    · refine genericComponent_congr ?_ h
      rintro _ ⟨⟩
      exact hlayout
    · exact renderLayout_congr (isPassed_boundEntry s p _ hlayout table i) h
  · exact genericComponent_congr nofun h

theorem dynamicComponent_congr (definition : Reference) (h : SameLayouts s.lookup p i call call') :
    dynamicComponent s p call definition i = dynamicComponent s p call' definition i :=
  bind_congr fun _ => genericComponent_congr nofun h

theorem componentForm_congr (params : Option (List Expression))
    {invocation : List Expression → Invocation}
    (h : ∀ rest, SameLayouts s.lookup p (invocation rest) call call') :
    componentForm s p call params invocation = componentForm s p call' params invocation := by
  unfold componentForm
  split
  · split
    · exact component_congr _ (h _)
    · refine bind_congr fun value => ?_
      split
      · exact dynamicComponent_congr value (h _)
      · rfl
  · rfl

/-! ### Block forms -/

/-- A block is rendered alike in its place, whatever values it is given. -/
def SameBlock (p : Site) (call call' : Call) (f : Fragment) : Prop :=
  ∀ values, staticBlock p call f values = staticBlock p call' f values

section

variable {b : BlockCall}

theorem inverse_congr (h : ∀ f, b.inverse = some f → SameBlock p call call' f) :
    inverse p call b = inverse p call' b := by
  unfold inverse
  split
  · rename_i f hf
    exact h f hf []
  · rfl

variable (hmain : ∀ f, b.template = some f → SameBlock p call call' f)
variable (hinverse : ∀ f, b.inverse = some f → SameBlock p call call' f)

include hmain hinverse

theorem conditional_congr (expected : Bool) :
    conditional s p call expected b = conditional s p call' expected b := by
  refine (gives_single b).bind_congr fun single hsingle => bind_congr fun value => ?_
  rw [hmain _ hsingle, inverse_congr hinverse]

theorem withBlock_congr : withBlock s p call b = withBlock s p call' b := by
  refine (gives_single b).bind_congr fun single hsingle => bind_congr fun value => ?_
  rw [hmain _ hsingle, inverse_congr hinverse]

omit hmain hinverse in
theorem eachItem_congr {main : Fragment} (h : SameBlock p call call' main)
    (items : List IterationItem) :
    eachItem p call main items = eachItem p call' main items := by
  induction items with
  | nil => rfl
  | cons item rest ih => rw [eachItem, eachItem, h, ih]

theorem eachBlock_congr : eachBlock s p call b = eachBlock s p call' b := by
  refine (gives_single b).bind_congr fun single hsingle => bind_congr fun key =>
    bind_congr fun list => ?_
  dsimp only
  rw [inverse_congr hinverse, eachItem_congr (hmain _ hsingle)]

end

/-- A block statement that has its blocks rendered in their place. -/
def isInPlace (name : String) : Bool := ["if", "unless", "with", "each"].contains name

theorem blockCall_congr {b : BlockCall}
    (hblocks : isInPlace b.name → ∀ f, b.template = some f ∨ b.inverse = some f →
      SameBlock p call call' f)
    (hlayouts : isInPlace b.name = false →
      ∀ rest, SameLayouts s.lookup p (b.invocation rest) call call') :
    blockCall s p call b = blockCall s p call' b := by
  have hsame (h : isInPlace b.name) : (∀ f, b.template = some f → SameBlock p call call' f) ∧
      ∀ f, b.inverse = some f → SameBlock p call call' f :=
    ⟨fun f hf => hblocks h f (.inl hf), fun f hf => hblocks h f (.inr hf)⟩
  unfold blockCall
  split
  · rename_i hname
    obtain ⟨hmain, hinverse⟩ := hsame (by rw [hname]; decide)
    exact conditional_congr hmain hinverse true
  · rename_i hname
    obtain ⟨hmain, hinverse⟩ := hsame (by rw [hname]; decide)
    exact conditional_congr hmain hinverse false
  · rename_i hname
    obtain ⟨hmain, hinverse⟩ := hsame (by rw [hname]; decide)
    exact withBlock_congr hmain hinverse
  · rename_i hname
    obtain ⟨hmain, hinverse⟩ := hsame (by rw [hname]; decide)
    exact eachBlock_congr hmain hinverse
  · rename_i hname
    exact componentForm_congr _ (hlayouts (by rw [hname]; decide))
  · rename_i hif hunless hwith heach _
    refine bind_congr fun handle => component_congr handle (hlayouts ?_ _)
    simpa [isInPlace] using ⟨hif, hunless, hwith, heach⟩

/-! ### Appended values -/

theorem guardedAppend_congr (value : Expression) (trusting : Bool)
    (h : SameLayouts s.lookup p {} call call') :
    guardedAppend s p call value trusting = guardedAppend s p call' value trusting := by
  refine bind_congr fun value => ?_
  split
  · exact dynamicComponent_congr value h
  · rfl

/-- An appended value that is no partial is rendered alike if layouts are. -/
theorem append_congr {value : Expression} (trusted : Bool)
    (hpart : ∀ params, Compilable.inline? s.lookup p.referer value ≠ some (.part params))
    (h : ∀ i : Invocation, i.block = none → i.inverse = none → i.attrs = none →
      SameLayouts s.lookup p i call call') :
    append s p call value trusted = append s p call' value trusted := by
  unfold append
  split
  · exact componentForm_congr _ fun _ => h _ rfl rfl rfl
  · rename_i params hinline
    exact absurd hinline (hpart params)
  · exact component_congr _ (h _ rfl rfl rfl)
  · split
    · exact guardedAppend_congr value _ (h _ rfl rfl rfl)
    · rfl

end Walk

end TemplateMachine
