import TemplateMachine.Proofs.Markup.Tags
import TemplateMachine.Proofs.Walk.Content
import TemplateMachine.Proofs.Walk.Keep

/-! Walks of content.  Where no element is pending, content leaves none pending and the same
elements open; attribute statements need a pending element, and leave it pending.  So no walk misses
an element, however blocks are passed around. -/

namespace TemplateMachine

/-- The manager does nothing but set attributes when it is told about an element. -/
def Current.Decorates (c : Current) : Prop :=
  ∀ history inst sink, Sink.Decorates sink ((c.manager history).elementCreated inst sink)

/-- The fragment is rendered where an element is pending. -/
def Fragment.isAttrs (f : Fragment) : Bool := f.attrMode == .component

namespace Walk

variable {α β : Type} {s : Scene} {pre mid post : Sink → Prop}

/-- From sinks of one kind the walk comes to those of another, and misses no element on the way. -/
def Turns (pre : Sink → Prop) (x : Walk α) (post : Sink → Prop) : Prop :=
  ∀ w, pre w.sink →
    match x w with
    | .ok _ w' => post w'.sink
    | .error (.fault fault) _ => fault.isMisplaced = false
    | .error .outOfFuel _ => True

/-- The walk keeps whatever is true of the sink. -/
def LeavesSink (x : Walk α) : Prop := ∀ P, Turns P x P

namespace Turns

theorem bind_of {x : Walk α} {f : α → Walk β} {P : α → Prop} (hx : Turns pre x mid)
    (hgives : x.Gives P) (hf : ∀ a, P a → Turns mid (f a) post) : Turns pre (x >>= f) post := by
  intro w hw
  have hx := hx w hw
  rw [bind_apply]
  cases hxw : x w with
  | error e w' =>
    rw [hxw] at hx
    cases e <;> exact hx
  | ok a w' =>
    rw [hxw] at hx
    exact hf a (hgives w a w' hxw) w' hx

theorem bind {x : Walk α} {f : α → Walk β} (hx : Turns pre x mid) (hf : ∀ a, Turns mid (f a) post) :
    Turns pre (x >>= f) post :=
  bind_of hx (fun _ _ _ _ => trivial) fun a (_ : True) => hf a

/-- What is true of some sinks is true of each. -/
theorem exists_of {ι : Type} {P : ι → Sink → Prop} {x : Walk α} (h : ∀ i, Turns (P i) x post) :
    Turns (fun sink => ∃ i, P i sink) x post :=
  fun w ⟨i, hi⟩ => h i w hi

theorem emit {write : Sink → Sink} (h : ∀ sink, pre sink → post (write sink)) :
    Turns pre (emit write) post := fun w hw => h w.sink hw

theorem onElement {change : Sink → Sink.Result}
    (h : ∀ sink, pre sink → ∃ sink', change sink = .ok sink' ∧ post sink') :
    Turns pre (onElement change) post := by
  intro w hw
  obtain ⟨sink', hchange, hpost⟩ := h w.sink hw
  unfold Walk.onElement
  rw [hchange]
  exact hpost

end Turns

namespace LeavesSink

theorem steady {x : Walk α} (hx : x.Steady) : x.LeavesSink := by
  intro P w hw
  obtain ⟨result, calls, -, hplaced, hx⟩ := hx w.events
  rw [hx w rfl]
  cases result with
  | ok a => exact hw
  | error e =>
    cases e with
    | fault fault => exact hplaced fault rfl
    | outOfFuel => trivial

theorem pure (a : α) : (Pure.pure a : Walk α).LeavesSink := steady (.pure a)

theorem undefined : (undefined : Walk α).LeavesSink := steady .undefined

theorem orUndefined (o : Option α) : (orUndefined o).LeavesSink := steady (.orUndefined o)

theorem bind {x : Walk α} {f : α → Walk β} (hx : x.LeavesSink) (hf : ∀ a, (f a).LeavesSink) :
    (x >>= f).LeavesSink := fun P => (hx P).bind fun a => hf a P

theorem modify {change : World → World} (h : ∀ w, (change w).sink = w.sink) :
    (modify change : Walk Unit).LeavesSink := by
  intro P w hw
  show P (change w).sink
  rwa [h w]

end LeavesSink

/-! ### Instances -/

theorem leavesSink_create (s : Scene) (c : ComponentState) (asked : Instance) :
    (create s c asked).LeavesSink := by
  refine .bind (.modify fun _ => rfl) fun _ => ?_
  intro P w hw
  rw [bind_apply, get_apply]
  dsimp only
  cases (c.manager w.events).create s.cells asked with
  | ok inst => exact hw
  | error message => exact rfl

theorem leavesSink_registerDestructor (c : Current) : (registerDestructor c).LeavesSink := by
  refine .modify fun w => ?_
  dsimp only
  split <;> rfl

theorem leavesSink_instantiate (s : Scene) (c : ComponentState) (asked : Instance) :
    (instantiate s c asked).LeavesSink :=
  .bind (.bind (.modify fun _ => rfl) fun _ => leavesSink_create s c asked) fun current =>
    .bind (leavesSink_registerDestructor current) fun _ =>
      .bind (.steady (steady_selfReference s current)) fun _ => .pure _

theorem leavesSink_commitTransaction : commitTransaction.LeavesSink := by
  refine .modify fun w => ?_
  split <;> rfl

section

variable (hhost : s.host.Decorates)

include hhost

theorem decorates_create {c : ComponentState} (hc : IsHosts s c) (asked : Instance) :
    (create s c asked).Gives Current.Decorates := by
  intro w current w' hw
  obtain ⟨-, hmanager, -, -⟩ := create_ok hc hw
  obtain ⟨d, hd, hdmanager⟩ := hc
  rw [Current.Decorates, hmanager, hdmanager]
  exact hhost _ d hd

theorem decorates_instantiate {c : ComponentState} (hc : IsHosts s c) (asked : Instance) :
    (instantiate s c asked).Gives fun created => created.1.Decorates :=
  .bind_of (.bind fun _ => decorates_create hhost hc asked) fun _ hcurrent =>
    .bind fun _ => .bind fun _ => .pure hcurrent

end

/-! ### Layouts -/

/-- A whole template that a component may be invoked with. -/
def IsLayout (f : Fragment) : Prop :=
  f.attrMode = .element ∧
    ∀ table, f.table.asProgram? = some table → f.Bracketed (.ofLayout table.symbols)

/-- A layout that is content, whose slots hold what they may hold. -/
structure Entry.Fits (e : Entry) : Prop where
  mode : e.layout.attrMode = .element
  current : e.current.Decorates
  slots : ∃ σ : Signature, e.layout.Bracketed σ ∧ e.slots.Fits σ

theorem fits_enterLayout (s : Scene) {layout : Fragment} {slots : Slots} {c : Current}
    {σ : Signature} (hmode : layout.attrMode = .element) (hlayout : layout.Bracketed σ)
    (hslots : slots.Fits σ) (hc : c.Decorates) : (enterLayout s layout slots c).Gives Entry.Fits :=
  (gives_enterLayout s layout slots c).mono fun _ he => by
    subst he
    exact ⟨hmode, hc, σ, hlayout, hslots⟩

section

variable {σ : Signature} {p : Site} {i : Invocation} (hp : p.slots.Fits σ) (hi : i.Bracketed σ)

include hp hi

theorem fits_symbolBinding (s : Scene) (slot : UInt32) (symbol : String) (rest : List String) :
    (symbolBinding s p i symbol).Gives fun bound => ∀ b, bound = some b →
      b.Fits ((Signature.ofSymbols slot (symbol :: rest)).attrs slot)
        ((Signature.ofSymbols slot (symbol :: rest)).blocks slot) := by
  unfold symbolBinding
  split
  · rename_i other hrole
    obtain rfl := SymbolRole.eq_of_ofSymbol_block hrole
    refine .bind_of (.orUndefined _) fun o ho => .pure ?_
    rintro _ ⟨⟩
    exact fits_block hp hi slot rest ho
  · split
    · refine .bind fun _ => .pure ?_
      rintro _ ⟨⟩
      trivial
    · exact .pure nofun
  · exact .pure nofun

/-- The symbols of a layout are bound to what their slots may hold, one after the other. -/
theorem fits_symbolBindings (s : Scene) {τ : Signature} {bound : List (UInt32 × Binding)}
    {slot : UInt32} {symbols : List String}
    (hbound : ∀ b ∈ bound, b.2.Fits (τ.attrs b.1) (τ.blocks b.1))
    (hattrs : ∀ other, (Signature.ofSymbols slot symbols).attrs other = true → τ.attrs other = true)
    (hblocks : ∀ other, (Signature.ofSymbols slot symbols).blocks other = true →
      τ.blocks other = true) :
    (symbolBindings s p i bound slot symbols).Gives fun bindings =>
      ∀ b ∈ bindings, b.2.Fits (τ.attrs b.1) (τ.blocks b.1) := by
  induction symbols generalizing bound slot with
  | nil => exact .pure hbound
  | cons symbol rest ih =>
    have hattrs' (other : UInt32) (h : (Signature.ofSymbols (slot + 1) rest).attrs other = true) :
        τ.attrs other = true := hattrs other (by simp [Signature.ofSymbols, h])
    have hblocks' (other : UInt32) (h : (Signature.ofSymbols (slot + 1) rest).blocks other = true) :
        τ.blocks other = true := hblocks other (by simp [Signature.ofSymbols, h])
    refine .bind_of (fits_symbolBinding hp hi s slot symbol rest) fun o ho => ?_
    cases o with
    | none => exact ih hbound hattrs' hblocks'
    | some b =>
      refine ih (fun other hother => ?_) hattrs' hblocks'
      rcases List.mem_cons.mp hother with rfl | hother
      · exact (ho b rfl).mono (hattrs slot) (hblocks slot)
      · exact hbound other hother

variable (hhost : s.host.Decorates) (hlookup : s.lookup.Bracketed) {c : ComponentState}
variable (hc : IsHosts s c)

include hhost hc

theorem fits_boundEntry (createArgs : Bool) {layout : Fragment} (hlayout : IsLayout layout)
    {table : ProgramTable} (htable : layout.table.asProgram? = some table) :
    (boundEntry s p createArgs layout table c i).Gives Entry.Fits := by
  refine .bind fun given => .bind_of (decorates_instantiate hhost hc _) fun created hcurrent => ?_
  obtain ⟨current, self⟩ := created
  have hself (b : UInt32 × Binding) (hb : b ∈ [(0, Binding.value self)]) :
      b.2.Fits ((Signature.ofLayout table.symbols).attrs b.1)
        ((Signature.ofLayout table.symbols).blocks b.1) := by
    obtain rfl := List.mem_singleton.mp hb
    trivial
  refine .bind_of (fits_symbolBindings hp hi s hself (fun _ h => h) fun _ h => h)
    fun bound hbound => ?_
  exact fits_enterLayout s hlayout.1 (hlayout.2 table htable)
    ((Slots.fits_empty _).bindAll hbound) hcurrent

include hlookup

theorem fits_genericEntry {layout : Option Fragment} (hlayout : ∀ f, layout = some f → IsLayout f) :
    (genericEntry s p c i layout).Gives Entry.Fits := by
  refine .bind fun args => .bind_of (decorates_instantiate hhost hc _) fun created hcurrent => ?_
  obtain ⟨current, self⟩ := created
  dsimp only
  cases hf : layout.or (s.lookup.layout? c.definition) with
  | none => exact .fail _
  | some f =>
    have hfits : IsLayout f := by
      rcases Option.or_eq_some_iff.mp hf with hf | ⟨-, hf⟩
      · exact hlayout f hf
      · exact hlookup.layout _ f hf
    refine .bind_of (.orUndefined _) fun table htable => ?_
    exact fits_enterLayout s hfits.1 (hfits.2 table htable)
      (fits_layoutSlots hp hi self _ _) hcurrent

end

theorem leavesSink_boundEntry (s : Scene) (p : Site) (createArgs : Bool) (layout : Fragment)
    (table : ProgramTable) (c : ComponentState) (i : Invocation) :
    (boundEntry s p createArgs layout table c i).LeavesSink :=
  .bind (.steady (steady_argsIf s p createArgs i)) fun _ =>
    .bind (leavesSink_instantiate s c _) fun _ =>
      .bind (.steady (steady_symbolBindings s p i _ _ _)) fun _ =>
        .steady (steady_enterLayout _ _ _ _)

theorem leavesSink_genericEntry (s : Scene) (p : Site) (c : ComponentState) (i : Invocation)
    (layout : Option Fragment) : (genericEntry s p c i layout).LeavesSink := by
  refine .bind (.steady (steady_args s p i.params i.hash)) fun args =>
    .bind (leavesSink_instantiate s c _) fun created => ?_
  obtain ⟨current, self⟩ := created
  dsimp only
  cases layout.or (s.lookup.layout? c.definition) with
  | none => exact .steady (.fail rfl)
  | some f => exact .bind (.orUndefined _) fun table => .steady (steady_enterLayout _ _ _ _)

/-! ### Invocations -/

/-- Fragments are rendered as they are meant to be: content where no element is
pending, attributes where one is. -/
def Places (call : Call) : Prop :=
  ∀ (σ : Signature) (body : Fragment) (slots : Slots) (c : Option Current) (opened : List String),
    body.Bracketed σ → slots.Fits σ → (∀ current, c = some current → current.Decorates) →
    Turns (Sink.At body.isAttrs opened) (call body slots c) (Sink.At body.isAttrs opened)

/-- The place of a statement in a template that is content. -/
structure Fits (σ : Signature) (p : Site) : Prop where
  slots : p.slots.Fits σ
  blocks : ∀ b ∈ p.layout.template.blocks, Content σ b.statements
  current : ∀ c, p.current = some c → c.Decorates

section

variable {σ : Signature} {p : Site} {call : Call} {opened : List String}
variable (hhost : s.host.Decorates) (hlookup : s.lookup.Bracketed) (hp : Fits σ p)
variable (hcall : Places call)

include hcall

/-- Content is content wherever it is rendered. -/
theorem Places.content {body : Fragment} {τ : Signature} {slots : Slots} {c : Option Current}
    (hmode : body.attrMode = .element) (hbody : body.Bracketed τ) (hslots : slots.Fits τ)
    (hc : ∀ current, c = some current → current.Decorates) :
    Turns (Sink.At false opened) (call body slots c) (Sink.At false opened) := by
  have h := hcall τ body slots c opened hbody hslots hc
  rwa [Fragment.isAttrs, hmode] at h

theorem turns_renderLayout {x : Walk Entry} (hsink : x.LeavesSink) (hx : x.Gives Entry.Fits) :
    Turns (Sink.At false opened) (do renderLayout call (← x)) (Sink.At false opened) := by
  refine .bind_of (hsink _) hx fun e he => ?_
  obtain ⟨σ, hlayout, hslots⟩ := he.slots
  have hbody : e.layout.body.Bracketed σ := ⟨hlayout.content, hlayout.attributes, hlayout.blocks⟩
  refine .bind (Places.content hcall he.mode hbody hslots ?_) fun _ =>
    .bind ((LeavesSink.modify fun _ => rfl) _) fun _ => leavesSink_commitTransaction _
  rintro _ ⟨⟩
  exact he.current

include hhost hlookup hp

theorem turns_genericComponent {c : ComponentState} (hc : IsHosts s c) {i : Invocation}
    (hi : i.Bracketed σ) {layout : Option Fragment} (hlayout : ∀ f, layout = some f → IsLayout f) :
    Turns (Sink.At false opened) (genericComponent s p call c i layout) (Sink.At false opened) :=
  turns_renderLayout hcall (leavesSink_genericEntry s p c i layout)
    (fits_genericEntry hp.slots hi hhost hlookup hc hlayout)

theorem turns_staticComponent (capabilities : Capabilities) {layout : Fragment}
    (hlayout : IsLayout layout) {c : ComponentState} (hc : IsHosts s c) {i : Invocation}
    (hi : i.Bracketed σ) :
    Turns (Sink.At false opened) (staticComponent s p call capabilities layout c i)
      (Sink.At false opened) := by
  refine .bind_of (LeavesSink.orUndefined _ _) (.orUndefined _) fun table htable => ?_
  split
  · refine turns_genericComponent hhost hlookup hp hcall hc hi ?_
    rintro _ ⟨⟩
    exact hlayout
  · exact turns_renderLayout hcall (leavesSink_boundEntry s p _ layout table c i)
      (fits_boundEntry hp.slots hi hhost hc _ hlayout htable)

theorem turns_component (handle : UInt32) {i : Invocation} (hi : i.Bracketed σ) :
    Turns (Sink.At false opened) (component s p call handle i) (Sink.At false opened) := by
  refine .bind_of (LeavesSink.steady (steady_componentState s handle none) _)
    (hosts_componentState s handle none) fun c hc => ?_
  split
  · rename_i layout hf
    have hlayout : s.lookup.layout? handle = some layout := by
      split at hf
      · cases hf
      · exact hf
    exact turns_staticComponent hhost hlookup hp hcall _ (hlookup.layout _ _ hlayout) hc hi
  · exact turns_genericComponent hhost hlookup hp hcall hc hi nofun

theorem turns_dynamicComponent (definition : Reference) {i : Invocation} (hi : i.Bracketed σ) :
    Turns (Sink.At false opened) (dynamicComponent s p call definition i) (Sink.At false opened) :=
  .bind_of (LeavesSink.steady (steady_dynamicState s _ definition) _)
    (hosts_dynamicState s _ definition)
    fun _ hc => turns_genericComponent hhost hlookup hp hcall hc hi nofun

/-! ### Blocks -/

omit hhost hlookup in
theorem turns_staticBlock {f : Fragment} (hmode : f.attrMode = .element) (hf : f.Bracketed σ)
    (values : List Reference) :
    Turns (Sink.At false opened) (staticBlock p call f values) (Sink.At false opened) :=
  Places.content hcall hmode hf (hp.slots.bindValues _ _) hp.current

variable {b : BlockCall} (hb : b.Bracketed σ)

include hb

omit hhost hlookup in
theorem turns_inverse : Turns (Sink.At false opened) (inverse p call b) (Sink.At false opened) := by
  unfold inverse
  split
  · rename_i f hf
    obtain ⟨hmode, hbody⟩ := hb.inverse f hf
    exact turns_staticBlock hp hcall hmode hbody []
  · exact LeavesSink.pure _ _

omit hhost hlookup hp hcall hb in
theorem gives_single (b : BlockCall) : (single b).Gives fun param => b.template = some param.2 := by
  unfold single
  split
  · rename_i htemplate
    exact .pure htemplate
  · nofun

omit hhost hlookup hp hcall hb in
theorem leavesSink_single (b : BlockCall) : (single b).LeavesSink := by
  unfold single
  split
  · exact .pure _
  · exact .undefined

omit hhost hlookup in
theorem turns_conditional (expected : Bool) :
    Turns (Sink.At false opened) (conditional s p call expected b) (Sink.At false opened) := by
  refine .bind_of (leavesSink_single b _) (gives_single b) fun param hparam => ?_
  obtain ⟨hmode, hmain⟩ := hb.template _ hparam
  refine .bind (LeavesSink.steady (steady_expression s p _) _) fun _ => ?_
  split
  · exact turns_staticBlock hp hcall hmode hmain []
  · exact turns_inverse hp hcall hb

omit hhost hlookup in
theorem turns_withBlock :
    Turns (Sink.At false opened) (withBlock s p call b) (Sink.At false opened) := by
  refine .bind_of (leavesSink_single b _) (gives_single b) fun param hparam => ?_
  obtain ⟨hmode, hmain⟩ := hb.template _ hparam
  refine .bind (LeavesSink.steady (steady_expression s p _) _) fun value => ?_
  split
  · exact turns_staticBlock hp hcall hmode hmain [value]
  · exact turns_inverse hp hcall hb

omit hhost hlookup hb in
theorem turns_eachItem {main : Fragment} (hmode : main.attrMode = .element)
    (hmain : main.Bracketed σ) (items : List IterationItem) :
    Turns (Sink.At false opened) (eachItem p call main items) (Sink.At false opened) := by
  induction items with
  | nil => exact LeavesSink.pure _ _
  | cons item rest ih => exact .bind (turns_staticBlock hp hcall hmode hmain _) fun _ => ih

omit hhost hlookup in
theorem turns_eachBlock :
    Turns (Sink.At false opened) (eachBlock s p call b) (Sink.At false opened) := by
  have hkey : (keyValue s p b).Steady := by
    unfold keyValue
    split
    · exact steady_expression s p _
    · exact .pure _
  refine .bind_of (leavesSink_single b _) (gives_single b) fun param hparam => ?_
  obtain ⟨hmode, hmain⟩ := hb.template _ hparam
  refine .bind (LeavesSink.steady hkey _) fun _ =>
    .bind (LeavesSink.steady (steady_expression s p _) _) fun _ => ?_
  dsimp only
  split
  · exact turns_inverse hp hcall hb
  · exact turns_eachItem hp hcall hmode hmain _

omit hb in
theorem turns_componentForm (params : Option (List Expression))
    {invocation : List Expression → Invocation} (hi : ∀ rest, (invocation rest).Bracketed σ) :
    Turns (Sink.At false opened) (componentForm s p call params invocation)
      (Sink.At false opened) := by
  unfold componentForm
  split
  · split
    · exact turns_component hhost hlookup hp hcall _ (hi _)
    · refine .bind (LeavesSink.steady (steady_expression s p _) _) fun _ => ?_
      split
      · exact turns_dynamicComponent hhost hlookup hp hcall _ (hi _)
      · exact LeavesSink.pure _ _
  · exact LeavesSink.undefined _

theorem turns_blockCall :
    Turns (Sink.At false opened) (blockCall s p call b) (Sink.At false opened) := by
  have hi (rest : List Expression) : (b.invocation rest).Bracketed σ :=
    ⟨hb.template, hb.inverse, nofun⟩
  unfold blockCall
  split
  · exact turns_conditional hp hcall hb _
  · exact turns_conditional hp hcall hb _
  · exact turns_withBlock hp hcall hb
  · exact turns_eachBlock hp hcall hb
  · exact turns_componentForm hhost hlookup hp hcall _ hi
  · exact .bind (LeavesSink.orUndefined _ _) fun _ =>
      turns_component hhost hlookup hp hcall _ (hi _)

/-! ### Appended values -/

omit hb

theorem turns_append (value : Expression) (trusted : Bool) :
    Turns (Sink.At false opened) (append s p call value trusted) (Sink.At false opened) := by
  have hcontent (trusting : Bool) (value : Reference) :
      Turns (Sink.At false opened) (content s trusting value) (Sink.At false opened) := by
    unfold content
    split
    · refine .emit fun sink hsink => ?_
      split <;> exact hsink
    · exact LeavesSink.pure _ _
  have hi (hash : Option Hash) (rest : List Expression) :
      (Compilable.inlineInvocation hash rest).Bracketed σ := ⟨nofun, nofun, nofun⟩
  unfold append
  split
  · exact turns_componentForm hhost hlookup hp hcall _ (hi _)
  · unfold partialForm
    split
    · refine .bind_of (LeavesSink.orUndefined _ _) (.orUndefined _) fun found hfound => ?_
      obtain ⟨f, table⟩ := found
      obtain ⟨number, -, hf⟩ := Compilable.partial?_eq_some hfound
      obtain ⟨hmode, hbody⟩ := hlookup.part number f hf
      exact Places.content hcall hmode ⟨hbody.content, hbody.attributes, hbody.blocks⟩
        ((Slots.fits_empty _).bindValue _ _) hp.current
    · exact LeavesSink.undefined _
  · exact turns_component hhost hlookup hp hcall _ (hi _ _)
  · split
    · refine .bind (LeavesSink.steady (steady_expression s p _) _) fun _ => ?_
      split
      · exact turns_dynamicComponent hhost hlookup hp hcall _ ⟨nofun, nofun, nofun⟩
      · exact hcontent _ _
    · exact .bind (LeavesSink.steady (steady_expression s p _) _) fun _ => hcontent _ _

/-! ### Blocks in slots -/

omit hhost hlookup in
/-- A block in a slot is rendered where it is meant to be. -/
theorem turns_yield {pending : Bool} {slot : UInt32} (params : List Expression)
    (hslot : ∀ body written, p.slots slot = .block body written → body.isAttrs = pending) :
    Turns (Sink.At pending opened) (yield s p call slot params) (Sink.At pending opened) := by
  refine .bind (LeavesSink.steady (steady_args s p _ _) _) fun given => ?_
  have hfits := hp.slots slot
  split
  · rename_i body written hblock
    rw [hblock] at hfits
    obtain ⟨-, τ, hbody, hwritten⟩ := hfits
    have hslots : Slots.Fits τ (Slots.bindValues written body.table.parameters given.positional) :=
      Slots.Fits.bindValues hwritten _ _
    have h := hcall τ body _ p.current opened hbody hslots hp.current
    rwa [hslot body written hblock] at h
  · exact LeavesSink.pure _ _

omit hhost hlookup hcall in
theorem isAttrs_of_not_blocks {slot : UInt32} (h : σ.blocks slot = false) {body : Fragment}
    {written : Slots} (hblock : p.slots slot = .block body written) : body.isAttrs = true := by
  have hfits := hp.slots slot
  rw [hblock] at hfits
  have hmode := hfits.1
  cases hbody : body.attrMode with
  | element =>
    rw [hbody, AttrMode.choose, h] at hmode
    cases hmode
  | component =>
    rw [Fragment.isAttrs, hbody]
    rfl

omit hhost hlookup hcall in
theorem isAttrs_of_not_attrs {slot : UInt32} (h : σ.attrs slot = false) {body : Fragment}
    {written : Slots} (hblock : p.slots slot = .block body written) : body.isAttrs = false := by
  have hfits := hp.slots slot
  rw [hblock] at hfits
  have hmode := hfits.1
  cases hbody : body.attrMode with
  | component =>
    rw [hbody, AttrMode.choose, h] at hmode
    cases hmode
  | element =>
    rw [Fragment.isAttrs, hbody]
    rfl

omit hhost hlookup hcall in
theorem turns_elementCreated {pending : Bool} :
    Turns (Sink.At pending opened) (elementCreated p) (Sink.At pending opened) := by
  intro w hw
  show Sink.At pending opened (World.sink _)
  cases hcurrent : p.current with
  | none => exact hw
  | some c => exact (hp.current c hcurrent _ _ _).adorned.at hw

/-! ### Statements -/

end

section

variable {opened : List String}

theorem turns_onPending {change : Sink → Sink.Result} {operation : ElementOp}
    {adorn : PendingElement → PendingElement}
    (h : ∀ sink, change sink = sink.onPending operation adorn) :
    Turns (Sink.At true opened) (onElement change) (Sink.At true opened) := by
  refine .onElement fun sink hsink => ?_
  obtain ⟨sink', hsink'⟩ := Sink.onPending_ok hsink.1 operation adorn
  exact ⟨sink', (h sink).trans hsink', (Sink.adorned_onPending hsink').at hsink⟩

theorem turns_setAttribute (mode : AttrMode) (name : String) (value space : Option String) :
    Turns (Sink.At true opened) (setAttribute mode name value space) (Sink.At true opened) := by
  cases mode with
  | element => exact turns_onPending fun _ => rfl
  | component => exact turns_onPending fun _ => rfl

theorem turns_setAttributes (attributes : List (String × String)) :
    Turns (Sink.At true opened) (setAttributes attributes) (Sink.At true opened) := by
  induction attributes with
  | nil => exact LeavesSink.pure _ _
  | cons first rest ih => exact .bind (turns_onPending fun _ => rfl) fun _ => ih

theorem turns_applyModifier (s : Scene) (handle : UInt32) (args : Arguments) :
    Turns (Sink.At true opened) (applyModifier s handle args) (Sink.At true opened) := by
  refine .bind (LeavesSink.orUndefined _ _) fun change => .bind (LeavesSink.modify (fun _ => rfl) _)
    fun _ => ?_
  intro w hw
  rw [bind_apply, get_apply]
  dsimp only
  cases change w.events s.cells args with
  | ok attributes => exact turns_setAttributes attributes w hw
  | error message => exact rfl

theorem turns_openElement (tag : String) :
    Turns (Sink.At false opened) (emit fun sink => sink.openElement tag) (Sink.At true opened) :=
  .emit fun _ hsink => ⟨rfl, hsink.2⟩

theorem turns_flushElement :
    Turns (Sink.At true opened) (onElement Sink.flushElement)
      fun sink => ∃ tag, sink.At false (tag :: opened) := by
  refine .onElement fun sink hsink => ?_
  obtain ⟨output, pending, stack⟩ := sink
  obtain ⟨hpending, rfl⟩ := hsink
  obtain ⟨e, rfl⟩ := Option.isSome_iff_exists.mp hpending
  exact ⟨_, rfl, e.tag, rfl, rfl⟩

theorem turns_closeElement {tag : String} :
    Turns (Sink.At false (tag :: opened)) (onElement Sink.closeElement) (Sink.At false opened) := by
  refine .onElement fun sink hsink => ?_
  obtain ⟨output, pending, stack⟩ := sink
  obtain ⟨hpending, rfl⟩ := hsink
  exact ⟨_, rfl, hpending, rfl⟩

/-- An element is opened, given its attributes, filled and closed. -/
theorem turns_element {tag : String} {attrs inner rest : Walk Unit} {post : Sink → Prop}
    (hattrs : ∀ opened, Turns (Sink.At true opened) attrs (Sink.At true opened))
    (hinner : ∀ opened, Turns (Sink.At false opened) inner (Sink.At false opened))
    (hrest : Turns (Sink.At false opened) rest post) :
    Turns (Sink.At false opened)
      (do
        emit fun sink => sink.openElement tag
        attrs
        onElement Sink.flushElement
        inner
        onElement Sink.closeElement
        rest)
      post :=
  .bind (turns_openElement tag) fun _ => .bind (hattrs _) fun _ => .bind turns_flushElement fun _ =>
    .exists_of fun _ => .bind (hinner _) fun _ => .bind turns_closeElement fun _ => hrest

end

theorem statements_append (s : Scene) (p : Site) (call : Call) (mode : AttrMode)
    (first second : List Statement) :
    statements s p call mode (first ++ second) =
      (do statements s p call mode first; statements s p call mode second) := by
  induction first with
  | nil => rfl
  | cons st rest ih => simp only [List.cons_append, statements, ih, bind_assoc]

section

variable {σ : Signature} {p : Site} {call : Call}
variable (hhost : s.host.Decorates) (hlookup : s.lookup.Bracketed) (hp : Fits σ p)
variable (hcall : Places call)

include hp hcall

theorem turns_attribute (mode : AttrMode) {st : Statement} (hst : st.isAttribute σ)
    (opened : List String) :
    Turns (Sink.At true opened) (statement s p call mode st) (Sink.At true opened) := by
  cases st with
  | staticAttr name value space => exact turns_setAttribute _ _ _ _
  | dynamicAttr name value space trusting =>
    exact .bind (LeavesSink.steady (steady_expression s p value) _) fun _ =>
      turns_setAttribute _ _ _ _
  | modifier name params hash =>
    exact .bind (LeavesSink.orUndefined _ _) fun _ =>
      .bind (LeavesSink.steady (steady_args s p _ _) _) fun _ => turns_applyModifier s _ _
  | attrSplat slot =>
    have hslot : σ.blocks slot = false := by simpa [Statement.isAttribute] using hst
    exact .bind (turns_yield hp hcall [] fun _ _ => isAttrs_of_not_blocks hp hslot) fun _ =>
      turns_elementCreated hp
  | _ => cases hst

theorem turns_attributes (mode : AttrMode) {sts : List Statement}
    (hsts : sts.all (Statement.isAttribute σ)) (opened : List String) :
    Turns (Sink.At true opened) (statements s p call mode sts) (Sink.At true opened) := by
  induction sts with
  | nil => exact LeavesSink.pure _ _
  | cons st rest ih =>
    rw [List.all_cons, Bool.and_eq_true] at hsts
    exact .bind (turns_attribute hp hcall mode hsts.1 opened) fun _ => ih hsts.2

omit hcall in
/-- A nested block of a template that is content. -/
theorem bracketed_optionalBlock {index : Option Nat} {block : Option Fragment}
    (h : p.layout.optionalBlock? index = some block) :
    ∀ f, block = some f → f.attrMode = .element ∧ f.Bracketed σ := by
  rintro f rfl
  cases index with
  | none => cases h
  | some index =>
    obtain ⟨f', hf, hf'⟩ := Option.map_eq_some_iff.mp h
    obtain rfl := Option.some.inj hf'
    obtain ⟨block, hblock, rfl⟩ := Option.map_eq_some_iff.mp hf
    exact ⟨rfl, fun _ => hp.blocks _ (List.mem_of_getElem? hblock), nofun, hp.blocks⟩

omit hcall in
/-- The invocation of a component by its tag. -/
theorem bracketed_byTag {attrs : List Statement} {hash : Option Hash} {block : Option Fragment}
    (hblock : ∀ f, block = some f → f.attrMode = .element ∧ f.Bracketed σ)
    (hattrs : attrs.all (Statement.isAttribute σ)) :
    Invocation.Bracketed σ { attrs := some (.ofAttrs .entry p.layout attrs), hash, block } where
  block := hblock
  inverse := by rintro _ ⟨⟩
  attrs := by
    rintro _ ⟨⟩
    refine ⟨rfl, fun h => ?_, fun _ => hattrs, hp.blocks⟩
    cases h

include hhost hlookup

theorem turns_contentStatement (mode : AttrMode) {st : Statement} (hst : st.isContent σ)
    (opened : List String) :
    Turns (Sink.At false opened) (statement s p call mode st) (Sink.At false opened) := by
  cases st with
  | text text => exact .emit fun _ hsink => hsink
  | comment text => exact .emit fun _ hsink => hsink
  | append value trusted => exact turns_append hhost hlookup hp hcall value trusted
  | block name params hash template inverse =>
    refine .bind_of (LeavesSink.orUndefined _ _) (.orUndefined _) fun template htemplate =>
      .bind_of (LeavesSink.orUndefined _ _) (.orUndefined _) fun inverse hinverse => ?_
    exact turns_blockCall hhost hlookup hp hcall
      ⟨bracketed_optionalBlock hp htemplate, bracketed_optionalBlock hp hinverse⟩
  | component tag attrs hash body =>
    have hattrs : attrs.all (Statement.isAttribute σ) := hst
    refine .bind_of (LeavesSink.orUndefined _ _) (.orUndefined _) fun block hblock => ?_
    have hblocks := bracketed_optionalBlock hp hblock
    split
    · exact turns_component hhost hlookup hp hcall _ (bracketed_byTag hp hblocks hattrs)
    · refine .bind (turns_openElement tag) fun _ =>
        .bind (turns_attributes hp hcall .element hattrs opened) fun _ =>
          .bind turns_flushElement fun _ => .exists_of fun _ => ?_
      cases block with
      | none => exact turns_closeElement
      | some f =>
        obtain ⟨hmode, hf⟩ := hblocks f rfl
        exact .bind (turns_staticBlock hp hcall hmode hf []) fun _ => turns_closeElement
  | yield slot params =>
    have hslot : σ.attrs slot = false := by simpa [Statement.isContent] using hst
    exact turns_yield hp hcall _ fun _ _ => isAttrs_of_not_attrs hp hslot
  | _ => cases hst

/-- Content is rendered between elements, and between elements it ends. -/
theorem turns_content (mode : AttrMode) {sts : List Statement} (hsts : Content σ sts)
    (opened : List String) :
    Turns (Sink.At false opened) (statements s p call mode sts) (Sink.At false opened) := by
  induction hsts generalizing opened with
  | nil => exact LeavesSink.pure _ _
  | cons hst _ ih =>
    exact .bind (turns_contentStatement hhost hlookup hp hcall mode hst opened) fun _ => ih opened
  | @element tag attrs inner rest hattrs _ _ ihinner ihrest =>
    rw [statements, statements_append]
    simp only [statements, statements_append]
    exact turns_element (turns_attributes hp hcall mode hattrs) ihinner (ihrest opened)

end

/-- Rendering content leaves the same elements open, and rendering attributes
leaves the element pending. -/
theorem places_call (hhost : s.host.Decorates) (hlookup : s.lookup.Bracketed) (depth : Nat) :
    Places (call s depth) := by
  induction depth with
  | zero => exact fun _ _ _ _ _ _ _ _ => LeavesSink.undefined _
  | succ depth ih =>
    intro σ body slots c opened hbody hslots hc
    have hp : Fits σ ⟨body.layout, slots, c⟩ := ⟨hslots, hbody.blocks, hc⟩
    unfold call
    split
    · cases hmode : body.attrMode with
      | element =>
        rw [Fragment.isAttrs, hmode]
        exact turns_content hhost hlookup hp ih .element (hbody.content hmode) opened
      | component =>
        rw [Fragment.isAttrs, hmode]
        exact turns_attributes hp ih .component (hbody.attributes hmode) opened
    · exact LeavesSink.steady (.fail rfl) _

end Walk

end TemplateMachine
