import TemplateMachine.Proofs.Render.Naming
import TemplateMachine.Proofs.Render.Outcome
import TemplateMachine.Proofs.Walk.Content
import TemplateMachine.Proofs.Walk.Places
import TemplateMachine.Proofs.Walk.Purity

/-! The ways of invoking a component.  Code of its own binds the symbols of a layout that is known
one after the other, the last to be computed first, and without arguments if the manager asks for
none; elsewhere the machine binds them to the arguments and blocks of the invocation.  Where
arguments call none but pure helpers all ways enter the same layout, with the same in its slots,
below the same instance. -/

namespace TemplateMachine

/-! ### Bindings in another order -/

/-- Slots that are each bound once may be bound in the opposite order. -/
theorem Slots.bindAll_reverse {bindings : List (UInt32 × Binding)}
    (h : (bindings.map Prod.fst).Nodup) (s : Slots) :
    s.bindAll bindings.reverse = s.bindAll bindings := by
  refine (List.reverse_perm bindings).foldl_eq' (fun x hx y hy slots => ?_) s
  by_cases hxy : x.1 = y.1
  · rw [List.inj_on_of_nodup_map h (List.mem_reverse.mp hx) (List.mem_reverse.mp hy) hxy]
  · funext slot
    simp only [Slots.bind]
    by_cases hy : slot = y.1
    · rw [if_pos hy, if_neg (fun hx => hxy (hx.symm.trans hy)), if_pos hy]
    · rw [if_neg hy, if_neg hy]

namespace Walk

variable {s : Scene} {p : Site} {i : Invocation} {given : Arguments} {symbols : List String}

/-- The slots that symbols are bound to are among those from the first one on. -/
theorem bindings_sublist (start : Nat) :
    ((bindings p i given (UInt32.ofNat start) symbols).map Prod.fst).Sublist
      ((List.range' start symbols.length).map UInt32.ofNat) := by
  induction symbols generalizing start with
  | nil => exact .refl _
  | cons symbol rest ih =>
    have hnext : UInt32.ofNat start + 1 = UInt32.ofNat (start + 1) :=
      (UInt32.ofNat_add start 1).symm
    rw [bindings, hnext, List.length_cons, List.range'_succ, List.map_cons]
    split
    · exact (ih (start + 1)).cons_cons _
    · exact (ih (start + 1)).cons _

/-- The symbols of a layout may be bound in either order. -/
theorem bindAll_bindings_reverse (hsize : 1 + symbols.length < UInt32.size) (self : Reference) :
    Slots.empty.bindAll ((bindings p i given 1 symbols).reverse ++ [(0, .value self)]) =
      layoutSlots p i self given symbols := by
  have hslots : (((0, .value self) :: bindings p i given 1 symbols).map Prod.fst).Sublist
      ((List.range' 0 (symbols.length + 1)).map UInt32.ofNat) := (bindings_sublist 1).cons_cons 0
  have hrange : (List.range' 0 (symbols.length + 1)).Nodup := List.nodup_range'
  rw [layoutSlots, ← List.reverse_cons]
  refine Slots.bindAll_reverse (hslots.nodup (hrange.map_on fun x hx y hy hxy => ?_)) _
  have hx := (List.mem_range'_1.mp hx).2
  have hy := (List.mem_range'_1.mp hy).2
  have := congrArg UInt32.toNat hxy
  rwa [UInt32.toNat_ofNat_of_lt' (by omega), UInt32.toNat_ofNat_of_lt' (by omega)] at this

end Walk

/-! ### Symbols -/

/-- There is a value for each name of the hash.  No name begins with `@` in an invocation that is
written with curly braces, and all names do elsewhere. -/
def Invocation.IsSpelled (i : Invocation) : Prop :=
  ∀ hash, i.hash = some hash → hash.names.length = hash.values.length ∧
    ∀ name ∈ hash.names, (name.toList.head? = some '@') ↔ i.synthetic = false

/-- The spelling of an argument is the only name that stands for it. -/
theorem Invocation.IsSpelled.spelling_iff {i : Invocation} (h : i.IsSpelled) {hash : Hash}
    (hi : i.hash = some hash) {written : String} (hwritten : written ∈ hash.names) (name : String) :
    written = i.spelling name ↔ Walk.bareName written = name := by
  have hhead := (h hash hi).2 written hwritten
  unfold Walk.bareName Invocation.spelling
  cases hsynthetic : i.synthetic with
  | true =>
    rw [if_pos rfl]
    split
    · rename_i hchars
      simp [hchars, hsynthetic] at hhead
    · rfl
  | false =>
    rw [if_neg (by simp)]
    split
    · rename_i rest hchars
      refine ⟨fun heq => ?_, fun heq => ?_⟩
      · rw [heq] at hchars
        simp only [String.toList_append, String.reduceToList, List.cons_append, List.nil_append,
          List.cons.injEq, true_and] at hchars
        rw [← hchars, String.ofList_toList]
      · rw [← heq]
        exact String.ext (by simp [hchars])
    · rename_i hchars
      obtain ⟨rest, hrest⟩ := List.head?_eq_some_iff.mp (hhead.mpr hsynthetic)
      exact absurd hrest (hchars rest)

namespace Walk

variable {s : Scene} {p : Site} {i : Invocation} {w w' : World} {given : Arguments}
variable {symbol : String}

/-- Code of its own binds an argument symbol to what the machine binds it to. -/
theorem comesTo_argument (hspelled : i.IsSpelled) (hpure : i.IsPure s p.referer)
    (hargs : args s p i.params i.hash w = .ok given w') (name : String) :
    (symbolBinding s p i ("@" ++ name)).ComesTo s.host ((given.named? name).map .value) := by
  cases hi : i.hash with
  | none =>
    rw [hi] at hargs
    obtain ⟨positional, w₁, -, hargs⟩ := ok_bind hargs
    cases hargs
    unfold symbolBinding
    rw [SymbolRole.ofSymbol_argument, hi]
    exact .pure _
  | some hash =>
    obtain ⟨hnames, hlength⟩ := args_named s p i.params hash w given w' (hi ▸ hargs)
    rw [symbolBinding_argument hi, HashOf.idxOf?_spelling fun written hwritten =>
      hspelled.spelling_iff hi hwritten name, ArgumentsOf.named?, hnames]
    show ComesTo _ _
      (((hash.bareNames.idxOf? name).bind fun j => given.named[j]?).map Binding.value)
    cases hash.bareNames.idxOf? name with
    | none => exact .pure _
    | some j =>
      simp only [Option.bind_some]
      cases hvalue : hash.values[j]? with
      | none =>
        rw [List.getElem?_eq_none (hlength ▸ List.getElem?_eq_none_iff.mp hvalue)]
        exact .pure _
      | some e =>
        obtain ⟨value, hnamed, hvalue⟩ := comesTo_of_args hi hpure hargs hvalue
        rw [hnamed]
        exact hvalue.bind (.pure _)

/-- Code of its own binds a symbol to what the machine binds it to, if it can bind it at all. -/
theorem comesTo_symbolBinding (hspelled : i.IsSpelled) (hpure : i.IsPure s p.referer)
    (hargs : args s p i.params i.hash w = .ok given w')
    (hblock : SymbolRole.ofSymbol symbol = .block symbol → (i.blockOf? symbol).isSome) :
    (symbolBinding s p i symbol).ComesTo s.host (binding? p i given symbol) := by
  rw [binding?_eq]
  cases ho : i.blockOf? symbol with
  | some o =>
    unfold symbolBinding
    rw [Invocation.ofSymbol_of_blockOf? ho]
    simp only [ho, orUndefined_some]
    exact .pure _
  | none =>
    cases hrole : SymbolRole.ofSymbol symbol with
    | block other =>
      obtain rfl := SymbolRole.eq_of_ofSymbol_block hrole
      simp [ho] at hblock
      exact absurd hrole hblock
    | argument name bare =>
      obtain rfl := SymbolRole.eq_of_ofSymbol_argument hrole
      exact comesTo_argument hspelled hpure hargs bare
    | inner =>
      unfold symbolBinding
      rw [hrole]
      exact .pure _

/-- Code of its own binds the symbols of a layout to what the machine binds them
to, in the opposite order. -/
theorem comesTo_symbolBindings (hspelled : i.IsSpelled) (hpure : i.IsPure s p.referer)
    (hargs : args s p i.params i.hash w = .ok given w') {symbols : List String}
    (hblocks : ∀ symbol ∈ symbols, SymbolRole.ofSymbol symbol = .block symbol →
      (i.blockOf? symbol).isSome)
    (bound : List (UInt32 × Binding)) (slot : UInt32) :
    (symbolBindings s p i bound slot symbols).ComesTo s.host
      ((bindings p i given slot symbols).reverse ++ bound) := by
  induction symbols generalizing bound slot with
  | nil => exact .pure _
  | cons symbol rest ih =>
    have hrest := ih fun symbol hsymbol => hblocks symbol (.tail _ hsymbol)
    have hfirst := comesTo_symbolBinding hspelled hpure hargs (hblocks symbol (.head _))
    rw [symbolBindings, bindings]
    cases hbinding : binding? p i given symbol with
    | none =>
      rw [hbinding] at hfirst
      exact hfirst.bind (hrest bound (slot + 1))
    | some b =>
      rw [hbinding] at hfirst
      rw [List.reverse_cons, List.append_assoc]
      exact hfirst.bind (hrest ((slot, b) :: bound) (slot + 1))

end Walk

/-! ### Instances -/

section

variable {host : Host} {component : UInt32} {d : ComponentDefinition} {calls : List Event}

/-- No manager goes by calls of pure helpers. -/
theorem Host.manager_unseen (hd : host.component? component = some d)
    (hcalls : ∀ e ∈ calls, e.IsPure host) (before after : History) :
    d.manager (before ++ calls.toArray ++ after) = d.manager (before ++ after) := by
  induction calls generalizing before with
  | nil => simp
  | cons e rest ih =>
    have he := hcalls e (.head _)
    cases e with
    | helper handle args =>
      have hrest := ih (fun e he => hcalls e (.tail _ he)) (before.push (.helper handle args))
      rw [he.unseen component d hd] at hrest
      rw [← hrest]
      simp
    | _ => cases he

theorem Host.created?_unseen (hcalls : ∀ e ∈ calls, e.IsPure host) (cells : Cells)
    (history : History) (e : Event) (component : UInt32) (asked : Instance) :
    host.created? cells ((history ++ calls.toArray).push e) component asked =
      host.created? cells (history.push e) component asked := by
  unfold Host.created?
  cases hd : host.component? component with
  | none => rfl
  | some d =>
    have := Host.manager_unseen hd hcalls history #[e]
    simp only [Array.append_singleton] at this
    simp only [this]

theorem Host.offers_unseen (hcalls : ∀ e ∈ calls, e.IsPure host) (history : History) (e : Event)
    (d : Destructor) :
    host.offers ((history ++ calls.toArray).push e) d = host.offers (history.push e) d := by
  unfold Host.offers
  cases hd : host.component? d.definition with
  | none => rfl
  | some c =>
    have hpush (history : History) : (history.push e).push (.hasDestructor d.definition d.inst) =
      history ++ #[e, .hasDestructor d.definition d.inst] := Array.ext' (by simp)
    simp only [hpush, Host.manager_unseen hd hcalls]

end

/-- An instance was created in a transaction of its own, in the middle of other calls. -/
def World.entered (w : World) (host : Host) (asked : Instance) (d : Destructor)
    (before after : List Event) : World :=
  { w.log (before ++ .create d.definition asked :: .hasDestructor d.definition d.inst ::
      .selfReference d.definition d.inst :: after) with
    transactions :=
      (if host.offers (w.events.push (.create d.definition asked)) d then [d] else []) ::
        w.transactions }

/-- What an instance is known by that is created after some calls. -/
def Current.selfAfter (c : Current) (cells : Cells) (history : History)
    (asked : Instance) : Reference :=
  (c.manager (history ++ #[.create c.definition asked, .hasDestructor c.definition c.inst,
    .selfReference c.definition c.inst])).selfReference cells c.inst

/-- The instance that an invocation with arguments asks for. -/
def Invocation.asked (i : Invocation) (d : ComponentDefinition) (given : Arguments) : Instance :=
  ⟨d.name, if d.capabilities.createArgs then some given else none, i.block.isSome, i.inverse.isSome⟩

theorem Invocation.bodies_asked (i : Invocation) (d : ComponentDefinition) (given : Arguments) :
    i.bodies.asked d given = i.asked d given := by
  simp [Invocation.asked, Invocation.bodies]

namespace Walk

/-- The beginning of a life, if the manager creates an instance. -/
theorem instantiate_of {s : Scene} {c : ComponentState} {d : ComponentDefinition} {w : World}
    {asked inst : Instance} (hd : s.host.component? c.definition = some d)
    (hc : c.manager = d.manager)
    (hcreated : s.host.created? s.cells (w.events.push (.create c.definition asked))
      c.definition asked =
      some inst) :
    let current : Current := ⟨c.definition, d.manager, inst⟩
    instantiate s c asked w = .ok (current, current.selfAfter s.cells w.events asked)
      ((w.began s.host asked ⟨c.definition, inst⟩).log [.selfReference c.definition inst]) := by
  intro current
  have hasked : (c.manager (w.events.push (.create c.definition asked))).create s.cells asked =
      .ok inst := by
    rw [Host.created?, hd] at hcreated
    simp only [← hc] at hcreated
    split at hcreated
    · rename_i heq
      rw [heq, Option.some.inj hcreated]
    · cases hcreated
  let w₁ : World :=
    { w with events := w.events.push (.create c.definition asked),
             transactions := [] :: w.transactions }
  have hbegun : createInstance s c asked w = .ok current w₁ := by
    have hbegin : beginTransaction w = .ok () { w with transactions := [] :: w.transactions } := rfl
    rw [createInstance, bind_apply, hbegin]
    simp only [create, bind_apply, record_apply, get_apply]
    rw [hasked, hc]
    rfl
  rw [instantiate, bind_apply, hbegun]
  simp only [bind_apply, registerDestructor_apply (c := current) (w := w₁) rfl,
    selfReference, record_apply, get_apply]
  show EStateM.Result.ok (current, _) _ = _
  have hhistory : (w₁.events.push (.hasDestructor c.definition inst)).push
      (.selfReference c.definition inst) = w.events ++
        #[.create c.definition asked, .hasDestructor c.definition inst,
          .selfReference c.definition inst] :=
    Array.ext' (by simp [w₁])
  simp only [Current.selfAfter, current, hhistory]
  simp [World.began, World.log, Host.offers, hd, w₁, hhistory]

/-- An instance is created in the same way whatever pure helpers were called before. -/
theorem instantiate_after {s : Scene} {c : ComponentState} {d : ComponentDefinition} {w : World}
    {asked inst : Instance} {before : List Event} (hd : s.host.component? c.definition = some d)
    (hc : c.manager = d.manager) (hbefore : ∀ e ∈ before, e.IsPure s.host)
    (hcreated : s.host.created? s.cells (w.events.push (.create c.definition asked))
      c.definition asked =
      some inst) :
    let current : Current := ⟨c.definition, d.manager, inst⟩
    instantiate s c asked (w.log before) =
      .ok (current, current.selfAfter s.cells w.events asked)
        (w.entered s.host asked ⟨c.definition, inst⟩ before []) := by
  intro current
  have hself : current.selfAfter s.cells (w.events ++ before.toArray) asked =
      current.selfAfter s.cells w.events asked := by
    show (d.manager _).selfReference _ _ = (d.manager _).selfReference _ _
    rw [Host.manager_unseen hd hbefore]
  rw [← Host.created?_unseen hbefore] at hcreated
  refine (instantiate_of (w := w.log before) hd hc hcreated).trans ?_
  show EStateM.Result.ok (current,
    current.selfAfter s.cells (w.events ++ before.toArray) asked) _ = _
  rw [hself]
  congr 1
  simp only [World.began, World.entered, World.log, Host.offers_unseen hbefore]
  simp

end Walk

/-! ### Entries -/

/-- An invocation of a component whose layout code of its own can bind.  Its arguments call none but
pure helpers and have values, and an instance is created. -/
structure Walk.Invokes (s : Scene) (p : Site) (i : Invocation) (handle : UInt32)
    (d : ComponentDefinition) (layout : Fragment) (table : ProgramTable) (w : World)
    (given : Arguments) (inst : Instance) : Prop where
  component : s.host.component? handle = some d
  capabilities : s.lookup.capabilities handle = d.capabilities
  found : s.lookup.layout? handle = some layout
  compilable : layout.isCompilable s.lookup
  symbols : layout.table.asProgram? = some table
  size : 1 + table.symbols.length < UInt32.size
  blocks : ∀ symbol ∈ table.symbols, SymbolRole.ofSymbol symbol = .block symbol →
    (i.blockOf? symbol).isSome
  spelled : i.IsSpelled
  isPure : i.IsPure s p.referer
  args : ∃ w', Walk.args s p i.params i.hash w = .ok given w'
  created : s.host.created? s.cells (w.events.push (.create handle (i.asked d given))) handle
    (i.asked d given) = some inst

/-- The ways of invoking a component. -/
inductive InvocationForm where
  /-- Code of its own binds the symbols of the layout. -/
  | bound
  /-- The machine binds the symbols of a layout that is named in the code. -/
  | given
  /-- The machine binds the symbols of a layout that it looks up. -/
  | lookedUp
  /-- The machine looks up the component of a value, and its layout. -/
  | dynamic (definition : Reference)

/-- The component of a handle, as it is invoked. -/
def ComponentDefinition.state (d : ComponentDefinition) (handle : UInt32) : ComponentState :=
  { definition := handle, name := d.name, capabilities := d.capabilities, manager := d.manager,
    curried := none }

namespace InvocationForm

/-- The value of a dynamic form is a name of the component. -/
def Names (host : Host) (cells : Cells) (referer : String) (handle : UInt32) : InvocationForm → Prop
  | .dynamic definition => ∃ name, definition.value cells = .data (.str name) ∧
      host.componentNamed? name referer = some handle
  | _ => True

/-- Enters the layout of a component in a form. -/
def entry (s : Scene) (p : Site) (i : Invocation) (handle : UInt32) (layout : Fragment)
    (table : ProgramTable) : InvocationForm → Walk Walk.Entry
  | .bound => do
    let c ← Walk.componentState s handle none
    if table.hasEval || (s.lookup.capabilities handle).prepareArgs then
      Walk.genericEntry s p c i (some layout)
    else Walk.boundEntry s p (s.lookup.capabilities handle).createArgs layout table c i
  | .given => do Walk.genericEntry s p (← Walk.componentState s handle none) i (some layout)
  | .lookedUp => do Walk.genericEntry s p (← Walk.componentState s handle none) i none
  | .dynamic definition =>
    do Walk.genericEntry s p (← Walk.dynamicState s p.referer definition) i none

end InvocationForm

namespace Walk

variable {s : Scene} {p : Site} {i : Invocation} {handle : UInt32} {d : ComponentDefinition}
variable {layout : Fragment}
variable {table : ProgramTable} {w : World} {given : Arguments} {inst : Instance}

/-- The entry of an invocation, and the world in which it is made. -/
def ComesToEntry (s : Scene) (p : Site) (i : Invocation) (handle : UInt32) (d : ComponentDefinition)
    (layout : Fragment) (table : ProgramTable) (w : World) (given : Arguments) (inst : Instance)
    (x : Walk Entry) : Prop :=
  let asked := i.asked d given
  let current : Current := ⟨handle, d.manager, inst⟩
  let self := current.selfAfter s.cells w.events asked
  ∃ before after, (∀ e ∈ before ++ after, e.IsPure s.host) ∧
    x w = .ok ⟨layout, layoutSlots p i self given table.symbols, current⟩
      (w.entered s.host asked ⟨handle, inst⟩ before after)

namespace Invokes

variable (h : Invokes s p i handle d layout table w given inst)

include h

theorem componentState_eq (w : World) :
    componentState s handle none w = .ok (d.state handle) w := by
  unfold componentState
  rw [h.component]
  rfl

theorem instantiate_eq {before : List Event} (hbefore : ∀ e ∈ before, e.IsPure s.host) :
    let current : Current := ⟨handle, d.manager, inst⟩
    instantiate s (d.state handle) (i.asked d given) (w.log before) =
      .ok (current, current.selfAfter s.cells w.events (i.asked d given))
        (w.entered s.host (i.asked d given) ⟨handle, inst⟩ before []) :=
  instantiate_after (c := d.state handle) h.component rfl hbefore h.created

/-- The layout is entered, whatever pure helpers were called. -/
theorem genericEntry_comes {o : Option Fragment}
    (ho : o.or (s.lookup.layout? handle) = some layout) :
    ComesToEntry s p i handle d layout table w given inst
      (genericEntry s p (d.state handle) i o) := by
  obtain ⟨w', hargs⟩ := h.args
  obtain ⟨calls, hcalls, hargs⟩ := (settled_args h.isPure).comesTo hargs
  refine ⟨calls, [], by simpa using hcalls, ?_⟩
  unfold genericEntry
  rw [bind_apply, hargs]
  simp only [show merged (d.state handle) given = given from rfl,
    show asked (d.state handle) (some given) i = i.asked d given from rfl]
  rw [bind_apply, h.instantiate_eq hcalls]
  simp only [show (d.state handle).definition = handle from rfl, ho, h.symbols, orUndefined_some]
  unfold enterLayout
  rw [if_pos h.compilable]
  rfl

/-- The layout is entered, whether or not the manager asks for arguments. -/
theorem boundEntry_comes : ComesToEntry s p i handle d layout table w given inst
    (boundEntry s p (s.lookup.capabilities handle).createArgs layout table (d.state handle) i) := by
  obtain ⟨w', hargs⟩ := h.args
  let self := (⟨handle, d.manager, inst⟩ : Current).selfAfter s.cells w.events (i.asked d given)
  obtain ⟨after, hafter, hbound⟩ := comesTo_symbolBindings h.spelled h.isPure hargs h.blocks
    [(0, .value self)] 1
  have hgiven : ∃ o, (argsIf s p (s.lookup.capabilities handle).createArgs i).ComesTo s.host o ∧
      asked (d.state handle) o i = i.asked d given := by
    unfold argsIf
    rw [h.capabilities]
    by_cases hcreate : d.capabilities.createArgs = true
    · rw [if_pos hcreate]
      exact ⟨some given, ((settled_args h.isPure).comesTo hargs).bind (.pure _), rfl⟩
    · rw [if_neg hcreate]
      refine ⟨none, .pure _, ?_⟩
      simp [asked, Invocation.asked, ComponentDefinition.state, hcreate]
  obtain ⟨o, ⟨before, hbefore, ho⟩, hasked⟩ := hgiven
  refine ⟨before, after, List.forall_mem_append.mpr ⟨hbefore, hafter⟩, ?_⟩
  unfold boundEntry
  rw [bind_apply, ho]
  simp only [hasked]
  rw [bind_apply, h.instantiate_eq hbefore]
  simp only
  rw [bind_apply, hbound]
  simp only
  unfold enterLayout
  rw [if_pos h.compilable, bindAll_bindings_reverse h.size]
  show EStateM.Result.ok _ _ = _
  congr 1
  simp [World.entered, World.log]

/-- All forms come to the same entry. -/
theorem entry_comes (form : InvocationForm) (hnames : form.Names s.host s.cells p.referer handle) :
    ComesToEntry s p i handle d layout table w given inst
      (form.entry s p i handle layout table) := by
  have hstate {f : ComponentState → Walk Entry}
      (hf : ComesToEntry s p i handle d layout table w given inst (f (d.state handle))) :
      ComesToEntry s p i handle d layout table w given inst
        (do f (← componentState s handle none)) := by
    obtain ⟨before, after, hcalls, hf⟩ := hf
    refine ⟨before, after, hcalls, ?_⟩
    rw [bind_apply, h.componentState_eq]
    exact hf
  cases form with
  | bound =>
    refine hstate ?_
    split
    · exact h.genericEntry_comes rfl
    · exact h.boundEntry_comes
  | given => exact hstate (h.genericEntry_comes rfl)
  | lookedUp => exact hstate (h.genericEntry_comes h.found)
  | dynamic definition =>
    obtain ⟨name, hname, hhandle⟩ := hnames
    have hdynamic : dynamicState s p.referer definition = componentState s handle none := by
      simp [dynamicState, hname, hhandle]
    rw [InvocationForm.entry, hdynamic]
    exact hstate (h.genericEntry_comes h.found)

end Invokes

end Walk

/-! ### Code -/

namespace InvocationForm

/-- Pushes the component. -/
def findCode (k : Coding) (handle : UInt32) (code : List Instruction) : InvocationForm → Prop
  | .dynamic _ => k.onReferer .pushDynamicComponentManager code
  | _ => k.onHandle .pushComponentSpec handle code

/-- Invokes the component on the stack. -/
def invokeCode (k : Coding) (handle : UInt32) (layout : Fragment) (i : Invocation)
    (code : List Instruction) : InvocationForm → Prop
  | .bound => k.staticComponent (k.lookup.capabilities handle) layout i code
  | .given => k.genericComponent i (some layout) code
  | _ => k.genericComponent i none code

/-- Finds a component and invokes it. -/
def HasCode (form : InvocationForm) (k : Coding) (handle : UInt32) (layout : Fragment)
    (i : Invocation) (code : List Instruction) : Prop :=
  ∃ find invoke, form.findCode k handle find ∧ form.invokeCode k handle layout i invoke ∧
    code = find ++ invoke

/-- The pose in which the code of a form begins: a dynamic form finds a value on the stack. -/
def pose (p : Pose) : InvocationForm → Pose
  | .dynamic definition => p.push (.ref definition)
  | _ => p

end InvocationForm

section

variable {setup : Setup} {cells : Cells} {a floor : Nat} {n : ENat} {p : Pose}
variable {w : World} {t u : Store}
variable {m : Machine} {k : Coding} {code : List Instruction} {site : Site} {i : Invocation}
variable {c : ComponentState} {number : Nat} {handle : UInt32} {layout : Fragment}
variable {table : ProgramTable}

/-- The machine is about to call the layout of an entry. -/
def Nears (setup : Setup) (cells : Cells) (e : Walk.Entry) (w : World) (m : Machine) : Prop :=
  ∃ floor back q t, Arrives setup cells floor back q e w t m

theorem leads_genericNear (hserves : setup.Serves) {o : Option Fragment}
    (hm : Stands setup cells a (p.push (.component number)) w u m) (hc : t.Adds u number c)
    (hsite : site.Renders setup k t p floor) (hhosts : Walk.IsHosts (setup.scene cells) c)
    (htable : ∀ f, o.or (setup.options.lookup.layout? c.definition) = some f →
      f.table.asProgram?.isSome)
    (hshape : k.genericComponent i o code) (hcode : t.HasCode a code) :
    Leads setup .free floor (n + 1) m (Walk.genericEntry (setup.scene cells) site c i.bodies o w)
      (Nears setup cells) := by
  obtain ⟨passed, found, hpassed, hfound, rfl⟩ := hshape
  simp only [List.append_assoc, List.cons_append] at hcode
  refine leads_enterComponent hm (hcode.mono hc.1) fun m hm => ?_
  exact (leads_genericEntry hserves hm hc hsite.toReads hhosts.present htable hpassed hfound
    hcode.append.2 hsite.floor).mono fun e w m hm => ⟨_, _, _, _, hm⟩

theorem leads_boundNear (hserves : setup.Serves) {createArgs : Bool}
    (hm : Stands setup cells a (p.push (.component number)) w u m) (hc : t.Adds u number c)
    (hsite : site.Renders setup k t p floor)
    (hshape : k.boundComponent createArgs layout table i code) (hcode : t.HasCode a code) :
    Leads setup .free floor (n + 1) m
      (Walk.boundEntry (setup.scene cells) site createArgs layout table c i.bodies w)
        (Nears setup cells) := by
  obtain ⟨created, pushed, binders, called, hcreated, hpushed, hcalled, rfl⟩ := hshape
  simp only [List.append_assoc, List.cons_append] at hcode
  refine leads_enterComponent hm (hcode.mono hc.1) fun m hm => ?_
  exact (leads_boundEntry hserves hm hc hsite.toReads hsite.current hcreated hpushed hcalled
    hcode.append.2 hsite.floor).mono fun e w m hm => ⟨_, _, _, _, hm⟩

/-- The code of each form enters the layout as the walk of the form does. -/
theorem leads_entry (hserves : setup.Serves) (form : InvocationForm)
    (hm : Stands setup cells a (form.pose p) w t m) (hsite : site.Renders setup k t p floor)
    (htable : layout.table.asProgram? = some table)
    (hshape : form.HasCode k handle layout i code) (hcode : t.HasCode a code) :
    Leads setup .free floor (n + 1) m
      (form.entry (setup.scene cells) site i.bodies handle layout table w)
      (Nears setup cells) := by
  obtain ⟨find, invoke, hfind, hinvoke, rfl⟩ := hshape
  obtain ⟨hcode₁, hcode₂⟩ := hcode.append
  have hgiven (f : Fragment) (o : Option Fragment) (h : (some layout).or o = some f) :
      f.table.asProgram?.isSome := by
    obtain rfl := Option.some.inj h
    simp [htable]
  cases form with
  | bound =>
    refine (leads_pushComponentSpec hm hsite.within.linkage hfind hcode₁).bind
      fun c w m hstate => ?_
    rintro ⟨u, number, hc, hm⟩
    obtain ⟨table', htable', hinvoke⟩ := hinvoke
    obtain rfl := Option.some.inj (htable.symm.trans htable')
    rw [hsite.lookup cells] at hinvoke
    by_cases hgeneric : (table.hasEval ||
      ((setup.scene cells).lookup.capabilities handle).prepareArgs) = true
    · rw [if_pos hgeneric] at hinvoke ⊢
      exact leads_genericNear hserves hm hc hsite (Walk.hosts_componentState _ _ _ _ _ _ hstate)
        (fun f => hgiven f _) hinvoke hcode₂
    · rw [if_neg hgeneric] at hinvoke ⊢
      exact leads_boundNear hserves hm hc hsite hinvoke hcode₂
  | given =>
    refine (leads_pushComponentSpec hm hsite.within.linkage hfind hcode₁).bind
      fun c w m hstate => ?_
    rintro ⟨u, number, hc, hm⟩
    exact leads_genericNear hserves hm hc hsite (Walk.hosts_componentState _ _ _ _ _ _ hstate)
      (fun f => hgiven f _) hinvoke hcode₂
  | lookedUp =>
    refine (leads_pushComponentSpec hm hsite.within.linkage hfind hcode₁).bind
      fun c w m hstate => ?_
    rintro ⟨u, number, hc, hm⟩
    exact leads_genericNear hserves hm hc hsite (Walk.hosts_componentState _ _ _ _ _ _ hstate)
      (fun f => hserves.table) hinvoke hcode₂
  | dynamic definition =>
    have hlead : Leads setup .free floor (n + 1) m _ _ :=
      leads_pushDynamicComponent hm hsite.within.linkage hfind hcode₁
    rw [hsite.referer] at hlead
    refine hlead.bind fun c w m hstate => ?_
    rintro ⟨u, number, hc, hm⟩
    exact leads_genericNear hserves hm hc hsite (Walk.hosts_dynamicState _ _ _ _ _ _ hstate)
      (fun f => hserves.table) hinvoke hcode₂

/-- The machine is at the first instruction of the layout of an entry, in a scope that holds its
slots, and its component is that of the entry. -/
def Setup.EntersLayout (setup : Setup) (cells : Cells) (e : Walk.Entry) (w : World)
    (m : Machine) : Prop :=
  ∃ address p u current f, m = .of cells address p w u current ∧ f.body = e.layout.body ∧
    setup.CompiledAt u f address ∧ u.Sees setup.options.strategy p e.slots ∧
    u.IsCurrent p.registers.s0 (some e.current)

/-- A run for which there is enough stack, whose program stays small, and
which links what it looks up. -/
structure Setup.Suffices (setup : Setup) (m : Machine) : Prop where
  closed : m.program.constants.Closed
  stack : m.stack.size ≤ setup.maxStack
  small : ∀ k m', Reaches setup k m m' → m'.program.Fits
  goesOn : ∀ k m' e m'', Reaches setup k m m' → Exec.step setup m' = .error e m'' → ¬setup.Allows e

theorem Setup.Suffices.bounded (h : setup.Suffices m) : Bounded setup m :=
  Reaches.bounded (fun k m' hr => ⟨h.small k m' hr, hr.closed h.closed⟩) h.stack

/-- The layout is called next. -/
theorem Nears.enters {e : Walk.Entry} (h : Nears setup cells e w m)
    (hroom : ∀ e m', Exec.step setup m = .error e m' → ¬setup.Allows e) :
    ∃ m', Exec.step setup m = .ok true m' ∧ setup.EntersLayout cells e w m' := by
  obtain ⟨floor, back, q, t, u, inner, -, -, hcalls, hsees, hcurrent⟩ := h
  obtain ⟨a, i, rest, p', v, last, f, callee, rfl, rfl, hvalid, hcode, hcallee, hperform, hu, hf,
    hcompiled⟩ := hcalls
  let r := (q.enter inner).within q.ra []
  obtain ⟨address, hat, hcall⟩ : ∃ address, setup.CompiledAt u f address ∧
      Exec.call callee setup (.of cells (a + 4) r w u (a, i.op)) =
        .ok () (.of cells address (r.returning (a + 4)) w u (a, i.op)) := Exec.call_of hu hcompiled
  have hholds : (Machine.of cells a p' w v last).program.heap.Holds a (i :: rest) := hcode
  have hop : i.op ≠ .ret := by
    intro hop
    have := Machine.calls_of_callee? hcallee hholds.next?
    rw [hop] at this
    cases this
  have hstep := Exec.step_apply setup hholds
  rw [show Exec.perform (Machine.of cells a p' w v last).pc i setup
    ((Machine.of cells a p' w v last).fetched i) = _ from hperform.trans hcall] at hstep
  simp only [hop, false_and, if_false] at hstep
  split at hstep
  · exact absurd trivial (hroom _ _ hstep)
  · exact ⟨_, hstep, address, _, u, _, f, rfl, hf, hat, hsees.of_scopeStack rfl, hcurrent⟩

/-- The ways of invoking a component agree.  From the same state of the machine all of them enter
the layout of the component, with the same in every slot, below an instance that was created from
the same arguments and flags; only the calls of pure helpers around its creation differ. -/
theorem Setup.forms_agree (hserves : setup.Serves) {d : ComponentDefinition} {given : Arguments}
    {inst : Instance} (hvalid : setup.Valid t) (hsite : site.Renders setup k t p floor)
    (h : Walk.Invokes (setup.scene cells) site i.bodies handle d layout table w given inst) :
    let asked := i.asked d given
    let current : Current := ⟨handle, d.manager, inst⟩
    let self := current.selfAfter cells w.events asked
    let entry : Walk.Entry :=
      ⟨layout, Walk.layoutSlots site i.bodies self given table.symbols, current⟩
    ∀ (form : InvocationForm) {a : Nat} {code : List Instruction} {last : Nat × Opcode},
      form.Names setup.host cells k.referer handle → form.HasCode k handle layout i code →
      t.HasCode a code → setup.Suffices (.of cells a (form.pose p) w t last) →
      ∃ before after n m, (∀ e ∈ before ++ after, e.IsPure setup.host) ∧
        Reaches setup n (.of cells a (form.pose p) w t last) m ∧
        setup.EntersLayout cells entry
          (w.entered setup.host asked ⟨handle, inst⟩ before after) m := by
  intro asked current self entry form a code last hnames hshape hcode hroom
  rw [hsite.referer] at hnames
  obtain ⟨before, after, hcalls, hentry⟩ := h.entry_comes form hnames
  have hstands : Stands setup cells a (form.pose p) w t (.of cells a (form.pose p) w t last) :=
    ⟨t, last, t.le_refl, hvalid, rfl⟩
  have hleads := leads_entry (n := 0) hserves form hstands hsite h.symbols hshape hcode
  rw [hentry] at hleads
  rcases hleads hroom.bounded with ⟨k, m', e, m'', hpath, hbreaks, hallows⟩ | ⟨n, m', hpath, hnear⟩
  · exact absurd hallows (hroom.goesOn _ _ _ _ hpath.reaches hbreaks.step)
  · obtain ⟨m, hstep, henters⟩ := hnear.enters fun e m'' => hroom.goesOn _ _ _ _ hpath.reaches
    refine ⟨before, after, n + 1, m, hcalls, hpath.reaches.trans (.step hstep (.refl m)), ?_⟩
    rw [Invocation.bodies_asked] at henters
    exact henters

end

/-- No step of a run that halts fails. -/
theorem Reaches.not_breaks_of_run {setup : Setup} {fuel k : Nat} {m m' m'' m₁ : Machine}
    {e : Stop RuntimeError} (hr : Reaches setup k m m') (hrun : Exec.run fuel setup m = .ok () m₁)
    (hstep : Exec.step setup m' = .error e m'') : False := by
  by_cases hk : k < fuel
  · cases hrun.symm.trans (hr.run_breaks hstep hk)
  · obtain ⟨m₂, -, hcut⟩ := hr.run_outOfFuel (Nat.le_of_not_lt hk)
    cases hrun.symm.trans hcut

/-- A machine that halts with a small program has had enough stack. -/
theorem Setup.Suffices.of_run {setup : Setup} {fuel : Nat} {m m' : Machine}
    (hclosed : m.program.constants.Closed) (hstack : m.stack.size ≤ setup.maxStack)
    (hrun : Exec.run fuel setup m = .ok () m') (hfits : m'.program.Fits) : setup.Suffices m where
  closed := hclosed
  stack := hstack
  small _ _ hr := Machine.fits_of_stopsSmall (Machine.stopsSmall_of_run hclosed hrun hfits) hr
  goesOn _ _ _ _ hr hstep := (hr.not_breaks_of_run hrun hstep).elim

/-- What halts by computation has had enough stack. -/
theorem Request.suffices_of_haltsSmallFrom {q : Request} {strategy : Strategy}
    {maxStack steps : Nat} {make : Program → Block → Machine} {handle : UInt32} {program : Program}
    {block : Block}
    (hcompile : (q.setup strategy maxStack).options.compile q.entry {} = .ok handle program)
    (hblock : program.heap.block? handle = some block)
    (hhalts : q.haltsSmallFrom strategy maxStack steps make)
    (hprogram : (make program block).program = program)
    (hstack : (make program block).stack.size ≤ maxStack) :
    (q.setup strategy maxStack).Suffices (make program block) := by
  obtain ⟨_, _, _, m, hcompile', hclosed, hblock', hrun, hfits⟩ := exists_of_haltsSmallFrom hhalts
  cases hcompile.symm.trans hcompile'
  cases hblock.symm.trans hblock'
  exact .of_run (hprogram.symm ▸ hclosed) hstack hrun hfits

theorem Request.suffices_of_haltsSmall {q : Request} {strategy : Strategy}
    {maxStack steps index : Nat} {handle : UInt32} {program : Program} {block : Block}
    (hcompile : (q.setup strategy maxStack).options.compile q.entry {} = .ok handle program)
    (hblock : program.heap.block? handle = some block)
    (hhalts : q.haltsSmall strategy maxStack steps index) :
    (q.setup strategy maxStack).Suffices
      (.start program (block.offset.toNat + 4 * index) block.scopeSize.toNat q.self) :=
  suffices_of_haltsSmallFrom hcompile hblock hhalts rfl (Nat.zero_le _)

/-- The code of a component whose layout is known when it is emitted binds the symbols by itself. -/
theorem Coding.component_bound {k : Coding} {handle : UInt32} {layout : Fragment} {i : Invocation}
    {code : List Instruction} (hstatic : (k.lookup.capabilities handle).dynamicLayout = false)
    (hlayout : k.lookup.layout? handle = some layout) (h : k.component handle i code) :
    ∃ invoked, InvocationForm.bound.HasCode k handle layout i invoked ∧
      code = invoked ++ [⟨.pop, 1, 0, 0⟩] := by
  obtain ⟨find, invoke, hfind, hinvoke, rfl⟩ := h
  rw [hstatic, hlayout] at hinvoke
  exact ⟨find ++ invoke, ⟨find, invoke, hfind, hinvoke, rfl⟩, rfl⟩

/-- The code of a component that an expression gives leaves the symbols to the machine. -/
theorem Coding.component_dynamic {k : Coding} {i : Invocation} {definition : Expression}
    {code : List Instruction} (h : k.dynamicComponent definition i code) (handle : UInt32)
    (layout : Fragment) (r : Reference) :
    ∃ push before invoked after, k.expression definition push ∧ before.length = push.length + 5 ∧
      (InvocationForm.dynamic r).HasCode k handle layout i invoked ∧ after.length = 3 ∧
      code = before ++ invoked ++ after := by
  obtain ⟨push, find, invoke, hpush, hfind, hinvoke, rfl⟩ := h
  let enters : List Instruction :=
    [⟨.dup, Register.sp.number, 0, 0⟩, ⟨.enter, 2, 0, 0⟩, .skip .jumpUnless (find ++ invoke)]
  refine ⟨push, ⟨.pushFrame, 0, 0, 0⟩ ::
    .skip .returnTo (push ++ enters ++ find ++ invoke ++ exitFrame) :: (push ++ enters),
    find ++ invoke, exitFrame ++ [⟨.popFrame, 0, 0, 0⟩], hpush, ?_,
    ⟨find, invoke, hfind, hinvoke, rfl⟩, rfl, ?_⟩
  · simp [enters]
  · simp only [frame, enters, List.cons_append, List.append_assoc]

/-- A block form that invokes the component of its parameter. -/
def Statement.invoking (definition : Expression) (hash : Option Hash)
    (body : Option Nat) : Statement :=
  .block "component" (some [definition]) hash body none

/-- Its invocation, with some block. -/
def Invocation.invoking (hash : Option Hash) (block : Option Fragment) : Invocation :=
  { params := [], hash, synthetic := true, block }

theorem Coding.invoking_inv {k : Coding} {mode : AttrMode} {definition : Expression}
    {hash : Option Hash} {body : Option Nat} {code : List Instruction}
    (h : k.statement mode (.invoking definition hash body) code) :
    ∃ block : Option Fragment, k.layout.optionalBlock? body = some (block.map Fragment.body) ∧
      match Compilable.literalComponent? k.lookup k.referer definition with
      | some handle => k.component handle (.invoking hash block) code
      | none => k.dynamicComponent definition (.invoking hash block) code := by
  obtain ⟨block, inverse, hblock, hinverse, h⟩ := h
  obtain rfl : inverse = none := by
    cases inverse with
    | none => rfl
    | some f => cases hinverse
  exact ⟨block, hblock, h⟩

/-- Invokes the box as what the data names, and then by its name. -/
def Request.twofold : Request :=
  let hash : Option Hash := some ⟨["title"], [.value (.str "x")]⟩
  { boxed with
    template :=
      { boxed.template with
        statements := [.invoking (.get 0 ["kind"]) hash (some 0),
          .invoking (.value (.str "Box")) hash (some 0)] }
    self := .obj [("kind", .str "Box")] }

theorem Request.twofold_wellFormed : Request.twofold.WellFormed :=
  ⟨boxed_wellFormed.registry, rfl, boxed_wellFormed.host⟩

/-- Either of the two invocations.  They have one block, which is another fragment for each. -/
def Invocation.titled (block : Fragment) : Invocation :=
  .invoking (some ⟨["title"], [.value (.str "x")]⟩) (some block)

def Request.boxLayout : Fragment :=
  .ofLayout (.layout 0) ⟨(boxed.registry.components[0]).layout, "Box"⟩

/-- The machine at an instruction of the request, within a block, with something on the stack. -/
def Request.within (q : Request) (index : Nat) (stack : Array Value) (program : Program)
    (block : Block) : Machine :=
  { Machine.start program (block.offset.toNat + 4 * index) block.scopeSize.toNat q.self with
    stack, blockDepth := 1 }

set_option maxRecDepth 100000 in
theorem Request.twofold_halts :
    let kind : Reference := .property (.root 0) "kind"
    twofold.haltsSmall .lazy 100 300 0 = true ∧
      twofold.haltsSmallFrom .lazy 100 300 (twofold.within 7 #[.ref kind]) = true ∧
      twofold.haltsSmallFrom .lazy 100 300 (twofold.within 37 #[]) = true := by
  decide +kernel

theorem Coding.length_titled {k : Coding} {f : Fragment} {code : List Instruction}
    (hlazy : k.strategy = .lazy) (h : k.genericComponent (.titled f) none code) :
    code.length = 26 := by
  obtain ⟨passed, found, ⟨main, inverse, attrs, given, hmain, hinverse, hattrs, hgiven, rfl⟩,
      rfl, rfl⟩ := h
  have hmain : main.length = 2 := by
    obtain ⟨_, _, ⟨_, -, rfl⟩, hblock, rfl⟩ := hmain
    simp only [block, hlazy] at hblock
    obtain ⟨_, -, -, rfl⟩ := hblock
    rfl
  have hinverse : inverse.length = 2 := by
    obtain ⟨_, _, ⟨_, -, rfl⟩, ⟨_, -, rfl⟩, rfl⟩ := hinverse
    rfl
  have hattrs : attrs.length = 2 := by
    obtain ⟨_, _, ⟨_, -, rfl⟩, ⟨_, -, rfl⟩, rfl⟩ := hattrs
    rfl
  have hgiven : given.length = 3 := by
    obtain ⟨_, _, _, rfl, ⟨-, _, _, hvalue, rfl, rfl⟩, ⟨_, _, -, -, -, rfl⟩, rfl⟩ := hgiven
    unfold expression at hvalue
    obtain ⟨_, -, _, ⟨_, -, rfl⟩, rfl⟩ := hvalue
    rfl
  simp only [List.length_append, List.length_cons, hmain, hinverse, hattrs, hgiven]
  rfl

/-- The code of the request has the invocation in two forms, after seven
instructions and after 37. -/
theorem Request.twofold_inv {l : Linkage} {code : List Instruction} (kind : Reference)
    (h : Coding.statements ⟨twofold.registry.lookup, .lazy, l, twofold.entry.layout⟩ .element
      twofold.template.statements code) :
    let k : Coding := ⟨twofold.registry.lookup, .lazy, l, twofold.entry.layout⟩
    ∃ f g before invoked between invoked' after, f.body = g.body ∧
      (InvocationForm.dynamic kind).HasCode k 0 boxLayout (.titled f) invoked ∧
      InvocationForm.bound.HasCode k 0 boxLayout (.titled g) invoked' ∧
      code = before ++ invoked ++ between ++ invoked' ++ after ∧
      before.length = 7 ∧ (before ++ invoked ++ between).length = 37 := by
  intro k
  obtain ⟨first, _, hfirst, ⟨second, more, hsecond, -, rfl⟩, rfl⟩ := h
  obtain ⟨block, hblock, hdynamic⟩ := Coding.invoking_inv hfirst
  obtain ⟨block', hblock', hstatic⟩ := Coding.invoking_inv hsecond
  have hsame := Option.some.inj (hblock.symm.trans hblock')
  obtain ⟨f, rfl⟩ : ∃ f, block = some f := by
    cases block with
    | none => cases hblock
    | some f => exact ⟨f, rfl⟩
  obtain ⟨g, rfl, hbodies⟩ := Option.map_eq_some_iff.mp hsame.symm
  have hbox : Compilable.literalComponent? k.lookup k.referer (.value (.str "Box")) = some 0 := by
    show twofold.registry.lookup.component? "Box" "main" = some 0
    decide +kernel
  rw [hbox] at hstatic
  obtain ⟨push, before, invoked, after, hpush, hbefore, hshape, hafter, rfl⟩ :=
    Coding.component_dynamic hdynamic 0 boxLayout kind
  obtain ⟨invoked', hshape', rfl⟩ :=
    Coding.component_bound rfl (show k.lookup.layout? 0 = some boxLayout from rfl) hstatic
  have hseven : before.length = 7 := by
    unfold Coding.expression at hpush
    obtain ⟨_, ⟨_, _, ⟨_, -, rfl⟩, rfl, rfl⟩, rfl⟩ := hpush
    exact hbefore
  have hinvoked : invoked.length = 27 := by
    obtain ⟨_, invoke, ⟨_, -, rfl⟩, hinvoke, rfl⟩ := hshape
    rw [List.length_append, Coding.length_titled rfl hinvoke]
    rfl
  refine ⟨f, g, before, invoked, after, invoked', ⟨.pop, 1, 0, 0⟩ :: more, hbodies.symm,
    hshape, hshape', ?_, hseven, ?_⟩
  · simp only [List.append_assoc, List.cons_append, List.nil_append]
  · simp only [List.length_append, hseven, hinvoked, hafter]

/-- What the two invocations come to. -/
theorem Request.twofold_invokes (f : Fragment) :
    let given : Arguments := ⟨[], ["title"], [.ofJson (.str "x")]⟩
    let d : ComponentDefinition := ⟨"Box", { createArgs := true }, fun _ => .args⟩
    Walk.Invokes ((twofold.setup .lazy 100).scene (.single twofold.self))
      ⟨twofold.entry.layout, .start, none⟩ (Invocation.titled f).bodies 0 d boxLayout
      ⟨["@title", "&default"], false, "Box"⟩ {} given ((Invocation.titled f).asked d given) where
  component := rfl
  capabilities := rfl
  found := rfl
  compilable := by decide +kernel
  symbols := rfl
  size := by decide
  blocks := by
    intro symbol hsymbol hrole
    rcases List.mem_pair.mp hsymbol with rfl | rfl
    · cases hrole
    · rfl
  spelled := by
    rintro _ ⟨⟩
    exact ⟨rfl, show ∀ name ∈ ["title"], name.toList.head? = some '@' ↔ true = false by decide⟩
  isPure := ⟨trivial, trivial, trivial⟩
  args := ⟨{}, rfl⟩
  created := by
    rw [Invocation.bodies_asked]
    rfl

/-- Both forms enter the layout of the box with the title in its slot: the one that looks up the
component and its layout, and the one that knows them from the start. -/
theorem Request.twofold_forms_agree :
    let setup := twofold.setup .lazy 100
    let kind : Reference := .property (.root 0) "kind"
    ∃ handle program block slots asked,
      setup.options.compile twofold.entry {} = .ok handle program ∧
      program.heap.block? handle = some block ∧ setup.options.lookup.layout? 0 = some boxLayout ∧
      slots 1 = .value (.ofJson (.str "x")) ∧
      let enters (op : Opcode) (m : Machine) := m.next?.map Instruction.op = some op ∧
        ∃ before after n m', Reaches setup n m m' ∧
          setup.EntersLayout (.single twofold.self) ⟨boxLayout, slots, ⟨0, fun _ => .args, asked⟩⟩
            (World.entered {} twofold.host asked ⟨0, asked⟩ before after) m'
      enters .pushDynamicComponentManager (twofold.within 7 #[.ref kind] program block) ∧
        enters .pushComponentSpec (twofold.within 37 #[] program block) := by
  intro setup kind
  obtain ⟨hhalts, hgeneric, hbound⟩ := twofold_halts
  obtain ⟨handle, program, hcompile, h⟩ :=
    twofold_wellFormed.compiled (staysSmall_of_haltsSmall hhalts)
  obtain ⟨l, rfl, hadmits, htemplate, block, code, l', hblock, hholds, hl, hcode⟩ := h.sound
  obtain ⟨f, g, before, invoked, between, invoked', after, hsame, hshape, hshape', rfl,
      hseven, hlength⟩ :=
    twofold_inv kind hcode
  let site : Site := ⟨twofold.entry.layout, .start, none⟩
  let t := Store.start l block.scopeSize.toNat
  let p : Pose := { Pose.start with blockDepth := 1 }
  have hvalid : setup.Valid t := hadmits
  have hsite : site.Renders setup
      ⟨twofold.registry.lookup, .lazy, l', twofold.entry.layout⟩ t p 0 :=
    ⟨⟨⟨rfl, rfl, hl, hadmits.wellFormed _ htemplate⟩, rfl,
      ⟨0, [], _, rfl, rfl, (Store.holds_root _ _).bindValue 0 _⟩⟩, rfl, Nat.zero_le _⟩
  obtain ⟨hbegin, hrest⟩ := (show t.HasCode block.offset.toNat _ from
    (Heap.Holds.append (Heap.Holds.append hholds).1).1).append
  have hat : t.HasCode (block.offset.toNat + 4 * 7) invoked := hseven ▸ hbegin.append.1.append.2
  have hat' : t.HasCode (block.offset.toNat + 4 * 37) invoked' := hlength ▸ hrest
  have hnames : (InvocationForm.dynamic kind).Names setup.host (.single twofold.self) "main" 0 :=
    ⟨"Box", rfl, show twofold.registry.componentNamed? "Box" = some 0 by decide +kernel⟩
  have hroom : setup.Suffices
      (.of (.single twofold.self) _ ((InvocationForm.dynamic kind).pose p) {} t (0, .ret)) :=
    suffices_of_haltsSmallFrom hcompile hblock hgeneric rfl (show 1 ≤ 100 by decide)
  have hroom' : setup.Suffices
      (.of (.single twofold.self) _ (InvocationForm.bound.pose p) {} t (0, .ret)) :=
    suffices_of_haltsSmallFrom hcompile hblock hbound rfl (Nat.zero_le _)
  have hserves := twofold_wellFormed.serves .lazy 100
  obtain ⟨calls, calls', n, m, -, hreaches, henters⟩ := Setup.forms_agree hserves hvalid hsite
    (twofold_invokes f) (.dynamic kind) hnames hshape hat hroom
  have hbodies : (Invocation.titled g).bodies = (Invocation.titled f).bodies := by
    simp only [Invocation.titled, Invocation.invoking, Invocation.bodies, Option.map_some, hsame]
  obtain ⟨calls₂, calls₂', n₂, m₂, -, hreaches₂, henters₂⟩ := Setup.forms_agree hserves hvalid hsite
    (twofold_invokes g) .bound trivial hshape' hat' hroom'
  rw [hbodies] at henters₂
  obtain ⟨_, _, ⟨_, -, rfl⟩, -, rfl⟩ := hshape
  obtain ⟨_, _, ⟨_, -, rfl⟩, -, rfl⟩ := hshape'
  have hnext := Heap.Holds.next? (m := twofold.within 7 #[.ref kind] l.program block) hat
  have hnext' := Heap.Holds.next? (m := twofold.within 37 #[] l.program block) hat'
  exact ⟨handle, l.program, block, _, _, hcompile, hblock, rfl, rfl,
    ⟨congrArg (Option.map Instruction.op) hnext, calls, calls', n, m, hreaches, henters⟩,
    ⟨congrArg (Option.map Instruction.op) hnext', calls₂, calls₂', n₂, m₂, hreaches₂, henters₂⟩⟩

end TemplateMachine
