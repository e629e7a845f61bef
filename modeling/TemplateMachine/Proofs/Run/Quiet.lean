import TemplateMachine.Proofs.Markup.Tags
import TemplateMachine.Proofs.Run.Lasting

/-! What most instructions leave alone.  Only a few of them touch transactions and the instances to
be destroyed, or call the host about the life of an instance; the others are quiet.  Most of those
do not touch scopes either, and write no tags. -/

namespace TemplateMachine

/-! ### Steps that write no tags

They write nothing but what may stand between tags, and open and close no element, unless they fail.
-/

namespace Exec

variable {α β : Type}

def Tagless (x : Exec α) : Prop := ∀ setup m a m', x setup m = .ok a m' → m.sink.Filled m'.sink

theorem Tagless.pure (a : α) : (pure a : Exec α).Tagless := by
  rintro setup m _ _ ⟨⟩
  exact .refl _

theorem Tagless.fail (error : RuntimeError) : (fail error : Exec α).Tagless := by
  intro setup m a m' h
  cases h

theorem Tagless.get : (get : Exec Machine).Tagless := by
  rintro setup m _ _ ⟨⟩
  exact .refl _

theorem Tagless.read : (read : Exec Setup).Tagless := by
  rintro setup m _ _ ⟨⟩
  exact .refl _

theorem Tagless.bind {x : Exec α} {f : α → Exec β} (hx : x.Tagless) (hf : ∀ a, (f a).Tagless) :
    (x >>= f).Tagless := by
  intro setup m b m'' h
  rw [bind_apply] at h
  cases hxm : x setup m with
  | error e m' =>
    rw [hxm] at h
    cases h
  | ok a m' =>
    rw [hxm] at h
    exact (hx setup m a m' hxm).trans (hf a setup m' b m'' h)

/-- A change that leaves the sink alone. -/
theorem Tagless.modify {change : Machine → Machine} (h : ∀ m, (change m).sink = m.sink) :
    (modify change : Exec Unit).Tagless := by
  rintro setup m _ _ ⟨⟩
  rw [h m]
  exact .refl _

theorem Tagless.orFail (o : Option α) (error : RuntimeError) : (orFail o error).Tagless := by
  cases o with
  | none => exact .fail error
  | some a => exact .pure a

theorem tagless_emit {write : Sink → Sink} (h : ∀ s : Sink, s.Filled (write s)) :
    (emit write).Tagless := by
  rintro setup m _ _ ⟨⟩
  exact h m.sink

theorem tagless_onElement {change : Sink → Sink.Result}
    (h : ∀ s s' : Sink, change s = .ok s' → s.Filled s') :
    (onElement change).Tagless := by
  intro setup m a m' hm'
  unfold onElement at hm'
  simp only at hm'
  cases hchange : change m.sink with
  | ok sink =>
    rw [hchange] at hm'
    cases hm'
    exact h _ _ hchange
  | error e =>
    rw [hchange] at hm'
    cases hm'

theorem tagless_link (f : Fragment) : (link f).Tagless := by
  intro setup m a m' hm'
  unfold link at hm'
  simp only at hm'
  cases hcompile : setup.options.compile f m.program with
  | ok handle program =>
    rw [hcompile] at hm'
    cases hm'
    exact .refl _
  | error e program =>
    rw [hcompile] at hm'
    cases e <;> cases hm'

end Exec

/-! ### Quiet steps -/

/-- The managers of components are those that the host has for them. -/
def Machine.Managed (host : Host) (m : Machine) : Prop :=
  ∀ (number : Nat) (c : ComponentState), m.components[number]? = some c →
    ∃ d, host.component? c.definition = some d ∧ c.manager = d.manager

/-- What is left alone from one state to another; scopes are left alone if the machine is still. -/
structure Machine.Quiet (host : Host) (still : Bool) (m m' : Machine) : Prop where
  cells : m'.cells = m.cells
  scopes : still = true → (m'.scopes, m'.scopeStack) = (m.scopes, m.scopeStack)
  transactions : m'.transactions = m.transactions
  destructors : m'.destructors = m.destructors
  managed : m.Managed host → m'.Managed host
  events : ∃ calls : List Event, m'.events = m.events ++ calls.toArray ∧
    ∀ e ∈ calls, e.isQuiet = true

namespace Machine.Quiet

variable {host : Host} {still : Bool} {m m' m'' : Machine}

theorem refl (m : Machine) : Quiet host still m m :=
  ⟨rfl, fun _ => rfl, rfl, rfl, id, [], by simp, by simp⟩

theorem trans (h : Quiet host still m m') (h' : Quiet host still m' m'') :
    Quiet host still m m'' := by
  obtain ⟨calls, hcalls, hquiet⟩ := h.events
  obtain ⟨more, hmore, hquiet'⟩ := h'.events
  refine ⟨h'.cells.trans h.cells,
    fun hs => (h'.scopes hs).trans (h.scopes hs),
    h'.transactions.trans h.transactions, h'.destructors.trans h.destructors,
    h'.managed ∘ h.managed, calls ++ more, ?_, ?_⟩
  · rw [hmore, hcalls]
    simp
  · intro e he
    exact (List.mem_append.mp he).elim (hquiet e) (hquiet' e)

end Machine.Quiet

/-- What a quiet machine is concerned with. -/
def Machine.concerns (m : Machine) :
    Program × Sink × Cells × Scopes × List Nat × List (List Destructor) × List Destructor ×
      Array ComponentState × History :=
  (m.program, m.sink, m.cells, m.scopes, m.scopeStack, m.transactions, m.destructors, m.components,
    m.events)

namespace Exec

/-- The machine was left quiet, whether it has failed or not. -/
def EndsQuiet {α : Type} (host : Host) (still : Bool) (m : Machine) :
    EStateM.Result (Stop RuntimeError) Machine α → Prop
  | .ok _ m' => m.Quiet host still m'
  | .error _ m' => m.Quiet host still m'

theorem EndsQuiet.prepend {α : Type} {host : Host} {still : Bool} {m m' : Machine}
    {out : EStateM.Result (Stop RuntimeError) Machine α} (h : m.Quiet host still m')
    (hout : EndsQuiet host still m' out) : EndsQuiet host still m out := by
  cases out <;> exact h.trans hout

/-- The machine is left quiet, and the program changes only by what is linked for good.  If it is to
write no tags, then it writes none. -/
structure IsQuiet {α : Type} (still tagless : Bool) (x : Exec α) : Prop where
  ends : ∀ setup m, EndsQuiet setup.host still m (x setup m)
  lasts : x.Lasting
  tags : tagless = true → x.Tagless

variable {still tagless : Bool}

section

variable {α β : Type}

theorem IsQuiet.pure (a : α) : (pure a : Exec α).IsQuiet still tagless :=
  ⟨fun _ m => .refl m, .pure a, fun _ => .pure a⟩

theorem IsQuiet.fail (error : RuntimeError) : (fail error : Exec α).IsQuiet still tagless :=
  ⟨fun _ m => .refl m, .fail error, fun _ => .fail error⟩

theorem IsQuiet.read : (read : Exec Setup).IsQuiet still tagless :=
  ⟨fun _ m => .refl m, .read, fun _ => .read⟩

theorem IsQuiet.bind {x : Exec α} {f : α → Exec β} (hx : x.IsQuiet still tagless)
    (hf : ∀ a, (f a).IsQuiet still tagless) :
    (x >>= f).IsQuiet still tagless := by
  refine ⟨fun setup m => ?_, hx.lasts.bind fun a => (hf a).lasts,
    fun h => (hx.tags h).bind fun a => (hf a).tags h⟩
  have hx := hx.ends setup m
  rw [bind_apply]
  cases hxm : x setup m with
  | error e m' =>
    rw [hxm] at hx
    exact hx
  | ok a m' =>
    rw [hxm] at hx
    exact ((hf a).ends setup m').prepend hx

/-- What is read from the machine is none of the program. -/
theorem IsQuiet.bind_get {f : Machine → Exec α} (hsame : ∀ m q, f (m.over q) = f m)
    (hf : ∀ m, (f m).IsQuiet still tagless) : (get >>= f).IsQuiet still tagless :=
  ⟨fun setup m => (hf m).ends setup m, .bind_get hsame fun m => (hf m).lasts,
    fun h => .bind .get fun m => (hf m).tags h⟩

/-- Something is looked up in the program. -/
theorem IsQuiet.bind_find (find : Program → Option α) {error : RuntimeError} {k : α → Exec β}
    (hfind : ∀ p q a, q.Contains p → find p = some a → find q = some a)
    (hk : ∀ a, (k a).IsQuiet still tagless) :
    (do k (← Exec.orFail (find (← get).program) error) : Exec β).IsQuiet still tagless := by
  refine ⟨fun setup m => ?_, .bind_find find hfind fun a => (hk a).lasts,
    fun h => .bind .get fun _ => .bind (.orFail _ _) fun a => (hk a).tags h⟩
  rw [bind_apply, get_apply]
  dsimp only
  cases find m.program with
  | none => exact .refl m
  | some a => exact (hk a).ends setup m

/-- A change of nothing but scopes, and of which of them are entered. -/
theorem IsQuiet.modify_scopes {change : Machine → Machine}
    (h : ∀ m, (change m).concerns =
      { m with scopes := (change m).scopes, scopeStack := (change m).scopeStack }.concerns)
    (hover : ∀ m q, change (m.over q) = (change m).over q) :
    (modify change : Exec Unit).IsQuiet false tagless := by
  simp only [Machine.concerns, Prod.mk.injEq] at h
  refine ⟨fun setup m => ?_, .modify (fun m => (h m).1) hover, fun _ => .modify fun m => (h m).2.1⟩
  obtain ⟨-, -, hcells, -, -, htransactions, hdestructors, hcomponents, hevents⟩ := h m
  refine ⟨hcells, nofun, htransactions, hdestructors, fun h => ?_, [], ?_, by simp⟩
  · rwa [Machine.Managed, hcomponents]
  · show (change m).events = _
    simp [hevents]

/-- A change of what is none of a quiet machine's concern. -/
theorem IsQuiet.modify {change : Machine → Machine}
    (h : ∀ m, (change m).concerns = m.concerns)
    (hover : ∀ m q, change (m.over q) = (change m).over q) :
    (modify change : Exec Unit).IsQuiet still tagless := by
  simp only [Machine.concerns, Prod.mk.injEq] at h
  refine ⟨fun setup m => ?_, .modify (fun m => (h m).1) hover, fun _ => .modify fun m => (h m).2.1⟩
  obtain ⟨-, -, hcells, hscopes, hscopeStack, htransactions, hdestructors,
    hcomponents, hevents⟩ := h m
  refine ⟨hcells, fun _ => Prod.ext hscopes hscopeStack, htransactions, hdestructors, fun h => ?_,
    [], ?_, by simp⟩
  · rwa [Machine.Managed, hcomponents]
  · show (change m).events = _
    simp [hevents]

theorem IsQuiet.orFail (o : Option α) (error : RuntimeError) :
    (orFail o error).IsQuiet still tagless := by
  cases o with
  | none => exact .fail error
  | some a => exact .pure a

end

theorem quiet_record {e : Event} (h : e.isQuiet = true) : (record e).IsQuiet still tagless where
  ends _ m := ⟨rfl, fun _ => rfl, rfl, rfl, id, [e], by simp, by simpa using h⟩
  lasts := .modify (fun _ => rfl) fun _ _ => rfl
  tags _ := .modify fun _ => rfl

/-! ### The stack -/

theorem quiet_underflow {α : Type} : (underflow : Exec α).IsQuiet still tagless :=
  .bind_get (fun _ _ => rfl) fun _ => .fail _

theorem quiet_mismatch {α : Type} (expected : String) :
    (mismatch expected : Exec α).IsQuiet still tagless :=
  .bind_get (fun _ _ => rfl) fun _ => .fail _

theorem quiet_push (v : Value) : (push v).IsQuiet still tagless :=
  .modify (fun _ => rfl) fun _ _ => rfl

theorem quiet_pushRef (r : Reference) : (pushRef r).IsQuiet still tagless := quiet_push _

theorem quiet_pop : pop.IsQuiet still tagless := by
  refine .bind_get (fun _ _ => rfl) fun m => ?_
  split
  · exact .bind (.modify (fun _ => rfl) fun _ _ => rfl) fun _ => .pure _
  · exact quiet_underflow

theorem quiet_popRef : popRef.IsQuiet still tagless := by
  refine .bind quiet_pop fun v => ?_
  split
  · exact .pure _
  · exact quiet_mismatch _

theorem quiet_popDatum : popDatum.IsQuiet still tagless :=
  .bind quiet_popRef fun _ => .bind_get (fun _ _ => rfl) fun _ => .pure _

theorem quiet_popArgs : popArgs.IsQuiet still tagless := by
  refine .bind quiet_pop fun v => ?_
  split
  · exact .pure _
  · exact quiet_mismatch _

theorem quiet_popBlock : popBlock.IsQuiet still tagless :=
  .bind quiet_pop fun _ => .bind quiet_pop fun _ => .pure _

theorem quiet_popRefs (taken : List Reference) (count : Nat) :
    (popRefs taken count).IsQuiet still tagless := by
  induction count generalizing taken with
  | zero => exact .pure _
  | succ count ih => exact .bind quiet_popRef fun r => ih (r :: taken)

theorem quiet_drop (count : Nat) : (drop count).IsQuiet still tagless := by
  induction count with
  | zero => exact .pure _
  | succ count ih => exact .bind quiet_pop fun _ => ih

/-! ### Constants, registers and scopes -/

/-- Constants keep their indices. -/
theorem quiet_constant {α : Type} {kind : String} {find : Constants → UInt32 → Option α}
    {index : UInt32}
    (hfind : ∀ {c d : Constants} {a : α}, c.Extends d → find c index = some a →
      find d index = some a) :
    (constant kind find index).IsQuiet still tagless where
  ends setup m := by
    rw [constant, bind_apply, get_apply]
    dsimp only
    cases find m.program.constants index <;> exact .refl m
  lasts := .find fun _ _ _ hq => hfind hq.grows.constants
  tags _ := .bind .get fun _ => .orFail _ _

theorem quiet_stringConstant (index : UInt32) : (stringConstant index).IsQuiet still tagless :=
  quiet_constant fun h => h.strings.get?

theorem quiet_handleConstant (index : UInt32) : (handleConstant index).IsQuiet still tagless :=
  quiet_constant fun h => h.handles.get?

theorem quiet_refererConstant (index : UInt32) : (refererConstant index).IsQuiet still tagless :=
  quiet_constant fun h => h.referers.get?

theorem quiet_namespaceConstant (index : UInt32) :
    (namespaceConstant index).IsQuiet still tagless := by
  unfold namespaceConstant
  split
  · exact .pure _
  · exact .bind (quiet_stringConstant _) fun _ => .pure _

theorem quiet_register (word : UInt32) : (register word).IsQuiet still tagless := .orFail _ _

theorem quiet_savedValue (r : Register) : (savedValue r).IsQuiet still tagless :=
  .bind_get (fun _ _ => rfl) fun _ => .orFail _ _

theorem quiet_currentScope : currentScope.IsQuiet still tagless := by
  refine .bind_get (fun _ _ => rfl) fun m => ?_
  split
  · exact .pure _
  · exact .fail _

theorem quiet_slot (symbol : UInt32) : (slot symbol).IsQuiet still tagless :=
  .bind quiet_currentScope fun _ => .bind_get (fun _ _ => rfl) fun _ => .pure _

theorem quiet_leaveScope : leaveScope.IsQuiet false tagless := by
  refine .bind_get (fun _ _ => rfl) fun m => ?_
  split
  · exact .modify_scopes (fun _ => rfl) fun _ _ => rfl
  · exact .fail _

theorem quiet_leaveDynamicScope : leaveDynamicScope.IsQuiet still tagless := by
  refine .bind_get (fun _ _ => rfl) fun m => ?_
  split
  · exact .modify (fun _ => rfl) fun _ _ => rfl
  · exact .fail _

/-! ### Markup and blocks -/

theorem quiet_emit {write : Sink → Sink} (h : tagless = true → ∀ s : Sink, s.Filled (write s)) :
    (emit write).IsQuiet still tagless where
  ends _ _ := ⟨rfl, fun _ => rfl, rfl, rfl, id, [], by simp, by simp⟩
  lasts := .modify (fun _ => rfl) fun _ _ => rfl
  tags htagless := tagless_emit (h htagless)

theorem quiet_onElement {change : Sink → Sink.Result}
    (h : tagless = true → ∀ s s' : Sink, change s = .ok s' → s.Filled s') :
    (onElement change).IsQuiet still tagless := by
  refine ⟨fun setup m => ?_, lasting_onElement change,
    fun htagless => tagless_onElement (h htagless)⟩
  unfold onElement
  simp only
  cases change m.sink <;> exact ⟨rfl, fun _ => rfl, rfl, rfl, id, [], by simp, by simp⟩

theorem quiet_link (f : Fragment) : (link f).IsQuiet still tagless := by
  refine ⟨fun setup m => ?_, lasting_link f, fun _ => tagless_link f⟩
  unfold link
  simp only
  cases setup.options.compile f m.program with
  | ok handle program => exact ⟨rfl, fun _ => rfl, rfl, rfl, id, [], by simp, by simp⟩
  | error e program => cases e <;> exact ⟨rfl, fun _ => rfl, rfl, rfl, id, [], by simp, by simp⟩

/-! ### Control -/

theorem quiet_pushFrame : pushFrame.IsQuiet still tagless := .modify (fun _ => rfl) fun _ _ => rfl

theorem quiet_popFrame : popFrame.IsQuiet still tagless := by
  refine .bind_get (fun _ _ => rfl) fun m => ?_
  split
  · exact .modify (fun _ => rfl) fun _ _ => rfl
  · exact quiet_mismatch _

theorem quiet_target (start : Nat) (operand : UInt32) :
    (target start operand).IsQuiet still tagless := by
  refine ⟨fun setup m => ?_, lasting_target start operand, fun _ => .bind .get fun m => ?_⟩
  · unfold target
    rw [bind_apply, get_apply]
    dsimp only
    split <;> exact .refl m
  · split
    · exact .pure _
    · exact .fail _

theorem quiet_jump (start : Nat) (operand : UInt32) : (jump start operand).IsQuiet still tagless :=
  .bind (quiet_target _ _) fun _ => .modify (fun _ => rfl) fun _ _ => rfl

theorem quiet_jumpWhen (expected : Bool) (start : Nat) (operand : UInt32) :
    (jumpWhen expected start operand).IsQuiet still tagless := by
  refine .bind quiet_popDatum fun d => ?_
  split
  · exact quiet_jump _ _
  · exact .pure _

theorem quiet_returnTo (start : Nat) (operand : UInt32) :
    (returnTo start operand).IsQuiet still tagless :=
  .bind (quiet_target _ _) fun _ => .modify (fun _ => rfl) fun _ _ => rfl

theorem quiet_call (handle : UInt32) : (call handle).IsQuiet still tagless :=
  .bind_find (fun p => p.heap.address? handle) (fun _ _ _ hq ha => hq.address? ha) fun _ =>
    .modify (fun _ => rfl) fun _ _ => rfl

theorem quiet_invokeVirtual : invokeVirtual.IsQuiet still tagless := by
  refine .bind quiet_pop fun v => ?_
  split
  · exact quiet_call _
  · exact quiet_mismatch _

theorem quiet_exitBlock : exitBlock.IsQuiet still tagless := by
  refine .bind_get (fun _ _ => rfl) fun m => ?_
  split
  · exact .fail _
  · exact .modify (fun _ => rfl) fun _ _ => rfl

theorem quiet_compileBlock : compileBlock.IsQuiet still tagless := by
  refine .bind quiet_pop fun v => ?_
  split
  · exact .bind (quiet_link _) fun _ => quiet_push _
  · split
    · exact quiet_push _
    · exact quiet_mismatch _

theorem quiet_gatherArgs (names flags : UInt32) : (gatherArgs names flags).IsQuiet still tagless :=
  .bind (quiet_constant fun h => Constants.getStringArray?_mono h) fun _ =>
    .bind (quiet_popRefs _ _) fun _ =>
    .bind (quiet_popRefs _ _) fun _ => quiet_push _

theorem quiet_iterator : iterator.IsQuiet still tagless := by
  refine .bind_get (fun _ _ => rfl) fun m => ?_
  split
  · exact .pure _
  · exact quiet_mismatch _
  · exact quiet_underflow

theorem quiet_putIterator : putIterator.IsQuiet still tagless :=
  .bind quiet_popRef fun _ => .bind quiet_popDatum fun _ => .modify (fun _ => rfl) fun _ _ => rfl

theorem quiet_enterList (start : Nat) (operand : UInt32) :
    (enterList start operand).IsQuiet still tagless :=
  .bind quiet_iterator fun _ => .bind (quiet_target _ _) fun _ =>
    .modify (fun _ => rfl) fun _ _ => rfl

theorem quiet_exitList : exitList.IsQuiet still tagless := by
  refine .bind_get (fun _ _ => rfl) fun m => ?_
  split
  · exact .fail _
  · simp only
    split
    · exact .modify (fun _ => rfl) fun _ _ => rfl
    · exact .fail _

theorem quiet_iterate (start : Nat) (operand : UInt32) :
    (iterate start operand).IsQuiet still tagless := by
  refine .bind quiet_iterator fun number => .bind_get (fun _ _ => rfl) fun m => ?_
  split
  · exact .bind (.modify (fun _ => rfl) fun _ _ => rfl) fun _ => .bind (quiet_pushRef _) fun _ =>
      .bind (quiet_pushRef _) fun _ => .modify (fun _ => rfl) fun _ _ => rfl
  · exact quiet_jump _ _

/-! ### Components -/

theorem quiet_componentNumber (word : UInt32) : (componentNumber word).IsQuiet still tagless := by
  refine .bind (quiet_register _) fun r => .bind (quiet_savedValue _) fun v => ?_
  split
  · exact .pure _
  · exact quiet_mismatch _

theorem quiet_componentState (number : Nat) : (componentState number).IsQuiet still tagless := by
  refine .bind_get (fun _ _ => rfl) fun m => ?_
  split
  · exact .pure _
  · exact quiet_mismatch _

theorem quiet_component (word : UInt32) : (component word).IsQuiet still tagless :=
  .bind (quiet_componentNumber _) fun _ => quiet_componentState _

theorem quiet_componentNamed (name referer : String) :
    (componentNamed name referer).IsQuiet still tagless :=
  .bind .read fun _ => .orFail _ _

theorem quiet_createdInstance (c : ComponentState) :
    (createdInstance c).IsQuiet still tagless := .orFail _ _

/-- A new component has the manager that the host has for it. -/
theorem quiet_pushComponent (handle : UInt32) (curried : Option Arguments) :
    (pushComponent handle curried).IsQuiet still tagless := by
  refine ⟨fun setup m => ?_,
    .bind .read fun _ => .bind (.orFail _ _) fun _ => .modify (fun _ => rfl) fun _ _ => rfl,
    fun _ => .bind .read fun _ => .bind (.orFail _ _) fun _ => .modify fun _ => rfl⟩
  simp only [pushComponent, bind_apply, read_apply]
  cases hd : setup.host.component? handle with
  | none => exact .refl m
  | some d =>
    refine ⟨rfl, fun _ => rfl, rfl, rfl, fun h number c hc => ?_, [], by simp, by simp⟩
    have hpush : (m.components.push
        { definition := handle, name := d.name, capabilities := d.capabilities,
          manager := d.manager, curried })[number]? = some c := hc
    rw [Array.getElem?_push] at hpush
    split at hpush
    · obtain rfl := Option.some.inj hpush
      exact ⟨d, hd, rfl⟩
    · exact h number c hpush

theorem quiet_pushDynamicComponent (referer : UInt32) :
    (pushDynamicComponent referer).IsQuiet still tagless := by
  refine .bind (quiet_refererConstant _) fun referer => .bind quiet_popDatum fun d => ?_
  split
  · exact quiet_pushComponent _ _
  · exact .bind (quiet_componentNamed _ _) fun _ => quiet_pushComponent _ _
  · exact .fail _

theorem quiet_curry (referer : UInt32) : (curry referer).IsQuiet still tagless := by
  refine .bind (quiet_refererConstant _) fun referer => .bind quiet_popArgs fun args =>
    .bind quiet_popDatum fun d => ?_
  split
  · exact quiet_pushRef _
  · exact .bind (quiet_componentNamed _ _) fun _ => quiet_pushRef _
  · exact quiet_pushRef _
  · exact .fail _

/-- Changing the state of a component, but for its manager. -/
theorem managed_set {host : Host} {m : Machine} {number : Nat} {c c' : ComponentState}
    (h : m.Managed host) (hc : m.components[number]? = some c)
    (hdefinition : c'.definition = c.definition) (hmanager : c'.manager = c.manager) :
    Machine.Managed host { m with components := m.components.set! number c' } := by
  intro other state hstate
  rw [Array.set!_eq_setIfInBounds, Array.getElem?_setIfInBounds] at hstate
  split at hstate
  · split at hstate
    · obtain rfl := Option.some.inj hstate
      rw [hdefinition, hmanager]
      exact h number c hc
    · cases hstate
  · exact h other state hstate

theorem lasting_addCurried (number : Nat) : Exec.Lasting (do
    let c ← componentState number
    match c.curried with
    | some curried =>
      setComponent number { c with curried := none }
      let args ← popArgs
      push (.args (curried.merge args))
    | none => return) := by
  refine .bind (quiet_componentState number : Exec.IsQuiet true true _).lasts fun c => ?_
  split
  · exact .bind (.modify (fun _ => rfl) fun _ _ => rfl) fun _ =>
      .bind (quiet_popArgs : popArgs.IsQuiet true true).lasts fun _ =>
        (quiet_push _ : Exec.IsQuiet true true _).lasts
  · exact .pure _

theorem tagless_addCurried (number : Nat) : Exec.Tagless (do
    let c ← componentState number
    match c.curried with
    | some curried =>
      setComponent number { c with curried := none }
      let args ← popArgs
      push (.args (curried.merge args))
    | none => return) := by
  refine .bind ((quiet_componentState number : Exec.IsQuiet true true _).tags rfl) fun c => ?_
  split
  · exact .bind (.modify fun _ => rfl) fun _ =>
      .bind ((quiet_popArgs : popArgs.IsQuiet true true).tags rfl) fun _ =>
        (quiet_push _ : Exec.IsQuiet true true _).tags rfl
  · exact .pure _

theorem quiet_prepareArgs (word : UInt32) : (prepareArgs word).IsQuiet still tagless := by
  refine .bind (quiet_componentNumber _) fun number =>
    ⟨fun setup m => ?_, lasting_addCurried number, fun _ => tagless_addCurried number⟩
  rw [bind_apply]
  simp only [componentState, bind_apply, get_apply]
  cases hc : m.components[number]? with
  | none =>
    exact (quiet_mismatch "component" : (mismatch "component" : Exec Unit).IsQuiet still
      tagless).ends setup m
  | some c =>
    simp only [pure_apply]
    cases c.curried with
    | none => exact .refl m
    | some curried =>
      have hset : Machine.Quiet setup.host still m
          { m with components := m.components.set! number { c with curried := none } } :=
        ⟨rfl, fun _ => rfl, rfl, rfl, fun h => managed_set h hc rfl rfl, [], by simp, by simp⟩
      have hpush : (do push (.args (curried.merge (← popArgs))) : Exec Unit).IsQuiet
          still tagless :=
        .bind quiet_popArgs fun _ => quiet_push _
      exact (hpush.ends setup _).prepend hset

theorem quiet_pushSelf (word : UInt32) : (pushSelf word).IsQuiet still tagless :=
  .bind (quiet_component _) fun _ => .bind (quiet_createdInstance _) fun _ =>
    .bind (quiet_record rfl) fun _ => .bind_get (fun _ _ => rfl) fun _ => quiet_pushRef _

theorem quiet_pushLayout (word : UInt32) : (pushLayout word).IsQuiet still tagless :=
  .bind (quiet_component _) fun _ => .bind .read fun _ => .bind (.orFail _ _) fun _ =>
    .bind (quiet_link _) fun _ => .bind (quiet_push _) fun _ => quiet_push _

theorem quiet_elementCreated (word : UInt32) : (elementCreated word).IsQuiet still false := by
  refine .bind (quiet_register _) fun r => .bind (quiet_savedValue _) fun v => ?_
  split
  · refine .bind (quiet_componentState _) fun c => ?_
    split
    · exact .bind_get (fun _ _ => rfl) fun _ => .bind (quiet_record rfl) fun _ =>
        .bind_get (fun _ _ => rfl) fun _ => quiet_emit nofun
    · exact .pure _
  · exact .pure _

/-! ### Entering scopes -/

theorem quiet_enterNewScope (scope : Scope) : (enterNewScope scope).IsQuiet false tagless :=
  .modify_scopes (fun _ => rfl) fun _ _ => rfl

theorem quiet_bindSlot (symbol : UInt32) (slot : Slot) :
    (bindSlot symbol slot).IsQuiet false tagless :=
  .bind quiet_currentScope fun _ => .modify_scopes (fun _ => rfl) fun _ _ => rfl

theorem quiet_enterCallerScope (parameters : List UInt32) (args : Arguments) :
    (enterCallerScope parameters args).IsQuiet false tagless := by
  refine .bind quiet_currentScope fun current => .bind_get (fun _ _ => rfl) fun m =>
    .bind (.orFail _ _) fun caller => ?_
  split
  · exact .bind quiet_pushFrame fun _ => .modify_scopes (fun _ => rfl) fun _ _ => rfl
  · exact .bind quiet_pushFrame fun _ => quiet_enterNewScope _

theorem quiet_invokeYield : invokeYield.IsQuiet false tagless := by
  refine .bind quiet_pop fun block => .bind quiet_pop fun table => .bind quiet_popArgs fun args =>
    .bind quiet_currentScope fun current => ?_
  split
  · exact .bind (quiet_enterCallerScope _ _) fun _ => quiet_call _
  · exact .bind quiet_pushFrame fun _ => .modify_scopes (fun _ => rfl) fun _ _ => rfl

theorem quiet_enterRootScope (size : Nat) (bindCaller : Bool) :
    (enterRootScope size bindCaller).IsQuiet false tagless := .bind_get (fun _ _ => rfl) fun _ =>
    quiet_enterNewScope _

theorem quiet_enterChildScope : enterChildScope.IsQuiet false tagless :=
  .bind quiet_currentScope fun _ => .bind_get (fun _ _ => rfl) fun _ => quiet_enterNewScope _

theorem quiet_invokeLayout : invokeLayout.IsQuiet false tagless := by
  refine .bind quiet_pop fun v => ?_
  split
  · refine .bind quiet_pop fun v => ?_
    split
    · refine .bind quiet_popRef fun self => .bind quiet_popArgs fun args =>
        .bind quiet_popBlock fun attrs => .bind quiet_popBlock fun inverse =>
          .bind quiet_popBlock fun main => ?_
      split
      · exact .bind_get (fun _ _ => rfl) fun m => .bind quiet_pushFrame fun _ =>
          .bind (quiet_enterNewScope _) fun _ => quiet_call _
      · exact quiet_mismatch _
    · exact quiet_mismatch _
  · exact quiet_mismatch _

/-! ### Values and attributes -/

theorem quiet_callHelper (index : UInt32) : (callHelper index).IsQuiet still tagless := by
  refine .bind (quiet_handleConstant _) fun handle => .bind .read fun setup =>
    .bind (.orFail _ _) fun helper => .bind quiet_popArgs fun args =>
      .bind (quiet_record rfl) fun _ => .bind_get (fun _ _ => rfl) fun m => ?_
  split
  · exact quiet_pushRef _
  · exact .fail _

theorem quiet_getVariable (symbol : UInt32) : (getVariable symbol).IsQuiet still tagless := by
  refine .bind (quiet_slot _) fun s => ?_
  split <;> exact quiet_pushRef _

theorem quiet_getBlock (symbol : UInt32) : (getBlock symbol).IsQuiet still tagless := by
  refine .bind (quiet_slot _) fun s => ?_
  split <;> exact .bind (quiet_push _) fun _ => quiet_push _

theorem quiet_hasBlock (symbol : UInt32) : (hasBlock symbol).IsQuiet still tagless := by
  refine .bind (quiet_slot _) fun s => ?_
  split <;> exact quiet_pushRef _

theorem quiet_hasBlockParams : hasBlockParams.IsQuiet still tagless := by
  refine .bind quiet_popBlock fun b => ?_
  split <;> exact quiet_pushRef _

theorem quiet_primitiveReference : primitiveReference.IsQuiet still tagless := by
  refine .bind quiet_pop fun v => ?_
  split
  · exact quiet_pushRef _
  · exact quiet_mismatch _

theorem quiet_pushOr (value? : Option Value) :
    (match value? with | some v => push v | none => underflow : Exec Unit).IsQuiet
      still tagless := by
  cases value? with
  | some v => exact quiet_push v
  | none => exact quiet_underflow

theorem quiet_dup (word depth : UInt32) : (dup word depth).IsQuiet still tagless := by
  refine .bind_get (fun _ _ => rfl) fun m => .bind (quiet_register _) fun r => ?_
  simp only
  split
  · exact .bind (.pure _) fun _ => quiet_pushOr _
  · exact .bind (.pure _) fun _ => quiet_pushOr _
  · exact .bind (.fail _) fun _ => quiet_pushOr _

theorem quiet_load (word : UInt32) : (load word).IsQuiet still tagless :=
  .bind quiet_pop fun _ => .bind (quiet_register _) fun _ => .bind (quiet_savedValue _) fun _ =>
    .modify (fun _ => rfl) fun _ _ => rfl

theorem quiet_fetch (word : UInt32) : (fetch word).IsQuiet still tagless := by
  refine .bind_get (fun _ _ => rfl) fun m => .bind (quiet_register _) fun r => ?_
  split
  · exact quiet_push _
  · exact quiet_push _
  · exact quiet_push _
  · exact quiet_push _
  · exact .bind (quiet_savedValue _) fun _ => quiet_push _

theorem quiet_dynamicContent (trusting : Bool) :
    (dynamicContent trusting).IsQuiet still tagless := by
  refine .bind quiet_popDatum fun d => ?_
  split
  · refine quiet_emit fun _ s => ?_
    cases trusting with
    | true => exact s.filled_append _
    | false => exact s.filled_append _
  · exact .pure _

theorem quiet_setAttribute {set : Sink → String → Option String → Option String → Sink.Result}
    (h : ∀ name value space (s s' : Sink), set s name value space = .ok s' → s.Filled s')
    (name space : UInt32) : (setAttribute set name space).IsQuiet still tagless :=
  .bind (quiet_stringConstant _) fun _ => .bind (quiet_namespaceConstant _) fun _ =>
    .bind quiet_popDatum fun _ => quiet_onElement fun _ => h _ _ _

theorem filled_setAttribute (name : String) (value space : Option String) (s s' : Sink)
    (h : s.setAttribute name value space = .ok s') : s.Filled s' :=
    (Sink.adorned_onPending h).filled

theorem filled_setComponentAttribute (name : String) (value space : Option String) (s s' : Sink)
    (h : s.setComponentAttribute name value space = .ok s') : s.Filled s' :=
  (Sink.adorned_onPending h).filled

theorem quiet_staticAttribute (name value space : UInt32) :
    (staticAttribute name value space).IsQuiet still tagless :=
  .bind (quiet_stringConstant _) fun _ => .bind (quiet_stringConstant _) fun _ =>
    .bind (quiet_namespaceConstant _) fun _ =>
      quiet_onElement fun _ _ _ h => (Sink.adorned_onPending h).filled

theorem quiet_setAttributes (attributes : List (String × String)) :
    (setAttributes attributes).IsQuiet still tagless := by
  induction attributes with
  | nil => exact .pure _
  | cons first rest ih =>
    exact .bind (quiet_onElement fun _ _ _ h => (Sink.adorned_onPending h).filled) fun _ => ih

theorem quiet_applyModifier (index : UInt32) : (applyModifier index).IsQuiet still tagless := by
  refine .bind (quiet_handleConstant _) fun handle => .bind .read fun setup =>
    .bind (.orFail _ _) fun change => .bind quiet_popArgs fun args =>
      .bind (quiet_record rfl) fun _ => .bind_get (fun _ _ => rfl) fun m => ?_
  split
  · exact quiet_setAttributes _
  · exact .fail _

end Exec

/-- Operations that leave the machine quiet, and scopes alone if it is to be still.  If it is to
write no tags, they neither complete nor close an element, and no manager is told about one. -/
@[simp] def Opcode.isQuiet : (still tagless : Bool) → Opcode → Bool
  | _, _, .beginComponentTransaction | _, _, .createComponent | _, _, .registerComponentDestructor
  | _, _, .didRenderLayout | _, _, .commitComponentTransaction => false
  | true, _, .setVariable | true, _, .setBlock | true, _, .rootScope | true, _, .childScope
  | true, _, .popScope | true, _, .invokeYield | true, _, .invokeComponentLayout => false
  | _, true, .flushElement | _, true, .closeElement | _, true, .didCreateElement => false
  | _, _, _ => true

open Exec in
/-- An instruction that is not about the life of instances leaves the machine quiet. -/
theorem Exec.quiet_perform (start : Nat) {i : Instruction} {still tagless : Bool}
    (h : i.op.isQuiet still tagless = true) : (Exec.perform start i).IsQuiet still tagless := by
  obtain ⟨op, a, b, c⟩ := i
  cases op with
  | helper => exact quiet_callHelper a
  | getVariable => exact quiet_getVariable a
  | getProperty =>
    exact .bind (quiet_stringConstant _) fun _ => .bind quiet_popRef fun _ => quiet_pushRef _
  | getBlock => exact quiet_getBlock a
  | hasBlock => exact quiet_hasBlock a
  | hasBlockParams => exact quiet_hasBlockParams
  | concat => exact .bind (quiet_popRefs _ _) fun _ => quiet_pushRef _
  | constant => exact .bind (quiet_constant fun h => h.fragments.get?) fun _ => quiet_push _
  | primitive =>
    exact .bind (quiet_constant fun h => Primitive.decode?_mono h) fun _ => quiet_push _
  | primitiveReference => exact quiet_primitiveReference
  | dup => exact quiet_dup a b
  | pop => exact quiet_drop _
  | load => exact quiet_load a
  | fetch => exact quiet_fetch a
  | toBoolean => exact .bind quiet_popRef fun _ => quiet_pushRef _
  | popScope =>
    cases still
    · exact quiet_leaveScope
    · cases h
  | pushDynamicScope => exact .modify (fun _ => rfl) fun _ _ => rfl
  | popDynamicScope => exact quiet_leaveDynamicScope
  | pushFrame => exact quiet_pushFrame
  | popFrame => exact quiet_popFrame
  | jump => exact quiet_jump start a
  | jumpIf => exact quiet_jumpWhen true start a
  | jumpUnless => exact quiet_jumpWhen false start a
  | returnTo => exact quiet_returnTo start a
  | ret => exact .modify (fun _ => rfl) fun _ _ => rfl
  | invokeVirtual => exact quiet_invokeVirtual
  | invokeStatic => exact quiet_call a
  | enter => exact .modify (fun _ => rfl) fun _ _ => rfl
  | exit => exact quiet_exitBlock
  | compileBlock => exact quiet_compileBlock
  | pushSymbolTable => exact .bind (quiet_constant fun h => h.tables.get?) fun _ => quiet_push _
  | pushArgs => exact quiet_gatherArgs a b
  | text => exact .bind (quiet_stringConstant _) fun _ => quiet_emit fun _ s => s.filled_append _
  | comment => exact .bind (quiet_stringConstant _) fun _ => quiet_emit fun _ s => s.filled_append _
  | dynamicContent => exact quiet_dynamicContent _
  | openElement =>
    exact .bind (quiet_stringConstant _) fun _ => quiet_emit fun _ s => s.filled_openElement _
  | flushElement =>
    cases tagless
    · exact quiet_onElement nofun
    · cases still <;> cases h
  | closeElement =>
    cases tagless
    · exact quiet_onElement nofun
    · cases still <;> cases h
  | staticAttr => exact quiet_staticAttribute a b c
  | dynamicAttr => exact quiet_setAttribute filled_setAttribute a c
  | componentAttr => exact quiet_setAttribute filled_setComponentAttribute a c
  | modifier => exact quiet_applyModifier a
  | putIterator => exact quiet_putIterator
  | enterList => exact quiet_enterList start a
  | exitList => exact quiet_exitList
  | iterate => exact quiet_iterate start a
  | isComponent => exact .bind quiet_popRef fun _ => quiet_pushRef _
  | curryComponent => exact quiet_curry a
  | pushComponentSpec => exact .bind (quiet_handleConstant _) fun _ => quiet_pushComponent _ _
  | pushDynamicComponentManager => exact quiet_pushDynamicComponent a
  | prepareArgs => exact quiet_prepareArgs a
  | getComponentSelf => exact quiet_pushSelf a
  | getComponentLayout => exact quiet_pushLayout a
  | didCreateElement =>
    cases tagless
    · exact quiet_elementCreated a
    · cases still <;> cases h
  | setVariable =>
    cases still
    · exact .bind quiet_popRef fun _ => quiet_bindSlot _ _
    · cases h
  | setBlock =>
    cases still
    · exact .bind quiet_popBlock fun _ => quiet_bindSlot _ _
    · cases h
  | rootScope =>
    cases still
    · exact quiet_enterRootScope _ _
    · cases h
  | childScope =>
    cases still
    · exact quiet_enterChildScope
    · cases h
  | invokeYield =>
    cases still
    · exact quiet_invokeYield
    · cases h
  | invokeComponentLayout =>
    cases still
    · exact quiet_invokeLayout
    · cases h
  | beginComponentTransaction | createComponent | registerComponentDestructor | didRenderLayout
  | commitComponentTransaction => cases still <;> cases h

end TemplateMachine
