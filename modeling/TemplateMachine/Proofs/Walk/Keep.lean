import TemplateMachine.Proofs.Walk.Statement
import TemplateMachine.Proofs.Walk.Steady

/-! What walks keep.  The steps that change a world are few: the host is called, the sink is written
to, and instances begin and end their lives.  A relation between worlds that these steps keep is
kept by every walk that comes to a result. -/

namespace TemplateMachine

/-! ### The life of an instance -/

/-- The instance that a host creates, if it does. -/
def Host.created? (host : Host) (cells : Cells) (history : History) (component : UInt32)
    (asked : Instance) : Option Instance :=
  match host.component? component with
  | some d =>
    match (d.manager history).create cells asked with
    | .ok inst => some inst
    | .error _ => none
  | none => none

/-- Whether an instance is to be destroyed in the end, asked for at once after its creation. -/
def Host.offers (host : Host) (history : History) (d : Destructor) : Bool :=
  match host.component? d.definition with
  | some c => (c.manager (history.push (.hasDestructor d.definition d.inst))).hasDestructor d.inst
  | none => false

namespace World

/-- An instance was created in a transaction of its own, where it is registered if it is to be
destroyed in the end. -/
def began (w : World) (host : Host) (asked : Instance) (d : Destructor) : World :=
  let history := w.events.push (.create d.definition asked)
  { w with
    events := history.push (.hasDestructor d.definition d.inst)
    transactions := (if host.offers history d then [d] else []) :: w.transactions }

/-- The layout of an instance was rendered, and its transaction ends with it. -/
def ended (w : World) (d : Destructor) : World :=
  let w := { w with events := w.events.push (.layoutRendered d.definition d.inst) }
  match w.transactions with
  | innermost :: rest => { w with transactions := rest, destructors := innermost ++ w.destructors }
  | [] => w

end World

/-- The elementary steps of walks keep a relation between the world before and the world after. -/
structure Scene.Maintains (s : Scene) (R : World → World → Prop) : Prop where
  refl : ∀ w, R w w
  trans : ∀ u v w, R u v → R v w → R u w
  called : ∀ w calls, (∀ e ∈ calls, e.isQuiet = true) → R w (w.log calls)
  written : ∀ w sink, R w { w with sink }
  lived : ∀ w w' asked d,
    s.host.created? s.cells (w.events.push (.create d.definition asked)) d.definition asked =
      some d.inst →
    R (w.began s.host asked d) w' → R w (w'.ended d)

namespace Walk

variable {α β : Type} {s : Scene} {R : World → World → Prop}

/-- The worlds before and after are related, if the walk comes to a result. -/
def Keeps (R : World → World → Prop) (x : Walk α) : Prop := ∀ w a w', x w = .ok a w' → R w w'

/-- The walk creates an instance, and comes to an entry below it. -/
def Enters (s : Scene) (R : World → World → Prop) (x : Walk Entry) : Prop :=
  ∀ w e w', x w = .ok e w' → ∃ v asked, R w v ∧
    s.host.created? s.cells (v.events.push (.create e.current.definition asked))
      e.current.definition asked = some e.current.inst ∧
    R (v.began s.host asked ⟨e.current.definition, e.current.inst⟩) w'

/-- The component is that of the host. -/
def IsHosts (s : Scene) (c : ComponentState) : Prop :=
  ∃ d, s.host.component? c.definition = some d ∧ c.manager = d.manager

theorem ok_bind {x : Walk α} {f : α → Walk β} {w w'' : World} {b : β}
    (h : (x >>= f) w = .ok b w'') :
    ∃ a w', x w = .ok a w' ∧ f a w' = .ok b w'' := by
  rw [bind_apply] at h
  cases hx : x w with
  | ok a w' =>
    rw [hx] at h
    exact ⟨a, w', rfl, h⟩
  | error e w' =>
    rw [hx] at h
    cases h

/-- All results of the walk have a property. -/
def Gives (x : Walk α) (P : α → Prop) : Prop := ∀ w a w', x w = .ok a w' → P a

theorem Gives.pure {P : α → Prop} {a : α} (h : P a) : (pure a : Walk α).Gives P := by
  rintro w _ _ ⟨⟩
  exact h

theorem Gives.fail {P : α → Prop} (fault : Fault) : (fail fault : Walk α).Gives P := nofun

theorem hosts_componentState (s : Scene) (handle : UInt32) (curried : Option Arguments) :
    (componentState s handle curried).Gives (IsHosts s) := by
  unfold componentState
  split
  · rename_i d hd
    exact .pure ⟨d, hd, rfl⟩
  · exact .fail _

theorem hosts_dynamicState (s : Scene) (referer : String) (definition : Reference) :
    (dynamicState s referer definition).Gives (IsHosts s) := by
  unfold dynamicState
  split
  · exact hosts_componentState _ _ _
  · split
    · exact hosts_componentState _ _ _
    · exact .fail _
  · exact .fail _

theorem create_ok {c : ComponentState} {asked : Instance} (hc : IsHosts s c) {w w' : World}
    {current : Current} (h : create s c asked w = .ok current w') :
    current.definition = c.definition ∧ current.manager = c.manager ∧
      s.host.created? s.cells (w.events.push (.create c.definition asked)) c.definition asked =
        some current.inst ∧
        w' = { w with events := w.events.push (.create c.definition asked) } := by
  obtain ⟨d, hd, hmanager⟩ := hc
  let history := w.events.push (.create c.definition asked)
  replace h : (match (c.manager history).create s.cells asked with
    | .ok inst => pure ⟨c.definition, c.manager, inst⟩
    | .error message => fail (.managerFailed message) : Walk Current) { w with events := history } =
      .ok current w' := h
  cases hinst : (c.manager history).create s.cells asked with
  | ok inst =>
    rw [hinst] at h
    cases h
    refine ⟨rfl, rfl, ?_, rfl⟩
    rw [Host.created?, hd]
    simp only [← hmanager]
    rw [hinst]
  | error message =>
    rw [hinst] at h
    cases h

theorem registerDestructor_apply {c : Current} {w : World} {innermost : List Destructor}
    {others : List (List Destructor)} (hw : w.transactions = innermost :: others) :
    registerDestructor c w =
      .ok () { w with
        events := w.events.push (.hasDestructor c.definition c.inst),
        transactions :=
          (if (c.manager
              (w.events.push (.hasDestructor c.definition c.inst))).hasDestructor c.inst then
            ⟨c.definition, c.inst⟩ :: innermost else innermost) :: others } := by
  by_cases hoffers :
      (c.manager (w.events.push (.hasDestructor c.definition c.inst))).hasDestructor c.inst
  · show EStateM.Result.ok () _ = _
    simp only [hoffers, hw, if_true]
  · show EStateM.Result.ok () _ = _
    simp only [hoffers, Bool.false_eq_true, if_false, ← hw]

/-- The beginning of the life of an instance. -/
theorem instantiate_ok {c : ComponentState} {asked : Instance} (hc : IsHosts s c) {w w' : World}
    {current : Current} {self : Reference} (h : instantiate s c asked w = .ok (current, self) w') :
    current.definition = c.definition ∧
      s.host.created? s.cells (w.events.push (.create c.definition asked)) c.definition asked =
        some current.inst ∧
      w' = (w.began s.host asked ⟨c.definition, current.inst⟩).log
        [.selfReference c.definition current.inst] := by
  obtain ⟨current', w₁, hcreate, h⟩ := ok_bind h
  obtain ⟨_, w₂, hbegin, hcreate⟩ := ok_bind hcreate
  cases hbegin
  obtain ⟨hdefinition, hcurrent, hcreated, rfl⟩ := create_ok hc hcreate
  obtain ⟨d, hd, hmanager⟩ := hc
  obtain ⟨_, w₃, hregister, h⟩ := ok_bind h
  obtain ⟨self', w₄, hself, h⟩ := ok_bind h
  cases hself
  cases h
  rw [registerDestructor_apply rfl] at hregister
  cases hregister
  rw [hdefinition, hcurrent, hmanager]
  refine ⟨rfl, hcreated, ?_⟩
  simp [World.log, World.began, Host.offers, hd]

/-! ### Elementary walks -/

theorem Gives.bind_of {P : α → Prop} {Q : β → Prop} {x : Walk α} {f : α → Walk β} (hx : x.Gives P)
    (hf : ∀ a, P a → (f a).Gives Q) : (x >>= f).Gives Q := by
  intro w b w'' h
  obtain ⟨a, w', hxw, h⟩ := ok_bind h
  exact hf a (hx w a w' hxw) w' b w'' h

theorem Gives.bind {P : β → Prop} {x : Walk α} {f : α → Walk β} (hf : ∀ a, (f a).Gives P) :
    (x >>= f).Gives P :=
  bind_of (fun _ _ _ _ => trivial) fun a (_ : True) => hf a

theorem Gives.orUndefined (o : Option α) : (orUndefined o).Gives fun a => o = some a := by
  cases o with
  | none => nofun
  | some a => exact .pure rfl

theorem Gives.mono {x : Walk α} {P Q : α → Prop} (h : x.Gives P)
    (hPQ : ∀ a, P a → Q a) : x.Gives Q :=
  fun w a w' hw => hPQ a (h w a w' hw)

theorem gives_enterLayout (s : Scene) (layout : Fragment) (slots : Slots) (c : Current) :
    (enterLayout s layout slots c).Gives fun e => e = ⟨layout, slots, c⟩ := by
  unfold enterLayout
  split
  · exact .pure rfl
  · exact .fail _

namespace Keeps

variable (h : s.Maintains R)

include h

theorem bind_of {x : Walk α} {f : α → Walk β} {P : α → Prop} (hx : x.Keeps R) (hgives : x.Gives P)
    (hf : ∀ a, P a → (f a).Keeps R) : (x >>= f).Keeps R := by
  intro w b w'' hw
  obtain ⟨a, w', hxw, hfw⟩ := ok_bind hw
  exact h.trans _ _ _ (hx w a w' hxw) (hf a (hgives w a w' hxw) w' b w'' hfw)

theorem bind {x : Walk α} {f : α → Walk β} (hx : x.Keeps R) (hf : ∀ a, (f a).Keeps R) :
    (x >>= f).Keeps R :=
  bind_of h hx (fun _ _ _ _ => trivial) fun a (_ : True) => hf a

theorem steady {x : Walk α} (hx : x.Steady) : x.Keeps R := by
  intro w a w' hw
  obtain ⟨result, calls, hquiet, -, hx⟩ := hx w.events
  rw [hx w rfl] at hw
  cases result with
  | ok a =>
    obtain ⟨-, rfl⟩ := EStateM.Result.ok.inj hw
    exact h.called w calls hquiet
  | error e => cases hw

theorem pure (a : α) : (Pure.pure a : Walk α).Keeps R := steady h (.pure a)

omit h in
theorem undefined : (undefined : Walk α).Keeps R := nofun

theorem orUndefined (o : Option α) : (orUndefined o).Keeps R := steady h (.orUndefined o)

theorem emit (write : Sink → Sink) : (emit write).Keeps R := by
  rintro w _ _ ⟨⟩
  exact h.written w _

theorem onElement (change : Sink → Sink.Result) : (onElement change).Keeps R := by
  intro w a w' hw
  unfold Walk.onElement at hw
  cases hchange : change w.sink with
  | ok sink =>
    rw [hchange] at hw
    cases hw
    exact h.written w sink
  | error e =>
    rw [hchange] at hw
    cases hw

end Keeps

/-! ### Invocations -/

namespace Enters

variable (h : s.Maintains R)

include h

theorem after {x : Walk α} {f : α → Walk Entry} (hx : x.Keeps R) (hf : ∀ a, Enters s R (f a)) :
    Enters s R (x >>= f) := by
  intro w e w'' hw
  obtain ⟨a, w', hxw, hfw⟩ := ok_bind hw
  obtain ⟨v, asked, hv, hcreated, hbegan⟩ := hf a w' e w'' hfw
  exact ⟨v, asked, h.trans _ _ _ (hx w a w' hxw) hv, hcreated, hbegan⟩

/-- Whatever comes after the creation of an instance, and before its layout, tells nothing about the
life of instances. -/
theorem instantiate {c : ComponentState} (hc : IsHosts s c) (asked : Instance)
    {f : Current × Reference → Walk Entry} (hsteady : ∀ created, (f created).Keeps R)
    (hgives : ∀ created, (f created).Gives fun e => e.current = created.1) :
    Enters s R (instantiate s c asked >>= f) := by
  intro w e w'' hw
  obtain ⟨⟨current, self⟩, w', hinstantiate, hf⟩ := ok_bind hw
  obtain ⟨hdefinition, hcreated, rfl⟩ := instantiate_ok hc hinstantiate
  obtain rfl := hgives _ _ _ _ hf
  rw [← hdefinition] at hcreated hf
  refine ⟨w, asked, h.refl w, hcreated, h.trans _ _ _ (h.called _ _ ?_) (hsteady _ _ _ _ hf)⟩
  exact List.forall_mem_singleton.mpr rfl

theorem genericEntry (p : Site) {c : ComponentState} (hc : IsHosts s c) (i : Invocation)
    (layout : Option Fragment) : Enters s R (genericEntry s p c i layout) := by
  refine .after h (.steady h (steady_args s p i.params i.hash)) fun args => ?_
  refine instantiate h hc _ (fun created => ?_) fun created => ?_
  · obtain ⟨current, self⟩ := created
    dsimp only
    cases layout.or (s.lookup.layout? c.definition) with
    | none => exact .steady h (.fail rfl)
    | some layout =>
      exact .bind h (.orUndefined h _) fun table =>
        .steady h (steady_enterLayout s layout _ current)
  · obtain ⟨current, self⟩ := created
    dsimp only
    cases layout.or (s.lookup.layout? c.definition) with
    | none => exact .fail _
    | some layout =>
      exact .bind fun table => (gives_enterLayout s layout _ current).mono fun _ he => he ▸ rfl

theorem boundEntry (p : Site) (createArgs : Bool) (layout : Fragment) (table : ProgramTable)
    {c : ComponentState} (hc : IsHosts s c) (i : Invocation) :
    Enters s R (boundEntry s p createArgs layout table c i) := by
  refine .after h (.steady h (steady_argsIf s p createArgs i)) fun given => ?_
  refine instantiate h hc _ (fun created => ?_) fun created => ?_
  · exact .bind h (.steady h (steady_symbolBindings s p i _ _ _)) fun bound =>
      .steady h (steady_enterLayout _ _ _ _)
  · exact .bind fun bound => (gives_enterLayout s layout _ created.1).mono fun _ he => he ▸ rfl

/-- The life of an instance ends with its layout. -/
theorem renderLayout {call : Call} (hcall : ∀ body slots c, (call body slots c).Keeps R)
    {x : Walk Entry} (hx : Enters s R x) : (do renderLayout call (← x) : Walk Unit).Keeps R := by
  intro w u w'' hw
  obtain ⟨e, w', hxw, hw⟩ := ok_bind hw
  obtain ⟨v, asked, hv, hcreated, hbegan⟩ := hx w e w' hxw
  obtain ⟨_, w₁, hcalled, hw⟩ := ok_bind hw
  cases hw
  refine h.trans _ _ _ hv (h.lived v w₁ asked ⟨e.current.definition, e.current.inst⟩ hcreated ?_)
  exact h.trans _ _ _ hbegan (hcall _ _ _ _ _ _ hcalled)

end Enters

section

variable (h : s.Maintains R) {call : Call} (hcall : ∀ body slots c, (call body slots c).Keeps R)
variable (p : Site)

include h hcall

theorem keeps_genericComponent {c : ComponentState} (hc : IsHosts s c) (i : Invocation)
    (layout : Option Fragment) : (genericComponent s p call c i layout).Keeps R :=
  Enters.renderLayout h hcall (.genericEntry h p hc i layout)

theorem keeps_staticComponent (capabilities : Capabilities) (layout : Fragment) {c : ComponentState}
    (hc : IsHosts s c) (i : Invocation) :
    (staticComponent s p call capabilities layout c i).Keeps R := by
  refine .bind h (.orUndefined h _) fun table => ?_
  split
  · exact keeps_genericComponent h hcall p hc i (some layout)
  · exact Enters.renderLayout h hcall (.boundEntry h p _ layout table hc i)

theorem keeps_component (handle : UInt32) (i : Invocation) :
    (component s p call handle i).Keeps R := by
  refine .bind_of h (.steady h (steady_componentState s handle none))
    (hosts_componentState s handle none) fun c hc => ?_
  split
  · exact keeps_staticComponent h hcall p _ _ hc i
  · exact keeps_genericComponent h hcall p hc i none

theorem keeps_dynamicComponent (definition : Reference) (i : Invocation) :
    (dynamicComponent s p call definition i).Keeps R :=
  .bind_of h (.steady h (steady_dynamicState s _ definition)) (hosts_dynamicState s _ definition)
    fun _ hc => keeps_genericComponent h hcall p hc i none

/-! ### Statements -/

theorem keeps_inverse (b : BlockCall) : (inverse p call b).Keeps R := by
  unfold inverse
  split
  · exact hcall _ _ _
  · exact .pure h _

omit hcall in
theorem keeps_single (b : BlockCall) : (single b).Keeps R := by
  unfold single
  split
  · exact .pure h _
  · exact .undefined

theorem keeps_conditional (expected : Bool) (b : BlockCall) :
    (conditional s p call expected b).Keeps R := by
  refine .bind h (keeps_single h b) fun _ =>
    .bind h (.steady h (steady_expression s p _)) fun _ => ?_
  split
  · exact hcall _ _ _
  · exact keeps_inverse h hcall p b

theorem keeps_withBlock (b : BlockCall) : (withBlock s p call b).Keeps R := by
  refine .bind h (keeps_single h b) fun _ =>
    .bind h (.steady h (steady_expression s p _)) fun _ => ?_
  split
  · exact hcall _ _ _
  · exact keeps_inverse h hcall p b

theorem keeps_eachItem (main : Fragment) (items : List IterationItem) :
    (eachItem p call main items).Keeps R := by
  induction items with
  | nil => exact .pure h _
  | cons item rest ih => exact .bind h (hcall _ _ _) fun _ => ih

theorem keeps_eachBlock (b : BlockCall) : (eachBlock s p call b).Keeps R := by
  have hkey : (keyValue s p b).Keeps R := by
    unfold keyValue
    split
    · exact .steady h (steady_expression s p _)
    · exact .pure h _
  refine .bind h (keeps_single h b) fun _ => .bind h hkey fun _ =>
    .bind h (.steady h (steady_expression s p _)) fun _ => ?_
  dsimp only
  split
  · exact keeps_inverse h hcall p b
  · exact keeps_eachItem h hcall p _ _

theorem keeps_componentForm (params : Option (List Expression))
    (invocation : List Expression → Invocation) :
    (componentForm s p call params invocation).Keeps R := by
  unfold componentForm
  split
  · split
    · exact keeps_component h hcall p _ _
    · refine .bind h (.steady h (steady_expression s p _)) fun _ => ?_
      split
      · exact keeps_dynamicComponent h hcall p _ _
      · exact .pure h _
  · exact .undefined

theorem keeps_blockCall (b : BlockCall) : (blockCall s p call b).Keeps R := by
  unfold blockCall
  split
  · exact keeps_conditional h hcall p _ b
  · exact keeps_conditional h hcall p _ b
  · exact keeps_withBlock h hcall p b
  · exact keeps_eachBlock h hcall p b
  · exact keeps_componentForm h hcall p _ _
  · exact .bind h (.orUndefined h _) fun _ => keeps_component h hcall p _ _

theorem keeps_append (value : Expression) (trusted : Bool) :
    (append s p call value trusted).Keeps R := by
  have hcontent (trusting : Bool) (value : Reference) : (content s trusting value).Keeps R := by
    unfold content
    split
    · exact .emit h _
    · exact .pure h _
  unfold append
  split
  · exact keeps_componentForm h hcall p _ _
  · unfold partialForm
    split
    · exact .bind h (.orUndefined h _) fun _ => hcall _ _ _
    · exact .undefined
  · exact keeps_component h hcall p _ _
  · split
    · refine .bind h (.steady h (steady_expression s p _)) fun _ => ?_
      split
      · exact keeps_dynamicComponent h hcall p _ _
      · exact hcontent _ _
    · exact .bind h (.steady h (steady_expression s p _)) fun _ => hcontent _ _

omit hcall in
theorem keeps_setAttribute (mode : AttrMode) (name : String) (value space : Option String) :
    (setAttribute mode name value space).Keeps R := by
  unfold setAttribute
  cases mode with
  | element => exact .onElement h _
  | component => exact .onElement h _

omit hcall in
theorem keeps_applyModifier (handle : UInt32) (args : Arguments) :
    (applyModifier s handle args).Keeps R := by
  have hset (attributes : List (String × String)) : (setAttributes attributes).Keeps R := by
    induction attributes with
    | nil => exact .pure h _
    | cons first rest ih => exact .bind h (.onElement h _) fun _ => ih
  refine .bind h (.orUndefined h _) fun change => .bind h (.steady h (.record rfl)) fun _ => ?_
  intro w a w' hw
  obtain ⟨v, w₁, hget, hw⟩ := ok_bind hw
  cases hget
  cases hchange : change w.events s.cells args with
  | ok attributes =>
    rw [hchange] at hw
    exact hset attributes w a w' hw
  | error message =>
    rw [hchange] at hw
    cases hw

theorem keeps_yield (slot : UInt32) (params : List Expression) :
    (yield s p call slot params).Keeps R := by
  refine .bind h (.steady h (steady_args s p _ _)) fun _ => ?_
  split
  · exact hcall _ _ _
  · exact .pure h _

omit hcall in
theorem keeps_elementCreated : (elementCreated p).Keeps R := by
  rintro w _ _ ⟨⟩
  dsimp only
  cases p.current with
  | some c =>
    let e : Event := .elementCreated c.definition c.inst w.sink.hasPending
    have hcalled := h.called w [e] (List.forall_mem_singleton.mpr rfl)
    have hlog : w.log [e] = { w with events := w.events.push e } := by simp [World.log]
    rw [hlog] at hcalled
    exact h.trans _ _ _ hcalled (h.written { w with events := w.events.push e } _)
  | none => exact h.refl w

end

mutual

theorem keeps_statement (h : s.Maintains R) {call : Call}
    (hcall : ∀ body slots c, (call body slots c).Keeps R) (p : Site) (mode : AttrMode)
    (st : Statement) :
    (statement s p call mode st).Keeps R := by
  cases st with
  | text text => exact .emit h fun sink => sink.appendText text
  | comment text => exact .emit h fun sink => sink.appendComment text
  | append value trusted => exact keeps_append h hcall p value trusted
  | openElement tag => exact .emit h fun sink => sink.openElement tag
  | flushElement => exact .onElement h _
  | closeElement => exact .onElement h _
  | staticAttr name value space => exact keeps_setAttribute h _ _ _ _
  | dynamicAttr name value space trusting =>
    exact .bind h (.steady h (steady_expression s p value)) fun _ => keeps_setAttribute h _ _ _ _
  | modifier name params hash =>
    exact .bind h (.orUndefined h _) fun _ => .bind h (.steady h (steady_args s p _ _)) fun _ =>
      keeps_applyModifier h _ _
  | block name params hash template inverse =>
    exact .bind h (.orUndefined h _) fun _ => .bind h (.orUndefined h _) fun _ =>
      keeps_blockCall h hcall p _
  | component tag attrs hash body =>
    refine .bind h (.orUndefined h _) fun block => ?_
    split
    · exact keeps_component h hcall p _ _
    · refine .bind h (.emit h fun sink => sink.openElement tag) fun _ =>
        .bind h (keeps_statements h hcall p .element attrs) fun _ =>
          .bind h (.onElement h _) fun _ => ?_
      cases block with
      | some f => exact .bind h (hcall _ _ _) fun _ => .onElement h _
      | none => exact .onElement h _
  | yield slot params => exact keeps_yield h hcall p slot _
  | attrSplat slot =>
    exact .bind h (keeps_yield h hcall p slot _) fun _ => keeps_elementCreated h p
termination_by structural st

theorem keeps_statements (h : s.Maintains R) {call : Call}
    (hcall : ∀ body slots c, (call body slots c).Keeps R) (p : Site) (mode : AttrMode)
    (sts : List Statement) : (statements s p call mode sts).Keeps R := by
  cases sts with
  | nil => exact .pure h _
  | cons st rest =>
    exact .bind h (keeps_statement h hcall p mode st) fun _ => keeps_statements h hcall p mode rest
termination_by structural sts

end

/-- Rendering a fragment keeps what its elementary steps keep. -/
theorem keeps_call (h : s.Maintains R) (depth : Nat) (body : Fragment) (slots : Slots)
    (c : Option Current) : (call s depth body slots c).Keeps R := by
  induction depth generalizing body slots c with
  | zero => exact .undefined
  | succ depth ih =>
    unfold call
    split
    · exact keeps_statements h (fun body slots c => ih body slots c) _ _ _
    · exact .steady h (.fail rfl)

/-! ### Transactions -/

/-- The walk leaves the transactions that it finds. -/
def Balanced {α : Type} (x : Walk α) : Prop :=
  ∀ w a w', x w = .ok a w' → w'.transactions = w.transactions

theorem maintains_transactions (s : Scene) :
    s.Maintains fun w w' => w'.transactions = w.transactions where
  refl _ := rfl
  trans _ _ _ huv hvw := hvw.trans huv
  called _ _ _ := rfl
  written _ _ := rfl
  lived w w' asked d _ hw' := by
    rw [World.began] at hw'
    simp only [World.ended, hw']

/-- Each invocation opens a transaction and commits it, so rendering a fragment leaves those that it
finds. -/
theorem balanced_call (s : Scene) (depth : Nat) (body : Fragment) (slots : Slots)
    (c : Option Current) : (call s depth body slots c).Balanced :=
  keeps_call (maintains_transactions s) depth body slots c

end Walk

end TemplateMachine
