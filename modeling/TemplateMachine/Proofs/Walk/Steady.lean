import TemplateMachine.Proofs.Walk.Component

/-! Steady walks.  The values of expressions do not depend on what has been rendered so far, apart
from the calls of the host, and computing them changes nothing but the record of these calls, which
are none about the life of an instance.  Nor does computing them need an element. -/

namespace TemplateMachine

/-- Calls that tell nothing about the life of an instance. -/
def Event.isQuiet : Event → Bool
  | .create .. | .hasDestructor .. | .layoutRendered .. | .destroy .. => false
  | _ => true

/-- An element is missing. -/
def Fault.isMisplaced : Fault → Bool
  | .noOpenElement _ => true
  | _ => false

/-- The world after some more calls of the host. -/
def World.log (w : World) (calls : List Event) : World :=
  { w with events := w.events ++ calls.toArray }

@[simp] theorem World.log_nil (w : World) : w.log [] = w := by simp [World.log]

theorem World.log_append (w : World) (calls more : List Event) :
    w.log (calls ++ more) = (w.log calls).log more := by
  simp [World.log]

namespace Walk

variable {α β : Type}

theorem bind_apply (x : Walk α) (f : α → Walk β) (w : World) :
    (x >>= f) w =
      match x w with
      | .ok a w' => f a w'
      | .error e w' => .error e w' := by
  show EStateM.bind x f w = _
  unfold EStateM.bind
  cases x w <;> rfl

theorem get_apply (w : World) : (get : Walk World) w = .ok w w := rfl

theorem record_apply (e : Event) (w : World) :
    record e w = .ok () { w with events := w.events.push e } := rfl

theorem orUndefined_some (a : α) (f : α → Walk β) : (orUndefined (some a) >>= f) = f a := rfl

/-- In every world of a history there is the same result after the same calls. -/
def Yields (x : Walk α) (history : History) (result : Except (Stop Fault) α) (calls : List Event) :
    Prop :=
  ∀ w, w.events = history → x w =
    match result with
    | .ok a => .ok a (w.log calls)
    | .error e => .error e (w.log calls)

def Steady (x : Walk α) : Prop :=
  ∀ history, ∃ result calls, (∀ e ∈ calls, e.isQuiet = true) ∧
    (∀ fault, result = .error (.fault fault) → fault.isMisplaced = false) ∧
    x.Yields history result calls

theorem Steady.pure (a : α) : (pure a : Walk α).Steady :=
  fun _ => ⟨.ok a, [], nofun, nofun, fun w _ => congrArg (EStateM.Result.ok a) w.log_nil.symm⟩

theorem Steady.fail {fault : Fault} (h : fault.isMisplaced = false) :
    (fail fault : Walk α).Steady := by
  refine fun _ => ⟨.error (.fault fault), [], nofun, ?_, fun w _ =>
    congrArg (EStateM.Result.error _) w.log_nil.symm⟩
  rintro _ ⟨⟩
  exact h

theorem Steady.undefined : (undefined : Walk α).Steady :=
  fun _ => ⟨.error .outOfFuel, [], nofun, nofun, fun w _ =>
    congrArg (EStateM.Result.error _) w.log_nil.symm⟩

theorem Steady.orUndefined (o : Option α) : (orUndefined o).Steady := by
  cases o with
  | none => exact .undefined
  | some a => exact .pure a

theorem Steady.record {e : Event} (he : e.isQuiet = true) : (record e).Steady :=
  fun _ => ⟨.ok (), [e], List.forall_mem_singleton.mpr he, nofun, fun w _ =>
    congrArg (EStateM.Result.ok ()) (by simp [World.log])⟩

/-- Only the calls of the host may be looked at. -/
theorem Steady.get {f : World → Walk α} (hf : ∀ w, (f w).Steady)
    (hsame : ∀ w w', w.events = w'.events → f w = f w') : (get >>= f : Walk α).Steady := by
  intro history
  obtain ⟨result, calls, hquiet, hplaced, h⟩ := hf { events := history } history
  refine ⟨result, calls, hquiet, hplaced, fun w hw => ?_⟩
  rw [← h w hw, ← hsame w { events := history } hw]
  rfl

theorem Steady.bind {x : Walk α} {f : α → Walk β} (hx : x.Steady) (hf : ∀ a, (f a).Steady) :
    (x >>= f).Steady := by
  intro history
  obtain ⟨result, calls, hquiet, hplaced, hx⟩ := hx history
  cases result with
  | error e =>
    refine ⟨.error e, calls, hquiet, fun fault he => hplaced fault ?_, fun w hw => by
      rw [bind_apply, hx w hw]⟩
    rw [Except.error.inj he]
  | ok a =>
    obtain ⟨result, more, hmore, hplaced, hf⟩ := hf a (history ++ calls.toArray)
    refine ⟨result, calls ++ more, List.forall_mem_append.mpr ⟨hquiet, hmore⟩, hplaced,
      fun w hw => ?_⟩
    rw [bind_apply, hx w hw, World.log_append]
    exact hf (w.log calls) (by rw [World.log, hw])

/-! ### Expressions -/

theorem steady_callHelper (s : Scene) (handle : UInt32) (args : Arguments) :
    (callHelper s handle args).Steady := by
  refine (Steady.orUndefined _).bind fun helper => (Steady.record rfl).bind fun _ =>
    .get (fun w => ?_) fun w w' hw => by rw [hw]
  cases helper w.events s.cells args with
  | ok d => exact .pure _
  | error message => exact .fail rfl

theorem steady_curry (s : Scene) (referer : String) (definition : Reference) (args : Arguments) :
    (curry s referer definition args).Steady := by
  unfold curry
  split
  · exact .pure _
  · split
    · exact .pure _
    · exact .fail rfl
  · exact .pure _
  · exact .fail rfl

theorem steady_hasBlockParams (s : Scene) (p : Site) (symbol : UInt32) :
    (hasBlockParams s p symbol).Steady := by
  unfold hasBlockParams
  split
  · split
    · exact .pure _
    · exact .fail rfl
  · exact .pure _

mutual

theorem steady_expression (s : Scene) (p : Site) (e : Expression) : (expression s p e).Steady := by
  cases e with
  | value json =>
    unfold expression
    split
    · exact .pure _
    · exact .undefined
  | undefined => exact .pure _
  | get head path => exact .pure _
  | unknown name =>
    unfold expression
    split
    · exact steady_callHelper _ _ _
    · exact .pure _
  | helper name params hash =>
    unfold expression
    by_cases hname : name = "component"
    · rw [if_pos hname]
      rcases params with _ | ⟨_ | ⟨definition, rest⟩⟩
      · exact .undefined
      · exact .undefined
      · exact (steady_expression s p definition).bind fun _ => (steady_expressions s p rest).bind
          fun _ => (steady_namedValues s p hash).bind fun _ => steady_curry _ _ _ _
    · rw [if_neg hname]
      exact (Steady.orUndefined _).bind fun _ => (steady_params? s p params).bind
        fun _ => (steady_namedValues s p hash).bind fun _ => steady_callHelper _ _ _
  | concat parts => exact (steady_expressions s p parts).bind fun _ => .pure _
  | hasBlock symbol => exact .pure _
  | hasBlockParams symbol => exact steady_hasBlockParams s p symbol
termination_by structural e

theorem steady_expressions (s : Scene) (p : Site) (es : List Expression) :
    (expressions s p es).Steady := by
  cases es with
  | nil => exact .pure _
  | cons e rest =>
    exact (steady_expression s p e).bind fun _ =>
      (steady_expressions s p rest).bind fun _ => .pure _
termination_by structural es

theorem steady_params? (s : Scene) (p : Site) (params : Option (List Expression)) :
    (params? s p params).Steady := by
  cases params with
  | none => exact .pure _
  | some es => exact steady_expressions s p es
termination_by structural params

theorem steady_namedValues (s : Scene) (p : Site) (hash : Option (HashOf Expression)) :
    (namedValues s p hash).Steady := by
  rcases hash with _ | ⟨names, values⟩
  · exact .pure _
  · exact (steady_expressions s p values).bind fun _ => .pure _
termination_by structural hash

end

theorem steady_args (s : Scene) (p : Site) (params : List Expression) (hash : Option Hash) :
    (args s p params hash).Steady :=
  (steady_expressions s p params).bind fun _ => (steady_namedValues s p hash).bind fun _ => .pure _

/-! ### Components -/

theorem steady_componentState (s : Scene) (handle : UInt32) (curried : Option Arguments) :
    (componentState s handle curried).Steady := by
  unfold componentState
  split
  · exact .pure _
  · exact .fail rfl

theorem steady_dynamicState (s : Scene) (referer : String) (definition : Reference) :
    (dynamicState s referer definition).Steady := by
  unfold dynamicState
  split
  · exact steady_componentState _ _ _
  · split
    · exact steady_componentState _ _ _
    · exact .fail rfl
  · exact .fail rfl

theorem steady_selfReference (s : Scene) (c : Current) : (selfReference s c).Steady :=
  (Steady.record rfl).bind fun _ => .get (fun _ => .pure _) fun w w' hw => by rw [hw]

theorem steady_enterLayout (s : Scene) (layout : Fragment) (slots : Slots) (c : Current) :
    (enterLayout s layout slots c).Steady := by
  unfold enterLayout
  split
  · exact .pure _
  · exact .fail rfl

theorem steady_symbolBinding (s : Scene) (p : Site) (i : Invocation) (symbol : String) :
    (symbolBinding s p i symbol).Steady := by
  unfold symbolBinding
  split
  · exact (Steady.orUndefined _).bind fun _ => .pure _
  · split
    · exact (steady_expression s p _).bind fun _ => .pure _
    · exact .pure _
  · exact .pure _

theorem steady_symbolBindings (s : Scene) (p : Site) (i : Invocation)
    (bound : List (UInt32 × Binding)) (slot : UInt32) (symbols : List String) :
    (symbolBindings s p i bound slot symbols).Steady := by
  induction symbols generalizing bound slot with
  | nil => exact .pure _
  | cons symbol rest ih =>
    refine (steady_symbolBinding s p i symbol).bind fun b => ?_
    cases b with
    | some b => exact ih _ _
    | none => exact ih _ _

theorem steady_argsIf (s : Scene) (p : Site) (needed : Bool) (i : Invocation) :
    (argsIf s p needed i).Steady := by
  unfold argsIf
  split
  · exact (steady_args s p _ _).bind fun _ => .pure _
  · exact .pure _

end Walk

end TemplateMachine
