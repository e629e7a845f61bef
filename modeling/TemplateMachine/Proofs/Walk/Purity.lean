import TemplateMachine.Proofs.Walk.Keep

/-! Pure helpers.  What an expression comes to that calls no others does not depend on what was
rendered or called before, so it may be evaluated at another time, more than once, or not at all,
and the host cannot tell but for the record of its calls. -/

namespace TemplateMachine

/-- The value of a helper depends on nothing but its arguments, and no manager goes by its calls. -/
structure Host.IsPure (host : Host) (handle : UInt32) : Prop where
  value : ∀ helper, host.helper? handle = some helper → ∀ history history', helper history =
    helper history'
  unseen : ∀ component d, host.component? component = some d → ∀ (before after : History) args,
    d.manager (before.push (.helper handle args) ++ after) = d.manager (before ++ after)

/-- A call of a pure helper. -/
def Event.IsPure (host : Host) : Event → Prop
  | .helper handle _ => host.IsPure handle
  | _ => False

mutual

/-- The helpers that an expression calls are pure. -/
def Expression.IsPure (s : Scene) (referer : String) : Expression → Prop
  | .unknown name => ∀ handle, s.lookup.helper? name referer = some handle → s.host.IsPure handle
  | .helper name params hash =>
    (∀ handle, s.lookup.helper? name referer = some handle → name = "component" ∨
      s.host.IsPure handle) ∧ Expression.ParamsPure s referer params ∧
      Expression.HashPure s referer hash
  | .concat parts => Expression.AllPure s referer parts
  | _ => True

def Expression.AllPure (s : Scene) (referer : String) : List Expression → Prop
  | [] => True
  | e :: rest => e.IsPure s referer ∧ Expression.AllPure s referer rest

def Expression.ParamsPure (s : Scene) (referer : String) : Option (List Expression) → Prop
  | none => True
  | some es => Expression.AllPure s referer es

def Expression.HashPure (s : Scene) (referer : String) : Option (HashOf Expression) → Prop
  | none => True
  | some ⟨_, values⟩ => Expression.AllPure s referer values

end

namespace Walk

variable {α β : Type} {host : Host} {s : Scene} {p : Site}

/-! ### Settled walks -/

/-- Whatever was called before, there is the same result after the same calls, of pure helpers. -/
def Settled (host : Host) (x : Walk α) : Prop :=
  ∃ result calls, (∀ e ∈ calls, e.IsPure host) ∧ ∀ history, x.Yields history result calls

/-- Whatever was called before, there is this value after the same calls, of pure helpers. -/
def ComesTo (host : Host) (x : Walk α) (a : α) : Prop :=
  ∃ calls, (∀ e ∈ calls, e.IsPure host) ∧ ∀ w, x w = .ok a (w.log calls)

theorem Settled.error (e : Stop Fault) : (throw e : Walk α).Settled host :=
  ⟨.error e, [], nofun, fun _ w _ => congrArg (EStateM.Result.error e) w.log_nil.symm⟩

theorem ComesTo.settled {x : Walk α} {a : α} (h : x.ComesTo host a) : x.Settled host := by
  obtain ⟨calls, hcalls, hx⟩ := h
  exact ⟨.ok a, calls, hcalls, fun _ w _ => hx w⟩

theorem ComesTo.pure (a : α) : (pure a : Walk α).ComesTo host a :=
  ⟨[], nofun, fun w => congrArg (EStateM.Result.ok a) w.log_nil.symm⟩

theorem Settled.pure (a : α) : (pure a : Walk α).Settled host := (ComesTo.pure a).settled

/-- A settled walk comes to the value that it has come to once. -/
theorem Settled.comesTo {x : Walk α} (hx : x.Settled host) {w w' : World} {a : α}
    (h : x w = .ok a w') : x.ComesTo host a := by
  obtain ⟨result, calls, hcalls, hyields⟩ := hx
  cases result with
  | ok b =>
    obtain rfl : b = a := by
      have := (hyields _ w rfl).symm.trans h
      cases this
      rfl
    exact ⟨calls, hcalls, fun w => hyields _ w rfl⟩
  | error e => cases (hyields _ w rfl).symm.trans h

theorem ComesTo.bind {x : Walk α} {f : α → Walk β} {a : α} {b : β} (hx : x.ComesTo host a)
    (hf : (f a).ComesTo host b) : (x >>= f).ComesTo host b := by
  obtain ⟨calls, hcalls, hx⟩ := hx
  obtain ⟨more, hmore, hf⟩ := hf
  refine ⟨calls ++ more, List.forall_mem_append.mpr ⟨hcalls, hmore⟩, fun w => ?_⟩
  rw [bind_apply, hx, World.log_append]
  exact hf (w.log calls)

theorem Settled.bind {x : Walk α} {f : α → Walk β} (hx : x.Settled host)
    (hf : ∀ a, (f a).Settled host) : (x >>= f).Settled host := by
  obtain ⟨result, calls, hcalls, hx⟩ := hx
  cases result with
  | error e =>
    refine ⟨.error e, calls, hcalls, fun history w hw => ?_⟩
    rw [bind_apply, hx history w hw]
  | ok a =>
    obtain ⟨result, more, hmore, hf⟩ := hf a
    refine ⟨result, calls ++ more, List.forall_mem_append.mpr ⟨hcalls, hmore⟩,
      fun history w hw => ?_⟩
    rw [bind_apply, hx history w hw, World.log_append]
    exact hf _ (w.log calls) rfl

theorem Settled.record {e : Event} (he : e.IsPure host) : (record e).Settled host :=
  ⟨.ok (), [e], List.forall_mem_singleton.mpr he, fun _ _ _ =>
    congrArg (EStateM.Result.ok ()) (by simp [World.log])⟩

/-- A world may be looked at for what is the same in all worlds. -/
theorem Settled.get {f : World → Walk α} (hf : ∀ w, (f w).Settled host)
    (hsame : ∀ w w', f w = f w') :
    (get >>= f : Walk α).Settled host := by
  obtain ⟨result, calls, hcalls, h⟩ := hf {}
  refine ⟨result, calls, hcalls, fun history w hw => ?_⟩
  rw [← h history w hw, ← hsame w {}]
  rfl

/-! ### Expressions -/

theorem settled_callHelper {handle : UInt32} (hpure : s.host.IsPure handle) (args : Arguments) :
    (callHelper s handle args).Settled s.host := by
  unfold callHelper
  cases hhelper : s.host.helper? handle with
  | none => exact .error _
  | some helper =>
    rw [orUndefined_some]
    have hcall : (Event.helper handle args).IsPure s.host := hpure
    refine (Settled.record hcall).bind fun _ => .get (fun w => ?_) fun w w' => ?_
    · cases helper w.events s.cells args with
      | ok d => exact .pure _
      | error message => exact .error _
    · rw [hpure.value helper hhelper w.events w'.events]

theorem settled_curry (referer : String) (definition : Reference) (args : Arguments) :
    (curry s referer definition args).Settled host := by
  unfold curry
  split
  · exact .pure _
  · split
    · exact .pure _
    · exact .error _
  · exact .pure _
  · exact .error _

theorem settled_hasBlockParams (symbol : UInt32) : (hasBlockParams s p symbol).Settled host := by
  unfold hasBlockParams
  split
  · split
    · exact .pure _
    · exact .error _
  · exact .pure _

mutual

theorem settled_expression (e : Expression) (h : e.IsPure s p.referer) :
    (expression s p e).Settled s.host := by
  cases e with
  | value json =>
    unfold expression
    split
    · exact .pure _
    · exact .error _
  | undefined => exact .pure _
  | get head path => exact .pure _
  | unknown name =>
    unfold expression
    split
    · rename_i handle hhandle
      exact settled_callHelper (h handle hhandle) _
    · exact .pure _
  | helper name params hash =>
    unfold expression
    obtain ⟨hcalled, hparams, hhash⟩ := h
    by_cases hname : name = "component"
    · rw [if_pos hname]
      rcases params with _ | ⟨_ | ⟨definition, rest⟩⟩
      · exact .error _
      · exact .error _
      · exact (settled_expression definition hparams.1).bind fun _ =>
          (settled_expressions rest hparams.2).bind fun _ =>
            (settled_namedValues hash hhash).bind fun _ =>
            settled_curry _ _ _
    · rw [if_neg hname]
      cases hhandle : s.lookup.helper? name p.referer with
      | none => exact .error _
      | some handle =>
        exact (settled_params? params hparams).bind fun _ => (settled_namedValues hash hhash).bind
          fun _ => settled_callHelper ((hcalled handle hhandle).resolve_left hname) _
  | concat parts => exact (settled_expressions parts h).bind fun _ => .pure _
  | hasBlock symbol => exact .pure _
  | hasBlockParams symbol => exact settled_hasBlockParams symbol
termination_by structural e

theorem settled_expressions (es : List Expression) (h : Expression.AllPure s p.referer es) :
    (expressions s p es).Settled s.host := by
  cases es with
  | nil => exact .pure _
  | cons e rest =>
    exact (settled_expression e h.1).bind fun _ =>
      (settled_expressions rest h.2).bind fun _ => .pure _
termination_by structural es

theorem settled_params? (params : Option (List Expression))
    (h : Expression.ParamsPure s p.referer params) :
    (params? s p params).Settled s.host := by
  cases params with
  | none => exact .pure _
  | some es => exact settled_expressions es h
termination_by structural params

theorem settled_namedValues (hash : Option (HashOf Expression))
    (h : Expression.HashPure s p.referer hash) :
    (namedValues s p hash).Settled s.host := by
  rcases hash with _ | ⟨names, values⟩
  · exact .pure _
  · exact (settled_expressions values h).bind fun _ => .pure _
termination_by structural hash

end

/-- Each of several expressions that have come to values comes to the one in its place. -/
theorem comesTo_of_expressions {es : List Expression} (hpure : Expression.AllPure s p.referer es)
    {w w' : World} {values : List Reference} (h : expressions s p es w = .ok values w') {j : Nat}
    {e : Expression} (hj : es[j]? = some e) : ∃ value, values[j]? = some value ∧
    (expression s p e).ComesTo s.host value := by
  induction es generalizing w values j with
  | nil => cases hj
  | cons first rest ih =>
    obtain ⟨value, w₁, hfirst, h⟩ := ok_bind h
    obtain ⟨more, w₂, hrest, h⟩ := ok_bind h
    cases h
    cases j with
    | zero =>
      obtain rfl : first = e := Option.some.inj hj
      exact ⟨value, rfl, (settled_expression first hpure.1).comesTo hfirst⟩
    | succ j => exact ih hpure.2 hrest hj

end Walk

/-- The arguments of an invocation call none but pure helpers. -/
structure Invocation.IsPure (i : Invocation) (s : Scene) (referer : String) : Prop where
  params : Expression.AllPure s referer i.params
  hash : Expression.HashPure s referer i.hash

namespace Walk

variable {s : Scene} {p : Site} {i : Invocation} {w w' : World} {given : Arguments}

theorem settled_args (h : i.IsPure s p.referer) : (args s p i.params i.hash).Settled s.host :=
  (settled_expressions i.params h.params).bind fun _ =>
    (settled_namedValues i.hash h.hash).bind fun _ => .pure _

/-- The value of each entry of a hash is the named argument in its place. -/
theorem comesTo_of_args {hash : Hash} (hi : i.hash = some hash) (hpure : i.IsPure s p.referer)
    (h : args s p i.params i.hash w = .ok given w') {j : Nat} {e : Expression}
    (hj : hash.values[j]? = some e) :
    ∃ value, given.named[j]? = some value ∧ (expression s p e).ComesTo s.host value := by
  have hhash := hpure.hash
  rw [hi] at h hhash
  obtain ⟨positional, w₁, -, h⟩ := ok_bind h
  obtain ⟨named, w₂, hnamed, h⟩ := ok_bind h
  obtain ⟨values, w₃, hvalues, hnamed⟩ := ok_bind hnamed
  cases hnamed
  cases h
  exact comesTo_of_expressions hhash hvalues hj

end Walk

end TemplateMachine
