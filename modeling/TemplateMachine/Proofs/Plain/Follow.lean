import TemplateMachine.Proofs.Plain.Basic
import TemplateMachine.Proofs.Walk.Steady

/-! Walks where nothing is a component.  Such a walk does what the plain rendering does, which fails
only for reasons that a walk has as well: it is compiled first, so all names and forms are as they
should be. -/

namespace TemplateMachine

/-- The error that a fault is, unless something cannot be compiled. -/
def Fault.error? : Fault → Option RuntimeError
  | .uncompilable => none
  | .helperFailed message => some (.helperFailed message)
  | .managerFailed message => some (.managerFailed message)
  | .noOpenElement operation => some (.noOpenElement operation)
  | .notAComponent shown => some (.notAComponent shown)
  | .unknownComponent name => some (.unknownComponent name)

/-- The part of a world that plain rendering changes. -/
def World.page (w : World) : Page := ⟨w.sink, w.events⟩

/-- The world with another page. -/
def World.turn (w : World) (g : Page) : World := { w with sink := g.sink, events := g.events }

theorem Plain.orFail_some {α β : Type} (a : α) (e : CompileError) (f : α → Plain β) :
    (orFail (some a) e >>= f) = f a := rfl

namespace Walk

variable {α β : Type}

/-- The walk does what the plain rendering does, and that has a result: a failure, or a value for
which something holds. -/
def Follows (x : Walk α) (y : Plain α) (good : α → Prop) : Prop :=
  ∀ w, match y w.page with
    | .ok a g => good a ∧ x w = .ok a (w.turn g)
    | .error (.fault e) g => ∃ fault, fault.error? = some e ∧ x w = .error (.fault fault) (w.turn g)
    | .error .outOfFuel _ => False

section

variable {x : Walk α} {y : Plain α} {f : α → Walk β} {f' : α → Plain β} {good : α → Prop}
variable {good' : β → Prop}

theorem Follows.pure {a : α} (h : good a) : Follows (pure a : Walk α) (pure a : Plain α) good :=
  fun _ => ⟨h, rfl⟩

theorem Follows.fail {fault : Fault} {e : RuntimeError} (h : fault.error? = some e) :
    Follows (fail fault : Walk α) (Plain.fail e) good :=
  fun _ => ⟨fault, h, rfl⟩

theorem Follows.bind (hx : Follows x y good) (hf : ∀ a, good a → Follows (f a) (f' a) good') :
    Follows (x >>= f) (y >>= f') good' := by
  intro w
  have hw := hx w
  have hbind : (y >>= f') w.page =
      match y w.page with
      | .ok a g => f' a g
      | .error e g => .error e g := by
    show EStateM.bind y f' w.page = _
    unfold EStateM.bind
    cases y w.page <;> rfl
  rw [hbind, bind_apply]
  cases hy : y w.page with
  | ok a g =>
    rw [hy] at hw
    obtain ⟨hgood, hxw⟩ := hw
    rw [hxw]
    exact hf a hgood (w.turn g)
  | error e g =>
    rw [hy] at hw
    cases e with
    | fault e =>
      obtain ⟨fault, hfault, hxw⟩ := hw
      rw [hxw]
      exact ⟨fault, hfault, rfl⟩
    | outOfFuel => exact hw

theorem Follows.get {f : World → Walk α} {f' : Page → Plain α}
    (h : ∀ w, Follows (f w) (f' w.page) good) :
    Follows (get >>= f : Walk α) (get >>= f' : Plain α) good :=
  fun w => h w w

theorem follows_record (e : Event) : Follows (record e) (Plain.record e) fun _ => True :=
  fun _ => ⟨trivial, rfl⟩

theorem follows_emit (write : Sink → Sink) :
    Follows (emit write) (Plain.emit write) fun _ => True :=
  fun _ => ⟨trivial, rfl⟩

theorem follows_onElement (change : Sink → Sink.Result) :
    Follows (onElement change) (Plain.onElement change) fun _ => True := by
  intro w
  unfold onElement Plain.onElement
  rw [show w.page.sink = w.sink from rfl]
  cases change w.sink with
  | ok sink => exact ⟨trivial, rfl⟩
  | error operation => exact ⟨.noOpenElement operation, rfl, rfl⟩

end

end Walk

/-! ### Slots of values -/

/-- The reference leads to data. -/
def Reference.IsData (cells : Cells) (r : Reference) : Prop := (r.value cells).isComponent = false

theorem Datum.isComponent_get (d : Datum) (key : String) : (d.get key).isComponent = false := by
  unfold Datum.get
  split
  · rfl
  · split <;> rfl
  · split <;> rfl
  · rfl

theorem Reference.isData_property (cells : Cells) (r : Reference) (key : String) :
    (Reference.property r key).IsData cells := by
  unfold IsData Reference.value
  exact Datum.isComponent_get _ _

theorem Reference.isData_path {cells : Cells} {r : Reference} (h : r.IsData cells)
    (path : List String) :
    (path.foldl .property r).IsData cells := by
  induction path generalizing r with
  | nil => exact h
  | cons key rest ih => exact ih (isData_property cells r key)

theorem Reference.isData_ofJson (cells : Cells) (json : Json) :
    (Reference.ofJson json).IsData cells := by
  unfold IsData ofJson const Reference.value
  rfl

/-- The slots hold values and no blocks, and no value is a component. -/
structure Slots.Shows (slots : Slots) (cells : Cells) (v : Values) : Prop where
  value : ∀ slot, slots.value slot = v slot
  noBlock : ∀ slot f written, slots slot ≠ .block f written
  data : ∀ slot, (v slot).IsData cells

section

variable {slots : Slots} {cells : Cells} {v : Values}

theorem Slots.shows_empty (cells : Cells) : Slots.empty.Shows cells fun _ => .null where
  value _ := rfl
  noBlock _ _ _ := nofun
  data _ := Reference.isData_ofJson cells .null

theorem Slots.Shows.bindValue (h : slots.Shows cells v) (slot : UInt32) {r : Reference}
    (hr : r.IsData cells) :
    (slots.bind slot (.value r)).Shows cells fun other => if other = slot then r else v other where
  value other := by
    unfold Slots.value Slots.bind
    by_cases hother : other = slot
    · simp only [if_pos hother]
    · simp only [if_neg hother]
      exact h.value other
  noBlock other f written := by
    unfold Slots.bind
    by_cases hother : other = slot
    · rw [if_pos hother]
      exact nofun
    · rw [if_neg hother]
      exact h.noBlock other f written
  data other := by
    by_cases hother : other = slot
    · simp only [if_pos hother]
      exact hr
    · simp only [if_neg hother]
      exact h.data other

theorem Slots.Shows.bindValues (h : slots.Shows cells v) (params : List UInt32)
    (values : List Reference) (hvalues : ∀ r ∈ values, r.IsData cells) :
    (slots.bindValues (params.take values.length) values).Shows cells (v.bind params values) := by
  induction values generalizing slots v params with
  | nil => cases params <;> exact h
  | cons value values ih =>
    cases params with
    | nil => exact h
    | cons slot params =>
      exact ih (h.bindValue slot (hvalues value (List.mem_cons_self ..))) params
        fun r hr => hvalues r (List.mem_cons_of_mem _ hr)

theorem Slots.Shows.ofSelf (h : slots.Shows cells v) :
    (Slots.empty.bind 0 (.value (slots.value 0))).Shows cells (.ofSelf (v 0)) := by
  rw [h.value 0]
  exact (Slots.shows_empty cells).bindValue 0 (h.data 0)

end

/-! ### Expressions -/

/-- No name stands for a component, no helper gives one, and there are the helpers and modifiers
that names stand for. -/
structure Scene.ComponentFree (s : Scene) : Prop where
  unnamed : ∀ name referer, s.lookup.component? name referer = none
  unknown : ∀ name referer, s.host.componentNamed? name referer = none
  data : ∀ handle helper history cells args d, s.host.helper? handle = some helper →
    helper history cells args = .ok d → d.isComponent = false
  helper : ∀ name referer handle, s.lookup.helper? name referer = some handle →
    (s.host.helper? handle).isSome
  modifier : ∀ name referer handle, s.lookup.modifier? name referer = some handle →
    (s.host.modifier? handle).isSome

namespace Walk

variable {s : Scene}

theorem follows_callHelper (hs : s.ComponentFree) {name referer : String} {handle : UInt32}
    (h : s.lookup.helper? name referer = some handle) (args : Arguments) :
    Follows (callHelper s handle args) (Plain.callHelper s handle args) (·.IsData s.cells) := by
  obtain ⟨helper, hhelper⟩ := Option.isSome_iff_exists.mp (hs.helper name referer handle h)
  unfold callHelper Plain.callHelper
  rw [hhelper, orUndefined_some]
  refine (follows_record _).bind fun _ _ => .get fun w => ?_
  rw [show w.page.events = w.events from rfl]
  cases hcall : helper w.events s.cells args with
  | ok d =>
    refine .pure ?_
    unfold Reference.IsData Reference.const Reference.value
    exact hs.data handle helper _ _ _ d hhelper hcall
  | error message => exact .fail rfl

theorem follows_curry (hs : s.ComponentFree) (referer : String) {definition : Reference}
    (hdata : definition.IsData s.cells) (args : Arguments) :
    Follows (curry s referer definition args) (Plain.curry s definition) (·.IsData s.cells) := by
  unfold Reference.IsData at hdata
  unfold curry Plain.curry Plain.noComponent
  cases hvalue : definition.value s.cells with
  | component handle inner =>
    rw [hvalue] at hdata
    cases hdata
  | data json =>
    cases json with
    | null => exact .pure (Reference.isData_ofJson s.cells .null)
    | str name =>
      simp only [hs.unknown]
      exact .fail rfl
    | _ => exact .fail rfl

section

variable {layout : Layout} {slots : Slots} {v : Values}

mutual

theorem follows_expression (hs : s.ComponentFree) (hv : slots.Shows s.cells v) (e : Expression)
    (h : Compilable.expression s.lookup layout.referer e) :
    Follows (expression s ⟨layout, slots, none⟩ e) (Plain.expression s ⟨layout, v⟩ e)
      (·.IsData s.cells) := by
  cases e with
  | value json =>
    unfold Compilable.expression at h
    unfold expression Plain.expression
    cases hprimitive : Primitive.ofJson json with
    | ok primitive => exact .pure (Reference.isData_ofJson _ _)
    | error kind =>
      rw [hprimitive] at h
      cases h
  | undefined => exact .pure (Reference.isData_ofJson _ .null)
  | get head path =>
    unfold expression Plain.expression
    rw [hv.value head]
    exact .pure (Reference.isData_path (hv.data head) path)
  | unknown name =>
    unfold expression Plain.expression
    rw [show (Site.mk layout slots none).referer = (Plain.Place.mk layout v).referer from rfl]
    cases hhandle : s.lookup.helper? name (Plain.Place.mk layout v).referer with
    | some handle => exact follows_callHelper hs hhandle {}
    | none =>
      simp only [hv.value 0]
      exact .pure (Reference.isData_property _ _ _)
  | helper name params hash =>
    unfold Compilable.expression at h
    unfold expression Plain.expression
    by_cases hname : name = "component"
    · rw [if_pos hname] at h ⊢
      rw [if_pos hname]
      rcases params with _ | ⟨_ | ⟨definition, rest⟩⟩
      · cases h
      · cases h
      · simp only [Bool.and_eq_true] at h
        refine (follows_expression hs hv definition h.1.1).bind fun d hd =>
          (follows_expressions hs hv rest h.1.2).bind fun _ _ =>
            (follows_namedValues hs hv hash h.2).bind fun _ _ => follows_curry hs _ hd _
    · rw [if_neg hname] at h ⊢
      rw [if_neg hname]
      simp only [Bool.and_eq_true] at h
      obtain ⟨handle, hhandle⟩ := Option.isSome_iff_exists.mp h.1.1
      rw [show (Site.mk layout slots none).referer = layout.referer from rfl,
        show (Plain.Place.mk layout v).referer = layout.referer from rfl, hhandle, orUndefined_some,
        Plain.orFail_some]
      refine (follows_params? hs hv params h.1.2).bind fun positional _ =>
        (follows_namedValues hs hv hash h.2).bind fun named _ => ?_
      exact follows_callHelper hs hhandle ⟨positional, named.1.map bareName, named.2⟩
  | concat parts =>
    unfold Compilable.expression at h
    refine (follows_expressions hs hv parts h).bind fun _ _ => .pure ?_
    unfold Reference.IsData Reference.value
    rfl
  | hasBlock symbol =>
    unfold expression Plain.expression hasBlock
    split
    · rename_i f written hblock
      exact absurd hblock (hv.noBlock symbol f written)
    · exact .pure (Reference.isData_ofJson _ _)
  | hasBlockParams symbol =>
    unfold expression Plain.expression hasBlockParams
    split
    · rename_i f written hblock
      exact absurd hblock (hv.noBlock symbol f written)
    · exact .pure (Reference.isData_ofJson _ _)
termination_by structural e

theorem follows_expressions (hs : s.ComponentFree) (hv : slots.Shows s.cells v)
    (es : List Expression) (h : Compilable.expressions s.lookup layout.referer es) :
    Follows (expressions s ⟨layout, slots, none⟩ es) (Plain.expressions s ⟨layout, v⟩ es)
      fun _ => True := by
  cases es with
  | nil => exact .pure trivial
  | cons e rest =>
    unfold Compilable.expressions at h
    rw [Bool.and_eq_true] at h
    exact (follows_expression hs hv e h.1).bind fun _ _ =>
      (follows_expressions hs hv rest h.2).bind fun _ _ => .pure trivial
termination_by structural es

theorem follows_params? (hs : s.ComponentFree) (hv : slots.Shows s.cells v)
    (params : Option (List Expression)) (h : Compilable.params? s.lookup layout.referer params) :
    Follows (params? s ⟨layout, slots, none⟩ params) (Plain.params? s ⟨layout, v⟩ params)
      fun _ => True := by
  cases params with
  | none => exact .pure trivial
  | some es => exact follows_expressions hs hv es h
termination_by structural params

theorem follows_namedValues (hs : s.ComponentFree) (hv : slots.Shows s.cells v)
    (hash : Option (HashOf Expression)) (h : Compilable.namedValues s.lookup layout.referer hash) :
    Follows (namedValues s ⟨layout, slots, none⟩ hash) (Plain.namedValues s ⟨layout, v⟩ hash)
      fun _ => True := by
  rcases hash with _ | ⟨names, values⟩
  · exact .pure trivial
  · exact (follows_expressions hs hv values h).bind fun _ _ => .pure trivial
termination_by structural hash

end

end

end Walk

end TemplateMachine
