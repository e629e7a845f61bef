import TemplateMachine.Proofs.Walk.Argument

/-! The places of an invocation where arguments are written, and how often each is evaluated.  In
the general form every argument is evaluated once, before the instance is created.  Where the layout
is known the arguments are only evaluated for a manager that asks for them, and each symbol of the
layout that stands for an argument has it evaluated once more, after the creation. -/

namespace TemplateMachine

/-! ### Places -/

/-- Where an argument is written. -/
inductive ArgumentPlace where
  | positional (index : Nat)
  | named (index : Nat)
deriving DecidableEq

namespace Invocation

/-- The expressions of the named arguments. -/
def values (i : Invocation) : List Expression :=
  match i.hash with
  | some hash => hash.values
  | none => []

def argumentAt? (i : Invocation) : ArgumentPlace → Option Expression
  | .positional index => i.params[index]?
  | .named index => i.values[index]?

/-- All places of arguments, each once. -/
def places (i : Invocation) : List ArgumentPlace :=
  (List.range i.params.length).map .positional ++ (List.range i.values.length).map .named

/-- The place of the argument that a symbol of a layout stands for. -/
def placeOf? (i : Invocation) (symbol : String) : Option ArgumentPlace :=
  match SymbolRole.ofSymbol symbol with
  | .argument symbol bare =>
    (i.hash.bind fun hash => hash.names.idxOf?
        (if i.synthetic then bare else symbol)).bind fun index =>
      if index < i.values.length then some (.named index) else none
  | _ => none

/-- The places of the arguments that the symbols of a layout stand for. -/
def declared (i : Invocation) (symbols : List String) : List ArgumentPlace :=
  symbols.filterMap i.placeOf?

/-- The arguments with the values of all places. -/
def gather (i : Invocation) (values : List Reference) : Arguments :=
  { positional := values.take i.params.length
    names := (i.hash.elim [] HashOf.names).map Walk.bareName
    named := values.drop i.params.length }

theorem nodup_places (i : Invocation) : i.places.Nodup := by
  refine List.nodup_append.mpr ⟨?_, ?_, ?_⟩
  · exact List.pairwise_map.mpr (List.nodup_range.imp fun h heq =>
      h (ArgumentPlace.positional.inj heq))
  · exact List.pairwise_map.mpr (List.nodup_range.imp fun h heq => h (ArgumentPlace.named.inj heq))
  · intro a ha b hb
    obtain ⟨_, -, rfl⟩ := List.mem_map.mp ha
    obtain ⟨_, -, rfl⟩ := List.mem_map.mp hb
    exact nofun

/-- The expressions of all places are those of the invocation. -/
theorem filterMap_places (i : Invocation) :
    i.places.filterMap i.argumentAt? = i.params ++ i.values := by
  have hrange (es : List Expression) :
      (List.range es.length).filterMap (fun index => es[index]?) = es := by
    induction es with
    | nil => rfl
    | cons e es ih =>
      rw [List.length_cons, List.range_succ_eq_map, List.filterMap_cons, List.filterMap_map]
      exact congrArg (e :: ·) ih
  rw [places, List.filterMap_append, List.filterMap_map, List.filterMap_map]
  rw [show i.argumentAt? ∘ ArgumentPlace.positional = fun index => i.params[index]? from rfl,
    show i.argumentAt? ∘ ArgumentPlace.named = fun index => i.values[index]? from rfl,
    hrange, hrange]

/-- The argument that a symbol stands for is the one at its place. -/
theorem argument_placeOf? {i : Invocation} {symbol other bare : String}
    (h : SymbolRole.ofSymbol symbol = .argument other bare) :
    (i.placeOf? symbol).bind i.argumentAt? =
      i.hash.bind fun hash => hash.get? (if i.synthetic then bare else other) := by
  unfold placeOf?
  simp only [h]
  cases hhash : i.hash with
  | none => rfl
  | some hash =>
    have hvalues : i.values = hash.values := by rw [values, hhash]
    simp only [Option.bind_some, HashOf.get?, hvalues]
    cases hash.names.idxOf? (if i.synthetic then bare else other) with
    | none => rfl
    | some index =>
      simp only [Option.bind_some]
      split
      · simp [argumentAt?, hvalues]
      · rename_i hindex
        exact (List.getElem?_eq_none (Nat.le_of_not_lt hindex)).symm

/-- At the place of a symbol there is an argument. -/
theorem exists_argument {i : Invocation} {symbol : String} {place : ArgumentPlace}
    (h : i.placeOf? symbol = some place) : ∃ e, i.argumentAt? place = some e := by
  unfold placeOf? at h
  split at h
  · obtain ⟨index, -, h⟩ := Option.bind_eq_some_iff.mp h
    split at h
    · rename_i hindex
      cases h
      exact ⟨_, List.getElem?_eq_getElem hindex⟩
    · cases h
  · cases h

theorem ofSymbol_of_blockOf? {i : Invocation} {symbol : String} {block : Option Fragment}
    (h : i.blockOf? symbol = some block) : SymbolRole.ofSymbol symbol = .block symbol := by
  unfold blockOf? at h
  split at h
  · rename_i hsymbol
    exact hsymbol ▸ rfl
  · split at h
    · rename_i hsymbol
      exact hsymbol ▸ rfl
    · split at h
      · rename_i hsymbol
        exact hsymbol ▸ rfl
      · cases h

theorem placeOf?_of_blockOf? {i : Invocation} {symbol : String} {block : Option Fragment}
    (h : i.blockOf? symbol = some block) : i.placeOf? symbol = none := by
  rw [placeOf?, ofSymbol_of_blockOf? h]

end Invocation

/-! ### Evaluation -/

namespace Walk

variable {s : Scene} {p : Site} {i : Invocation}

/-- Evaluates the arguments at places, one after the other. -/
def evaluate (s : Scene) (p : Site) (i : Invocation) (places : List ArgumentPlace) :
    Walk (List Reference) :=
  expressions s p (places.filterMap i.argumentAt?)

theorem expressions_append (s : Scene) (p : Site) (first second : List Expression) :
    expressions s p (first ++ second) =
      (do return (← expressions s p first) ++ (← expressions s p second)) := by
  induction first with
  | nil => simp [expressions]
  | cons e first ih => simp [expressions, ih, bind_assoc]

/-- Walks that go on alike from the results there can be are alike. -/
theorem Gives.bind_congr {α β : Type} {P : α → Prop} {x : Walk α} {f g : α → Walk β}
    (hx : x.Gives P) (hfg : ∀ a, P a → f a = g a) : x >>= f = x >>= g := by
  funext w
  rw [bind_apply, bind_apply]
  cases hxw : x w with
  | ok a w' => exact congrFun (hfg a (hx w a w' hxw)) w'
  | error e w' => rfl

/-- Arguments are the values of all places. -/
theorem args_eq_evaluate (s : Scene) (p : Site) (i : Invocation) :
    args s p i.params i.hash = (do return i.gather (← evaluate s p i i.places)) := by
  have hnamed : namedValues s p i.hash =
      (do return (i.hash.elim [] HashOf.names, ← expressions s p i.values)) := by
    unfold Invocation.values
    cases i.hash with
    | none => simp [namedValues, expressions]
    | some hash => simp [namedValues]
  unfold evaluate args
  rw [Invocation.filterMap_places, expressions_append, hnamed]
  simp only [bind_assoc, pure_bind]
  refine (expressions_length s p i.params).bind_congr fun positional hlength =>
    bind_congr fun named => ?_
  rw [Invocation.gather, ← hlength, List.take_left, List.drop_left]

/-- What the symbols from a slot on are bound to, the last first, before others, from the values of
the arguments that they stand for. -/
def boundTo (p : Site) (i : Invocation) : List Reference → List (UInt32 × Binding) →
    UInt32 → List String → List (UInt32 × Binding)
  | _, bound, _, [] => bound
  | values, bound, slot, symbol :: rest =>
    match i.blockOf? symbol, i.placeOf? symbol, values with
    | some block, _, values => boundTo p i values ((slot, passed p block) :: bound) (slot + 1) rest
    | none, some _, value :: values =>
      boundTo p i values ((slot, .value value) :: bound) (slot + 1) rest
    | none, _, values => boundTo p i values bound (slot + 1) rest

theorem evaluate_cons {place : ArgumentPlace} {e : Expression} (h : i.argumentAt? place = some e)
    (places : List ArgumentPlace) :
    evaluate s p i (place :: places) =
      (do let value ← expression s p e; return value :: (← evaluate s p i places)) := by
  rw [evaluate, List.filterMap_cons_some h, expressions]
  rfl

/-- What a symbol is bound to, from the value of the argument that it stands for. -/
theorem symbolBinding_eq {symbol : String} (h : Compilable.symbol s.lookup p.referer i symbol) :
    symbolBinding s p i symbol =
      match i.blockOf? symbol, (i.placeOf? symbol).bind i.argumentAt? with
      | some block, _ => return some (passed p block)
      | none, some e => do return some (.value (← expression s p e))
      | none, none => return none := by
  unfold Compilable.symbol at h
  unfold symbolBinding
  cases hblock : i.blockOf? symbol with
  | some block =>
    simp only [Invocation.ofSymbol_of_blockOf? hblock, hblock, orUndefined_some]
  | none =>
    cases hrole : SymbolRole.ofSymbol symbol with
    | block other =>
      obtain rfl := SymbolRole.eq_of_ofSymbol_block hrole
      simp [hrole, hblock] at h
    | argument other bare =>
      rw [Invocation.argument_placeOf? hrole]
      simp only
      cases i.hash.bind fun hash => hash.get? (if i.synthetic then bare else other) <;> rfl
    | inner =>
      rw [Invocation.placeOf?, hrole]
      rfl

/-- The symbols of a layout that stand for arguments have them evaluated, one after the other. -/
theorem symbolBindings_eq_evaluate {symbols : List String}
    (h : symbols.all (Compilable.symbol s.lookup p.referer i)) (bound : List (UInt32 × Binding))
    (slot : UInt32) : symbolBindings s p i bound slot symbols =
      (do return boundTo p i (← evaluate s p i (i.declared symbols)) bound slot symbols) := by
  induction symbols generalizing bound slot with
  | nil => simp [symbolBindings, evaluate, Invocation.declared, expressions, boundTo]
  | cons symbol symbols ih =>
    rw [List.all_cons, Bool.and_eq_true] at h
    have ih := ih h.2
    unfold Invocation.declared at ih ⊢
    rw [symbolBindings, symbolBinding_eq h.1, List.filterMap_cons]
    cases hblock : i.blockOf? symbol with
    | some block =>
      simp only [Invocation.placeOf?_of_blockOf? hblock, pure_bind, ih, boundTo, hblock]
    | none =>
      cases hplace : i.placeOf? symbol with
      | none => simp only [Option.bind_none, pure_bind, ih, boundTo, hblock, hplace]
      | some place =>
        obtain ⟨e, he⟩ := Invocation.exists_argument hplace
        simp only [Option.bind_some, he, bind_assoc, pure_bind, ih, evaluate_cons he, boundTo,
          hblock, hplace]

end Walk

/-! ### Plans -/

/-- How an invocation goes about its arguments. -/
structure InvocationPlan where
  /-- The layout, if it is known beforehand. -/
  layout : Option Fragment
  /-- All arguments are evaluated before the instance is created. -/
  gathers : Bool
  /-- The slots of the layout are bound one after the other, each
  argument evaluated for its slot. -/
  binds : Bool
  /-- The arguments that are evaluated after the instance is created. -/
  after : List ArgumentPlace

namespace InvocationPlan

/-- The plan of the general form. -/
def general (layout : Option Fragment) : InvocationPlan :=
  { layout, gathers := true, binds := false, after := [] }

/-- The arguments that are evaluated before the instance is created. -/
def before (plan : InvocationPlan) (i : Invocation) : List ArgumentPlace :=
  if plan.gathers then i.places else []

/-- The places of the arguments that an invocation evaluates, in order, as
often as it evaluates each. -/
def evaluated (plan : InvocationPlan) (i : Invocation) : List ArgumentPlace :=
  plan.before i ++ plan.after

/-- An argument is evaluated once if all are gathered, and once more for each
symbol that stands for it. -/
theorem count_evaluated (plan : InvocationPlan) (i : Invocation) (place : ArgumentPlace) :
    (plan.evaluated i).count place =
      (if plan.gathers = true ∧ place ∈ i.places then 1 else 0) + plan.after.count place := by
  unfold evaluated before
  rw [List.count_append]
  cases plan.gathers with
  | false => simp
  | true =>
    by_cases hplace : place ∈ i.places
    · simp [hplace, i.nodup_places.count]
    · simp [hplace, List.count_eq_zero.mpr hplace]

/-- In the general form every argument is evaluated once. -/
theorem nodup_general (layout : Option Fragment) (i : Invocation) :
    ((general layout).evaluated i).Nodup := by
  simpa [evaluated, before, general] using i.nodup_places

/-- No argument is evaluated twice if those that are gathered are not evaluated for slots, and no
two symbols stand for one argument. -/
theorem nodup_evaluated {plan : InvocationPlan} (i : Invocation)
    (hgathers : plan.gathers = true → plan.after = []) (hafter : plan.after.Nodup) :
    (plan.evaluated i).Nodup := by
  unfold evaluated before
  cases hplan : plan.gathers with
  | false => simpa using hafter
  | true => simpa [hgathers hplan] using i.nodup_places

end InvocationPlan

/-- The plan where the layout is known, or where it is not. -/
def InvocationPlan.ofLayout (capabilities : Capabilities) (layout : Option Fragment)
    (i : Invocation) : InvocationPlan :=
  match layout.bind fun f => f.table.asProgram? with
  | some table =>
    if table.hasEval || capabilities.prepareArgs then .general layout
    else { layout, gathers := capabilities.createArgs, binds := true,
           after := i.declared table.symbols }
  | none => .general layout

/-- The plan for the component of a handle. -/
def Lookup.plan (l : Lookup) (handle : UInt32) (i : Invocation) : InvocationPlan :=
  .ofLayout (l.capabilities handle)
    (if (l.capabilities handle).dynamicLayout then none else l.layout? handle) i

namespace Walk

variable {s : Scene} {p : Site} {i : Invocation}

/-- Enters the layout of an invocation with the values of its arguments. -/
def enterPlanned (s : Scene) (p : Site) (plan : InvocationPlan) (c : ComponentState)
    (i : Invocation) (before : List Reference) (created : Current × Reference)
    (after : List Reference) : Walk Entry :=
  match plan.layout.or (s.lookup.layout? c.definition) with
  | none => fail (.unknownComponent c.name)
  | some layout => do
    let table ← orUndefined layout.table.asProgram?
    enterLayout s layout
      (if plan.binds then
        Slots.empty.bindAll (boundTo p i after [(0, .value created.2)] 1 table.symbols)
      else layoutSlots p i created.2 (merged c (i.gather before)) table.symbols)
      created.1

/-- Invokes a component as planned. -/
def followPlan (s : Scene) (p : Site) (call : Call) (plan : InvocationPlan) (c : ComponentState)
    (i : Invocation) : Walk Unit := do
  let before ← evaluate s p i (plan.before i)
  let created ← instantiate s c
    (asked c (if plan.gathers then some (merged c (i.gather before)) else none) i)
  let after ← evaluate s p i plan.after
  renderLayout call (← enterPlanned s p plan c i before created after)

theorem evaluate_nil : evaluate s p i [] = pure [] := rfl

theorem genericComponent_follows (call : Call) (c : ComponentState) (layout : Option Fragment) :
    genericComponent s p call c i layout = followPlan s p call (.general layout) c i := by
  unfold genericComponent genericEntry followPlan enterPlanned
  simp only [args_eq_evaluate, bind_assoc, pure_bind, InvocationPlan.general, InvocationPlan.before,
    evaluate_nil, if_true]
  rfl

theorem boundComponent_follows (call : Call) (createArgs : Bool) {layout : Fragment}
    {table : ProgramTable} {c : ComponentState} (hc : c.curried = none)
    (htable : layout.table.asProgram? = some table)
    (h : table.symbols.all (Compilable.symbol s.lookup p.referer i)) :
    (do renderLayout call (← boundEntry s p createArgs layout table c i) : Walk Unit) =
      followPlan s p call
        { layout := some layout, gathers := createArgs, binds := true,
          after := i.declared table.symbols } c i := by
  have hmerged (given : Arguments) : merged c given = given := by rw [merged, hc]
  unfold boundEntry followPlan enterPlanned argsIf
  cases createArgs <;>
    simp [args_eq_evaluate, symbolBindings_eq_evaluate h, bind_assoc, InvocationPlan.before,
      evaluate_nil, hmerged, htable, orUndefined]

/-- An invocation evaluates the arguments of its plan, in this order, and no others: at its place,
each is evaluated as often as it occurs in the plan. -/
theorem component_follows (call : Call) {handle : UInt32}
    (h : Compilable.component s.lookup p.referer handle i) :
    component s p call handle i = (do
      let c ← componentState s handle none
      followPlan s p call (s.lookup.plan handle i) c i) := by
  have hcurried : (componentState s handle none).Gives fun c => c.curried = none := by
    unfold componentState
    split
    · exact .pure rfl
    · exact .fail _
  unfold component
  refine hcurried.bind_congr fun c hc => ?_
  unfold Compilable.component at h
  unfold Lookup.plan
  generalize (if (s.lookup.capabilities handle).dynamicLayout then
    none else s.lookup.layout? handle) = layout at h ⊢
  cases layout with
  | none => exact genericComponent_follows call c none
  | some layout =>
    unfold Compilable.staticComponent at h
    unfold InvocationPlan.ofLayout
    cases htable : layout.table.asProgram? with
    | none => simp [htable] at h
    | some table =>
      simp only [htable, Option.bind_some, staticComponent, orUndefined_some] at h ⊢
      split
      · exact genericComponent_follows call c (some layout)
      · rename_i hknown
        rw [if_neg hknown, Bool.and_eq_true] at h
        exact boundComponent_follows call _ hc htable h.2

theorem dynamicComponent_follows (s : Scene) (p : Site) (call : Call) (definition : Reference)
    (i : Invocation) :
    dynamicComponent s p call definition i = (do
      let c ← dynamicState s p.referer definition
      followPlan s p call (.general none) c i) := by
  unfold dynamicComponent
  exact bind_congr fun c => genericComponent_follows call c none

end Walk

end TemplateMachine
