import TemplateMachine.Proofs.Render.Request
import TemplateMachine.Proofs.Walk.Argument

/-! Components that are given arguments step by step, as values, before they are invoked.  Each step
adds its arguments to those of the steps before, and the invocation adds its own in the end. -/

namespace TemplateMachine

/-! ### Steps -/

section

variable {setup : Setup} {cells : Cells} {referer : String} {r r' : Reference} {definition : UInt32}
variable {inner : Option Arguments} {given : Arguments}

/-- A value that can be invoked: a component with arguments, or the name of one. -/
inductive Setup.Denotes (setup : Setup) (cells : Cells) (referer : String) :
    Reference → UInt32 → Option Arguments → Prop
  | component {r : Reference} {definition : UInt32} {args : Arguments}
    (h : r.value cells = .component definition args) :
    Denotes setup cells referer r definition (some args)
  | named {r : Reference} {name : String} {definition : UInt32}
    (h : r.value cells = .data (.str name))
    (hname : setup.host.componentNamed? name referer = some definition) :
    Denotes setup cells referer r definition none

/-- Whatever machine gives arguments to `r`, with both on its stack, has `r'` there instead. -/
def Setup.Curries (setup : Setup) (cells : Cells) (referer : String) (r : Reference)
    (given : Arguments) (r' : Reference) : Prop :=
  ∀ (m : Machine) (stack : Array Value) (index : UInt32), m.cells = cells →
    m.program.constants.referers.get? index = some referer →
    m.stack = (stack.push (.ref r)).push (.args given) →
    Exec.curry index setup m = .ok () { m with stack := stack.push (.ref r') }

/-- Steps that give arguments to a value, each in the template of a referer. -/
inductive Setup.Chain (setup : Setup) (cells : Cells) :
    Reference → List (String × Arguments) → Reference → Prop
  | nil (r : Reference) : Chain setup cells r [] r
  | cons {r r₁ r' : Reference} {referer : String} {given : Arguments}
    {steps : List (String × Arguments)} (hstep : setup.Curries cells referer r given r₁)
    (hrest : Chain setup cells r₁ steps r') : Chain setup cells r ((referer, given) :: steps) r'

open Exec (bind_apply pure_apply get_apply read_apply modify_apply orFail_some)

theorem Exec.popArgs_apply {m : Machine} {stack : Array Value}
    (h : m.stack = stack.push (.args given)) :
    Exec.popArgs setup m = .ok given { m with stack } := by
  simp only [Exec.popArgs, Exec.pop, bind_apply, get_apply, h, Array.back?_push, modify_apply,
    Array.pop_push, pure_apply]

theorem Exec.popDatum_apply {m : Machine} {stack : Array Value} (hcells : m.cells = cells)
    (h : m.stack = stack.push (.ref r)) :
    Exec.popDatum setup m = .ok (r.value cells) { m with stack } := by
  simp only [Exec.popDatum, Exec.popRef, Exec.pop, bind_apply, get_apply, h,
    Array.back?_push, modify_apply, Array.pop_push, pure_apply, hcells]

theorem Exec.refererConstant_apply {m : Machine} {index : UInt32}
    (h : m.program.constants.referers.get? index = some referer) :
    Exec.refererConstant index setup m = .ok referer m := by
  simp only [Exec.refererConstant, Exec.constant, bind_apply, get_apply, h, orFail_some]

/-- The arguments that a step gives come after those that the value has. -/
theorem Setup.Denotes.curries (h : setup.Denotes cells referer r definition inner)
    (hgiven : given.IsDistinct) :
    setup.Curries cells referer r given
      (.const (.component definition ((inner.getD {}).merge given))) := by
  intro m stack index hcells hreferer hstack
  have hdatum : Exec.popDatum setup { m with stack := stack.push (.ref r) } =
      .ok (r.value cells) { m with stack } := Exec.popDatum_apply hcells rfl
  simp only [Exec.curry, bind_apply, Exec.refererConstant_apply hreferer, Exec.popArgs_apply hstack,
    hdatum]
  cases h with
  | component h =>
    rw [h]
    rfl
  | named h hname =>
    simp only [h, bind_apply, Exec.componentNamed, read_apply, hname, orFail_some, Option.getD_none,
      ArgumentsOf.empty_merge hgiven]
    rfl

/-- A value that is given arguments step by step is a component with the arguments of all steps. -/
theorem Setup.Denotes.chain {first : String × Arguments} {steps : List (String × Arguments)}
    (h : setup.Denotes cells first.1 r definition inner)
    (hsteps : ∀ step ∈ first :: steps, step.2.IsDistinct) :
    setup.Chain cells r (first :: steps)
      (.const (.component definition
        ((inner.getD {}).mergeAll ((first :: steps).map Prod.snd)))) := by
  induction steps generalizing first r inner with
  | nil => exact .cons (h.curries (hsteps first List.mem_cons_self)) (.nil _)
  | cons next steps ih =>
    exact .cons (h.curries (hsteps first List.mem_cons_self))
      (ih (.component rfl) fun step hstep => hsteps step (List.mem_cons_of_mem _ hstep))

/-! ### The invocation -/

namespace Walk

variable {p : Site} {i : Invocation}

/-- A layout is entered below an instance that was created from arguments, if it asks for them, and
whose slots they fill. -/
def entryOf (s : Scene) (p : Site) (c : ComponentState) (i : Invocation)
    (all : Arguments) : Walk Entry := do
  let (current, self) ← instantiate s c (asked c (some all) i)
  match s.lookup.layout? c.definition with
  | none => fail (.unknownComponent c.name)
  | some layout =>
    let table ← orUndefined layout.table.asProgram?
    enterLayout s layout (layoutSlots p i self all table.symbols) current

theorem genericEntry_of_args {s : Scene} {c : ComponentState} {own : Arguments} {w w₁ : World}
    (h : Walk.args s p i.params i.hash w = .ok own w₁) :
    genericEntry s p c i none w = entryOf s p c i (merged c own) w₁ := by
  unfold genericEntry
  rw [bind_apply, h]
  rfl

end Walk

/-- A component to be invoked, with the arguments that come with it. -/
def ComponentState.found (definition : UInt32) (d : ComponentDefinition)
    (curried : Option Arguments) : ComponentState :=
  { definition, name := d.name, capabilities := d.capabilities, manager := d.manager, curried }

theorem Walk.merged_found {d : ComponentDefinition} {own : Arguments} (hown : own.IsDistinct) :
    Walk.merged (.found definition d inner) own = (inner.getD {}).merge own := by
  cases inner with
  | none => exact (ArgumentsOf.empty_merge hown).symm
  | some args => rfl

theorem Setup.Denotes.dynamicState {d : ComponentDefinition}
    (h : setup.Denotes cells referer r definition inner)
    (hd : setup.host.component? definition = some d) :
    Walk.dynamicState (setup.scene cells) referer r = pure (.found definition d inner) := by
  unfold Walk.dynamicState Walk.componentState
  rw [show (setup.scene cells).cells = cells from rfl, show (setup.scene cells).host =
    setup.host from rfl]
  cases h with
  | component h =>
    rw [h]
    simp only [hd]
    rfl
  | named h hname =>
    rw [h]
    simp only [hname, hd]
    rfl

theorem Setup.Denotes.pushDynamicComponent {d : ComponentDefinition} {m : Machine}
    {stack : Array Value} {index : UInt32} (h : setup.Denotes cells referer r definition inner)
    (hd : setup.host.component? definition = some d) (hcells : m.cells = cells)
    (hreferer : m.program.constants.referers.get? index = some referer)
    (hstack : m.stack = stack.push (.ref r)) :
    Exec.pushDynamicComponent index setup m = .ok () { m with
      components := m.components.push (.found definition d inner)
      stack := stack.push (.component m.components.size) } := by
  simp only [Exec.pushDynamicComponent, bind_apply, Exec.refererConstant_apply hreferer,
    Exec.popDatum_apply hcells hstack]
  cases h with
  | component h =>
    simp only [h, Exec.pushComponent, bind_apply, read_apply, hd, orFail_some]
    rfl
  | named h hname =>
    simp only [h, Exec.pushComponent, Exec.componentNamed, bind_apply, read_apply, hname,
      hd, orFail_some]
    rfl

theorem Exec.prepareArgs_apply {m : Machine} {word : UInt32} {number : Nat} {c : ComponentState}
    {stack : Array Value} {own : Arguments}
    (hnumber : Exec.componentNumber word setup m = .ok number m)
    (hc : m.components[number]? = some c) (hstack : m.stack = stack.push (.args own)) :
    ∃ m', Exec.prepareArgs word setup m = .ok () m' ∧ m'.stack = stack.push
      (.args (Walk.merged c own)) := by
  have hstate : Exec.componentState number setup m = .ok c m := by
    simp only [Exec.componentState, bind_apply, get_apply, hc, pure_apply]
  unfold Exec.prepareArgs Walk.merged
  simp only [bind_apply, hnumber, hstate]
  cases c.curried with
  | none => exact ⟨m, rfl, hstack⟩
  | some curried =>
    have hargs : Exec.popArgs setup
        { m with components := m.components.set! number { c with curried := none } } =
          .ok own
            { m with components := m.components.set! number { c with curried := none }, stack } :=
      Exec.popArgs_apply hstack
    simp only [bind_apply, Exec.setComponent, modify_apply, hargs]
    exact ⟨_, rfl, rfl⟩

/-- Whatever machine finds the component of a value, and has it with arguments of its own on its
stack later, has all its arguments there once they are prepared. -/
def Setup.Prepares (setup : Setup) (cells : Cells) (referer : String) (r : Reference)
    (own all : Arguments) : Prop :=
  ∀ (m : Machine) (stack : Array Value) (index : UInt32), m.cells = cells →
    m.program.constants.referers.get? index = some referer → m.stack = stack.push (.ref r) →
    ∃ c, Exec.pushDynamicComponent index setup m = .ok () { m with
        components := m.components.push c, stack := stack.push (.component m.components.size) } ∧
      ∀ (later : Machine) (stack : Array Value) (word : UInt32) (number : Nat),
        Exec.componentNumber word setup later = .ok number later →
        later.components[number]? = some c → later.stack = stack.push (.args own) →
        ∃ m', Exec.prepareArgs word setup later = .ok () m' ∧ m'.stack = stack.push (.args all)

theorem Setup.Denotes.prepares {d : ComponentDefinition} {own : Arguments}
    (h : setup.Denotes cells referer r definition inner)
    (hd : setup.host.component? definition = some d) (hown : own.IsDistinct) :
    setup.Prepares cells referer r own ((inner.getD {}).merge own) := by
  intro m stack index hcells hreferer hstack
  refine ⟨_, h.pushDynamicComponent hd hcells hreferer hstack,
    fun later stack word number hnumber hc hlater => ?_⟩
  obtain ⟨m', hprepare, hm'⟩ := Exec.prepareArgs_apply hnumber hc hlater
  rw [Walk.merged_found hown] at hm'
  exact ⟨m', hprepare, hm'⟩

/-! ### Chains -/

/-- The referer of the first step, or that of the invocation if there is none. -/
def firstReferer (steps : List (String × Arguments)) (p : Site) : String :=
  ((steps.map Prod.fst).head?).getD p.referer

/-- A value that is given arguments step by step can be invoked wherever it is found. -/
theorem Setup.Denotes.chained {p : Site} {steps : List (String × Arguments)}
    (h : setup.Denotes cells (firstReferer steps p) r definition inner)
    (hsteps : ∀ step ∈ steps, step.2.IsDistinct) :
    ∃ r' curried, setup.Chain cells r steps r' ∧
    setup.Denotes cells p.referer r' definition curried ∧
      curried.getD {} = (inner.getD {}).mergeAll (steps.map Prod.snd) := by
  cases steps with
  | nil => exact ⟨r, inner, .nil r, h, rfl⟩
  | cons first steps => exact ⟨_, some _, h.chain hsteps, .component rfl, rfl⟩

/-- Steps that give a component arguments compose.  The instance is created from the arguments of
all steps and of the invocation, and they fill the slots of the layout: positional values follow one
another, and of the values of a name that of the last step counts. -/
theorem Setup.currying_composes {p : Site} {i : Invocation} {steps : List (String × Arguments)}
    {d : ComponentDefinition} (h : setup.Denotes cells (firstReferer steps p) r definition inner)
    (hinner : (inner.getD {}).IsDistinct) (hsteps : ∀ step ∈ steps, step.2.IsDistinct)
    (hhash : ∀ hash, i.hash = some hash → hash.IsDistinct)
    (hd : setup.host.component? definition = some d) :
    (∀ a b c : Arguments, a.IsAligned → b.IsDistinct → (a.merge b).merge c = a.merge (b.merge c)) ∧
    ∃ r' c, setup.Chain cells r steps r' ∧
      c.definition = definition ∧ c.name = d.name ∧ c.capabilities = d.capabilities ∧
      c.manager = d.manager ∧
      ∀ w own w', Walk.args (setup.scene cells) p i.params i.hash w = .ok own w' →
        ∃ all : Arguments, all.Combines (inner.getD {} :: (steps.map Prod.snd ++ [own])) ∧
          setup.Prepares cells p.referer r' own all ∧
          (∀ call, Walk.dynamicComponent (setup.scene cells) p call r' i w =
            (do Walk.renderLayout call (← Walk.entryOf (setup.scene cells) p c i all) :
              Walk Unit) w') ∧
          (d.capabilities.createArgs = true → (Walk.asked c (some all) i).args = some all) ∧
          ∀ (self : Reference) (symbols : List String) (k : Nat) (name : String),
            symbols[k]? = some ("@" ++ name) → 1 + symbols.length < UInt32.size →
            Walk.layoutSlots p i self all symbols (UInt32.ofNat (1 + k)) =
              ((all.named? name).map .value).getD .empty := by
  obtain ⟨r', curried, hchain, hdenotes, hcurried⟩ := h.chained hsteps
  refine ⟨fun _ _ c ha hb => ArgumentsOf.merge_assoc ha hb c,
    r', .found definition d curried, hchain, rfl, rfl, rfl, rfl, fun w own w' hargs => ?_⟩
  have hown : own.IsDistinct := Walk.args_distinct _ _ _ hhash w own w' hargs
  have hall : (curried.getD {}).merge own = (inner.getD {}).mergeAll
      (steps.map Prod.snd ++ [own]) := by
    rw [hcurried, ArgumentsOf.mergeAll_append]
    rfl
  refine ⟨(curried.getD {}).merge own, ?_, hdenotes.prepares hd hown, fun call => ?_,
    fun hcreate => ?_, fun self symbols k name hsymbol hsize =>
    Walk.layoutSlots_argument hsymbol hsize self⟩
  · rw [hall]
    refine hinner.combines fun step hstep => ?_
    rcases List.mem_append.mp hstep with hstep | hstep
    · obtain ⟨step, hmem, rfl⟩ := List.mem_map.mp hstep
      exact hsteps step hmem
    · obtain rfl := List.mem_singleton.mp hstep
      exact hown
  · unfold Walk.dynamicComponent
    rw [hdenotes.dynamicState hd, pure_bind]
    unfold Walk.genericComponent
    rw [Walk.bind_apply, Walk.bind_apply, Walk.genericEntry_of_args hargs, Walk.merged_found hown]
  · exact if_pos hcreate

end

/-- A place in the template of a request, outside of all blocks. -/
def Request.place (q : Request) : Site :=
  { layout := q.entry.layout, slots := .empty, current := none }

/-- A component that is given a title, and then another one with a size, before its size is changed
where it is invoked. -/
theorem Request.boxed_currying_composes :
    let text (s : String) : Reference := .ofJson (.str s)
    let setup := Request.boxed.setup .lazy 100
    let steps : List (String × Arguments) :=
      [("main", ⟨[text "first"], ["title"], [text "a"]⟩),
        ("main", ⟨[], ["title", "size"], [text "b", text "5"]⟩)]
    ∃ r' all, setup.Chain (.single .null) (text "Box") steps r' ∧
      setup.Prepares (.single .null) "main" r' ⟨[], ["size"], [text "6"]⟩ all ∧
      all.positional = [text "first"] ∧ all.named? "title" = some (text "b") ∧
      all.named? "size" = some (text "6") := by
  intro text setup steps
  have hd : ∃ d, setup.host.component? 0 = some d := ⟨_, rfl⟩
  obtain ⟨d, hd⟩ := hd
  have hdenotes : setup.Denotes (.single .null) (firstReferer steps Request.boxed.place)
      (text "Box") 0 none :=
    .named rfl (by decide +kernel)
  obtain ⟨-, r', c, hchain, -, -, -, -, h⟩ := Setup.currying_composes
    (i := { hash := some ⟨["@size"], [.value (.str "6")]⟩ }) hdenotes .empty
    (by
      intro step hstep
      simp only [steps, List.mem_cons, List.not_mem_nil, or_false] at hstep
      rcases hstep with rfl | rfl <;> exact ⟨rfl, by decide⟩)
    (by
      rintro _ ⟨⟩
      exact ⟨rfl, by decide⟩) hd
  obtain ⟨all, hcombines, hprepares, -⟩ := h {} ⟨[], ["size"], [text "6"]⟩ {} rfl
  exact ⟨r', all, hchain, hprepares, hcombines.positional, (hcombines.named _).trans (by rfl),
    (hcombines.named _).trans (by rfl)⟩

end TemplateMachine
