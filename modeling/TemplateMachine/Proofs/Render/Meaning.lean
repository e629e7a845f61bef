import TemplateMachine.Proofs.Plain.Statement
import TemplateMachine.Proofs.Render.Outcome

/-! What compiled templates mean where nothing is a component: a render of the entry comes to what
plain rendering of the templates comes to, with both strategies, unless its stack is too small. -/

namespace TemplateMachine

namespace Layout

/-- The template as a whole, and its nested blocks. -/
def bodies (layout : Layout) : List Fragment :=
  .ofLayout .entry layout :: layout.template.blocks.map (.ofBlock .entry layout)

theorem of_mem_bodies {layout : Layout} {f : Fragment} (h : f ∈ layout.bodies) :
    f.layout = layout ∧ f.id = .entry ∧ f.attrMode = .element := by
  rcases List.mem_cons.mp h with rfl | h
  · exact ⟨rfl, rfl, rfl⟩
  · obtain ⟨block, -, rfl⟩ := List.mem_map.mp h
    exact ⟨rfl, rfl, rfl⟩

theorem block_mem_bodies {layout : Layout} {i : Nat} {f : Fragment} (h : layout.block? i = some f) :
    f ∈ layout.bodies := by
  obtain ⟨block, hblock, rfl⟩ := Option.map_eq_some_iff.mp h
  exact List.mem_cons_of_mem _ (List.mem_map_of_mem (List.mem_of_getElem? hblock))

theorem regular_of_mem_bodies {layout : Layout} {f : Fragment} (h : f ∈ layout.bodies) :
    f.Regular := by
  rcases List.mem_cons.mp h with rfl | h
  · exact .whole _ _ nofun
  · obtain ⟨block, hblock, rfl⟩ := List.mem_map.mp h
    exact .block _ _ hblock

end Layout

namespace Request

/-- The entry template and the partials, with their names. -/
def layouts (q : Request) : List Layout :=
  ⟨q.template, q.referer⟩ :: q.registry.partials.toList.map fun part => ⟨part.2, part.1⟩

/-- All templates and nested blocks. -/
def bodies (q : Request) : List Fragment := q.layouts.flatMap Layout.bodies

/-- Nothing is a component: no name stands for one, and no helper gives one. -/
structure ComponentFree (q : Request) : Prop where
  unnamed : ∀ name, q.registry.componentNamed? name = none
  unknown : ∀ name referer, q.host.componentNamed? name referer = none
  absent : ∀ handle, q.host.component? handle = none
  data : ∀ handle helper history cells args d, q.host.helper? handle = some helper →
    helper history cells args = .ok d → d.isComponent = false

/-- The fragment can be compiled by itself, into a program that is not too large. -/
def Compiles (q : Request) (f : Fragment) : Prop :=
  ∃ handle program, (q.setup .lazy 0).options.compile f {} = .ok handle program ∧ program.Fits

/-- What is rendered, by recursion on the templates. -/
def plain (q : Request) (depth : Nat) : EStateM.Result (Stop RuntimeError) Page Unit :=
  Plain.fragment q.scene depth q.entry (.ofSelf (.root 0)) {}

end Request

/-- An error that stands for a fault of a walk, when that stands for an error, is that error. -/
theorem Stop.eq_of_fault? {e : Stop RuntimeError} {e' : RuntimeError} {fault : Fault}
    (he : e.fault? = some fault) (hfault : fault.error? = some e') : e = .fault e' := by
  cases e with
  | outOfFuel =>
    cases he
    cases hfault
  | fault e =>
    cases e <;> cases he <;> cases hfault <;> rfl

/-- The render comes to the outcome of plain rendering: the markup, without instances to be
destroyed, or the error, after the same calls of the host. -/
structure Render.Shows (r : Render)
    (out : EStateM.Result (Stop RuntimeError) Page Unit) : Prop where
  result : r.result =
    match out with
    | .ok _ g => .ok ⟨g.sink.output, []⟩
    | .error e _ => .error e
  events : r.events =
    match out with
    | .ok _ g => g.events.toList
    | .error _ g => g.events.toList

namespace Request

variable {q : Request} {strategy : Strategy} {maxStack : Nat} {handle : UInt32} {program : Program}

theorem ComponentFree.scene (h : q.ComponentFree) (hq : q.WellFormed) : q.scene.ComponentFree where
  unnamed name _ := h.unnamed name
  unknown := h.unknown
  data := h.data
  helper _ _ handle hhandle := hq.host.helper handle (Registry.handleOf_lt hhandle)
  modifier _ _ handle hhandle := hq.host.modifier handle (Registry.handleOf_lt hhandle)

theorem entry_mem_bodies (q : Request) : q.entry ∈ q.bodies :=
  List.mem_flatMap.mpr ⟨_, List.mem_cons_self .., List.mem_cons_self ..⟩

/-- References stay among the templates of the request. -/
theorem mem_bodies_of_reaches {f : Fragment} (h : q.registry.lookup.Reaches q.entry f) :
    f ∈ q.bodies := by
  induction h with
  | refl => exact q.entry_mem_bodies
  | @tail f g _ hg ih =>
    obtain ⟨layout, hlayout, hf⟩ := List.mem_flatMap.mp ih
    obtain ⟨rfl, -, -⟩ := Layout.of_mem_bodies hf
    rcases Statement.mem_allReferences f.statements hg with ⟨i, hi⟩ | ⟨part, g, hpart, rfl⟩
    · exact List.mem_flatMap.mpr ⟨f.layout, hlayout, Layout.block_mem_bodies hi⟩
    · obtain ⟨entry, hentry, rfl⟩ := Option.map_eq_some_iff.mp hpart
      refine List.mem_flatMap.mpr
        ⟨⟨entry.2, entry.1⟩, List.mem_cons_of_mem _ ?_, List.mem_cons_self ..⟩
      exact List.mem_map_of_mem (Array.mem_toList_iff.mpr (Array.mem_of_getElem? hentry))

theorem of_mem_bodies {f : Fragment} (h : f ∈ q.bodies) :
    f.Regular ∧ f.id = .entry ∧ f.attrMode = .element := by
  obtain ⟨layout, -, hf⟩ := List.mem_flatMap.mp h
  exact ⟨Layout.regular_of_mem_bodies hf, (Layout.of_mem_bodies hf).2⟩

/-- What can be compiled is as compilation asks. -/
theorem Compiles.isCompilable {f : Fragment} (hf : f.Regular) (hid : f.id = .entry)
    (h : q.Compiles f) : f.isCompilable q.registry.lookup := by
  obtain ⟨handle, program, hcompile, hfits⟩ := h
  have hcoherent := q.registry.coherent
  have hsound : (Linkage.start q.registry.lookup f).Sound q.registry.lookup .lazy [] :=
    Linkage.sound_start hcoherent hid hf
  have hknown : (Linkage.start q.registry.lookup f).known f.id = some f := by
    rw [hid]
    rfl
  obtain ⟨_, -, -, -, hcompiled⟩ :=
    CompileOptions.compile_sound hcoherent hsound hknown hcompile hfits
  exact hcompiled.isCompilable

/-- Without components there is nothing that a render would have to link and could not. -/
theorem ComponentFree.overflows (h : q.ComponentFree) {e : Stop RuntimeError} {r : Render}
    (hr : r.result = .error e) (hallows : (q.setup strategy maxStack).Allows e) : r.Overflows := by
  have hnone : ¬ ∃ handle d, q.host.component? handle = some d := by
    rintro ⟨handle, d, hd⟩
    rw [h.absent] at hd
    cases hd
  cases e with
  | outOfFuel => exact absurd hallows.2 hnone
  | fault e =>
    cases e <;> first | exact ⟨_, _, hr⟩ | exact absurd hallows.2 hnone | exact hallows.elim

/-- A compiled entry comes to the outcome of plain rendering, which has one if it is let go as deep
as there are templates and nested blocks. -/
theorem Compiled.renders_plain (h : q.Compiled strategy maxStack q.entry handle program)
    (hfree : q.ComponentFree) (hacyclic : q.registry.lookup.AcyclicFrom q.entry)
    (hcompiles : ∀ f, q.registry.lookup.Reaches q.entry f → q.Compiles f) {depth : Nat}
    (hdepth : q.bodies.length ≤ depth) :
    (∀ g, q.plain depth ≠ .error .outOfFuel g) ∧ ∃ steps, ∀ fuel, steps ≤ fuel →
      (q.render strategy maxStack fuel program handle).Overflows ∨
        (q.render strategy maxStack fuel program handle).Shows (q.plain depth) := by
  have hplain : ∀ f, q.registry.lookup.Reaches q.entry f →
      f.IsPlain q.registry.lookup ∧ f ∈ q.bodies := by
    intro f hf
    have hmem := mem_bodies_of_reaches hf
    obtain ⟨hregular, hid, hmode⟩ := of_mem_bodies hmem
    exact ⟨⟨hmode, (hcompiles f hf).isCompilable hregular hid⟩, hmem⟩
  have hstart : Slots.start.Shows q.scene.cells (.ofSelf (.root 0)) :=
    (Slots.shows_empty q.scene.cells).bindValue 0 rfl
  have hfollows := Walk.mirrors_of_acyclic (hfree.scene h.wellFormed) hplain hacyclic
    hdepth _ _ hstart {}
  obtain ⟨steps, hsteps⟩ := h.comes depth
  have hrender : Walk.render q.scene depth q.entry {} =
    Walk.call q.scene depth q.entry Slots.start none {} := rfl
  unfold plain
  rw [show ({} : World).page = {} from rfl] at hfollows
  cases hout : Plain.fragment q.scene depth q.entry (.ofSelf (.root 0)) {} with
  | ok u g =>
    rw [hout] at hfollows
    refine ⟨nofun, steps, fun fuel hfuel => ?_⟩
    rcases hsteps fuel hfuel with ⟨e, he, hallows⟩ | hmatches
    · exact .inl (hfree.overflows he hallows)
    · rw [hrender, hfollows.2] at hmatches
      exact .inr ⟨hmatches.1, hmatches.2⟩
  | error e g =>
    rw [hout] at hfollows
    cases e with
    | outOfFuel => exact hfollows.elim
    | fault e =>
      obtain ⟨fault, hfault, hwalk⟩ := hfollows
      refine ⟨nofun, steps, fun fuel hfuel => ?_⟩
      rcases hsteps fuel hfuel with ⟨e', he, hallows⟩ | hmatches
      · exact .inl (hfree.overflows he hallows)
      · rw [hrender, hwalk] at hmatches
        obtain ⟨⟨e', he, hfault'⟩, hevents⟩ := hmatches
        rw [Stop.eq_of_fault? hfault' hfault] at he
        refine .inr ⟨he, hevents.trans ?_⟩
        exact List.append_nil _

/-! ### Plain requests, by computation -/

/-- References lead from longer to shorter fragments, so they do not come back. -/
theorem acyclicFrom_of_shorter (h : ∀ f ∈ q.bodies, ∀ g ∈ f.references q.registry.lookup,
    g.statements.length < f.statements.length) : q.registry.lookup.AcyclicFrom q.entry := by
  have hbelow : ∀ f g, q.registry.lookup.Reaches q.entry f →
      Relation.TransGen q.registry.lookup.Refers f g → g.statements.length <
        f.statements.length := by
    intro f g hf hfg
    induction hfg with
    | single hg => exact h f (mem_bodies_of_reaches hf) _ hg
    | tail hg hlast ih =>
      exact Nat.lt_trans (h _ (mem_bodies_of_reaches (hf.trans hg.to_reflTransGen)) _ hlast) ih
  exact fun f hf hcycle => Nat.lt_irrefl _ (hbelow f f hf hcycle)

/-- Whether a fragment can be compiled by itself. -/
def compilesAlone (q : Request) (f : Fragment) : Bool :=
  match (q.setup .lazy 0).options.compile f {} with
  | .ok _ program => decide program.Fits
  | .error .. => false

theorem compiles_of_alone (h : q.bodies.all q.compilesAlone) {f : Fragment}
    (hf : q.registry.lookup.Reaches q.entry f) : q.Compiles f := by
  have halone := List.all_eq_true.mp h f (mem_bodies_of_reaches hf)
  unfold compilesAlone at halone
  split at halone
  · rename_i handle program hcompile
    exact ⟨handle, program, hcompile, of_decide_eq_true halone⟩
  · cases halone

/-- A template that lists items and ends with a partial. -/
def listing : Request :=
  let registry : Registry :=
    { partials := #[("end", { statements := [.text "."], symbols := [], hasEval := false,
                              blocks := [] })] }
  { registry
    host := registry.host
    template :=
      { statements := [
          .block "each" (some [.get 0 []]) none (some 0) none,
          .append (.helper "partial" (some [.value (.str "end")]) none) false]
        symbols := ["item"]
        hasEval := false
        blocks := [⟨[.append (.get 1 []) false], [1]⟩] }
    referer := "main"
    self := .arr [.str "<"] }

theorem listing_wellFormed : listing.WellFormed where
  registry := by
    refine ⟨fun c hc => absurd (Array.mem_toList_iff.mpr hc) List.not_mem_nil, fun p hp => ?_⟩
    obtain rfl := List.mem_singleton.mp (Array.mem_toList_iff.mpr hp)
    rfl
  template := rfl
  host := Registry.host_backs _

theorem listing_componentFree : listing.ComponentFree where
  unnamed _ := by simp [listing, Registry.componentNamed?, Registry.handleOf]
  unknown _ _ := by simp [listing, Registry.host, Registry.componentNamed?, Registry.handleOf]
  absent _ := rfl
  data handle helper history cells args d h := by
    cases h

set_option maxRecDepth 100000 in
theorem listing_halts : listing.haltsSmall .eager 100 100 0 := by decide +kernel

theorem listing_renders_plain : ∃ handle program,
    listing.Compiled .eager 100 listing.entry handle program ∧ listing.bodies.length ≤ 3 ∧
    ∃ steps, ∀ fuel, steps ≤ fuel →
      (listing.render .eager 100 fuel program handle).Shows (listing.plain 3) := by
  obtain ⟨handle, program, hcompile, h⟩ :=
    listing_wellFormed.compiled (staysSmall_of_haltsSmall listing_halts)
  obtain ⟨rendered, hr⟩ := renders_of_haltsSmall listing_halts hcompile
  have hacyclic : listing.registry.lookup.AcyclicFrom listing.entry :=
    acyclicFrom_of_shorter (by decide +kernel)
  have hcompiles : listing.bodies.all listing.compilesAlone := by decide +kernel
  have hdepth : listing.bodies.length ≤ 3 := by decide
  obtain ⟨-, steps, hsteps⟩ := h.renders_plain listing_componentFree hacyclic
    (fun _ => compiles_of_alone hcompiles) hdepth
  exact ⟨handle, program, h, hdepth, steps,
    fun fuel hfuel => (hsteps fuel hfuel).resolve_left (not_overflows hr fuel)⟩

end Request

end TemplateMachine
