import TemplateMachine.Proofs.Emission.Failure
import TemplateMachine.Proofs.Simulation.Render
import TemplateMachine.Proofs.Verify.Reach

/-! Requests: a template, the registry of what it can name, a host behind that registry, and data.
A host may do anything, as long as it has the helpers and modifiers that are registered. -/

namespace TemplateMachine

/-! ### Constants -/

section

variable {options : CompileOptions} {p q : Program}

theorem Reaches.closed {setup : Setup} {k : Nat} {m m' : Machine} (hr : Reaches setup k m m')
    (hclosed : m.program.constants.Closed) : m'.program.constants.Closed := by
  induction hr with
  | refl => exact hclosed
  | @step k m m' m'' hs _ ih =>
    have hlinks := Exec.lasting_step.links setup m
    rw [hs] at hlinks
    exact ih (hlinks.closed hclosed)

end

/-! ### Requests -/

/-- What is rendered, and with what. -/
structure Request where
  registry : Registry
  host : Host
  template : Template
  referer : String
  self : Json

/-- Behind the handles of helpers and modifiers there are some, whatever they do. -/
structure Host.Backs (host : Host) (r : Registry) : Prop where
  helper : ∀ handle : UInt32, (r.helpers[handle.toNat]?).isSome → (host.helper? handle).isSome
  modifier : ∀ handle : UInt32, (r.modifiers[handle.toNat]?).isSome → (host.modifier? handle).isSome

namespace Request

def setup (q : Request) (strategy : Strategy) (maxStack : Nat) : Setup :=
  ⟨q.registry.options strategy, q.host, maxStack⟩

def entry (q : Request) : Fragment := .ofLayout .entry ⟨q.template, q.referer⟩

/-- Renders a template of the request that was compiled into a program. -/
def render (q : Request) (strategy : Strategy) (maxStack fuel : Nat) (program : Program)
    (handle : UInt32) : Render :=
  (q.setup strategy maxStack).renderWithin fuel program handle q.self

/-- Hashes have as many names as values, and no call has more parameters than can be counted. -/
structure WellFormed (q : Request) : Prop where
  registry : q.registry.WellFormed
  template : q.template.wellFormed
  host : q.host.Backs q.registry

end Request

/-- The machine at the beginning of a render. -/
def Machine.begin (program : Program) (block : Block) (self : Json) : Machine :=
  .start program block.offset.toNat block.scopeSize.toNat self

/-- Throughout a render the program is small enough for the words that hold its addresses and the
indices of its pools. -/
structure Setup.StaysSmall (setup : Setup) (program : Program) (handle : UInt32) (data : Json) :
    Prop where
  fits : program.Fits
  reached : ∀ block, program.heap.block? handle = some block → ∀ k m,
    Reaches setup k (.begin program block data) m → m.program.Fits

/-- A template of a well-formed request is compiled into a program that other
templates of the request may have been compiled into before.  The program stays small
while the template is rendered. -/
structure Request.Compiled (q : Request) (strategy : Strategy) (maxStack : Nat) (f : Fragment)
    (handle : UInt32) (program : Program) : Prop where
  wellFormed : q.WellFormed
  offers : q.registry.lookup.Offers q.entry f
  compiles : ∃ p, (q.setup strategy maxStack).options.Builds q.entry p ∧
    (q.setup strategy maxStack).options.compile f p = .ok handle program
  small : (q.setup strategy maxStack).StaysSmall program handle q.self

theorem Registry.handleOf_lt {α : Type} {nameOf : α → String} {entries : Array α} {name : String}
    {handle : UInt32} (h : handleOf nameOf entries name = some handle) :
    (entries[handle.toNat]?).isSome := by
  obtain ⟨i, hi, rfl⟩ := Option.map_eq_some_iff.mp h
  obtain ⟨hlt, -⟩ := Array.findIdx?_eq_some_iff_getElem.mp hi
  have hle : (UInt32.ofNat i).toNat ≤ i := by
    rw [UInt32.toNat_ofNat']
    exact Nat.mod_le _ _
  rw [Array.getElem?_eq_getElem (Nat.lt_of_le_of_lt hle hlt)]
  rfl

theorem Registry.host_backs (r : Registry) : r.host.Backs r where
  helper handle h := by
    rw [Registry.host, Option.isSome_map]
    exact h
  modifier handle h := by
    rw [Registry.host, Option.isSome_map]
    exact h

namespace Request

variable {q : Request} {strategy : Strategy} {maxStack : Nat} {f : Fragment} {handle : UInt32}
variable {program : Program}

theorem WellFormed.serves (h : q.WellFormed) (strategy : Strategy) (maxStack : Nat) :
    (q.setup strategy maxStack).Serves where
  coherent := q.registry.coherent
  helper _ _ handle hhandle := h.host.helper handle (Registry.handleOf_lt hhandle)
  modifier _ _ handle hhandle := h.host.modifier handle (Registry.handleOf_lt hhandle)

theorem regular_entry (q : Request) : q.entry.Regular := .whole _ _ nofun

theorem WellFormed.offers (h : q.WellFormed) (hf : q.registry.lookup.Offers q.entry f) :
    f.layout.template.wellFormed := by
  cases hf with
  | entry => exact h.template
  | layout hf => exact h.registry.layout hf
  | part hf => exact h.registry.part hf

/-- A block that is rendered from the first instruction of its code. -/
theorem render_eq {block : Block} (hblock : program.heap.block? handle = some block)
    (strategy : Strategy) (maxStack fuel : Nat) :
    q.render strategy maxStack fuel program handle =
      match Exec.run fuel (q.setup strategy maxStack) (.begin program block q.self) with
      | .ok _ m => ⟨.ok ⟨m.sink.output, m.destructors⟩, m.program, m.events.toList⟩
      | .error e m => ⟨.error e, m.program, m.events.toList ++ m.unwind⟩ := by
  unfold render Setup.renderWithin
  rw [hblock]
  rfl

/-- The program of a compiled template is sound, and has the code of the template. -/
theorem Compiled.sound (h : q.Compiled strategy maxStack f handle program) :
    ∃ l : Linkage, l.program = program ∧ (q.setup strategy maxStack).Admits l ∧
      l.Compiled q.registry.lookup strategy f handle := by
  have hserves := h.wellFormed.serves strategy maxStack
  obtain ⟨p, hbuilds, hcompile⟩ := h.compiles
  obtain ⟨hgrows, -⟩ := links_fragment hserves.coherent _ f
    (h.offers.regular hserves.coherent q.regular_entry) _ _ _ hcompile
  obtain ⟨l, rfl, hle, hsound⟩ := hbuilds.sound hserves.coherent rfl q.regular_entry
    (hgrows.fits h.small.fits)
  obtain ⟨l', rfl, hle', hsound', hcompiled⟩ := CompileOptions.compile_sound hserves.coherent hsound
    (Linkage.Grows.known hle _ _ (h.offers.known hserves.coherent rfl)) hcompile h.small.fits
  refine ⟨l', rfl, ⟨hsound', fun layout hlayout => ?_⟩, hcompiled⟩
  rw [← Linkage.Grows.templates (Linkage.le_trans hle hle')] at hlayout
  obtain ⟨g, hg, rfl⟩ := hlayout
  exact h.wellFormed.offers hg

/-- The program of a compiled template keeps its lists of strings. -/
theorem Compiled.closed (h : q.Compiled strategy maxStack f handle program) :
    program.constants.Closed := by
  obtain ⟨p, hbuilds, hcompile⟩ := h.compiles
  exact Program.closed_of_compile hbuilds.closed hcompile

/-- What is fixed for the walks of a request. -/
def scene (q : Request) : Scene := ⟨q.registry.lookup, q.host, .single q.self⟩

/-- A compiled template is led to the outcome of its walk. -/
theorem Compiled.leads (h : q.Compiled strategy maxStack f handle program) :
    ∃ block t, program.heap.block? handle = some block ∧
      Bounded (q.setup strategy maxStack) (.begin program block q.self) ∧
      ∀ (depth : Nat) (n : ENat), n ≤ depth ∨ maxStack < depth →
        Leads (q.setup strategy maxStack) .free 0 n (.begin program block q.self)
          (Walk.render q.scene depth f {}) fun _ w m =>
            Ends (q.setup strategy maxStack) (.single q.self) .start w t m := by
  have hclosed := h.closed
  obtain ⟨l, rfl, hadmits, hcompiled⟩ := h.sound
  obtain ⟨-, block, -, -, hblock, -⟩ := id hcompiled
  have hbounded : Bounded (q.setup strategy maxStack) (.begin l.program block q.self) :=
    Reaches.bounded (fun k m hr => ⟨h.small.reached block hblock k m hr, hr.closed hclosed⟩)
      (Nat.zero_le _)
  exact ⟨block, _, hblock, hbounded, fun _ _ hdeep =>
    leads_start (h.wellFormed.serves strategy maxStack) hadmits hcompiled hblock q.self hdeep⟩

theorem Compiled.renders (h : q.Compiled strategy maxStack f handle program) :
    ∃ block, program.heap.block? handle = some block ∧
      ∀ fuel depth, fuel ≤ depth → (q.setup strategy maxStack).Renders fuel
        (.begin program block q.self) (Walk.render q.scene depth f {}) := by
  obtain ⟨block, t, hblock, hbounded, hleads⟩ := h.leads
  exact ⟨block, hblock, fun fuel depth hdepth =>
    renders_of_leads (Nat.cast_le.mpr hdepth) hbounded (hleads depth _ (.inl le_rfl))⟩

end Request

/-! ### Small programs, by computation -/

/-- The machine stops within a number of steps, and its program is small at each of them. -/
def Machine.stopsSmall (setup : Setup) : Nat → Machine → Bool
  | 0, _ => false
  | n + 1, m =>
    decide m.program.Fits &&
      match Exec.step setup m with
      | .ok true m' => m'.stopsSmall setup n
      | _ => true

theorem Machine.fits_of_stopsSmall {setup : Setup} {n k : Nat} {m m' : Machine}
    (h : m.stopsSmall setup n) (hr : Reaches setup k m m') : m'.program.Fits := by
  induction hr generalizing n with
  | refl m =>
    cases n with
    | zero => cases h
    | succ n =>
      simp only [Machine.stopsSmall, Bool.and_eq_true, decide_eq_true_eq] at h
      exact h.1
  | step hs _ ih =>
    cases n with
    | zero => cases h
    | succ n =>
      simp only [Machine.stopsSmall, Bool.and_eq_true, hs] at h
      exact ih h.2

/-- The request can be compiled, and its program stays small while it is rendered. -/
def Request.staysSmall (q : Request) (strategy : Strategy) (maxStack steps : Nat) : Bool :=
  match (q.setup strategy maxStack).options.compile q.entry {} with
  | .error .. => false
  | .ok handle program =>
    decide program.Fits &&
      match program.heap.block? handle with
      | none => true
      | some block =>
        (Machine.begin program block q.self).stopsSmall (q.setup strategy maxStack) steps

theorem Request.WellFormed.compiled {q : Request} {strategy : Strategy} {maxStack steps : Nat}
    (hq : q.WellFormed) (h : q.staysSmall strategy maxStack steps) :
    ∃ handle program, (q.setup strategy maxStack).options.compile q.entry {} = .ok handle program ∧
      q.Compiled strategy maxStack q.entry handle program := by
  unfold Request.staysSmall at h
  split at h
  · cases h
  · rename_i handle program hcompile
    rw [Bool.and_eq_true, decide_eq_true_eq] at h
    refine ⟨handle, program, hcompile, hq, .entry, ⟨{}, .fresh, hcompile⟩, h.1,
      fun block hblock k m hr => ?_⟩
    rw [hblock] at h
    exact Machine.fits_of_stopsSmall h.2 hr

/-- Programs only grow, so that a machine that halts has a small program throughout
if it is small in the end. -/
theorem Machine.stopsSmall_of_run {setup : Setup} {n : Nat} {m m' : Machine}
    (hclosed : m.program.constants.Closed) (hrun : Exec.run n setup m = .ok () m')
    (hfits : m'.program.Fits) : m.stopsSmall setup n := by
  induction n generalizing m with
  | zero => cases hrun
  | succ n ih =>
    have hlinks := (Exec.lasting_run (n + 1)).links setup m
    rw [hrun] at hlinks
    have hsmall : m.program.Fits := (hlinks.contains hclosed hfits).grows.fits hfits
    have hstep := Exec.lasting_step.links setup m
    rw [Exec.run, Exec.bind_apply] at hrun
    unfold Machine.stopsSmall
    rw [decide_eq_true hsmall, Bool.true_and]
    cases hs : Exec.step setup m with
    | error e m₁ => rfl
    | ok more m₁ =>
      cases more with
      | false => rfl
      | true =>
        rw [hs] at hrun hstep
        exact ih (hstep.closed hclosed) hrun

/-- A machine that is made from the program of the request halts, with a small program. -/
def Request.haltsSmallFrom (q : Request) (strategy : Strategy) (maxStack steps : Nat)
    (make : Program → Block → Machine) : Bool :=
  match (q.setup strategy maxStack).options.compileWhole q.entry {} with
  | .error .. => false
  | .ok handle program =>
    match program.heap.block? handle with
    | none => false
    | some block =>
      match Exec.runWhole steps (q.setup strategy maxStack) (make program block) with
      | .ok _ m => decide m.program.Fits
      | .error .. => false

theorem Request.exists_of_haltsSmallFrom {q : Request} {strategy : Strategy} {maxStack steps : Nat}
    {make : Program → Block → Machine} (h : q.haltsSmallFrom strategy maxStack steps make) :
    ∃ handle program block m, (q.setup strategy maxStack).options.compile q.entry
      {} = .ok handle program ∧
      program.constants.Closed ∧ program.heap.block? handle = some block ∧
      Exec.run steps (q.setup strategy maxStack) (make program block) = .ok () m ∧
      m.program.Fits := by
  unfold haltsSmallFrom at h
  rw [← CompileOptions.compile_eq_compileWhole, ← Exec.run_eq_runWhole] at h
  split at h
  · cases h
  · rename_i handle program hcompile
    split at h
    · cases h
    · rename_i block hblock
      split at h
      · rename_i m hrun
        exact ⟨handle, program, block, m, hcompile,
          Program.closed_of_compile Constants.closed_initial hcompile,
          hblock, hrun, of_decide_eq_true h⟩
      · cases h

/-- The code of the request halts from its instruction at an index on, with a small program. -/
def Request.haltsSmall (q : Request) (strategy : Strategy) (maxStack steps index : Nat) : Bool :=
  q.haltsSmallFrom strategy maxStack steps fun program block =>
    .start program (block.offset.toNat + 4 * index) block.scopeSize.toNat q.self

theorem Request.exists_of_haltsSmall {q : Request} {strategy : Strategy}
    {maxStack steps index : Nat} (h : q.haltsSmall strategy maxStack steps index) :
    ∃ handle program block m, (q.setup strategy maxStack).options.compile q.entry
      {} = .ok handle program ∧
      program.constants.Closed ∧ program.heap.block? handle = some block ∧
      Exec.run steps (q.setup strategy maxStack)
        (.start program (block.offset.toNat + 4 * index) block.scopeSize.toNat q.self) = .ok () m ∧
      m.program.Fits :=
  exists_of_haltsSmallFrom h

theorem Request.staysSmall_of_haltsSmall {q : Request} {strategy : Strategy} {maxStack steps : Nat}
    (h : q.haltsSmall strategy maxStack steps 0) : q.staysSmall strategy maxStack steps := by
  obtain ⟨handle, program, block, m, hcompile, hclosed, hblock, hrun, hfits⟩ :=
    exists_of_haltsSmall h
  have hlinks := (Exec.lasting_run steps).links (q.setup strategy maxStack)
    (.start program (block.offset.toNat + 4 * 0) block.scopeSize.toNat q.self)
  rw [hrun] at hlinks
  have hsmall : program.Fits := (hlinks.contains hclosed hfits).grows.fits hfits
  simp only [staysSmall, hcompile, hblock, decide_eq_true hsmall, Bool.true_and]
  exact Machine.stopsSmall_of_run hclosed hrun hfits

/-- The render of a program that nothing but the template of the request was compiled into. -/
def Request.renderFresh? (q : Request) (strategy : Strategy)
    (maxStack fuel : Nat) : Option Render :=
  match (q.setup strategy maxStack).options.compileWhole q.entry {} with
  | .error .. => none
  | .ok handle program => some ((q.setup strategy maxStack).renderWhole fuel program handle q.self)

theorem Request.renderFresh?_eq {q : Request} {strategy : Strategy} {maxStack fuel : Nat}
    {handle : UInt32} {program : Program}
    (hcompile : (q.setup strategy maxStack).options.compile q.entry {} = .ok handle program) :
    q.renderFresh? strategy maxStack fuel = some
      (q.render strategy maxStack fuel program handle) := by
  rw [renderFresh?, ← CompileOptions.compile_eq_compileWhole, hcompile, render,
    Setup.renderWithin_eq_renderWhole]

/-- A template that renders a box around a block. -/
def Request.boxed : Request :=
  let registry : Registry :=
    { components := #[{
        name := "Box"
        layout :=
          { statements := [.append (.get 1 []) false, .yield 2 none]
            symbols := ["@title", "&default"]
            hasEval := false
            blocks := [] }
        manager := .args }] }
  { registry
    host := registry.host
    template :=
      { statements := [.component "Box" [] (some ⟨["@title"], [.value (.str "x")]⟩) (some 0)]
        symbols := []
        hasEval := false
        blocks := [⟨[.text "in"], []⟩] }
    referer := "main"
    self := .null }

theorem Request.boxed_wellFormed : Request.boxed.WellFormed where
  registry := by
    refine ⟨fun c hc => ?_, fun p hp => ?_⟩
    · obtain rfl := List.mem_singleton.mp (Array.mem_toList_iff.mpr hc)
      rfl
    · exact absurd (Array.mem_toList_iff.mpr hp) List.not_mem_nil
  template := rfl
  host := Registry.host_backs _

set_option maxRecDepth 100000 in
theorem Request.boxed_haltsSmall (strategy : Strategy) :
    Request.boxed.haltsSmall strategy 100 200 0 := by
  cases strategy <;> decide +kernel

theorem Request.boxed_staysSmall (strategy : Strategy) :
    Request.boxed.staysSmall strategy 100 200 :=
  staysSmall_of_haltsSmall (boxed_haltsSmall strategy)

theorem Request.boxed_compiled (strategy : Strategy) :
    ∃ handle program,
      (Request.boxed.setup strategy 100).options.compile Request.boxed.entry {} =
      .ok handle program ∧
      Request.boxed.Compiled strategy 100 Request.boxed.entry handle program :=
  Request.boxed_wellFormed.compiled (Request.boxed_staysSmall strategy)

end TemplateMachine
