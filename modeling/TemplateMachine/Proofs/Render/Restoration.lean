import TemplateMachine.Proofs.Image.Loading
import TemplateMachine.Proofs.Render.History

/-! Renders over programs that were written and read.  What is read has the code and the
constants, but no template belongs to it any more, so that layouts which are looked up at run
time are compiled once again. -/

namespace TemplateMachine

section

variable {r : Registry} {strategy : Strategy} {named : FragmentId → Option Layout} {p q : Program}
variable {id : FragmentId} {layout : Layout} {handle : UInt32}

/-- The templates of a registry and one that is compiled by itself. -/
def Registry.templates (r : Registry) (entry : Layout) : FragmentId → Option Layout
  | .entry => some entry
  | .layout handle => (r.component? handle).map fun c => ⟨c.layout, c.name⟩
  | .part handle => (r.partials[handle.toNat]?).map fun entry => ⟨entry.2, entry.1⟩
  | .nested _ => none

theorem Registry.names_templates (r : Registry) (entry : Layout) : r.Names (r.templates entry) where
  whole _ := rfl
  layout _ _ h := Option.map_eq_some_iff.mpr ⟨_, h, rfl⟩
  part _ _ _ h := Option.map_eq_some_iff.mpr ⟨_, h, rfl⟩

theorem CompileOptions.Links.adds {options : CompileOptions} (h : options.Links p q)
    (hclosed : p.constants.Closed) :
    p.constants.Adds options.strategy q.constants := by
  induction h with
  | refl => exact .refl _
  | @link q r f handle hlinks hcompile ih =>
    have hadvances : q.Advances options.strategy _ := .of_compile (hlinks.closed hclosed) f
    rw [hcompile] at hadvances
    exact ih.trans hadvances.adds

theorem Registry.History.adds (h : r.History strategy named p) :
    Constants.initial.Adds strategy p.constants := by
  induction h with
  | new => exact .refl _
  | compile hp _ hcompile ih =>
    exact ih.trans (CompileOptions.Links.adds (.link (.refl _) hcompile) hp.closed)
  | render host maxStack fuel handle self hp hlinked ih =>
    exact ih.trans ((Setup.links_renderWithin _ fuel _ handle self hlinked).adds hp.closed)

/-- Nothing that is compiled eagerly waits in the program to be linked. -/
theorem Registry.History.fragments_empty (h : r.History .eager named p) :
    p.constants.fragments.size = 0 := by
  rw [h.adds.fragments rfl]
  rfl

namespace Program

/-- What is read has the finished blocks and the constants of what was written. -/
theorem carries_restored (hconstants : p.restored.constants = p.constants) : p.restored.Carries p :=
  ⟨fun _ _ h => h, fun _ _ h => h, hconstants ▸ .refl _⟩

theorem fits_restored (hconstants : p.restored.constants = p.constants)
    (hfits : p.Fits) : p.restored.Fits :=
  ⟨hfits.words, hfits.blocks, hconstants.symm ▸ hfits.constants⟩

end Program

namespace Registry.History

/-- The program that is read can be linked to. -/
theorem ready_restored (hnames : r.Names named) (h : r.History .eager named p) (hfits : p.Fits)
    (hconstants : p.restored.constants = p.constants) : (r.options .eager).Ready p.restored := by
  have hkept := h.kept hnames hfits
  obtain ⟨l, rfl, hsound, -⟩ := hkept.linkage
  have hstrings : l.program.restored.constants.strings.get? 0 = some "" := by
    rw [hconstants]
    exact hsound.empty
  have hfragments : l.program.restored.constants.fragments.size = 0 := by
    rw [hconstants]
    exact h.fragments_empty
  exact ⟨Program.fits_restored hconstants hfits, hconstants.symm ▸ h.closed,
    ⟨_, rfl, hnames.sound_detached hstrings hfragments rfl⟩, fun _ _ _ hlinked => nomatch hlinked⟩

end Registry.History

/-- A program into which a template was compiled eagerly has an image, and the template renders to
the same over the program that is read from that. -/
theorem Registry.eager_survives
    (hcompile : (r.options .eager).compile (.ofLayout .entry layout) {} = .ok handle p)
    (hfits : p.Fits) (hwritable : p.Writable) :
    p.constants.fragments.size = 0 ∧ ∃ bytes q, p.toBytes = .ok bytes ∧
    Program.ofBytes bytes = .ok q ∧
      ∀ (host : Host) (maxStack fuel : Nat) (self : Json),
        let setup : Setup := ⟨r.options .eager, host, maxStack⟩
        (setup.renderWithin fuel p handle self).program.Fits →
        (setup.renderWithin fuel q handle self).program.Fits →
        setup.SameResult (setup.renderWithin fuel p handle self)
          (setup.renderWithin fuel q handle self) := by
  have hnames := r.names_templates layout
  have hhistory : r.History .eager (r.templates layout) p := .compile .new rfl hcompile
  have hconstants : p.restored.constants = p.constants :=
    (hhistory.adds.interned Constants.interned_initial).interned_eq hhistory.fragments_empty
  refine ⟨hhistory.fragments_empty, Bytes.image p, p.restored,
    Program.toBytes_eq hhistory.fragments_empty, Program.ofBytes_image hwritable, ?_⟩
  intro host maxStack fuel self setup hsmall hsmall'
  have hkept := hhistory.kept hnames hfits
  have hhouses :=
    hkept.houses rfl (CompileOptions.linked_of_compile Constants.closed_initial hcompile)
  have hready' := hhistory.ready_restored hnames hfits hconstants
  exact Setup.renders_alike (Setup.enters (r.ample .eager)) (hkept.ready hnames hfits) hready'
    ⟨_, hhouses, hhouses.mono (Program.carries_restored hconstants)⟩
      (Setup.keepsSmall hkept.closed hsmall) (Setup.keepsSmall hready'.closed hsmall')

end

/-- A box, which the entry invokes by its tag and then as whatever the data names. -/
def showcase : Registry where
  components := #[⟨"Box", { statements := [.text "box "], symbols := [], hasEval := false,
                            blocks := [] },
    .templateOnly⟩]

def showcaseLayout : Layout :=
  ⟨{ statements := [.component "Box" [] none none,
    .block "component" (some [.get 0 ["kind"]]) none none none]
     symbols := []
     hasEval := false
     blocks := [] }, "main"⟩

theorem showcase_acyclic : showcase.Acyclic := by
  refine ⟨fun c hc => ?_, fun p hp => absurd (Array.mem_toList_iff.mpr hp) List.not_mem_nil⟩
  obtain rfl := List.mem_singleton.mp (Array.mem_toList_iff.mpr hc)
  refine Template.acyclic_of_descends fun i j hij => ?_
  obtain ⟨b, hb, -⟩ := hij
  cases hb

/-- Both programs have a block for the box, but the one that was read does not know that it is, and
is given another one. -/
theorem showcase_survives :
    let setup : Setup := ⟨showcase.options .eager, showcase.host, 100⟩
    let p := stateAfter (setup.options.compile (.ofLayout .entry showcaseLayout) {})
    let data : Json := .obj [("kind", .str "Box")]
    p.Fits ∧ p.Writable ∧ p.constants.fragments.size = 0 ∧
    ∃ q, Program.ofBytes (Bytes.image p) = .ok q ∧
      (setup.renderWithin 100 p 0 data).EndsAs (setup.renderWithin 100 q 0 data) ∧
      (setup.renderWithin 100 q 0 data).result.toOption.map Rendered.html = some "box box " ∧
      (setup.renderWithin 100 p 0 data).program.heap.blocks.size = 2 ∧
      (setup.renderWithin 100 q 0 data).program.heap.blocks.size = 3 := by
  have hcomputed :
      let setup : Setup := ⟨showcase.options .eager, showcase.host, 100⟩
      let compiled := setup.options.compile (.ofLayout .entry showcaseLayout) {}
      let p := stateAfter compiled
      let r := setup.renderWithin 100 p 0 (.obj [("kind", .str "Box")])
      let r' := setup.renderWithin 100 p.restored 0 (.obj [("kind", .str "Box")])
      hasResult compiled = true ∧ p.linked? .entry = some 0 ∧ p.Fits ∧ p.Writable ∧ r.program.Fits ∧
        r'.program.Fits ∧ r'.result.toOption.map Rendered.html = some "box box " ∧
        r.program.heap.blocks.size = 2 ∧ r'.program.heap.blocks.size = 3 := by
    rw [Setup.renderWithin_eq_renderWhole, CompileOptions.compile_eq_compileWhole]
    decide +kernel
  dsimp only at hcomputed ⊢
  obtain ⟨hresult, hzero, hfits, hwritable, hsmall, hsmall', hhtml, hblocks, hblocks'⟩ := hcomputed
  obtain ⟨handle, hcompile⟩ := eq_ok_of_hasResult hresult
  have hlinked := CompileOptions.linked_of_compile Constants.closed_initial hcompile
  obtain rfl : handle = 0 := Option.some.inj (hlinked.symm.trans hzero)
  obtain ⟨hfragments, bytes, q, hbytes, hq, halike⟩ :=
    Registry.eager_survives hcompile hfits hwritable
  obtain rfl := Except.ok.inj (hbytes.symm.trans (Program.toBytes_eq hfragments))
  obtain rfl := Except.ok.inj (hq.symm.trans (Program.ofBytes_image hwritable))
  have hends := Registry.endsAs_of_sameResult (halike showcase.host 100 100 _ hsmall hsmall')
    fun _ => showcase_acyclic
  exact ⟨hfits, hwritable, hfragments, _, hq, hends, hhtml, hblocks, hblocks'⟩

end TemplateMachine
