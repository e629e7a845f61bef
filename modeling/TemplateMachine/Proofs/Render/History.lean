import TemplateMachine.Proofs.Render.Termination
import TemplateMachine.Proofs.Twin.Run
import TemplateMachine.Proofs.Twin.Statement
import TemplateMachine.Proofs.Verify.Tiles

/-! Renders do not depend on the history of the program.  Which handles there are, and for what,
depends on the templates that have been compiled into it and on the branches that renders have
taken; what a template renders to does not. -/

namespace TemplateMachine

/-! ### Renders over programs that grow -/

section

variable {setup : Setup} {fuel n : Nat} {m : Machine} {p : Program} {entry : UInt32} {self : Json}

theorem CompileOptions.Attempts.grows {options : CompileOptions} {q : Program}
    (h : options.Attempts p q) (hclosed : p.constants.Closed) : p.Grows q ∧ q.constants.Closed := by
  induction h with
  | refl => exact ⟨.refl p, hclosed⟩
  | attempt f _ ih =>
    have hadvances : Program.Advances options.strategy _ _ := .of_compile ih.2 f
    exact ⟨ih.1.trans hadvances.grows, hadvances.adds.closed ih.2⟩

/-- The longer the machine runs the more it has linked. -/
theorem Exec.grows_run (setup : Setup) (hn : n ≤ fuel) (hclosed : m.program.constants.Closed) :
    (stateAfter (run n setup m)).program.Grows (stateAfter (run fuel setup m)).program := by
  induction n generalizing fuel m with
  | zero => exact (((lasting_run fuel).links setup m).attempts.grows hclosed).1
  | succ n ih =>
    obtain ⟨fuel, rfl⟩ := Nat.exists_eq_add_of_le' hn
    rw [show fuel + (n + 1) = fuel + n + 1 by omega, run_succ, run_succ]
    have hstep := lasting_step.links setup m
    cases hs : step setup m with
    | error e m' => exact .refl _
    | ok more m' =>
      rw [hs] at hstep
      cases more with
      | false => exact .refl _
      | true => exact ih (by omega) (CompileOptions.Links.closed hstep hclosed)

/-- If the program is small in the end then it has been so all the time. -/
theorem Setup.keepsSmall (hclosed : p.constants.Closed)
    (hfits : (setup.renderWithin fuel p entry self).program.Fits) :
    setup.KeepsSmall fuel p entry self := by
  intro n hn
  cases hb : p.heap.block? entry with
  | none =>
    unfold renderWithin at hfits ⊢
    rwa [hb] at hfits ⊢
  | some b =>
    rw [Setup.renderWithin_of_block hb] at hfits ⊢
    have hgrows := Exec.grows_run setup hn
      (show (Machine.start p b.offset.toNat b.scopeSize.toNat
        self).program.constants.Closed from hclosed)
    generalize Exec.run n setup _ = out at hgrows
    generalize Exec.run fuel setup _ = out' at hfits hgrows
    cases out <;> cases out' <;> exact hgrows.fits hfits

/-- A render that has succeeded can be repeated over any program that contains what has come of it.
It does the same, and links nothing. -/
theorem Setup.renderWithin_again {rendered : Rendered} {q : Program} (hclosed : p.constants.Closed)
    (h : (setup.renderWithin fuel p entry self).result = .ok rendered)
    (hq : q.Contains (setup.renderWithin fuel p entry self).program) (hfits : q.Fits) :
    setup.renderWithin fuel q entry self =
    { setup.renderWithin fuel p entry self with program := q } := by
  cases hb : p.heap.block? entry with
  | none =>
    unfold renderWithin at h
    rw [hb] at h
    cases h
  | some b =>
    rw [Setup.renderWithin_of_block hb] at h hq ⊢
    have hlinks := (Exec.lasting_run fuel).links setup
      (.start p b.offset.toNat b.scopeSize.toNat self)
    cases hrun : Exec.run fuel setup (.start p b.offset.toNat b.scopeSize.toNat self) with
    | error e m =>
      rw [hrun] at h
      cases h
    | ok u m =>
      rw [hrun] at hq hlinks
      have hcontains :=
        hq.trans (CompileOptions.Links.contains hlinks hclosed (hq.grows.fits hfits))
      have hagain := (Exec.lasting_run fuel).again hrun hclosed hq hfits
      rw [Setup.renderWithin_of_block (hcontains.finished _ _ hb),
        show Machine.start q b.offset.toNat b.scopeSize.toNat self =
          (Machine.start p b.offset.toNat b.scopeSize.toNat self).over q from rfl, hagain]
      rfl

end

/-! ### Templates and their identities -/

/-- Templates by their identities: those of the registry, and others that
are compiled by themselves. -/
structure Registry.Names (r : Registry) (named : FragmentId → Option Layout) : Prop where
  whole : ∀ n, named (.nested n) = none
  layout : ∀ (handle : UInt32) (c : RegisteredComponent), r.component? handle = some c →
    named (.layout handle) = some ⟨c.layout, c.name⟩
  part : ∀ (handle : UInt32) (name : String) (template : Template),
    r.partials[handle.toNat]? = some (name, template) → named (.part handle) = some ⟨template, name⟩

namespace Registry.Names

variable {r : Registry} {strategy : Strategy} {named : FragmentId → Option Layout} {f : Fragment}

theorem of_layout (h : r.Names named) {handle : UInt32} (hf : r.lookup.layout? handle = some f) :
    named f.id = some f.layout ∧ f = .ofLayout f.id f.layout := by
  obtain ⟨c, hc, rfl⟩ := Option.map_eq_some_iff.mp hf
  exact ⟨h.layout handle c hc, rfl⟩

theorem of_whole (h : r.Names named) (hf : r.lookup.Whole f) :
    named f.id = some f.layout ∧ f = .ofLayout f.id f.layout := by
  rcases hf with ⟨handle, hf⟩ | ⟨handle, hf⟩
  · exact h.of_layout hf
  · obtain ⟨⟨name, template⟩, hc, rfl⟩ := Option.map_eq_some_iff.mp hf
    exact ⟨h.part handle name template hc, rfl⟩

/-- A program to which no template belongs yet. -/
def detached (named : FragmentId → Option Layout) (p : Program) : Linkage where
  program := p
  known id := (named id).map (.ofLayout id)
  templates layout := ∃ id, named id = some layout

theorem sound_detached (h : r.Names named) {p : Program}
    (hstrings : p.constants.strings.get? 0 = some "") (hfragments : p.constants.fragments.size = 0)
    (hlinked : p.linked = []) : (detached named p).Sound r.lookup strategy [] where
  empty := hstrings
  fragments index f hf := by
    have hlt : index.toNat < p.constants.fragments.size := (Array.getElem?_eq_some_iff.mp hf).1
    omega
  ids id f hf := by
    obtain ⟨layout, -, rfl⟩ := Option.map_eq_some_iff.mp hf
    rfl
  fresh n f hf := by
    obtain ⟨layout, hlayout, -⟩ := Option.map_eq_some_iff.mp hf
    rw [h.whole n] at hlayout
    cases hlayout
  layouts handle f hf := by
    obtain ⟨hnamed, heq⟩ := h.of_layout hf
    exact Option.map_eq_some_iff.mpr ⟨_, hnamed, heq.symm⟩
  partials handle f hf := by
    obtain ⟨hnamed, heq⟩ := h.of_whole (.inr ⟨handle, hf⟩)
    exact Option.map_eq_some_iff.mpr ⟨_, hnamed, heq.symm⟩
  templates id f hf := by
    obtain ⟨layout, hlayout, rfl⟩ := Option.map_eq_some_iff.mp hf
    exact ⟨id, hlayout⟩
  regular id f hf := by
    obtain ⟨layout, hlayout, rfl⟩ := Option.map_eq_some_iff.mp hf
    refine .whole id layout fun n hn => ?_
    rw [hn, h.whole n] at hlayout
    cases hlayout
  linked id handle hl := by
    rw [Program.linked?, show (detached named p).program.linked = [] from hlinked] at hl
    cases hl
  reserved := nofun
  distinct id _ handle hl := by
    rw [Program.linked?, show (detached named p).program.linked = [] from hlinked] at hl
    cases hl

end Registry.Names

/-! ### Histories -/

/-- What a program may have gone through: templates are compiled into it, and blocks are rendered,
on any host and with any data, and nothing fails to compile. -/
inductive Registry.History (r : Registry) (strategy : Strategy)
    (named : FragmentId → Option Layout) : Program → Prop
  | new : History r strategy named {}
  | compile {p q : Program} {id : FragmentId} {layout : Layout} {handle : UInt32} :
      History r strategy named p →
      named id = some layout → (r.options strategy).compile (.ofLayout id layout) p = .ok handle q →
      History r strategy named q
  | render {p : Program} (host : Host) (maxStack fuel : Nat) (handle : UInt32) (self : Json) :
      History r strategy named p →
      (Setup.renderWithin ⟨r.options strategy, host, maxStack⟩ fuel p handle self).isLinked = true →
      History r strategy named
        (Setup.renderWithin ⟨r.options strategy, host, maxStack⟩ fuel p handle self).program

/-- What the history of a program has made of it. -/
structure CompileOptions.Kept (o : CompileOptions) (named : FragmentId → Option Layout)
    (p : Program) : Prop where
  closed : p.constants.Closed
  numbered : p.Numbered
  linkage : ∃ l : Linkage, l.program = p ∧ l.Sound o.lookup o.strategy [] ∧
    ∀ id layout, named id = some layout → l.known id = some (.ofLayout id layout)
  hopeful : o.strategy = .eager → ∀ id layout, named id = some layout → (p.linked? id).isSome →
    ¬o.lookup.Hopeless (.ofLayout id layout)

section

variable {r : Registry} {strategy : Strategy} {named : FragmentId → Option Layout} {p q : Program}
variable {id : FragmentId} {layout : Layout} {handle : UInt32}

namespace CompileOptions

theorem Gathers.links {o : CompileOptions} (h : o.Gathers p q) : o.Links p q := by
  induction h with
  | refl => exact .refl p
  | link _ _ hcompile ih => exact ih.link hcompile

namespace Kept

theorem new (hnames : r.Names named) : (r.options strategy).Kept named {} where
  closed := Constants.closed_initial
  numbered := Program.numbered_new
  linkage := ⟨_, rfl, hnames.sound_detached (p := {}) rfl rfl rfl,
    fun _ _ h => Option.map_eq_some_iff.mpr ⟨_, h, rfl⟩⟩
  hopeful _ _ _ _ hlinked := nomatch hlinked

theorem ready (h : (r.options strategy).Kept named p) (hnames : r.Names named) (hfits : p.Fits) :
    (r.options strategy).Ready p := by
  obtain ⟨l, hl, hsound, -⟩ := h.linkage
  refine ⟨hfits, h.closed, ⟨l, hl, hsound⟩, fun heager w hw hlinked => ?_⟩
  obtain ⟨hnamed, heq⟩ := hnames.of_whole hw
  exact heq ▸ h.hopeful heager _ _ hnamed hlinked

/-- The handle of a template stands for its code. -/
theorem houses (h : (r.options strategy).Kept named p) (hid : named id = some layout)
    (hlinked : p.linked? id = some handle) :
    (r.options strategy).Houses p handle (Fragment.ofLayout id layout).body := by
  obtain ⟨l, rfl, hsound, hknown⟩ := h.linkage
  obtain ⟨f, hf, hpending | hcompiled⟩ := hsound.linked _ _ hlinked
  · cases hpending
  · obtain rfl := Option.some.inj ((hknown id layout hid).symm.trans hf)
    exact ⟨l, _, hsound, .refl _, hcompiled, rfl⟩

/-- Whatever has a block, it is the code of some fragment. -/
theorem exists_houses (h : (r.options strategy).Kept named p) {b : Block}
    (hb : p.heap.block? handle = some b) :
    ∃ body, (r.options strategy).Houses p handle body := by
  obtain ⟨hget, -⟩ := Option.filter_eq_some_iff.mp hb
  obtain ⟨id, hid⟩ := h.numbered.exists_id (Array.getElem?_eq_some_iff.mp hget).1
  rw [UInt32.ofNat_toNat] at hid
  obtain ⟨l, rfl, hsound, -⟩ := h.linkage
  obtain ⟨f, -, hpending | hcompiled⟩ := hsound.linked _ _ (h.numbered.mem_linked.mp hid)
  · cases hpending
  · exact ⟨f.body, l, f, hsound, .refl _, hcompiled, rfl⟩

theorem compile (h : (r.options strategy).Kept named p) (hnames : r.Names named) {f : Fragment}
    (hf : ∀ l : Linkage, l.program = p → l.Sound r.lookup strategy [] →
      (∀ id layout, named id = some layout → l.known id = some (.ofLayout id layout)) →
      l.known f.id = some f)
    (hcompile : (r.options strategy).compile f p = .ok handle q) (hfits : q.Fits) :
    (r.options strategy).Kept named q := by
  obtain ⟨l, rfl, hsound, hknown⟩ := h.linkage
  have hfknown := hf l rfl hsound hknown
  obtain ⟨m, rfl, hle, hsound', -⟩ :=
    CompileOptions.compile_sound r.coherent hsound hfknown hcompile hfits
  refine ⟨Program.closed_of_compile h.closed hcompile,
    Link.numbered_fragment _ _ h.closed h.numbered hcompile,
    ⟨m, rfl, hsound', fun id layout hid => Linkage.Grows.known hle _ _ (hknown id layout hid)⟩,
    fun heager id layout hid hlinked hhopeless => ?_⟩
  have hnone : l.program.linked? id = none :=
    Option.not_isSome_iff_eq_none.mp fun hlinked => h.hopeful heager id layout hid hlinked hhopeless
  have hwhole (k : Nat) : id ≠ .nested k := by
    rintro rfl
    rw [hnames.whole k] at hid
    cases hid
  have hstill : m.program.linked? (Fragment.ofLayout id layout).id = none :=
    CompileOptions.spares_hopeless r.coherent heager hsound h.closed hfknown (hknown id layout hid)
      hwhole hhopeless hnone hcompile
  rw [show m.program.linked? id = none from hstill] at hlinked
  cases hlinked

theorem gathers (h : (r.options strategy).Kept named p) (hnames : r.Names named)
    (hgathers : (r.options strategy).Gathers p q) (hfits : q.Fits) :
    (r.options strategy).Kept named q := by
  induction hgathers with
  | refl => exact h
  | link hgathers hf hcompile ih =>
    have hlast := Program.Contains.of_compile (hgathers.links.closed h.closed) hcompile hfits
    exact (ih (hlast.grows.fits hfits)).compile hnames (fun l hl hsound _ => hf.known hl hsound)
      hcompile hfits

end Kept

end CompileOptions

namespace Registry.History

theorem closed (h : r.History strategy named p) : p.constants.Closed := by
  induction h with
  | new => exact Constants.closed_initial
  | compile _ _ hcompile ih => exact Program.closed_of_compile ih hcompile
  | render host maxStack fuel handle self _ hlinked ih =>
    exact (Setup.links_renderWithin _ fuel _ handle self hlinked).closed ih

theorem kept (hnames : r.Names named) (h : r.History strategy named p) (hfits : p.Fits) :
    (r.options strategy).Kept named p := by
  induction h with
  | new => exact .new hnames
  | compile hp hid hcompile ih =>
    have hcontains := Program.Contains.of_compile hp.closed hcompile hfits
    exact (ih (hcontains.grows.fits hfits)).compile hnames (fun l _ _ hknown => hknown _ _ hid)
      hcompile hfits
  | @render p host maxStack fuel handle self hp hlinked ih =>
    have hlinks := Setup.links_renderWithin _ fuel p handle self hlinked
    have hkept := ih ((hlinks.contains hp.closed hfits).grows.fits hfits)
    cases hb : p.heap.block? handle with
    | none =>
      rw [Setup.renderWithin, hb] at hfits ⊢
      exact hkept
    | some b =>
      obtain ⟨body, hhouses⟩ := hkept.exists_houses hb
      refine hkept.gathers hnames ?_ hfits
      exact Setup.gathers_renderWithin (Setup.enters (r.ample strategy))
        (hkept.ready hnames ((hlinks.contains hp.closed hfits).grows.fits hfits)) hhouses
        (Setup.keepsSmall hp.closed hfits) hlinked

/-- A template that has a handle renders to the same as if it were compiled into a new
program and rendered there; and rendering it once more links nothing.  Both programs have to
be small enough for the words. -/
theorem renders_as_new (hnames : r.Names named) (h : r.History strategy named p) (hfits : p.Fits)
    (hid : named id = some layout) (hlinked : p.linked? id = some handle) :
    (∃ handle' q, (r.options strategy).compile (.ofLayout id layout) {} = .ok handle' q ∧
      ∀ (host : Host) (maxStack fuel : Nat) (self : Json),
        let setup : Setup := ⟨r.options strategy, host, maxStack⟩
        (setup.renderWithin fuel p handle self).program.Fits →
        (setup.renderWithin fuel q handle' self).program.Fits →
        setup.SameResult (setup.renderWithin fuel p handle self)
          (setup.renderWithin fuel q handle' self)) ∧
    ∀ (host : Host) (maxStack fuel : Nat) (self : Json) (rendered : Rendered),
      let setup : Setup := ⟨r.options strategy, host, maxStack⟩
      let first := setup.renderWithin fuel p handle self
      first.result = .ok rendered → first.program.Fits →
      setup.renderWithin fuel first.program handle self = first := by
  have hkept := h.kept hnames hfits
  have hready := hkept.ready hnames hfits
  refine ⟨?_, fun host maxStack fuel self rendered hok hsmall =>
    Setup.renderWithin_again h.closed hok (.refl _) hsmall⟩
  obtain ⟨l, hl, hsound, hknown⟩ := hkept.linkage
  have hsome := Option.isSome_iff_exists.mpr ⟨handle, hlinked⟩
  obtain ⟨handle', q, hcompile⟩ :=
    CompileOptions.compile_again (r.ample strategy) hready hl hsound (hknown id layout hid) hsome
      (fun heager => ⟨rfl, hkept.hopeful heager id layout hid hsome⟩) rfl {}
  refine ⟨handle', q, hcompile, ?_⟩
  intro host maxStack fuel self setup hsmall hsmall'
  have hnew : (r.options strategy).Kept named {} := .new hnames
  have hclosed' := Program.closed_of_compile hnew.closed hcompile
  have hfits' := ((setup.attempts_renderWithin fuel q handle' self).grows hclosed').1.fits hsmall'
  have hkept' := hnew.compile hnames (fun l _ _ hknown => hknown id layout hid) hcompile hfits'
  have hlinked' := CompileOptions.linked_of_compile hnew.closed hcompile
  exact Setup.renders_alike (Setup.enters (r.ample strategy)) hready (hkept'.ready hnames hfits')
    ⟨_, hkept.houses hid hlinked, hkept'.houses hid hlinked'⟩ (Setup.keepsSmall h.closed hsmall)
    (Setup.keepsSmall hclosed' hsmall')

end Registry.History

end

/-- Lazily, and eagerly if in no template of the registry a block is nested in itself, renders with
the same result end alike: there is no layout that the compiler finds no end in. -/
theorem Registry.endsAs_of_sameResult {r : Registry} {strategy : Strategy} {host : Host}
    {maxStack : Nat} {a b : Render} (h : Setup.SameResult ⟨r.options strategy, host, maxStack⟩ a b)
    (hacyclic : strategy = .eager → r.Acyclic) : a.EndsAs b :=
  h.endsAs (r.not_hangs hacyclic host maxStack)

/-! ### A greeting after a farewell -/

theorem eq_ok_of_toOption {ε α : Type} {r : Except ε α} {a : α}
    (h : r.toOption = some a) : r = .ok a := by
  cases r with
  | ok b => exact congrArg Except.ok (Option.some.inj h)
  | error e => cases h

def farewell : Layout :=
  ⟨{ statements := [.text "bye"], symbols := [], hasEval := false, blocks := [] }, "main"⟩

/-- The greeting and the farewell, which no registry has. -/
def salutations : FragmentId → Option Layout
  | .entry => some Program.greeting.layout
  | .part 0 => some farewell
  | _ => none

theorem names_salutations : Registry.Names {} salutations where
  whole _ := rfl
  layout _ _ h := by cases h
  part _ _ _ h := by cases h

open Program in
/-- The greeting is compiled after the farewell, and rendered for somebody.  After that
it is rendered as if it were compiled anew, which gives it another handle; and once
more, which changes nothing. -/
theorem greeting_renders_as_new :
    let options := greetingSetup.options
    let before := stateAfter (options.compile (.ofLayout (.part 0) farewell) {})
    let compiled := stateAfter (options.compile greeting before)
    let p := (greetingSetup.renderWithin 100 compiled 1 (.obj [("name", .str "Ada")])).program
    let data : Json := .obj [("name", .str "Bob")]
    p.linked? .entry = some 1 ∧ (∃ q, options.compile greeting {} = .ok 0 q ∧
      (greetingSetup.renderWithin 100 p 1 data).EndsAs (greetingSetup.renderWithin 100 q 0 data)) ∧
    (greetingSetup.renderWithin 100 p 1 data).result.toOption.map Rendered.html = some "hello Bob" ∧
    greetingSetup.renderWithin 100 (greetingSetup.renderWithin 100 p 1 data).program 1 data =
      greetingSetup.renderWithin 100 p 1 data := by
  have hcomputed :
      let options := greetingSetup.options
      let before := stateAfter (options.compile (.ofLayout (.part 0) farewell) {})
      let compiled := stateAfter (options.compile greeting before)
      let r := greetingSetup.renderWithin 100 compiled 1 (.obj [("name", .str "Ada")])
      let again := greetingSetup.renderWithin 100 r.program 1 (.obj [("name", .str "Bob")])
      let q := stateAfter (options.compile greeting {})
      hasResult (options.compile (.ofLayout (.part 0) farewell) {}) = true ∧
        hasResult (options.compile greeting before) = true ∧ r.isLinked = true ∧ r.program.Fits ∧
        r.program.linked? .entry = some 1 ∧ q.linked? .entry = some 0 ∧
        again.result.toOption.map Rendered.html = some "hello Bob" ∧ again.program.Fits ∧
        (greetingSetup.renderWithin 100 q 0 (.obj [("name", .str "Bob")])).program.Fits := by
    rw [Setup.renderWithin_eq_renderWhole, CompileOptions.compile_eq_compileWhole]
    decide +kernel
  dsimp only at hcomputed ⊢
  obtain ⟨hbefore, hcompiled, hlinked, hfits, hentry, hfresh, hhtml, hsmall, hsmall'⟩ := hcomputed
  obtain ⟨first, hfirst⟩ := eq_ok_of_hasResult hbefore
  obtain ⟨second, hsecond⟩ := eq_ok_of_hasResult hcompiled
  have hnew : Registry.History {} .lazy salutations {} := .new
  have hhistory := Registry.History.render greetingSetup.host 100 100 1 _
    (.compile (.compile hnew rfl hfirst) rfl hsecond) hlinked
  obtain ⟨⟨handle, q, hcompile, halike⟩, hagain⟩ :=
    Registry.History.renders_as_new names_salutations hhistory hfits rfl hentry
  have hhandle := CompileOptions.linked_of_compile Constants.closed_initial hcompile
  obtain rfl : q = stateAfter (greetingSetup.options.compile greeting {}) :=
    congrArg stateAfter hcompile.symm
  obtain rfl : handle = 0 := Option.some.inj (hhandle.symm.trans hfresh)
  obtain ⟨rendered, hok, -⟩ := Option.map_eq_some_iff.mp hhtml
  have hresult := eq_ok_of_toOption hok
  have hends :=
    Registry.endsAs_of_sameResult (halike greetingSetup.host 100 100 _ hsmall hsmall') nofun
  exact ⟨hentry, ⟨_, hcompile, hends⟩, hhtml,
    hagain greetingSetup.host 100 100 _ rendered hresult hsmall⟩

end TemplateMachine
