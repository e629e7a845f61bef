import TemplateMachine.Proofs.Emission.Failure
import TemplateMachine.Proofs.Emission.Settle
import TemplateMachine.Proofs.Shape.Call

/-! Templates are linked once.  Successful compilation numbers the fragments that have a handle
through, without a gap, so that every block of the heap belongs to one fragment and every fragment
that is compiled has one block.  Whatever invokes a layout or a partial then finds the handle that
the first invocation got. -/

namespace TemplateMachine

/-! ### The numbering of handles -/

/-- The handles that are in use are numbered through in the order in which they were given, each to
a fragment of its own. -/
structure Program.Numbered (p : Program) : Prop where
  handles : p.linked.map Prod.snd = ((List.range p.heap.blocks.size).map UInt32.ofNat).reverse
  ids : (p.linked.map Prod.fst).Nodup

namespace Program

variable {p q : Program} {id : FragmentId} {handle : UInt32}

theorem numbered_new : Numbered {} := ⟨rfl, List.nodup_nil⟩

/-- What has no handle is not in the list. -/
theorem not_mem_of_unlinked (h : p.linked? id = none) : id ∉ p.linked.map Prod.fst := by
  intro hmem
  obtain ⟨⟨found, handle⟩, hentry, rfl⟩ := List.mem_map.mp hmem
  have hne := List.lookup_eq_none_iff.mp h (found, handle) hentry
  simp at hne

theorem Numbered.reserve (h : p.Numbered) (hnone : p.linked? id = none) :
    (p.reserve id).Numbered where
  handles := by
    rw [Program.blocks_reserve, Array.size_push, List.range_succ]
    simp [Program.reserve, h.handles]
  ids := List.nodup_cons.mpr ⟨not_mem_of_unlinked hnone, h.ids⟩

/-- The handle of a fragment is the only one that it has. -/
theorem Numbered.mem_linked (h : p.Numbered) :
    (id, handle) ∈ p.linked ↔ p.linked? id = some handle := by
  have hlookup (entries : List (FragmentId × UInt32)) (hids : (entries.map Prod.fst).Nodup) :
      (id, handle) ∈ entries ↔ entries.lookup id = some handle := by
    induction entries with
    | nil => simp
    | cons entry rest ih =>
      obtain ⟨found, number⟩ := entry
      obtain ⟨hnew, hrest⟩ := List.nodup_cons.mp hids
      rw [List.mem_cons, List.lookup_cons, ih hrest]
      by_cases hid : id = found
      · subst hid
        have hnone : rest.lookup id = none := List.lookup_eq_none_iff.mpr fun entry hentry => by
          refine bne_iff_ne.mpr ?_
          rintro rfl
          exact hnew (List.mem_map.mpr ⟨entry, hentry, rfl⟩)
        simp [hnone, eq_comm]
      · simp [hid, beq_false_of_ne hid]
  exact hlookup p.linked h.ids

/-- Every block is that of a fragment. -/
theorem Numbered.exists_id (h : p.Numbered) {i : Nat} (hi : i < p.heap.blocks.size) :
    ∃ id, (id, UInt32.ofNat i) ∈ p.linked := by
  have hhandle : UInt32.ofNat i ∈ p.linked.map Prod.snd := by
    rw [h.handles, List.mem_reverse]
    exact List.mem_map_of_mem (List.mem_range.mpr hi)
  obtain ⟨⟨id, _⟩, hentry, rfl⟩ := List.mem_map.mp hhandle
  exact ⟨id, hentry⟩

end Program

section

variable {lookup : Lookup} {strategy : Strategy} {p q : Program}

/-- Linking that succeeds goes on with the numbering. -/
theorem Link.numbered_fragment (fuel : Nat) (f : Fragment) {handle : UInt32}
    (hclosed : p.constants.Closed) (hp : p.Numbered)
    (h : Link.fragment lookup strategy fuel f p = .ok handle q) : q.Numbered := by
  induction fuel generalizing f p q handle with
  | zero =>
    rcases Link.fragment_ok h with ⟨-, rfl⟩ | ⟨-, -, k, b, hfuel, -⟩
    · exact hp
    · cases hfuel
  | succ fuel ih =>
    rcases Link.fragment_ok h with ⟨-, rfl⟩ | ⟨hnone, rfl, k, b, hfuel, hbody, rfl⟩
    · exact hp
    obtain rfl := Nat.succ.inj hfuel
    have hlink (g : Fragment) (r : Program) (hr : r.constants.Closed) (hnumbered : r.Numbered) :
        EndsIn (fun _ _ => True) (fun _ s => s.Numbered ∧ s.constants.Closed)
          (Link.fragment lookup strategy fuel g r) := by
      have hadvances : r.Advances strategy (stateAfter (Link.fragment lookup strategy fuel g r)) :=
        Link.advances_fragment fuel g hr
      cases hg : Link.fragment lookup strategy fuel g r with
      | error e s => trivial
      | ok handle s =>
        rw [hg] at hadvances
        exact ⟨ih g hr hnumbered hg, hadvances.adds.closed hr⟩
    have hmaintains : (f.context lookup strategy fuel).Maintains
        (.ofProgram (fun _ => True) Program.Numbered fun _ _ => True) :=
      maintains_program (fun _ _ _ => trivial) (fun _ _ _ => trivial) (fun _ _ _ => trivial)
        (fun _ _ _ hr => ⟨hr.handles, hr.ids⟩) (fun _ hr => ⟨hr.handles, hr.ids⟩)
        fun _ g r _ hr hnumbered => hlink g r hr hnumbered
    have hkeeps : Emit.Keeps _ _ [] [] _ := hmaintains.statements f.attrMode f.statements .all
    have hend := hkeeps { program := p.reserve f.id } ⟨hp.reserve hnone, rfl, hclosed, trivial⟩
    rw [hbody] at hend
    have hnumbered : b.program.Numbered := hend.holds
    refine ⟨?_, hnumbered.ids⟩
    rw [Heap.size_blocks_commit]
    exact hnumbered.handles

/-- Linking gives the handle that the fragment has from then on. -/
theorem Link.linked_of_fragment {fuel : Nat} {f : Fragment} {handle : UInt32}
    (hclosed : p.constants.Closed) (h : Link.fragment lookup strategy fuel f p = .ok handle q) :
    q.linked? f.id = some handle := by
  rcases Link.fragment_ok h with ⟨hlinked, rfl⟩ | ⟨-, rfl, k, b, -, hbody, rfl⟩
  · exact hlinked
  have hadvances : (p.reserve f.id).Advances strategy (stateAfter (Emit.statements f.attrMode
      f.statements (f.context lookup strategy k) { program := p.reserve f.id })).program :=
    Link.advances_statements f hclosed fun g r hr => Link.advances_fragment k g hr
  rw [hbody] at hadvances
  refine hadvances.grows.linked _ _ ?_
  rw [Linkage.linked?_reserve, if_pos rfl]

end

namespace CompileOptions

variable {options : CompileOptions} {entry f : Fragment} {p : Program}

theorem Builds.numbered (h : options.Builds entry p) : p.Numbered := by
  induction h with
  | fresh => exact Program.numbered_new
  | compile hbuilds _ hcompile ih => exact Link.numbered_fragment _ _ hbuilds.closed ih hcompile

/-- A fragment that was compiled has the handle that compiling it gave. -/
theorem linked_of_compile {q : Program} {handle : UInt32} (hclosed : p.constants.Closed)
    (h : options.compile f p = .ok handle q) : q.linked? f.id = some handle :=
  Link.linked_of_fragment hclosed h

end CompileOptions

/-! ### Registries -/

/-- What the fragments of a program are, whole templates or pieces of them,
and what their code calls. -/
structure Program.LinkedAs (p : Program) (lookup : Lookup) (entry : Fragment)
    (piece : FragmentId → Option Fragment) : Prop where
  offered : ∀ f, lookup.Offers entry f → piece f.id = some f
  pieces : ∀ id f, piece id = some f →
    f.id = id ∧ f.Regular ∧ ∃ g, lookup.Offers entry g ∧ g.layout = f.layout
  /-- What has a handle has its code there, and in it each call of a layout or partial names the
  handle of that one. -/
  coded : ∀ id handle, p.linked? id = some handle → ∃ f block code, piece id = some f ∧
    p.heap.block? handle = some block ∧
    p.heap.Holds block.offset.toNat (code ++ [⟨.ret, 0, 0, 0⟩]) ∧
    p.constants.calls code = (f.targets lookup).map fun g => p.linked? g.id
  /-- What compiled code invokes has a handle. -/
  invoked : ∀ id f g, (p.linked? id).isSome → piece id = some f → g ∈ f.targets lookup →
    (p.linked? g.id).isSome

/-- In a sound linkage fragments are linked as they are known. -/
theorem Linkage.Sound.linkedAs {lookup : Lookup} (hlookup : lookup.Coherent) {entry : Fragment}
    (hid : entry.id = .entry) {l : Linkage} (hle : Linkage.start lookup entry ≤ l)
    (h : l.Sound lookup .eager []) : l.program.LinkedAs lookup entry l.known := by
  have hcalls {id : FragmentId} {handle : UInt32} (hl : l.program.linked? id = some handle) :
      ∃ f block code, l.known id = some f ∧ l.program.heap.block? handle = some block ∧
        l.program.heap.Holds block.offset.toNat (code ++ [⟨.ret, 0, 0, 0⟩]) ∧
        l.Calls (f.targets lookup) code := by
    obtain ⟨f, hf, hpending | ⟨-, block, code, m, hblock, hholds, hm, hcode⟩⟩ :=
      h.linked id handle hl
    · cases hpending
    · exact ⟨f, block, code, hf, hblock, hholds, hcode.calls hm⟩
  constructor
  · exact fun f hf => Linkage.Grows.known hle _ _ (hf.known hlookup hid)
  · intro id f hf
    have htemplate := h.templates id f hf
    rw [← Linkage.Grows.templates hle] at htemplate
    exact ⟨h.ids id f hf, h.regular id f hf, htemplate⟩
  · intro id handle hl
    obtain ⟨f, block, code, hf, hblock, hholds, hcode⟩ := hcalls hl
    exact ⟨f, block, code, hf, hblock, hholds, hcode.names⟩
  · intro id f g hl hf hg
    obtain ⟨handle, hl⟩ := Option.isSome_iff_exists.mp hl
    obtain ⟨f', block, code, hf', -, -, hcode⟩ := hcalls hl
    obtain rfl := Option.some.inj (hf.symm.trans hf')
    exact hcode.linked g hg

/-- Eager compilation of a template comes to an end, with a handle or an error, if in no template a
block is nested in itself.  Whatever the layouts and partials invoke, in a program that comes out of
a fresh one each of them has one handle at most, it has one if code that was compiled invokes it and
it was known then, and all calls in the code name that handle. -/
theorem Registry.compile_links_once {r : Registry} (hr : r.Acyclic) {layout : Layout}
    (hlayout : layout.template.Acyclic) :
    (∀ p f, p.Attempted (r.options .eager) → r.lookup.Offers (.ofLayout .entry layout) f →
      ∀ q, (r.options .eager).compile f p ≠ .error .outOfFuel q) ∧
    ∀ p f handle q, (r.options .eager).Builds (.ofLayout .entry layout) p →
      r.lookup.Offers (.ofLayout .entry layout) f →
      (r.options .eager).compile f p = .ok handle q →
      q.linked? f.id = some handle ∧ q.Numbered ∧
        (q.Fits → ∃ piece, q.LinkedAs r.lookup (.ofLayout .entry layout) piece) := by
  have hordered := hr.ordered
  refine ⟨fun p f hp hf q => ?_, fun p f handle q hp hf hcompile => ?_⟩
  · refine r.compile_settles .eager hp.closed (fun _ => ⟨hr, ?_⟩) q
    cases hf with
    | entry => exact ⟨hlayout, rfl⟩
    | layout h =>
      exact ⟨hordered.acyclic _ (hordered.layouts _ _ h), hordered.whole _ (hordered.layouts _ _ h)⟩
    | part h =>
      exact ⟨hordered.acyclic _ (hordered.partials _ _ h),
        hordered.whole _ (hordered.partials _ _ h)⟩
  · have hbuilds : (r.options .eager).Builds (.ofLayout .entry layout) q := .compile hp hf hcompile
    refine ⟨CompileOptions.linked_of_compile hp.closed hcompile, hbuilds.numbered, fun hfits => ?_⟩
    obtain ⟨l, rfl, hle, hsound⟩ := hbuilds.sound r.coherent rfl (.whole _ _ nofun) hfits
    exact ⟨l.known, hsound.linkedAs r.coherent rfl hle⟩

/-- A tree whose layout comes back to itself, by its tag and by way of a partial. -/
def forest : Registry :=
  let tree : Template :=
    { statements := [.block "if" (some [.get 0 ["more"]]) none (some 0) none]
      symbols := []
      hasEval := false
      blocks := [⟨[.component "Tree" [] none none,
        .append (.helper "partial" (some [.value (.str "twig")]) none) false], []⟩] }
  let twig : Template :=
    { statements := [.component "Tree" [] none none], symbols := [], hasEval := false,
      blocks := [] }
  { components := #[⟨"Tree", tree, .templateOnly⟩], partials := #[("twig", twig)] }

def forestLayout : Layout :=
  ⟨{ statements := [.component "Tree" [] none none, .component "Tree" [] none none]
     symbols := []
     hasEval := false
     blocks := [] }, "main"⟩

theorem forest_acyclic : forest.Acyclic := by
  constructor
  · intro c hc
    obtain rfl := List.mem_singleton.mp (Array.mem_toList_iff.mpr hc)
    refine Template.acyclic_of_descends ?_
    rintro i j ⟨b, hb, hj⟩
    cases i with
    | zero =>
      obtain rfl := Option.some.inj hb
      exact absurd hj List.not_mem_nil
    | succ i => cases hb
  · intro entry hentry
    obtain rfl := List.mem_singleton.mp (Array.mem_toList_iff.mpr hentry)
    exact Template.acyclic_of_descends fun i j ⟨b, hb, _⟩ => nomatch hb

/-- The tree and the twig that come back to each other are compiled once each, and that is all that
the entry calls. -/
theorem forest_links_once :
    (∀ q, (forest.options .eager).compile (.ofLayout .entry forestLayout) {} ≠
      .error .outOfFuel q) ∧
    ∃ handle q piece,
      (forest.options .eager).compile (.ofLayout .entry forestLayout) {} = .ok handle q ∧
      q.Numbered ∧ q.LinkedAs forest.lookup (.ofLayout .entry forestLayout) piece ∧
      q.linked? .entry = some 0 ∧ q.linked? (.layout 0) = some 1 ∧
      q.linked? (.part 0) = some 3 := by
  have hlayout : forestLayout.template.Acyclic :=
    Template.acyclic_of_descends fun i j ⟨b, hb, _⟩ => nomatch hb
  obtain ⟨hsettles, hlinks⟩ := Registry.compile_links_once forest_acyclic hlayout
  refine ⟨hsettles {} _ .new .entry, ?_⟩
  have hcomputed : let r := (forest.options .eager).compile (.ofLayout .entry forestLayout) {}
      hasResult r = true ∧ (stateAfter r).Fits ∧ (stateAfter r).linked? .entry = some 0 ∧
        (stateAfter r).linked? (.layout 0) = some 1 ∧
        (stateAfter r).linked? (.part 0) = some 3 := by
    rw [CompileOptions.compile_eq_compileWhole]
    decide +kernel
  obtain ⟨hresult, hfits, hentry, htree, htwig⟩ := hcomputed
  obtain ⟨handle, hcompile⟩ := eq_ok_of_hasResult hresult
  obtain ⟨-, hnumbered, hpieces⟩ := hlinks {} _ handle _ .fresh .entry hcompile
  obtain ⟨piece, hpiece⟩ := hpieces hfits
  exact ⟨handle, _, piece, hcompile, hnumbered, hpiece, hentry, htree, htwig⟩

end TemplateMachine
