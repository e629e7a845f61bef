import TemplateMachine.Proofs.Emission.Failure
import TemplateMachine.Proofs.Verify.Reach

/-! Histories.  Fragments are compiled into a program and its blocks are rendered, with success or
without.  All the while the heap is filled block by block, so the finished blocks tile it and none
of them moves. -/

namespace TemplateMachine

/-- Programs that attempts to compile fragments lead to from a program,
whether these fail or not. -/
inductive CompileOptions.Attempts (options : CompileOptions) (p : Program) : Program → Prop
  | refl : Attempts options p p
  | attempt {q : Program} (f : Fragment) :
      Attempts options p q → Attempts options p (stateAfter (options.compile f q))

theorem CompileOptions.Links.attempts {options : CompileOptions} {p q : Program}
    (h : options.Links p q) : options.Attempts p q := by
  induction h with
  | refl => exact .refl
  | @link q r f handle _ hcompile ih =>
    have hafter : stateAfter (options.compile f q) = r := by rw [hcompile]; rfl
    exact hafter ▸ ih.attempt f

/-- However a run ends, all that has become of the program comes from
attempts to compile fragments. -/
theorem Exec.EndsLinked.attempts {α : Type} {options : CompileOptions} {m : Machine}
    {r : EStateM.Result (Stop RuntimeError) Machine α} (h : EndsLinked options m r) :
    options.Attempts m.program (stateAfter r).program := by
  cases r with
  | ok a m' => exact CompileOptions.Links.attempts h
  | error e m' =>
    rcases h with hlinks | ⟨-, q, f, failure, hlinks, hfailed⟩
    · exact hlinks.attempts
    · have hafter : stateAfter (options.compile f q) = m'.program := by rw [hfailed]; rfl
      exact hafter ▸ hlinks.attempts.attempt f

theorem Setup.attempts_renderWithin (setup : Setup) (fuel : Nat) (p : Program) (entry : UInt32)
    (self : Json) : setup.options.Attempts p (setup.renderWithin fuel p entry self).program := by
  unfold renderWithin
  cases p.heap.block? entry with
  | none => exact .refl
  | some b =>
    have hrun := ((Exec.lasting_run fuel).links setup
      (.start p b.offset.toNat b.scopeSize.toNat self)).attempts
    revert hrun
    dsimp only
    cases Exec.run fuel setup (.start p b.offset.toNat b.scopeSize.toNat self) with
    | ok _ m => exact id
    | error e m => exact id

namespace Program

/-- What a program may go through: fragments are compiled and blocks are rendered, each time with
any options and any host, with success or without. -/
inductive History (p : Program) : Program → Prop
  | refl : History p p
  | compile {q : Program} (options : CompileOptions) (f : Fragment) :
      History p q → History p (stateAfter (options.compile f q))
  | render {q : Program} (setup : Setup) (fuel : Nat) (entry : UInt32) (self : Json) :
      History p q → History p (setup.renderWithin fuel q entry self).program

/-- The heap of a program is filled further on, block by block. -/
structure Piles (p q : Program) : Prop where
  closed : q.constants.Closed
  blocks : p.heap.blocks.size ≤ q.heap.blocks.size
  path : q.heap.blocks.size ≤ UInt32.size → p.heap.writing = none →
    p.heap.Path q.heap ∧ q.heap.writing = none

namespace Piles

variable {p q r : Program}

theorem refl (hclosed : p.constants.Closed) : p.Piles p :=
  ⟨hclosed, Nat.le_refl _, fun _ hwriting => ⟨.refl, hwriting⟩⟩

theorem trans (h : p.Piles q) (h' : q.Piles r) : p.Piles r where
  closed := h'.closed
  blocks := Nat.le_trans h.blocks h'.blocks
  path hfits hwriting := by
    obtain ⟨hfirst, hwriting⟩ := h.path (Nat.le_trans h'.blocks hfits) hwriting
    obtain ⟨hsecond, hwriting⟩ := h'.path hfits hwriting
    exact ⟨hfirst.trans hsecond, hwriting⟩

theorem compile (options : CompileOptions) (f : Fragment) (hclosed : p.constants.Closed) :
    p.Piles (stateAfter (options.compile f p)) := by
  have hadvances : p.Advances options.strategy _ := .of_compile hclosed f
  exact ⟨hadvances.adds.closed hclosed, hadvances.grows.blocks, hadvances.path⟩

theorem attempts {options : CompileOptions} (h : options.Attempts p q)
    (hclosed : p.constants.Closed) : p.Piles q := by
  induction h with
  | refl => exact .refl hclosed
  | attempt f _ ih => exact ih.trans (.compile options f ih.closed)

end Piles

theorem History.piles {p q : Program} (h : p.History q)
    (hclosed : p.constants.Closed) : p.Piles q := by
  induction h with
  | refl => exact .refl hclosed
  | compile options f _ ih => exact ih.trans (.compile options f ih.closed)
  | render setup fuel entry self _ ih =>
    exact ih.trans (.attempts (setup.attempts_renderWithin fuel _ entry self) ih.closed)

/-- Whatever a new program goes through, no block is opened while another is, the finished
blocks tile the heap, and once a block is finished neither its place nor its words change.
Addresses and handles are words, so there must not be too many of them; failures leave handles
behind that have no block. -/
theorem History.tiles_heap {p q : Program} (hbefore : History {} p) (hafter : p.History q)
    (hwords : q.heap.words.size < UInt32.size) (hblocks : q.heap.blocks.size ≤ UInt32.size) :
    p.heap.Path q.heap ∧ p.heap.Tiled ∧ q.heap.Tiled ∧
      ∀ handle b, p.heap.block? handle = some b → q.heap.block? handle = some b ∧
        ∀ a, b.Spans a → q.heap.word? a = p.heap.word? a := by
  have hfirst : Program.Piles {} p := hbefore.piles Constants.closed_initial
  have hsecond : p.Piles q := hafter.piles hfirst.closed
  obtain ⟨hstart, hwriting⟩ := hfirst.path (Nat.le_trans hsecond.blocks hblocks) rfl
  obtain ⟨hpath, hwriting'⟩ := hsecond.path hblocks hwriting
  obtain ⟨hpaved, -⟩ := hstart.paved Heap.paved_empty (Nat.lt_of_le_of_lt hpath.size_words hwords)
  obtain ⟨hpaved', hkeeps⟩ := hpath.paved hpaved hwords
  have htiled := hpaved.tiled hwriting (Nat.le_trans hsecond.blocks hblocks)
  refine ⟨hpath, htiled, hpaved'.tiled hwriting' hblocks, fun handle b hb =>
    ⟨hkeeps.block? hb, fun a ha => ?_⟩⟩
  obtain ⟨w, hw⟩ : ∃ w, p.heap.word? a = some w :=
    ⟨_, Array.getElem?_eq_getElem ((htiled.covers a).mpr ⟨handle, b, hb, ha⟩)⟩
  rw [hw, hkeeps.words a w hw]

/-- A template that calls a helper that is not there. -/
def misspelt : Fragment :=
  .ofLayout (.part 0)
    ⟨{ statements :=
         [.text "hello ", .append (.helper "upcase" (some [.value (.str "Ada")]) none) false]
       symbols := []
       hasEval := false
       blocks := [] },
     "main"⟩

/-- The greeting is compiled and rendered, which compiles its block, and then a
template fails to compile: that leaves a handle without a block, and the heap is tiled
by the two that are finished. -/
theorem greeting_tiles_heap :
    let compiled := stateAfter (greetingSetup.options.compile greeting {})
    let rendered :=
      (greetingSetup.renderWithin 100 compiled 0 (.obj [("name", .str "Ada")])).program
    let failed := stateAfter (greetingSetup.options.compile misspelt rendered)
    failed.heap.blocks.size = 3 ∧ failed.heap.handles = [0, 1] ∧
      compiled.heap.Path failed.heap ∧ compiled.heap.Tiled ∧ failed.heap.Tiled ∧
      ∀ handle b, compiled.heap.block? handle = some b → failed.heap.block? handle = some b ∧
        ∀ a, b.Spans a → failed.heap.word? a = compiled.heap.word? a := by
  have hcomputed :
      let compiled := stateAfter (greetingSetup.options.compile greeting {})
      let rendered :=
        (greetingSetup.renderWithin 100 compiled 0 (.obj [("name", .str "Ada")])).program
      let failed := stateAfter (greetingSetup.options.compile misspelt rendered)
      failed.heap.blocks.size = 3 ∧ failed.heap.handles = [0, 1] ∧
        failed.heap.words.size < UInt32.size := by
    rw [Setup.renderWithin_eq_renderWhole, CompileOptions.compile_eq_compileWhole]
    decide +kernel
  dsimp only at hcomputed ⊢
  obtain ⟨hblocks, hhandles, hwords⟩ := hcomputed
  refine ⟨hblocks, hhandles,
    History.tiles_heap (.compile _ _ .refl) (.compile _ _ (.render _ _ _ _ .refl)) hwords ?_⟩
  rw [hblocks]
  decide

end Program

end TemplateMachine
