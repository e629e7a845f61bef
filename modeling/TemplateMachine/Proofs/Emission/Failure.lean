import TemplateMachine.Code.Verify
import TemplateMachine.Machine.Registry
import TemplateMachine.Proofs.Emission.Advance

/-! Failed compilation.  What was compiled before stays as it is, and the fragment that failed
leaves no code and keeps no handle.  A block that was finished before the failure may still call the
handle that was given up. -/

namespace TemplateMachine

namespace Program

variable {options : CompileOptions} {f : Fragment} {p q : Program} {e : Stop CompileError}

/-- Programs that attempts to compile fragments lead to, whether these fail or not. -/
inductive Attempted (options : CompileOptions) : Program → Prop
  | new : Attempted options {}
  | attempt {p : Program} (f : Fragment) :
      Attempted options p → Attempted options (stateAfter (options.compile f p))

theorem Advances.of_compile (hclosed : p.constants.Closed) (f : Fragment) :
    p.Advances options.strategy (stateAfter (options.compile f p)) :=
  Link.advances_fragment _ f hclosed

theorem closed_of_compile {handle : UInt32} (hclosed : p.constants.Closed)
    (hcompile : options.compile f p = .ok handle q) : q.constants.Closed := by
  have hadvances : p.Advances options.strategy _ := .of_compile hclosed f
  rw [hcompile] at hadvances
  exact hadvances.adds.closed hclosed

theorem Attempted.closed (h : p.Attempted options) : p.constants.Closed := by
  induction h with
  | new => exact Constants.closed_initial
  | attempt f _ ih => exact (Advances.of_compile ih f).adds.closed ih

/-- Between attempts every handle that is kept for a fragment is finished. -/
theorem Attempted.finished (h : p.Attempted options) (hfits : p.heap.blocks.size ≤ UInt32.size)
    {id : FragmentId} {handle : UInt32} (hlinked : p.linked? id = some handle) :
    (p.heap.block? handle).isSome := by
  induction h generalizing id handle with
  | new => cases hlinked
  | @attempt p f h ih =>
    have hadvances : p.Advances options.strategy _ := .of_compile h.closed f
    rcases hadvances.settled hfits id handle hlinked with hbefore | hafter
    · obtain ⟨b, hb⟩ := Option.isSome_iff_exists.mp
        (ih (Nat.le_trans hadvances.grows.blocks hfits) hbefore)
      exact Option.isSome_iff_exists.mpr ⟨b, hadvances.block? hfits hb⟩
    · exact hafter

/-- A fragment that cannot be compiled has no handle, and the one that was reserved for it stays
without code. -/
theorem unlinked_of_compile (hclosed : p.constants.Closed)
    (hcompile : options.compile f p = .error e q) (hfits : q.heap.blocks.size ≤ UInt32.size) :
    q.linked? f.id = none ∧ q.heap.block? (UInt32.ofNat p.heap.blocks.size) = none := by
  have hends := Link.fragment_ends options.lookup options.strategy
    (options.nesting + f.layout.template.fragmentCount) f p
  have hpositive : 0 < f.layout.template.fragmentCount := by
    rw [Template.fragmentCount]
    omega
  obtain ⟨fuel, hfuel⟩ := Nat.exists_eq_add_one_of_ne_zero
    (show options.nesting + f.layout.template.fragmentCount ≠ 0 by omega)
  rw [show Link.fragment .. = .error e q from hcompile, hfuel] at hends
  cases hends with
  | @abandoned _ b _ hnone hbody =>
    have hadvances : (p.reserve f.id).Advances options.strategy
        (stateAfter (Emit.statements f.attrMode f.statements
          (f.context options.lookup options.strategy fuel)
            { program := p.reserve f.id })).program :=
      Link.advances_statements f hclosed fun g r hr => Link.advances_fragment fuel g hr
    rw [hbody] at hadvances
    have hless : p.heap.blocks.size < b.program.heap.blocks.size := by
      have := hadvances.grows.blocks
      rwa [blocks_reserve, Array.size_push] at this
    have hreserved := hadvances.blocks hfits p.heap.blocks.size Block.reserved
      (by rw [blocks_reserve, Array.getElem?_push_size])
    refine ⟨by rw [linked?_unlink, if_pos rfl], ?_⟩
    show Option.filter _ (b.program.heap.blocks[(UInt32.ofNat p.heap.blocks.size).toNat]?) = none
    rw [UInt32.toNat_ofNat_of_lt' (Nat.lt_of_lt_of_le hless hfits), hreserved]
    rfl

/-- A failed attempt leaves all words and finished blocks as they are and the fragment without code,
and whatever keeps a handle has its code. -/
theorem Attempted.abandons (h : p.Attempted options) (hcompile : options.compile f p = .error e q)
    (hfits : q.heap.blocks.size ≤ UInt32.size) :
    (∀ address w, p.heap.word? address = some w → q.heap.word? address = some w) ∧
      (∀ handle b, p.heap.block? handle = some b → q.heap.block? handle = some b) ∧
      q.linked? f.id = none ∧ q.heap.block? (UInt32.ofNat p.heap.blocks.size) = none ∧
      ∀ id handle, q.linked? id = some handle → (q.heap.block? handle).isSome := by
  have hafter : stateAfter (options.compile f p) = q := by rw [hcompile]; rfl
  have hadvances : p.Advances options.strategy q := hafter ▸ .of_compile h.closed f
  have hattempted : q.Attempted options := hafter ▸ .attempt f h
  obtain ⟨hunlinked, hreserved⟩ := unlinked_of_compile h.closed hcompile hfits
  exact ⟨hadvances.grows.words, fun handle b hb => hadvances.block? hfits hb, hunlinked, hreserved,
    fun id handle => hattempted.finished hfits⟩

def ringOuter : Template where
  statements := [.component "Inner" [] none none, .append (.helper "missing" none none) false]
  symbols := []
  hasEval := false
  blocks := []

def ringInner : Template where
  statements := [.component "Outer" [] none none]
  symbols := []
  hasEval := false
  blocks := []

/-- Two layouts that invoke each other; the outer one cannot be compiled. -/
def ring : Registry where
  components := #[⟨"Outer", ringOuter, .templateOnly⟩, ⟨"Inner", ringInner, .templateOnly⟩]

/-- The error of a check that fails. -/
def failure? {ε α : Type} : Except ε α → Option ε
  | .ok _ => none
  | .error e => some e

theorem error_of_failure? {ε α : Type} {r : Except ε α} {e : ε} (h : failure? r = some e) :
    r = .error e := by
  cases r with
  | ok a => cases h
  | error e' => exact congrArg Except.error (Option.some.inj h)

/-- The outer layout of the ring has no handle after it has failed, but the inner one is finished by
then and goes on calling the handle that was given up. -/
theorem ring_calls_unfinished :
    let options := ring.options .eager
    let outer := Fragment.ofLayout (.layout 0) ⟨ringOuter, "Outer"⟩
    let q := stateAfter (options.compile outer {})
    (∃ e, options.compile outer {} = .error e q) ∧ q.linked? outer.id = none ∧
      q.linked? (.layout 1) = some 1 ∧ (q.heap.block? 1).isSome ∧
      ∃ address, q.verify true 1 = .error (.badOperand address .invokeStatic "block" 0) := by
  intro options outer q
  obtain ⟨e, hcompile⟩ : ∃ e, options.compile outer {} = .error e q :=
    eq_error_of_hasResult (by decide +kernel)
  obtain ⟨-, -, hunlinked, -, hfinished⟩ := Attempted.abandons .new hcompile (by decide +kernel)
  have hlinked : q.linked? (.layout 1) = some 1 := by decide +kernel
  exact ⟨⟨e, hcompile⟩, hunlinked, hlinked, hfinished _ _ hlinked,
    48, error_of_failure? (by decide +kernel)⟩

end Program

theorem CompileOptions.Builds.closed {options : CompileOptions} {entry : Fragment} {p : Program}
    (h : options.Builds entry p) : p.constants.Closed := by
  induction h with
  | fresh => exact Constants.closed_initial
  | compile _ _ hcompile ih => exact Program.closed_of_compile ih hcompile

end TemplateMachine
