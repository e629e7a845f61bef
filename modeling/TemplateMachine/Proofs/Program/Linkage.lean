import TemplateMachine.Proofs.Program.Word
import TemplateMachine.Proofs.Walk.Compilable

/-! Programs together with the fragments that have been named so far.  A program only knows the
identities of fragments; a linkage also says which fragment an identity belongs to, and which
templates there are fragments of. -/

namespace TemplateMachine

/-- A program, the fragments of the identities that are in use, and the templates that those may
belong to. -/
structure Linkage where
  program : Program
  known : FragmentId → Option Fragment
  templates : Layout → Prop

namespace Linkage

/-- `L` grows into `M`: finished blocks stay, and so do the fragments of identities. -/
structure Grows (L M : Linkage) : Prop where
  program : L.program.Grows M.program
  finished : ∀ handle block, L.program.heap.block? handle = some block →
    M.program.heap.block? handle = some block
  known : ∀ id f, L.known id = some f → M.known id = some f
  templates : L.templates = M.templates

instance : LE Linkage := ⟨Grows⟩

theorem le_refl (L : Linkage) : L ≤ L := ⟨.refl _, fun _ _ h => h, fun _ _ h => h, rfl⟩

theorem le_trans {L M N : Linkage} (h : L ≤ M) (h' : M ≤ N) : L ≤ N :=
  ⟨h.program.trans h'.program, fun handle block hb => h'.finished handle block
    (h.finished handle block hb), fun id f hf => h'.known id f (h.known id f hf),
    h.templates.trans h'.templates⟩

theorem Grows.constants {L M : Linkage} (h : L ≤ M) :
    L.program.constants.Extends M.program.constants := Program.Grows.constants (Grows.program h)

theorem Grows.linked {L M : Linkage} (h : L ≤ M) {id : FragmentId} {handle : UInt32}
    (hl : L.program.linked? id = some handle) : M.program.linked? id = some handle :=
  Program.Grows.linked (Grows.program h) id handle hl

end Linkage

/-! ### Code in the heap -/

namespace Heap

/-- The instructions `code` stand at an address. -/
def Holds (h : Heap) : Nat → List Instruction → Prop
  | _, [] => True
  | address, i :: rest =>
    h.word? address = some i.op.number ∧ h.word? (address + 1) = some i.a ∧
      h.word? (address + 2) = some i.b ∧ h.word? (address + 3) = some i.c ∧
      Holds h (address + 4) rest

theorem Holds.append {h : Heap} {address : Nat} {first second : List Instruction}
    (hcode : h.Holds address (first ++ second)) :
    h.Holds address first ∧ h.Holds (address + 4 * first.length) second := by
  induction first generalizing address with
  | nil => exact ⟨trivial, hcode⟩
  | cons i rest ih =>
    obtain ⟨hop, ha, hb, hc, hrest⟩ := hcode
    obtain ⟨hleft, hright⟩ := ih hrest
    refine ⟨⟨hop, ha, hb, hc, hleft⟩, ?_⟩
    rw [List.length_cons, show address + 4 * (rest.length + 1) = address + 4 + 4 * rest.length by
      omega]
    exact hright

theorem holds_append {h : Heap} {address : Nat} {first second : List Instruction}
    (hfirst : h.Holds address first) (hsecond : h.Holds (address + 4 * first.length) second) :
    h.Holds address (first ++ second) := by
  induction first generalizing address with
  | nil => exact hsecond
  | cons i rest ih =>
    obtain ⟨hop, ha, hb, hc, hrest⟩ := hfirst
    refine ⟨hop, ha, hb, hc, ih hrest ?_⟩
    rw [List.length_cons, show address + 4 * (rest.length + 1) = address + 4 + 4 * rest.length by
      omega] at hsecond
    exact hsecond

theorem Holds.mono {h g : Heap} (hg : ∀ a w, h.word? a = some w → g.word? a = some w)
    {address : Nat} {code : List Instruction} (hcode : h.Holds address code) :
    g.Holds address code := by
  induction code generalizing address with
  | nil => trivial
  | cons i rest ih =>
    obtain ⟨hop, ha, hb, hc, hrest⟩ := hcode
    exact ⟨hg _ _ hop, hg _ _ ha, hg _ _ hb, hg _ _ hc, ih hrest⟩

/-- Code lies within the heap. -/
theorem Holds.le_size {h : Heap} {address : Nat} {code : List Instruction}
    (hcode : h.Holds address code) (hne : code ≠ []) :
    address + 4 * code.length ≤ h.words.size := by
  induction code generalizing address with
  | nil => exact absurd rfl hne
  | cons i rest ih =>
    obtain ⟨-, -, -, hc, hrest⟩ := hcode
    have hsize : address + 3 < h.words.size := (Array.getElem?_eq_some_iff.mp hc).1
    cases rest with
    | nil => simp only [List.length_cons, List.length_nil]; omega
    | cons j rest =>
      have := ih hrest (by simp)
      simp only [List.length_cons] at *
      omega

end Heap

end TemplateMachine
