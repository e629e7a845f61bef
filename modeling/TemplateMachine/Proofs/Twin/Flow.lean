import TemplateMachine.Proofs.Run.Frame
import TemplateMachine.Proofs.Twin.Action

/-! How control goes through the code of a block, on two machines side by side.  The code is held
against the shapes of the stack, of the frames that the block has entered; what is around the block
is a chain of frames that were entered by the blocks which called it. -/

namespace TemplateMachine

/-! ### Code -/

/-- Code stands in the heaps of both programs. -/
structure Duo.Holds (d : Duo) (a a' : Nat) (c c' : List Instruction) : Prop where
  left : d.left.heap.Holds a c
  right : d.right.heap.Holds a' c'

namespace Duo.Holds

variable {d e : Duo} {a a' : Nat} {i i' : Instruction} {b b' c c' : List Instruction}

theorem mono (h : d.Holds a a' c c') (he : d.Within e) : e.Holds a a' c c' :=
  ⟨h.left.mono he.left.words, h.right.mono he.right.words⟩

theorem next (h : d.Holds a a' (i :: c) (i' :: c')) : d.Holds (a + 4) (a' + 4) c c' :=
  ⟨h.left.2.2.2.2, h.right.2.2.2.2⟩

end Duo.Holds

/-- Nothing but a return ends a run. -/
def Opcode.returns : Opcode → Bool
  | .ret => true
  | _ => false

theorem Opcode.ne_ret {op : Opcode} (h : op.returns = false) : op ≠ .ret := by
  rintro rfl
  cases h

/-- What is known of the stack above a frame, and the code that a return in the frame leads to, if
that is code of the same block. -/
structure Level where
  shape : Shape
  back : Option (List Instruction × List Instruction) := none

/-- The code of two blocks runs alike, from stacks of these shapes; the
innermost frame comes first. -/
inductive Flows (setup : Setup) (d : Duo) : List Instruction → List Instruction → List Level → Prop
  | act {i i' : Instruction} {c c' : List Instruction} {s s' : Shape}
      {back : Option (List Instruction × List Instruction)} {ls : List Level} :
      i.op.returns = false → i'.op.returns = false → Acts setup d i i' s s' →
      Flows setup d c c' (⟨s', back⟩ :: ls) → Flows setup d (i :: c) (i' :: c') (⟨s, back⟩ :: ls)
  | yields {c c' : List Instruction} {s s' : Shape}
      {back : Option (List Instruction × List Instruction)} {ls : List Level} :
      s.Yields s' → Flows setup d c c' (⟨s', back⟩ :: ls) →
      Flows setup d c c' (⟨s, back⟩ :: ls)
  | pushFrame {c c' : List Instruction} {l : Level} {ls : List Level} :
      Flows setup d c c' (⟨.loose 0, none⟩ :: l :: ls) →
      Flows setup d (⟨.pushFrame, 0, 0, 0⟩ :: c) (⟨.pushFrame, 0, 0, 0⟩ :: c') (l :: ls)
  | popFrame {c c' : List Instruction} {back : Option (List Instruction × List Instruction)}
      {l : Level} {ls : List Level} :
      Flows setup d c c' (l :: ls) →
      Flows setup d (⟨.popFrame, 0, 0, 0⟩ :: c) (⟨.popFrame, 0, 0, 0⟩ :: c')
        (⟨.loose 0, back⟩ :: l :: ls)
  /-- The return of the frame is to code further on. -/
  | returnTo {b b' c c' : List Instruction} {s : Shape} {l : Level} {ls : List Level} :
      Flows setup d c c' (⟨.loose 0, some (c, c')⟩ :: l :: ls) →
      Flows setup d (b ++ c) (b' ++ c') (⟨s, some (c, c')⟩ :: l :: ls) →
      Flows setup d (.skip .returnTo b :: b ++ c) (.skip .returnTo b' :: b' ++ c')
        (⟨s, none⟩ :: l :: ls)
  | ret {c c' : List Instruction} {l : Level} {ls : List Level}
      {back : List Instruction × List Instruction} :
      Flows setup d (⟨.ret, 0, 0, 0⟩ :: c) (⟨.ret, 0, 0, 0⟩ :: c')
        (⟨.loose 0, some back⟩ :: l :: ls)
  /-- The return to the block that called this one. -/
  | leave {c c' : List Instruction} :
      Flows setup d (⟨.ret, 0, 0, 0⟩ :: c) (⟨.ret, 0, 0, 0⟩ :: c') [⟨.loose 0, none⟩]
  | branch {expected : Bool} {b b' c c' : List Instruction} {s : Shape}
      {back : Option (List Instruction × List Instruction)} {ls : List Level} :
      Flows setup d c c' (⟨s, back⟩ :: ls) → Flows setup d (b ++ c) (b' ++ c') (⟨s, back⟩ :: ls) →
      Flows setup d (.skip (if expected then .jumpIf else .jumpUnless) b :: b ++ c)
        (.skip (if expected then .jumpIf else .jumpUnless) b' :: b' ++ c')
        (⟨s.push .ref, back⟩ :: ls)
  | jump {b b' c c' : List Instruction} {l : Level} {ls : List Level} :
      Flows setup d c c' (l :: ls) →
      Flows setup d (.skip .jump b :: b ++ c) (.skip .jump b' :: b' ++ c') (l :: ls)
  | enterList {b b' c c' : List Instruction} {s : Shape}
      {back : Option (List Instruction × List Instruction)} {ls : List Level} :
      c ≠ [] → c' ≠ [] →
      Flows setup d (b ++ c) (b' ++ c') (⟨s.push .solid, back⟩ :: ls) →
      Flows setup d (.skip .enterList b :: b ++ c) (.skip .enterList b' :: b' ++ c')
        (⟨s.push .stray, back⟩ :: ls)
  | iterate {b b' c c' : List Instruction} {back : Option (List Instruction × List Instruction)}
      {ls : List Level} :
      Flows setup d c c' (⟨.loose 0, back⟩ :: ls) →
      Flows setup d (b ++ c) (b' ++ c') (⟨((Shape.loose 0).push .ref).push .ref, back⟩ :: ls) →
      Flows setup d (.skip .iterate b :: b ++ c) (.skip .iterate b' :: b' ++ c')
        (⟨.loose 0, back⟩ :: ls)
  /-- A call of the block on the stack. -/
  | invokeVirtual {c c' : List Instruction} {l : Level} {ls : List Level} :
      Flows setup d c c' (⟨.loose 0, none⟩ :: l :: ls) →
      Flows setup d (⟨.invokeVirtual, 0, 0, 0⟩ :: c) (⟨.invokeVirtual, 0, 0, 0⟩ :: c')
        (⟨(Shape.loose 0).push .any, none⟩ :: l :: ls)
  | invokeStatic {handle handle' : UInt32} {c c' : List Instruction} {l : Level} {ls : List Level} :
      d.Blocks setup.options handle handle' → Flows setup d c c' (⟨.loose 0, none⟩ :: l :: ls) →
      Flows setup d (⟨.invokeStatic, handle, 0, 0⟩ :: c) (⟨.invokeStatic, handle', 0, 0⟩ :: c')
        (⟨.loose 0, none⟩ :: l :: ls)
  | invokeYield {c c' : List Instruction} {s : Shape}
      {back : Option (List Instruction × List Instruction)} {ls : List Level} :
      Flows setup d c c' (⟨.loose 0, none⟩ :: ⟨s, back⟩ :: ls) →
      Flows setup d (⟨.invokeYield, 0, 0, 0⟩ :: c) (⟨.invokeYield, 0, 0, 0⟩ :: c')
        (⟨((s.push .solid).push .any).push .any, back⟩ :: ls)
  | invokeLayout {n : Nat} {c c' : List Instruction}
      {back : Option (List Instruction × List Instruction)} {ls : List Level} :
      Flows setup d c c' (⟨.loose 0, none⟩ :: ⟨.loose n, back⟩ :: ls) →
      Flows setup d (⟨.invokeComponentLayout, Emit.current, 0, 0⟩ :: c)
        (⟨.invokeComponentLayout, Emit.current, 0, 0⟩ :: c')
        (⟨((((Shape.loose (n + 6)).push .solid).push .ref).push .any).push .any, back⟩ :: ls)

namespace Flows

variable {setup : Setup} {d e : Duo} {c c' : List Instruction} {ls : List Level}

theorem mono (h : Flows setup d c c' ls) (he : d.Within e) : Flows setup e c c' ls := by
  induction h with
  | act hi hi' hacts _ ih => exact .act hi hi' (Exec.acts_mono hacts he) ih
  | yields hs _ ih => exact .yields hs ih
  | pushFrame _ ih => exact .pushFrame ih
  | popFrame _ ih => exact .popFrame ih
  | returnTo _ _ ih ih' => exact .returnTo ih ih'
  | ret => exact .ret
  | leave => exact .leave
  | branch _ _ ih ih' => exact .branch ih ih'
  | jump _ ih => exact .jump ih
  | enterList hc hc' _ ih => exact .enterList hc hc' ih
  | iterate _ _ ih ih' => exact .iterate ih ih'
  | invokeVirtual _ ih => exact .invokeVirtual ih
  | invokeStatic hblocks _ ih => exact .invokeStatic (hblocks.mono he) ih
  | invokeYield _ ih => exact .invokeYield ih
  | invokeLayout _ ih => exact .invokeLayout ih

theorem ne_nil (h : Flows setup d c c' ls) : c ≠ [] ∧ c' ≠ [] := by
  induction h with
  | yields _ _ ih => exact ih
  | _ => exact ⟨List.cons_ne_nil _ _, List.cons_ne_nil _ _⟩

end Flows

/-! ### Frames -/

/-- A return in a frame leads to the code that it should. -/
def Returns (setup : Setup) (d : Duo) (back : Option (List Instruction × List Instruction))
    (outer : List Level) (ra ra' : Nat) : Prop :=
  ∀ c c', back = some (c, c') →
    d.Holds ra ra' c c' ∧ Flows setup d c c' (⟨.loose 0, some (c, c')⟩ :: outer)

/-- What is below the values of a level: its frame, which was entered from the level around
it, or the values that the calling block has.  A frame of which something was taken is
never left through its end. -/
inductive Chain (setup : Setup) (d : Duo) :
    Option (List Instruction × List Instruction) → List Level →
    Nat → Nat → Nat → List StackPair → Prop
  | halt : Chain setup d none [] haltAddress haltAddress 0 []
  | caller {ra ra' fp : Nat} {c c' : List Instruction} {l : Level} {ls : List Level}
      {base : List StackPair} :
      d.Holds ra ra' c c' → Flows setup d c c' (⟨.loose 0, none⟩ :: l :: ls) →
      Chain setup d none (l :: ls) ra ra' fp base → Chain setup d none [] ra ra' fp base
  | frame {back : Option (List Instruction × List Instruction)} {l : Level} {ls : List Level}
      {ra ra' ra₀ ra₀' fp₀ : Nat} {top base : List StackPair} :
      Returns setup d back (l :: ls) ra ra' → l.shape.Fits setup.options d top →
      Chain setup d l.back ls ra₀ ra₀' fp₀ base →
      Chain setup d back (l :: ls) ra ra' (top ++ base).length
        ((.address fp₀, .address fp₀) :: (.address ra₀, .address ra₀') :: (top ++ base))
  | damaged {back : Option (List Instruction × List Instruction)} {l : Level} {ls : List Level}
      {ra ra' fp : Nat} {base : List StackPair} :
      Returns setup d back (l :: ls) ra ra' →
      (∀ c ∈ base, c.1.Alike setup.options d c.2) → base.length ≤ fp + 1 →
      Chain setup d back (l :: ls) ra ra' fp base

section

variable {setup : Setup} {d e : Duo} {back : Option (List Instruction × List Instruction)}
variable {ls : List Level} {ra ra' fp : Nat} {base : List StackPair}

theorem Returns.mono {outer : List Level} (h : Returns setup d back outer ra ra')
    (he : d.Within e) :
    Returns setup e back outer ra ra' :=
  fun c c' hback => ⟨(h c c' hback).1.mono he, (h c c' hback).2.mono he⟩

theorem Returns.none {outer : List Level} : Returns setup d none outer ra ra' := nofun

theorem Shape.Fits.alike {o : CompileOptions} {s : Shape} {top : List StackPair}
    (h : s.Fits o d top) {c : StackPair} (hc : c ∈ top) : c.1.Alike o d c.2 := by
  obtain ⟨us, vs, rfl, hus, hvs, -⟩ := h.split
  rcases List.mem_append.mp hc with hc | hc
  · exact Kind.alike_of_mem hus hc
  · exact .twin (hvs c hc)

namespace Chain

theorem mono (h : Chain setup d back ls ra ra' fp base) (he : d.Within e) :
    Chain setup e back ls ra ra' fp base := by
  induction h with
  | halt => exact .halt
  | caller hholds hflows _ ih => exact .caller (hholds.mono he) (hflows.mono he) ih
  | frame hreturns hfits _ ih => exact .frame (hreturns.mono he) (hfits.mono he) ih
  | damaged hreturns halike hlength =>
    exact .damaged (hreturns.mono he) (fun c hc => (halike c hc).mono he) hlength

theorem alike (h : Chain setup d back ls ra ra' fp base) {c : StackPair} (hc : c ∈ base) :
    c.1.Alike setup.options d c.2 := by
  induction h with
  | halt => cases hc
  | caller _ _ _ ih => exact ih hc
  | frame _ hfits _ ih =>
    rcases List.mem_cons.mp hc with rfl | hc
    · exact .address _ _
    · rcases List.mem_cons.mp hc with rfl | hc
      · exact .address _ _
      · exact (List.mem_append.mp hc).elim hfits.alike ih
  | damaged _ halike _ => exact halike c hc

/-- A value is taken from below. -/
theorem pop {c : StackPair} (h : Chain setup d back ls ra ra' fp (c :: base)) :
    Chain setup d back ls ra ra' fp base := by
  generalize hbase : c :: base = whole at h
  induction h with
  | halt => cases hbase
  | caller hholds hflows _ ih => exact .caller hholds hflows (ih hbase)
  | @frame back l ls ra ra' ra₀ ra₀' fp₀ top below hreturns hfits hchain =>
    cases hbase
    refine .damaged hreturns (fun c hc => ?_) (by simp)
    have hframe : Chain setup d back (l :: ls) ra ra' _ _ := .frame hreturns hfits hchain
    exact hframe.alike (.tail _ hc)
  | damaged hreturns halike hlength =>
    subst hbase
    exact .damaged hreturns (fun c hc => halike c (.tail _ hc)) (Nat.le_of_succ_le hlength)

end Chain

/-- What is below a level, as the ground for its values. -/
def ground (setup : Setup) (back : Option (List Instruction × List Instruction)) (ls : List Level)
    (ra ra' fp : Nat) : Ground setup.options where
  Holds d base := Chain setup d back ls ra ra' fp base
  mono h he := h.mono he
  pop h := ⟨h.alike (.head _), h.pop⟩

end

/-- The machines are at code that runs alike. -/
def Beside (setup : Setup) (l r : Private) : Prop :=
  ∃ d c c' s back ls, Flows setup d c c' (⟨s, back⟩ :: ls) ∧ d.Holds l.pc r.pc c c' ∧
    Held (ground setup back ls l.ra r.ra l.fp) ⟨l.pc, r.pc, l.ra, r.ra, l.fp, d⟩ s l r

end TemplateMachine
