import Mathlib.Data.List.Forall2
import TemplateMachine.Proofs.Emission.Advance

/-! Laid code.  While a block is built, every operand names something, and every jump either waits
for its label or leads ahead to an instruction of the block.  Labels are put in the order in which
their scope announces them, so when a scope is closed none of its jumps leads back.  Nothing is
asked of the templates here, nor of the sizes of pools. -/

namespace TemplateMachine

/-- The program and the handles of its blocks are small enough for the words that hold them. -/
structure Program.Bounded (p : Program) : Prop where
  words : p.heap.words.size < 0x80000000
  blocks : p.heap.blocks.size ≤ UInt32.size

theorem Program.Grows.bounded {p q : Program} (h : p.Grows q) (hq : q.Bounded) : p.Bounded :=
  ⟨Nat.lt_of_le_of_lt h.words_le hq.words, Nat.le_trans h.blocks hq.blocks⟩

/-- The constants that an instruction names are there, and the block that it calls has a handle. -/
structure Program.Supplies (p : Program) (i : Instruction) : Prop where
  constants : p.constants.Supplies i
  block : i.op = .invokeStatic → i.a.toNat < p.heap.blocks.size

theorem Program.Supplies.mono {p q : Program} {i : Instruction} (h : p.Supplies i)
    (hgrows : p.Grows q) : q.Supplies i :=
  ⟨h.constants.mono hgrows.constants, fun hop => Nat.lt_of_lt_of_le (h.block hop) hgrows.blocks⟩

/-- The jump at a place leads ahead, not beyond the end of code of a given length. -/
def Instruction.LeadsAhead (i : Instruction) (place length : Nat) : Prop :=
  ∃ n, 0 < n ∧ place + n ≤ length ∧ i.a = Emit.distance 0 n

theorem Instruction.LeadsAhead.mono {i : Instruction} {place length length' : Nat}
    (h : i.LeadsAhead place length) (hle : length ≤ length') : i.LeadsAhead place length' := by
  obtain ⟨n, hpos, hlength, ha⟩ := h
  exact ⟨n, hpos, Nat.le_trans hlength hle, ha⟩

/-! ### Builders -/

/-- The label of a jump is still to be put, or was put after the jump. -/
def LabelUse.Awaits (use : LabelUse) (labels : List String) (scope : LabelScope)
    (length : Nat) : Prop :=
  use.label ∈ labels ∨
    ∃ place, scope.places.lookup use.label = some place ∧ use.position < place ∧ place ≤ length

/-- Code with labels that are still to be put, for each open scope. -/
structure Builder.Laid (labels : List (List String)) (b : Builder) : Prop where
  supplied : ∀ i ∈ b.code.toList, b.program.Supplies i
  /-- A jump without a distance is recorded in an open scope. -/
  jumps : ∀ (k : Nat) (i : Instruction), b.code[k]? = some i → i.op.isJump = true →
    i.LeadsAhead k b.code.size ∨ ∃ scope ∈ b.scopes, ∃ use ∈ scope.uses, use.position = k
  uses : ∀ scope ∈ b.scopes, ∀ use ∈ scope.uses,
    ∃ i, b.code[use.position]? = some i ∧ i.op.isJump = true
  awaited : List.Forall₂ (fun scope inner => ∀ use ∈ scope.uses, use.Awaits inner scope b.code.size)
    b.scopes labels

namespace Builder.Laid

variable {labels : List (List String)} {b : Builder}

theorem start (p : Program) : Laid [] { program := p } where
  supplied := nofun
  jumps := nofun
  uses := nofun
  awaited := .nil

theorem grow (h : b.Laid labels) {q : Program} (hgrows : b.program.Grows q) :
    Laid labels { b with program := q } :=
  { h with supplied := fun i hi => (h.supplied i hi).mono hgrows }

theorem awaited_mono (h : b.Laid labels) (length : Nat) (hle : b.code.size ≤ length) :
    List.Forall₂ (fun scope inner => ∀ use ∈ scope.uses, use.Awaits inner scope length)
      b.scopes labels := by
  refine h.awaited.imp fun scope inner huses use huse => (huses use huse).imp_right ?_
  rintro ⟨place, hlookup, hafter, hbefore⟩
  exact ⟨place, hlookup, hafter, Nat.le_trans hbefore hle⟩

/-- What is known of the code stays so when an instruction is appended. -/
theorem push (h : b.Laid labels) {i : Instruction} (hsupplies : b.program.Supplies i)
    (hjump : i.op.isJump = false) : Laid labels { b with code := b.code.push i } where
  supplied j hj := by
    rw [Array.toList_push, List.mem_append, List.mem_singleton] at hj
    rcases hj with hj | rfl
    · exact h.supplied j hj
    · exact hsupplies
  jumps k j hj hop := by
    rw [Array.size_push]
    rw [Array.getElem?_push] at hj
    split at hj
    · cases hj
      rw [hjump] at hop
      cases hop
    · exact (h.jumps k j hj hop).imp_left fun hahead => hahead.mono (Nat.le_succ _)
  uses scope hscope use huse := by
    obtain ⟨j, hj, hop⟩ := h.uses scope hscope use huse
    have hlt := (Array.getElem?_eq_some_iff.mp hj).1
    exact ⟨j, by rw [Array.getElem?_push_lt hlt, ← hj, Array.getElem?_eq_getElem hlt], hop⟩
  awaited := h.awaited_mono _ (by rw [Array.size_push]; exact Nat.le_succ _)

theorem openLabels (h : b.Laid labels) (inner : List String) :
    Laid (inner :: labels) { b with scopes := {} :: b.scopes } where
  supplied := h.supplied
  jumps k i hi hop := (h.jumps k i hi hop).imp_right fun ⟨scope, hscope, huse⟩ =>
    ⟨scope, List.mem_cons_of_mem _ hscope, huse⟩
  uses := List.forall_mem_cons.mpr ⟨nofun, h.uses⟩
  awaited := .cons nofun h.awaited

theorem jump {inner : List String} (h : b.Laid (inner :: labels)) {scope : LabelScope}
    {scopes : List LabelScope} (hscopes : b.scopes = scope :: scopes) {o : Opcode} {target : String}
    (ho : o.isJump = true) (htarget : target ∈ inner) :
    Laid (inner :: labels) { b with
      code := b.code.push ⟨o, 0, 0, 0⟩,
      scopes := { scope with uses := ⟨b.code.size, target⟩ :: scope.uses } :: scopes } where
  supplied j hj := by
    rw [Array.toList_push, List.mem_append, List.mem_singleton] at hj
    rcases hj with hj | rfl
    · exact h.supplied j hj
    · refine ⟨Constants.supplies_of_isJump ho, fun heq => ?_⟩
      rw [show o = .invokeStatic from heq] at ho
      cases ho
  jumps k j hj hop := by
    rw [Array.getElem?_push] at hj
    split at hj
    · rename_i hk
      exact .inr ⟨_, List.mem_cons_self, _, List.mem_cons_self, hk.symm⟩
    · rcases h.jumps k j hj hop with hahead | ⟨found, hfound, use, huse, hposition⟩
      · exact .inl (hahead.mono (by rw [Array.size_push]; exact Nat.le_succ _))
      · rw [hscopes, List.mem_cons] at hfound
        rcases hfound with rfl | hfound
        · exact .inr ⟨_, List.mem_cons_self, use, List.mem_cons_of_mem _ huse, hposition⟩
        · exact .inr ⟨found, List.mem_cons_of_mem _ hfound, use, huse, hposition⟩
  uses := by
    have hold (found : LabelScope) (hfound : found ∈ b.scopes) (use : LabelUse)
        (huse : use ∈ found.uses) :
        ∃ i, (b.code.push ⟨o, 0, 0, 0⟩)[use.position]? = some i ∧ i.op.isJump = true := by
      obtain ⟨j, hj, hop⟩ := h.uses found hfound use huse
      have hlt := (Array.getElem?_eq_some_iff.mp hj).1
      exact ⟨j, by rw [Array.getElem?_push_lt hlt, ← hj, Array.getElem?_eq_getElem hlt], hop⟩
    rw [hscopes] at hold
    obtain ⟨hscope, hrest⟩ := List.forall_mem_cons.mp hold
    refine List.forall_mem_cons.mpr ⟨List.forall_mem_cons.mpr ⟨?_, hscope⟩, hrest⟩
    exact ⟨⟨o, 0, 0, 0⟩, Array.getElem?_push_size, ho⟩
  awaited := by
    have hall := h.awaited_mono (b.code.push ⟨o, 0, 0, 0⟩).size
      (by rw [Array.size_push]; exact Nat.le_succ _)
    rw [hscopes] at hall
    obtain ⟨hscope, hrest⟩ := List.forall₂_cons.mp hall
    exact .cons (List.forall_mem_cons.mpr ⟨.inl htarget, hscope⟩) hrest

theorem label {name : String} {inner : List String} (h : b.Laid ((name :: inner) :: labels))
    {scope : LabelScope} {scopes : List LabelScope} (hscopes : b.scopes = scope :: scopes) :
    Laid (inner :: labels) { b with
      scopes := { scope with places := (name, b.code.size) :: scope.places } :: scopes } where
  supplied := h.supplied
  jumps k i hi hop := (h.jumps k i hi hop).imp_right fun ⟨found, hfound, huse⟩ => by
    rw [hscopes, List.mem_cons] at hfound
    rcases hfound with rfl | hfound
    · exact ⟨_, List.mem_cons_self, huse⟩
    · exact ⟨found, List.mem_cons_of_mem _ hfound, huse⟩
  uses := by
    have huses := h.uses
    rw [hscopes] at huses
    exact List.forall_mem_cons.mpr (List.forall_mem_cons.mp huses)
  awaited := by
    have hall := h.awaited
    have hplaced := h.uses scope (by rw [hscopes]; exact List.mem_cons_self)
    rw [hscopes] at hall
    obtain ⟨hscope, hrest⟩ := List.forall₂_cons.mp hall
    refine .cons (fun use huse => ?_) hrest
    -- The label that is put now serves every jump to its name, which all stand before it.
    by_cases hname : use.label = name
    · obtain ⟨i, hi, -⟩ := hplaced use huse
      have hlt := (Array.getElem?_eq_some_iff.mp hi).1
      exact .inr ⟨b.code.size, by simp [hname], hlt, Nat.le_refl _⟩
    · rcases hscope use huse with hmem | ⟨place, hlookup, hafter, hbefore⟩
      · exact .inl ((List.mem_cons.mp hmem).resolve_left hname)
      · refine .inr ⟨place, ?_, hafter, hbefore⟩
        rw [List.lookup_cons, beq_false_of_ne hname]
        exact hlookup

/-- The order in which a scope remembers its jumps does not matter. -/
theorem reverse {inner : List String} {places : List (String × Nat)} {uses : List LabelUse}
    (h : Laid (inner :: labels) { b with scopes := ⟨places, uses⟩ :: b.scopes }) :
    Laid (inner :: labels) { b with scopes := ⟨places, uses.reverse⟩ :: b.scopes } where
  supplied := h.supplied
  jumps k i hi hop := (h.jumps k i hi hop).imp_right fun ⟨found, hfound, use, huse, hposition⟩ => by
    rcases List.mem_cons.mp hfound with rfl | hfound
    · exact ⟨_, List.mem_cons_self, use, List.mem_reverse.mpr huse, hposition⟩
    · exact ⟨found, List.mem_cons_of_mem _ hfound, use, huse, hposition⟩
  uses := by
    obtain ⟨hscope, hrest⟩ := List.forall_mem_cons.mp h.uses
    exact List.forall_mem_cons.mpr ⟨fun use huse => hscope use (List.mem_reverse.mp huse), hrest⟩
  awaited := by
    obtain ⟨hscope, hrest⟩ := List.forall₂_cons.mp h.awaited
    exact .cons (fun use huse => hscope use (List.mem_reverse.mp huse)) hrest

/-- One jump gets its distance. -/
theorem setDistance {places : List (String × Nat)} {use : LabelUse} {rest : List LabelUse}
    (h : Laid ([] :: labels) { b with scopes := ⟨places, use :: rest⟩ :: b.scopes }) {place : Nat}
    (hplace : places.lookup use.label = some place) :
    Laid ([] :: labels) { b with
      code := b.code.modify use.position fun i => { i with a := Emit.distance use.position place },
      scopes := ⟨places, rest⟩ :: b.scopes } := by
  have hscopes := List.forall_mem_cons.mp h.uses
  obtain ⟨jump, hjump, hop⟩ := hscopes.1 use List.mem_cons_self
  obtain ⟨hawaits, hrest⟩ := List.forall₂_cons.mp h.awaited
  have hposition : use.position < place ∧ place ≤ b.code.size := by
    obtain ⟨found, hlookup, hafter, hbefore⟩ := (hawaits use List.mem_cons_self).resolve_left nofun
    obtain rfl : found = place := Option.some.inj (hlookup.symm.trans hplace)
    exact ⟨hafter, hbefore⟩
  have hmodified (k : Nat) (i : Instruction)
      (hi : (b.code.modify use.position fun i =>
        { i with a := Emit.distance use.position place })[k]? = some i) :
      (use.position = k ∧ i = { jump with a := Emit.distance use.position place }) ∨
        (use.position ≠ k ∧ b.code[k]? = some i) := by
    rw [Array.getElem?_modify] at hi
    split at hi
    · rename_i hk
      subst hk
      rw [show b.code[use.position]? = some jump from hjump] at hi
      exact .inl ⟨rfl, (Option.some.inj hi).symm⟩
    · rename_i hk
      exact .inr ⟨hk, hi⟩
  refine ⟨fun i hi => ?_, fun k i hi hopi => ?_, ?_, ?_⟩
  · obtain ⟨k, hk⟩ := List.getElem?_of_mem hi
    rw [Array.getElem?_toList] at hk
    rcases hmodified k i hk with ⟨-, rfl⟩ | ⟨-, hold⟩
    · refine ⟨Constants.supplies_of_isJump hop, fun heq => ?_⟩
      rw [show jump.op = .invokeStatic from heq] at hop
      cases hop
    · exact h.supplied i (Array.mem_toList_iff.mpr (Array.mem_of_getElem? hold))
  · rw [Array.size_modify]
    rcases hmodified k i hi with ⟨rfl, rfl⟩ | ⟨hne, hold⟩
    · refine .inl ⟨place - use.position, by omega, by omega, Draft.distance_eq (by omega)⟩
    · refine (h.jumps k i hold hopi).imp_right fun ⟨found, hfound, other, hother, hk⟩ => ?_
      rcases List.mem_cons.mp hfound with rfl | hfound
      · refine ⟨_, List.mem_cons_self, other, ?_, hk⟩
        refine (List.mem_cons.mp hother).resolve_left fun heq => hne ?_
        rw [← hk, heq]
      · exact ⟨found, List.mem_cons_of_mem _ hfound, other, hother, hk⟩
  · have hkeep (other : LabelUse)
        (hother : ∃ i, b.code[other.position]? = some i ∧ i.op.isJump = true) :
        ∃ i, (b.code.modify use.position fun i =>
          { i with a := Emit.distance use.position place })[other.position]? = some i ∧
          i.op.isJump = true := by
      obtain ⟨i, hi, hopi⟩ := hother
      rw [Array.getElem?_modify, hi]
      split
      · exact ⟨_, rfl, hopi⟩
      · exact ⟨i, rfl, hopi⟩
    refine List.forall_mem_cons.mpr ⟨fun other hother => ?_, fun found hfound other hother => ?_⟩
    · exact hkeep other (hscopes.1 other (List.mem_cons_of_mem _ hother))
    · exact hkeep other (hscopes.2 found hfound other hother)
  · rw [Array.size_modify]
    exact .cons (fun other hother => hawaits other (List.mem_cons_of_mem _ hother)) hrest

/-- The jumps of a scope all get their distances. -/
theorem setDistances {c : BuildContext} {places : List (String × Nat)} {uses : List LabelUse}
    (h : Laid ([] :: labels) { b with scopes := ⟨places, uses⟩ :: b.scopes }) :
    EndsIn (fun _ _ => True) (fun _ => Laid labels) (Emit.setDistances places uses c b) := by
  induction uses generalizing b with
  | nil =>
    obtain ⟨-, hrest⟩ := List.forall₂_cons.mp h.awaited
    refine ⟨h.supplied, fun k i hi hop => ?_, (List.forall_mem_cons.mp h.uses).2, hrest⟩
    refine (h.jumps k i hi hop).imp_right fun ⟨found, hfound, use, huse, hposition⟩ => ?_
    rcases List.mem_cons.mp hfound with rfl | hfound
    · cases huse
    · exact ⟨found, hfound, use, huse, hposition⟩
  | cons use rest ih =>
    unfold Emit.setDistances
    rw [Emit.bind_apply]
    cases hplace : places.lookup use.label with
    | none => exact trivial
    | some place =>
      show EndsIn _ _ (Emit.setDistances places rest c { b with
        code := b.code.modify use.position fun i =>
          { i with a := Emit.distance use.position place } })
      exact ih (h.setDistance hplace)

end Builder.Laid

end TemplateMachine
