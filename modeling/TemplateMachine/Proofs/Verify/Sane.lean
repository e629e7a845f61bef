import TemplateMachine.Code.Verify
import TemplateMachine.Proofs.Run.Path

/-! What acceptance says.  In a program that the verifier accepts, every finished block lies within
the heap and is a whole number of instructions, the last of which is a return; whatever an
instruction names is there, and jumps lead to instructions of their block. -/

namespace TemplateMachine

/-- The addresses of the instructions of a block. -/
def Block.Begins (b : Block) (address : Nat) : Prop :=
  ∃ k, 4 * k < b.size.toNat ∧ address = b.offset.toNat + 4 * k

namespace Program

variable {p : Program} {b : Block} {address : Nat} {i : Instruction} {op : Opcode}

/-- The verifier accepts all blocks, strictly. -/
def Accepted (p : Program) : Prop := ∃ n, p.verifyAll true = .ok n

/-- The instruction at an address of an accepted block. -/
structure Admits (p : Program) (b : Block) (address : Nat) (i : Instruction) : Prop where
  there : p.heap.instruction? address = some i
  operands : p.missingOperand? i = none
  jump : i.op.isJump = true → checkTarget b address i = .ok ()
  last : i.op ≠ .ret → address + 4 < b.offset.toNat + b.size.toNat

/-! ### Instructions -/

theorem checkInstruction_inv (h : p.checkInstruction true b address = .ok op)
    (hwithin : address + 4 ≤ p.heap.words.size) :
    ∃ i, i.op = op ∧ p.heap.instruction? address = some i ∧ p.missingOperand? i = none ∧
      (i.op.isJump = true → checkTarget b address i = .ok ()) := by
  have hword (n : Nat) (hn : n < 4) :
      p.heap.word? (address + n) = some (p.heap.words.getD (address + n) 0) := by
    have hlt : address + n < p.heap.words.size := by omega
    rw [Heap.word?, Array.getD_eq_getD_getElem?, Array.getElem?_eq_getElem hlt, Option.getD_some]
  unfold checkInstruction at h
  cases hop : Opcode.ofNumber? (p.heap.words.getD (address + 0) 0) with
  | none =>
    simp only [hop] at h
    cases h
  | some found =>
    simp only [hop] at h
    refine ⟨⟨found, p.heap.words.getD (address + 1) 0, p.heap.words.getD (address + 2) 0,
      p.heap.words.getD (address + 3) 0⟩, ?_⟩
    have hthere : p.heap.instruction? address = some ⟨found, p.heap.words.getD (address + 1) 0,
        p.heap.words.getD (address + 2) 0, p.heap.words.getD (address + 3) 0⟩ := by
      have hnumber : p.heap.word? address = some (p.heap.words.getD (address + 0) 0) :=
        hword 0 (by omega)
      simp only [Heap.instruction?, hnumber, hword 1 (by omega), hword 2 (by omega),
        hword 3 (by omega), Option.bind_eq_bind, Option.bind_some, hop]
      rfl
    generalize hi : (⟨found, p.heap.words.getD (address + 1) 0, p.heap.words.getD (address + 2) 0,
      p.heap.words.getD (address + 3) 0⟩ : Instruction) = i at h hthere ⊢
    obtain rfl : i.op = found := by rw [← hi]
    cases hjump : i.op.isJump with
    | true =>
      rw [hjump, if_pos rfl] at h
      cases htarget : checkTarget b address i with
      | error e =>
        rw [htarget] at h
        cases h
      | ok u =>
        rw [htarget] at h
        cases hmissing : p.missingOperand? i with
        | some kind =>
          rw [hmissing] at h
          cases h
        | none =>
          rw [hmissing] at h
          cases h
          exact ⟨rfl, hthere, rfl, fun _ => rfl⟩
    | false =>
      rw [hjump] at h
      cases hmissing : p.missingOperand? i with
      | some kind =>
        rw [hmissing] at h
        cases h
      | none =>
        rw [hmissing] at h
        cases h
        exact ⟨rfl, hthere, rfl, fun h => by cases h⟩

/-- Every instruction in a row was accepted, and the last one is what is given. -/
theorem checkInstructions_inv {count : Nat} {last result : Option Opcode}
    (h : p.checkInstructions true b address last count = .ok result) {k : Nat} (hk : k < count) :
    ∃ op, p.checkInstruction true b (address + 4 * k) = .ok op ∧
    (k + 1 = count → result = some op) := by
  induction count generalizing address last k with
  | zero => exact absurd hk (Nat.not_lt_zero k)
  | succ count ih =>
    rw [checkInstructions] at h
    cases hop : p.checkInstruction true b address with
    | error e =>
      rw [hop] at h
      cases h
    | ok op =>
      rw [hop] at h
      replace h : p.checkInstructions true b (address + instructionWidth) (some op) count =
        .ok result := h
      cases k with
      | zero =>
        refine ⟨op, hop, fun hcount => ?_⟩
        obtain rfl : count = 0 := by omega
        cases h
        rfl
      | succ k =>
        obtain ⟨found, hfound, hlast⟩ := ih h (Nat.lt_of_succ_lt_succ hk)
        refine ⟨found, ?_, fun hcount => hlast (by omega)⟩
        rw [← hfound, instructionWidth]
        congr 1
        omega

/-! ### Blocks -/

/-- What the verifier's acceptance of a block says about it. -/
structure Sane (p : Program) (b : Block) : Prop where
  within : b.offset.toNat + b.size.toNat ≤ p.heap.words.size
  whole : b.size.toNat % 4 = 0
  nonempty : 0 < b.size.toNat
  admits : ∀ address, b.Begins address → ∃ i, p.Admits b address i

theorem sane_of_verify {handle : UInt32} {n : Nat} (hb : p.heap.block? handle = some b)
    (h : p.verify true handle = .ok n) : p.Sane b := by
  unfold verify at h
  simp only [hb] at h
  by_cases hsize : b.size.toNat = 0 ∨ b.size.toNat % instructionWidth ≠ 0 ∨
      p.heap.words.size < b.offset.toNat + b.size.toNat
  · rw [if_pos hsize] at h
    cases h
  · rw [if_neg hsize] at h
    cases hlist : p.checkInstructions true b b.offset.toNat none
      (b.size.toNat / instructionWidth) with
    | error e =>
      simp only [hlist] at h
      cases h
    | ok result =>
      simp only [hlist] at h
      have hret : result = some .ret := by
        by_cases hret : result = some .ret
        · exact hret
        · replace h : (if result = some .ret then Except.ok (b.size.toNat / instructionWidth) else
              Except.error (VerifyError.missingReturn handle)) = Except.ok n := h
          rw [if_neg hret] at h
          cases h
      have hwhole : ¬(b.size.toNat = 0 ∨ b.size.toNat % 4 ≠ 0 ∨
          p.heap.words.size < b.offset.toNat + b.size.toNat) := hsize
      have hcount : b.size.toNat / instructionWidth = b.size.toNat / 4 := rfl
      refine ⟨by omega, by omega, by omega, ?_⟩
      rintro _ ⟨k, hk, rfl⟩
      obtain ⟨op, hop, hlast⟩ := checkInstructions_inv hlist (k := k) (by omega)
      obtain ⟨i, rfl, hthere, hoperands, hjump⟩ := checkInstruction_inv hop (by omega)
      refine ⟨i, hthere, hoperands, hjump, fun hi => ?_⟩
      by_cases hend : k + 1 = b.size.toNat / instructionWidth
      · exact absurd (Option.some.inj ((hlast hend).symm.trans hret)) hi
      · omega

/-- Every handle of a finished block is among those that are verified. -/
theorem mem_handles {h : Heap} {handle : UInt32} (hb : h.block? handle = some b) :
    handle ∈ h.handles := by
  have hlt : handle.toNat < h.blocks.size := by
    obtain ⟨hget, -⟩ := Option.filter_eq_some_iff.mp hb
    exact (Array.getElem?_eq_some_iff.mp hget).1
  refine List.mem_filter.mpr ⟨List.mem_map.mpr ⟨handle.toNat, List.mem_range.mpr hlt, ?_⟩, ?_⟩
  · exact UInt32.ofNat_toNat
  · rw [hb]
    rfl

theorem verify_of_verifyList {handles : List UInt32} {n : Nat}
    (h : p.verifyList true handles = .ok n) {handle : UInt32} (hmem : handle ∈ handles) :
    ∃ m, p.verify true handle = .ok m := by
  induction handles generalizing n with
  | nil => exact absurd hmem List.not_mem_nil
  | cons first rest ih =>
    rw [verifyList] at h
    cases hfirst : p.verify true first with
    | error e =>
      rw [hfirst] at h
      cases h
    | ok m =>
      rw [hfirst] at h
      cases hrest : p.verifyList true rest with
      | error e =>
        rw [hrest] at h
        cases h
      | ok m' =>
        rcases List.mem_cons.mp hmem with rfl | hmem
        · exact ⟨m, hfirst⟩
        · exact ih hrest hmem

/-- Every finished block of an accepted program is sane. -/
theorem Accepted.sane (h : p.Accepted) {handle : UInt32} (hb : p.heap.block? handle = some b) :
    p.Sane b := by
  obtain ⟨n, hn⟩ := h
  obtain ⟨m, hm⟩ := verify_of_verifyList hn (mem_handles hb)
  exact sane_of_verify hb hm

/-! ### Addresses -/

/-- A jump that is accepted leads to an instruction of its block, and not out of the heap. -/
theorem Sane.target (h : p.Sane b) (hbegins : b.Begins address)
    (htarget : checkTarget b address i = .ok ()) :
    ∃ target, (address : Int) + relativeOffset i.a = (target : Nat) ∧ target < p.heap.words.size ∧
      b.Begins target := by
  unfold checkTarget at htarget
  simp only at htarget
  obtain ⟨k, hk, rfl⟩ := hbegins
  have hwithin := h.within
  split at htarget
  · cases htarget
  · split at htarget
    · cases htarget
    · split at htarget
      · cases htarget
      · rename_i hbounds hmisaligned
        have haligned : ¬(((b.offset.toNat + 4 * k : Nat) : Int) +
            relativeOffset i.a - b.offset.toNat) % 4 ≠ 0 :=
          hmisaligned
        refine ⟨(((b.offset.toNat + 4 * k : Nat) : Int) + relativeOffset i.a).toNat,
          by omega, by omega,
          ((((b.offset.toNat + 4 * k : Nat) : Int) + relativeOffset i.a -
            b.offset.toNat) / 4).toNat, by omega, by omega⟩

/-- Behind every instruction that is not the last there is another one. -/
theorem Admits.begins (h : p.Admits b address i) (hbegins : b.Begins address) (hop : i.op ≠ .ret) :
    b.Begins (address + 4) := by
  obtain ⟨k, hk, rfl⟩ := hbegins
  have := h.last hop
  exact ⟨k + 1, by omega, by omega⟩

end Program

end TemplateMachine
