import Mathlib.Logic.Relation
import TemplateMachine.Proofs.Emission.Link

/-! How a heap is filled.  Handles are reserved at any time, but only one block is written at a
time: it is opened at the end of the heap when no other is being written, and nothing is reserved or
opened twice.  So the finished blocks lie side by side and take up the heap up to the block that is
being written, and none of them changes. -/

namespace TemplateMachine

/-- The addresses of the words of a block. -/
def Block.Spans (b : Block) (address : Nat) : Prop :=
  b.offset.toNat ≤ address ∧ address < b.offset.toNat + b.size.toNat

namespace Heap

/-! ### Steps -/

/-- What may be done to a heap: a handle is reserved; a reserved handle is opened while no block is
being written; the block that is being written gets an instruction more, or is finished. -/
inductive Step : Heap → Heap → Prop
  | reserve (h : Heap) : Step h h.reserve.2
  | openReserved {h : Heap} {handle : UInt32} :
    h.writing = none → h.blocks[handle.toNat]? = some Block.reserved →
    Step h (h.openReserved handle)
  | append {h : Heap} {handle : UInt32} (i : Instruction) :
    h.writing = some handle → Step h (h.append i.words)
  | finish {h : Heap} {handle : UInt32} (scopeSize : UInt32) :
    h.writing = some handle → Step h (h.finish handle scopeSize)

/-- Any number of steps. -/
abbrev Path : Heap → Heap → Prop := Relation.ReflTransGen Step

variable {h g : Heap}

theorem Path.write {handle : UInt32} (hwriting : h.writing = some handle)
    (code : List Instruction) :
    Path h (h.write code) ∧ (h.write code).writing = some handle := by
  induction code generalizing h with
  | nil => exact ⟨.refl, hwriting⟩
  | cons i rest ih =>
    have hnext : (h.append i.words).writing = some handle := hwriting
    obtain ⟨hpath, hstill⟩ := ih hnext
    exact ⟨.head (.append i hwriting) hpath, hstill⟩

/-- The block of a reserved handle is written in one go. -/
theorem Path.commit {handle : UInt32} (hwriting : h.writing = none)
    (hblock : h.blocks[handle.toNat]? = some Block.reserved) (code : List Instruction)
    (scopeSize : UInt32) : Path h (h.commit handle code scopeSize) := by
  have hopen : Step h (h.openReserved handle) := .openReserved hwriting hblock
  obtain ⟨hpath, hstill⟩ := Path.write (h := h.openReserved handle) rfl code
  exact .head hopen (.tail hpath (.finish scopeSize hstill))

/-! ### What is preserved -/

/-- The block of a number is finished. -/
def Finished (h : Heap) (i : Nat) (b : Block) : Prop := h.blocks[i]? = some b ∧ b.finished = true

/-- Words stay, and so do finished blocks. -/
structure Keeps (h g : Heap) : Prop where
  words : ∀ a w, h.word? a = some w → g.word? a = some w
  finished : ∀ i b, h.Finished i b → g.Finished i b

theorem Keeps.trans {k : Heap} (hfirst : h.Keeps g) (hsecond : g.Keeps k) : h.Keeps k :=
  ⟨fun a w hw => hsecond.words a w (hfirst.words a w hw),
    fun i b hb => hsecond.finished i b (hfirst.finished i b hb)⟩

/-- The finished blocks take up the first words of a heap: each is a whole number of instructions,
and no two of them share a word. -/
structure Laid (h : Heap) (stop : Nat) : Prop where
  whole : ∀ i b, h.Finished i b →
    ∃ code, h.Holds b.offset.toNat code ∧ b.size.toNat = 4 * code.length
  within : ∀ i b, h.Finished i b → b.offset.toNat + b.size.toNat ≤ stop
  covers : ∀ a, a < stop → ∃ i b, h.Finished i b ∧ b.Spans a
  disjoint : ∀ i j b b' a, h.Finished i b → h.Finished j b' → b.Spans a → b'.Spans a → i = j

/-- The words behind the finished blocks are those of the block that is being written. -/
def Ends (h : Heap) (stop : Nat) : Option UInt32 → Prop
  | none => h.words.size = stop
  | some handle => ∃ b code, h.blocks[handle.toNat]? = some b ∧ b.finished = false ∧
      b.offset.toNat = stop ∧ h.Holds stop code ∧ h.words.size = stop + 4 * code.length

/-- The finished blocks and the one that is being written take up the heap. -/
def Paved (h : Heap) : Prop := ∃ stop, h.Laid stop ∧ h.Ends stop h.writing

theorem paved_empty : Paved {} := ⟨0, ⟨nofun, nofun, nofun, nofun⟩, rfl⟩

/-- As long as no block is finished it is only the words that matter. -/
theorem Laid.of_finished {stop : Nat} (hlaid : h.Laid stop)
    (hwords : ∀ a w, h.word? a = some w → g.word? a = some w)
    (hfinished : ∀ i b, g.Finished i b ↔ h.Finished i b) : g.Laid stop ∧ h.Keeps g := by
  refine ⟨⟨fun i b hb => ?_, fun i b hb => hlaid.within i b ((hfinished i b).mp hb), fun a ha => ?_,
    fun i j b b' a hb hb' => hlaid.disjoint i j b b' a ((hfinished i b).mp hb)
      ((hfinished j b').mp hb')⟩, ⟨hwords, fun i b hb => (hfinished i b).mpr hb⟩⟩
  · obtain ⟨code, hcode, hsize⟩ := hlaid.whole i b ((hfinished i b).mp hb)
    exact ⟨code, hcode.mono hwords, hsize⟩
  · obtain ⟨i, b, hb, hspans⟩ := hlaid.covers a ha
    exact ⟨i, b, (hfinished i b).mpr hb, hspans⟩

theorem finished_reserve (i : Nat) (b : Block) : h.reserve.2.Finished i b ↔ h.Finished i b := by
  simp only [Finished, reserve, Array.getElem?_push]
  split
  · subst i
    simp only [Array.getElem?_size, reduceCtorEq, false_and, iff_false]
    rintro ⟨hb, hfinished⟩
    cases hb
    cases hfinished
  · rfl

theorem finished_openReserved {handle : UInt32}
    (hblock : h.blocks[handle.toNat]? = some Block.reserved) (i : Nat) (b : Block) :
    (h.openReserved handle).Finished i b ↔ h.Finished i b := by
  simp only [Finished, openReserved, Array.getElem?_modify]
  split
  · rw [← ‹handle.toNat = i›, hblock]
    constructor
    · rintro ⟨hb, hfinished⟩
      cases hb
      cases hfinished
    · rintro ⟨hb, hfinished⟩
      cases hb
      cases hfinished
  · rfl

/-- A block is finished where the words end. -/
theorem finished_finish {handle : UInt32} {block : Block} (scopeSize : UInt32)
    (hblock : h.blocks[handle.toNat]? = some block) (hopen : block.finished = false)
    (i : Nat) (b : Block) :
    (h.finish handle scopeSize).Finished i b ↔ h.Finished i b ∨ i = handle.toNat ∧
      b = { block with
        size := UInt32.ofNat h.words.size - block.offset
        scopeSize := scopeSize
        finished := true } := by
  simp only [Finished, finish, Array.getElem?_modify]
  split
  · rename_i heq
    subst heq
    rw [hblock]
    constructor
    · rintro ⟨hb, -⟩
      exact .inr ⟨rfl, (Option.some.inj hb).symm⟩
    · rintro (⟨hb, hfinished⟩ | ⟨-, rfl⟩)
      · cases hb
        rw [hopen] at hfinished
        cases hfinished
      · exact ⟨rfl, rfl⟩
  · rename_i hne
    exact (or_iff_left fun h => hne h.1.symm).symm

theorem Step.size_words (hstep : Step h g) : h.words.size ≤ g.words.size := by
  cases hstep with
  | append i =>
    have := size_words_write h [i]
    exact Nat.le.intro this.symm
  | _ => exact Nat.le_refl _

theorem paved_reserve (hpaved : h.Paved) : h.reserve.2.Paved ∧ h.Keeps h.reserve.2 := by
  obtain ⟨stop, hlaid, hends⟩ := hpaved
  obtain ⟨hlaid', hkeeps⟩ := hlaid.of_finished (g := h.reserve.2) (fun _ _ hw => hw)
    finished_reserve
  refine ⟨⟨stop, hlaid', ?_⟩, hkeeps⟩
  show h.reserve.2.Ends stop h.writing
  cases hwriting : h.writing with
  | none => rwa [hwriting] at hends
  | some handle =>
    rw [hwriting] at hends
    obtain ⟨b, code, hb, hopen, hoffset, hcode, hwords⟩ := hends
    refine ⟨b, code, ?_, hopen, hoffset, hcode.mono hkeeps.words, hwords⟩
    rw [reserve, Array.getElem?_push, if_neg (Nat.ne_of_lt (Array.getElem?_eq_some_iff.mp hb).1)]
    exact hb

theorem paved_openReserved {handle : UInt32} (hpaved : h.Paved) (hwriting : h.writing = none)
    (hblock : h.blocks[handle.toNat]? = some Block.reserved) (hsize : h.words.size < UInt32.size) :
    (h.openReserved handle).Paved ∧ h.Keeps (h.openReserved handle) := by
  obtain ⟨stop, hlaid, hends⟩ := hpaved
  rw [hwriting] at hends
  obtain rfl : h.words.size = stop := hends
  obtain ⟨hlaid', hkeeps⟩ := hlaid.of_finished (g := h.openReserved handle) (fun _ _ hw => hw)
    (finished_openReserved hblock)
  refine ⟨⟨h.words.size, hlaid', { Block.reserved with offset := UInt32.ofNat h.words.size }, [],
    ?_, rfl, UInt32.toNat_ofNat_of_lt' hsize, trivial, rfl⟩, hkeeps⟩
  rw [openReserved, Array.getElem?_modify, if_pos rfl, hblock, Option.map_some]

theorem paved_append {handle : UInt32} (i : Instruction) (hpaved : h.Paved)
    (hwriting : h.writing = some handle) :
    (h.append i.words).Paved ∧ h.Keeps (h.append i.words) := by
  obtain ⟨stop, hlaid, hends⟩ := hpaved
  have hwords (a : Nat) (w : UInt32) (hw : h.word? a = some w) : (h.write [i]).word? a = some w :=
    word?_write_of_some hw
  obtain ⟨hlaid', hkeeps⟩ := hlaid.of_finished (g := h.append i.words) hwords fun _ _ => .rfl
  refine ⟨⟨stop, hlaid', ?_⟩, hkeeps⟩
  rw [hwriting] at hends
  obtain ⟨b, code, hb, hopen, hoffset, hcode, hsize⟩ := hends
  show (h.append i.words).Ends stop h.writing
  rw [hwriting]
  refine ⟨b, code ++ [i], hb, hopen, hoffset, holds_append (hcode.mono hwords) ?_, ?_⟩
  · rw [← hsize]
    exact holds_write h [i]
  · have hmore := size_words_write h [i]
    rw [List.length_singleton, hsize] at hmore
    rw [List.length_append, List.length_singleton]
    exact hmore.trans (by omega)

/-- The block that is finished takes up all that was behind the others. -/
theorem paved_finish {handle : UInt32} (scopeSize : UInt32) (hpaved : h.Paved)
    (hwriting : h.writing = some handle) (hsize : h.words.size < UInt32.size) :
    (h.finish handle scopeSize).Paved ∧ h.Keeps (h.finish handle scopeSize) := by
  obtain ⟨stop, hlaid, hends⟩ := hpaved
  rw [hwriting] at hends
  obtain ⟨block, code, hblock, hopen, hoffset, hcode, hend⟩ := hends
  have hfinished := finished_finish scopeSize hblock hopen
  have hlast : (UInt32.ofNat h.words.size).toNat = h.words.size := UInt32.toNat_ofNat_of_lt' hsize
  obtain ⟨size, heq, hwords⟩ : ∃ size, UInt32.ofNat h.words.size - block.offset = size ∧
      size.toNat = 4 * code.length := by
    refine ⟨_, rfl, ?_⟩
    rw [UInt32.toNat_sub_of_le _ _ (by rw [UInt32.le_iff_toNat_le, hlast, hoffset]; omega), hlast,
      hoffset]
    omega
  rw [heq] at hfinished
  have hsame (a : Nat) (w : UInt32) (hw : h.word? a = some w) :
      (h.finish handle scopeSize).word? a = some w := hw
  have hbehind {i a : Nat} {b c : Block} (hb : h.Finished i b) (hspans : b.Spans a)
    (hspans' : c.Spans a)
      (hc : c.offset = block.offset) : False := by
    have hwithin := hlaid.within i b hb
    have hless := hspans.2
    have hmore := hspans'.1
    rw [hc] at hmore
    omega
  refine ⟨⟨h.words.size, ⟨fun i b hb => ?_, fun i b hb => ?_, fun a ha => ?_,
    fun i j b b' a hb hb' hspans hspans' => ?_⟩, rfl⟩,
    ⟨hsame, fun i b hb => (hfinished i b).mpr (.inl hb)⟩⟩
  · rcases (hfinished i b).mp hb with hb | ⟨-, rfl⟩
    · obtain ⟨code, hcode, hsize⟩ := hlaid.whole i b hb
      exact ⟨code, hcode.mono hsame, hsize⟩
    · refine ⟨code, ?_, hwords⟩
      rw [hoffset]
      exact hcode.mono hsame
  · rcases (hfinished i b).mp hb with hb | ⟨-, rfl⟩
    · have hwithin := hlaid.within i b hb
      omega
    · dsimp only
      omega
  · by_cases hbefore : a < stop
    · obtain ⟨i, b, hb, hspans⟩ := hlaid.covers a hbefore
      exact ⟨i, b, (hfinished i b).mpr (.inl hb), hspans⟩
    · have ha : a < h.words.size := ha
      refine ⟨handle.toNat, _, (hfinished _ _).mpr (.inr ⟨rfl, rfl⟩), ?_, ?_⟩ <;> dsimp
        only <;> omega
  · rcases (hfinished i b).mp hb with hb | ⟨rfl, rfl⟩ <;>
      rcases (hfinished j b').mp hb' with hb' | ⟨rfl, rfl⟩
    · exact hlaid.disjoint i j b b' a hb hb' hspans hspans'
    · exact (hbehind hb hspans hspans' rfl).elim
    · exact (hbehind hb' hspans' hspans rfl).elim
    · rfl

/-- A step keeps the heap paved, and what is finished. -/
theorem Step.paved (hstep : Step h g) (hpaved : h.Paved) (hsize : g.words.size < UInt32.size) :
    g.Paved ∧ h.Keeps g := by
  cases hstep with
  | reserve => exact paved_reserve hpaved
  | openReserved hwriting hblock => exact paved_openReserved hpaved hwriting hblock hsize
  | append i hwriting => exact paved_append i hpaved hwriting
  | finish scopeSize hwriting => exact paved_finish scopeSize hpaved hwriting hsize

theorem Path.size_words (hpath : Path h g) : h.words.size ≤ g.words.size := by
  induction hpath with
  | refl => exact Nat.le_refl _
  | tail _ hstep ih => exact Nat.le_trans ih hstep.size_words

/-- However a heap is filled, it stays paved, and what is finished stays. -/
theorem Path.paved (hpath : Path h g) (hpaved : h.Paved) (hsize : g.words.size < UInt32.size) :
    g.Paved ∧ h.Keeps g := by
  induction hpath with
  | refl => exact ⟨hpaved, fun _ _ hw => hw, fun _ _ hb => hb⟩
  | tail _ hstep ih =>
    obtain ⟨hbefore, hkeeps⟩ := ih (Nat.lt_of_le_of_lt hstep.size_words hsize)
    obtain ⟨hafter, hkeeps'⟩ := hstep.paved hbefore hsize
    exact ⟨hafter, hkeeps.trans hkeeps'⟩

/-! ### Tiles -/

/-- The finished blocks tile the heap. -/
structure Tiled (h : Heap) : Prop where
  closed : h.writing = none
  whole : ∀ handle b, h.block? handle = some b →
    ∃ code, h.Holds b.offset.toNat code ∧ b.size.toNat = instructionWidth * code.length
  disjoint : ∀ handle handle' b b', h.block? handle = some b → h.block? handle' = some b' →
    handle ≠ handle' → ∀ a, ¬ (b.Spans a ∧ b'.Spans a)
  covers : ∀ a, a < h.words.size ↔ ∃ handle b, h.block? handle = some b ∧ b.Spans a

theorem finished_of_block? {handle : UInt32} {b : Block} (hb : h.block? handle = some b) :
    h.Finished handle.toNat b := Option.filter_eq_some_iff.mp hb

theorem Finished.block? {i : Nat} {b : Block} (hb : h.Finished i b)
    (hsize : h.blocks.size ≤ UInt32.size) :
    h.block? (UInt32.ofNat i) = some b := by
  have hi : i < h.blocks.size := (Array.getElem?_eq_some_iff.mp hb.1).1
  rw [Heap.block?, UInt32.toNat_ofNat_of_lt' (Nat.lt_of_lt_of_le hi hsize), hb.1]
  exact Option.filter_eq_some_iff.mpr ⟨rfl, hb.2⟩

/-- If no block is being written, then all of a paved heap is tiled. -/
theorem Paved.tiled (hpaved : h.Paved) (hclosed : h.writing = none)
    (hsize : h.blocks.size ≤ UInt32.size) : h.Tiled := by
  obtain ⟨stop, hlaid, hends⟩ := hpaved
  rw [hclosed] at hends
  obtain rfl : h.words.size = stop := hends
  refine ⟨hclosed, fun handle b hb => hlaid.whole _ b (finished_of_block? hb),
    fun handle handle' b b' hb hb' hne a hspans => ?_, fun a => ⟨fun ha => ?_, ?_⟩⟩
  · exact hne (UInt32.toNat_inj.mp (hlaid.disjoint _ _ b b' a (finished_of_block? hb)
      (finished_of_block? hb') hspans.1 hspans.2))
  · obtain ⟨i, b, hb, hspans⟩ := hlaid.covers a ha
    exact ⟨UInt32.ofNat i, b, hb.block? hsize, hspans⟩
  · rintro ⟨handle, b, hb, hspans⟩
    exact Nat.lt_of_lt_of_le hspans.2 (hlaid.within _ b (finished_of_block? hb))

/-- A block that is finished keeps its address, size and scope size, and its words. -/
theorem Keeps.block? (hkeeps : h.Keeps g) {handle : UInt32} {b : Block}
    (hb : h.block? handle = some b) : g.block? handle = some b :=
  Option.filter_eq_some_iff.mpr (hkeeps.finished _ b (finished_of_block? hb))

end Heap

end TemplateMachine
