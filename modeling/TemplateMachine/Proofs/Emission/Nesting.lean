import Mathlib.Algebra.BigOperators.Intervals
import Mathlib.Algebra.Order.BigOperators.Group.Finset
import Mathlib.Logic.Relation
import TemplateMachine.Compile.Link

/-! The pieces of a template, and how deeply its fragments nest.  The pieces are the blocks
that its statements name, and the attributes of the invocations in it; a fragment refers to
those in it.  If no block comes back to itself, then fragments nest no deeper than there are
fragments in the template. -/

namespace TemplateMachine

mutual

/-- The numbers of the blocks that a statement names, also in its attributes. -/
def Statement.blocks : Statement → List Nat
  | .block _ _ _ template inverse => template.toList ++ inverse.toList
  | .component _ attrs _ body => body.toList ++ Statement.allBlocks attrs
  | _ => []

def Statement.allBlocks : List Statement → List Nat
  | [] => []
  | s :: rest => s.blocks ++ Statement.allBlocks rest

end

mutual

/-- The attributes of the invocations by tag in a statement, which may hold others. -/
def Statement.attributes : Statement → List (List Statement)
  | .component _ attrs _ _ => attrs :: Statement.allAttributes attrs
  | _ => []

def Statement.allAttributes : List Statement → List (List Statement)
  | [] => []
  | s :: rest => s.attributes ++ Statement.allAttributes rest

end

mutual

/-- Attributes hold fewer attributes than what they belong to, and name no other blocks. -/
theorem Statement.of_mem_attributes {attrs : List Statement} (s : Statement)
    (h : attrs ∈ s.attributes) :
    Statement.listFragmentCount attrs < s.fragmentCount ∧ Statement.allBlocks attrs ⊆ s.blocks := by
  cases s with
  | component tag attrs' hash body =>
    simp only [Statement.fragmentCount, Statement.blocks]
    rcases List.mem_cons.mp h with rfl | h
    · exact ⟨by omega, List.subset_append_right _ _⟩
    · obtain ⟨hcount, hblocks⟩ := Statement.of_mem_allAttributes attrs' h
      exact ⟨by omega, List.subset_append_of_subset_right _ hblocks⟩
  | _ => cases h
termination_by structural s

theorem Statement.of_mem_allAttributes {attrs : List Statement} (ss : List Statement)
    (h : attrs ∈ Statement.allAttributes ss) :
    Statement.listFragmentCount attrs < Statement.listFragmentCount ss ∧
      Statement.allBlocks attrs ⊆ Statement.allBlocks ss := by
  cases ss with
  | nil => cases h
  | cons s rest =>
    simp only [Statement.listFragmentCount, Statement.allBlocks]
    rcases List.mem_append.mp h with h | h
    · obtain ⟨hcount, hblocks⟩ := Statement.of_mem_attributes s h
      exact ⟨by omega, List.subset_append_of_subset_left _ hblocks⟩
    · obtain ⟨hcount, hblocks⟩ := Statement.of_mem_allAttributes rest h
      exact ⟨by omega, List.subset_append_of_subset_right _ hblocks⟩
termination_by structural ss

end

mutual

/-- Attributes within attributes are among those of what is around them. -/
theorem Statement.attributes_trans {attrs inner : List Statement} {s : Statement}
    (hattrs : attrs ∈ s.attributes) (hinner : inner ∈ Statement.allAttributes attrs) :
    inner ∈ s.attributes := by
  cases s with
  | component tag attrs' hash body =>
    rcases List.mem_cons.mp hattrs with rfl | hattrs
    · exact List.mem_cons_of_mem _ hinner
    · exact List.mem_cons_of_mem _ (Statement.allAttributes_trans hattrs hinner)
  | _ => cases hattrs
termination_by structural s

theorem Statement.allAttributes_trans {attrs inner : List Statement} {ss : List Statement}
    (hattrs : attrs ∈ Statement.allAttributes ss) (hinner : inner ∈ Statement.allAttributes attrs) :
    inner ∈ Statement.allAttributes ss := by
  cases ss with
  | nil => cases hattrs
  | cons s rest =>
    rcases List.mem_append.mp hattrs with hattrs | hattrs
    · exact List.mem_append_left _ (Statement.attributes_trans hattrs hinner)
    · exact List.mem_append_right _ (Statement.allAttributes_trans hattrs hinner)
termination_by structural ss

end

/-- All attributes in a template that are fragments of their own. -/
def Template.attributes (t : Template) : List (List Statement) :=
  Statement.allAttributes t.statements ++
    t.blocks.flatMap fun b => Statement.allAttributes b.statements

theorem Template.mem_attributes {t : Template} {attrs : List Statement} :
    attrs ∈ t.attributes ↔ attrs ∈ Statement.allAttributes t.statements ∨
      ∃ b ∈ t.blocks, attrs ∈ Statement.allAttributes b.statements := by
  rw [Template.attributes, List.mem_append, List.mem_flatMap]

/-! ### Nesting -/

namespace Template

/-- The number of fragments that a block adds to its template: itself and the attributes in it. -/
def blockCount (t : Template) (i : Nat) : Nat :=
  match t.blocks[i]? with
  | some b => 1 + Statement.listFragmentCount b.statements
  | none => 0

/-- One block names another. -/
def Nests (t : Template) (i j : Nat) : Prop :=
  ∃ b, t.blocks[i]? = some b ∧ j ∈ Statement.allBlocks b.statements

/-- No block is nested in itself, whether directly or by way of others. -/
def Acyclic (t : Template) : Prop := ∀ i, ¬Relation.TransGen t.Nests i i

/-- A block is nested in some statements. -/
def Reaches (t : Template) (ss : List Statement) (j : Nat) : Prop :=
  ∃ i ∈ Statement.allBlocks ss, Relation.ReflTransGen t.Nests i j

open Classical in
/-- A bound on how deeply fragments nest in some statements. -/
noncomputable def depth (t : Template) (ss : List Statement) : Nat :=
  Statement.listFragmentCount ss +
    ∑ i ∈ Finset.range t.blocks.length with t.Reaches ss i, t.blockCount i

variable {t : Template}

theorem acyclic_of_descends (h : ∀ i j, t.Nests i j → j < i) : t.Acyclic := by
  intro i hi
  have hlt (j : Nat) (hj : Relation.TransGen t.Nests i j) : j < i := by
    induction hj with
    | single hj => exact h _ _ hj
    | tail _ hj ih => exact Nat.lt_trans (h _ _ hj) ih
  exact Nat.lt_irrefl i (hlt i hi)

theorem fragmentCount_eq (t : Template) :
    t.fragmentCount = 1 + Statement.listFragmentCount t.statements +
      ∑ i ∈ Finset.range t.blocks.length, t.blockCount i := by
  have hfold (blocks : List InlineBlock) (n : Nat) :
      blocks.foldl (fun n b => n + 1 + Statement.listFragmentCount b.statements) n =
        n + ∑ i ∈ Finset.range blocks.length, (match blocks[i]? with
          | some b => 1 + Statement.listFragmentCount b.statements
          | none => 0) := by
    induction blocks generalizing n with
    | nil => rfl
    | cons b rest ih =>
      rw [List.foldl_cons, ih, List.length_cons, Finset.sum_range_succ']
      simp only [List.getElem?_cons_succ, List.getElem?_cons_zero]
      rw [Nat.add_assoc, Nat.add_assoc, Nat.add_comm (∑ i ∈ _, _), ← Nat.add_assoc 1]
  rw [fragmentCount, hfold, Nat.zero_add]
  rfl

open Classical in
/-- A template as a whole nests no deeper than it has fragments. -/
theorem depth_statements (t : Template) : t.depth t.statements < t.fragmentCount := by
  have hle := Finset.sum_le_sum_of_subset (f := t.blockCount)
    (Finset.filter_subset (fun i => t.Reaches t.statements i) (Finset.range t.blocks.length))
  rw [fragmentCount_eq, depth]
  omega

open Classical in
/-- Attributes nest less deeply than the statements that they belong to. -/
theorem depth_attributes {ss attrs : List Statement} (h : attrs ∈ Statement.allAttributes ss) :
    t.depth attrs < t.depth ss := by
  obtain ⟨hcount, hblocks⟩ := Statement.of_mem_allAttributes ss h
  have hle : ∑ i ∈ Finset.range t.blocks.length with t.Reaches attrs i, t.blockCount i ≤
      ∑ i ∈ Finset.range t.blocks.length with t.Reaches ss i, t.blockCount i := by
    refine Finset.sum_le_sum_of_subset (Finset.monotone_filter_right _ ?_)
    rintro j - ⟨i, hi, hreaches⟩
    exact ⟨i, hblocks hi, hreaches⟩
  exact Nat.add_lt_add_of_lt_of_le hcount hle

open Classical in
/-- A block nests less deeply than the statements that name it: what is nested in it is nested in
these, and the block itself besides. -/
theorem depth_block (ht : t.Acyclic) {ss : List Statement} {j : Nat} {b : InlineBlock}
    (hj : j ∈ Statement.allBlocks ss) (hb : t.blocks[j]? = some b) :
    t.depth b.statements < t.depth ss := by
  have hreach : ∀ k, t.Reaches b.statements k → t.Reaches ss k ∧ k ≠ j := by
    rintro k ⟨i, hi, hreaches⟩
    have hji : t.Nests j i := ⟨b, hb, hi⟩
    refine ⟨⟨j, hj, .head hji hreaches⟩, ?_⟩
    rintro rfl
    exact ht k (Relation.TransGen.head' hji hreaches)
  have hmem : j ∈ (Finset.range t.blocks.length).filter fun k => t.Reaches ss k :=
    Finset.mem_filter.mpr ⟨Finset.mem_range.mpr (List.getElem?_eq_some_iff.mp hb).1, j, hj, .refl⟩
  have hsubset : (Finset.range t.blocks.length).filter (fun k => t.Reaches b.statements k) ⊆
      ((Finset.range t.blocks.length).filter fun k => t.Reaches ss k).erase j := by
    intro k hk
    obtain ⟨hrange, hk⟩ := Finset.mem_filter.mp hk
    obtain ⟨hss, hne⟩ := hreach k hk
    exact Finset.mem_erase.mpr ⟨hne, Finset.mem_filter.mpr ⟨hrange, hss⟩⟩
  have hle := Finset.sum_le_sum_of_subset (f := t.blockCount) hsubset
  have hsum := Finset.add_sum_erase _ t.blockCount hmem
  have hcount : t.blockCount j = 1 + Statement.listFragmentCount b.statements := by
    rw [blockCount, hb]
  unfold depth
  omega

end Template

end TemplateMachine
