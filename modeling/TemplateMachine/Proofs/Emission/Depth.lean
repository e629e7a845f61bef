import TemplateMachine.Proofs.Emission.Cycle

/-! How deeply compilation nests in a fragment that can be compiled.  It may name blocks that are
nested in themselves, as long as its code does not pass them.  What is compiled with it are blocks
and attributes of its template, and none of them is compiled with itself. -/

namespace TemplateMachine

section

variable {l : Lookup} {layout : Layout} {inner ss : List Statement}

mutual

/-- What is compiled with a statement is a block that it names, or attributes in it. -/
theorem Statement.block_or_attributes (s : Statement) (h : inner ∈ s.embedded l layout) :
    (∃ (i : Nat) (b : InlineBlock), layout.template.blocks[i]? = some b ∧ b.statements = inner) ∨
      inner ∈ s.attributes := by
  have hbodies {index : Option Nat} (h : inner ∈ layout.template.bodies index) :
      ∃ (i : Nat) (b : InlineBlock), layout.template.blocks[i]? = some b ∧
      b.statements = inner := by
    obtain ⟨i, b, -, hb, rfl⟩ := Template.mem_bodies.mp h
    exact ⟨i, b, hb, rfl⟩
  cases s with
  | block name params hash template inverse =>
    rcases List.mem_append.mp h with h | h
    · exact .inl (hbodies (List.mem_ite_nil_right.mp h).2)
    · exact .inl (hbodies (List.mem_ite_nil_right.mp h).2)
  | component tag attrs hash body =>
    unfold Statement.embedded at h
    split at h
    · rcases List.mem_append.mp h with h | h
      · exact .inl (hbodies (List.mem_ite_nil_right.mp h).2)
      · obtain rfl := List.mem_singleton.mp (List.mem_ite_nil_right.mp h).2
        exact .inr (.head _)
    · rcases List.mem_append.mp h with h | h
      · exact (Statement.allBlock_or_attributes attrs h).imp_right (List.mem_cons_of_mem _)
      · exact .inl (hbodies h)
  | _ => cases h
termination_by structural s

theorem Statement.allBlock_or_attributes (ss : List Statement)
    (h : inner ∈ Statement.allEmbedded l layout ss) :
    (∃ (i : Nat) (b : InlineBlock), layout.template.blocks[i]? = some b ∧ b.statements = inner) ∨
      inner ∈ Statement.allAttributes ss := by
  cases ss with
  | nil => cases h
  | cons s rest =>
    rcases List.mem_append.mp h with h | h
    · exact (Statement.block_or_attributes s h).imp_right (List.mem_append_left _)
    · exact (Statement.allBlock_or_attributes rest h).imp_right (List.mem_append_right _)
termination_by structural ss

end

namespace Lookup

/-- A block is compiled with some statements, or with what is compiled with these. -/
def NestsBlock (l : Lookup) (layout : Layout) (ss : List Statement) (i : Nat) : Prop :=
  ∃ b, layout.template.blocks[i]? = some b ∧ Relation.TransGen (l.Nests layout) ss b.statements

open Classical in
/-- A bound on how deeply compilation nests in some statements. -/
noncomputable def depth (l : Lookup) (layout : Layout) (ss : List Statement) : Nat :=
  Statement.listFragmentCount ss +
    ∑ i ∈ Finset.range layout.template.blocks.length with l.NestsBlock layout ss i,
    layout.template.blockCount i

open Classical in
/-- A template as a whole nests no deeper than it has fragments. -/
theorem depth_template (l : Lookup) (layout : Layout) :
    l.depth layout layout.template.statements < layout.template.fragmentCount := by
  have hle := Finset.sum_le_sum_of_subset (f := layout.template.blockCount)
    (Finset.filter_subset (fun i => l.NestsBlock layout layout.template.statements i)
      (Finset.range layout.template.blocks.length))
  rw [Template.fragmentCount_eq, depth]
  omega

/-- What is compiled with a fragment that is not hopeless is not hopeless. -/
theorem not_hopeless_nested {f g : Fragment} (hf : ¬l.Hopeless f) (hlayout : g.layout = f.layout)
    (h : l.Nests f.layout f.statements g.statements) : ¬l.Hopeless g := by
  rw [Hopeless, hlayout]
  exact fun hg => hg ((not_not.mp hf).inv h)

open Classical in
/-- What is compiled with a fragment nests less deeply. -/
theorem depth_nested {f : Fragment} (hf : ¬l.Hopeless f) (h : l.Nests f.layout f.statements inner) :
    l.depth f.layout inner < l.depth f.layout f.statements := by
  have hnests (i : Nat) (hi : l.NestsBlock f.layout inner i) :
      l.NestsBlock f.layout f.statements i := by
    obtain ⟨b, hb, hinner⟩ := hi
    exact ⟨b, hb, .head h hinner⟩
  rcases Statement.allBlock_or_attributes f.statements h with ⟨j, b, hb, rfl⟩ | hattrs
  · -- the block is not compiled with itself, so that it counts for the outer statements alone
    have hnot : ¬l.NestsBlock f.layout b.statements j := by
      rintro ⟨b', hb', hcycle⟩
      obtain rfl := Option.some.inj (hb.symm.trans hb')
      exact hf (Cyclic.hopeless ⟨_, .single h, hcycle⟩)
    have hmem : j ∈ (Finset.range f.layout.template.blocks.length).filter
        fun i => l.NestsBlock f.layout f.statements i :=
      Finset.mem_filter.mpr ⟨Finset.mem_range.mpr (List.getElem?_eq_some_iff.mp hb).1, b,
        hb, .single h⟩
    have hsubset : (Finset.range f.layout.template.blocks.length).filter
          (fun i => l.NestsBlock f.layout b.statements i) ⊆
        ((Finset.range f.layout.template.blocks.length).filter
          fun i => l.NestsBlock f.layout f.statements i).erase j := by
      intro i hi
      obtain ⟨hrange, hi⟩ := Finset.mem_filter.mp hi
      refine Finset.mem_erase.mpr ⟨?_, Finset.mem_filter.mpr ⟨hrange, hnests i hi⟩⟩
      rintro rfl
      exact hnot hi
    have hle := Finset.sum_le_sum_of_subset (f := f.layout.template.blockCount) hsubset
    have hsum := Finset.add_sum_erase _ f.layout.template.blockCount hmem
    have hcount : f.layout.template.blockCount j = 1 + Statement.listFragmentCount
        b.statements := by
      rw [Template.blockCount, hb]
    unfold depth
    omega
  · have hle :
        ∑ i ∈ Finset.range f.layout.template.blocks.length with l.NestsBlock f.layout inner i,
          f.layout.template.blockCount i ≤
        ∑ i ∈ Finset.range f.layout.template.blocks.length with
          l.NestsBlock f.layout f.statements i, f.layout.template.blockCount i :=
      Finset.sum_le_sum_of_subset (Finset.monotone_filter_right _ fun i _ => hnests i)
    exact Nat.add_lt_add_of_lt_of_le (Statement.of_mem_allAttributes f.statements hattrs).1 hle

end Lookup

end

end TemplateMachine
