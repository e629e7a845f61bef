import TemplateMachine.Datum.Reference

/-! Changes of what references lead to.  A reference that is derived from one other shares its tag,
so the tag counts the changes of the cell that the reference begins at.  What is gathered from
several references has a tag of its own, which counts none of their changes. -/

namespace TemplateMachine

namespace Cells

variable {cells : Cells} {number : Nat} {json : Json}

/-- An update leaves the other cells. -/
theorem json_update_of_ne {other : Nat} (h : other ≠ number) :
    (cells.update number json).json other = cells.json other := by
  have hentry : (cells.update number json).entries[other]? = cells.entries[other]? := by
    simp [update, Array.getElem?_modify, Ne.symm h]
  rw [Cells.json, hentry, Cells.json]

/-- An update of a cell is one change of it, and of no other. -/
theorem revision_update (tag : Tag) :
    (cells.update number json).revision tag =
      cells.revision tag + if tag = .cell number ∧ number < cells.entries.size then 1 else 0 := by
  cases tag with
  | still => rfl
  | cell other =>
    by_cases h : number = other
    · subst h
      by_cases hsize : number < cells.entries.size
      · simp [revision, update, Array.getElem_modify, hsize]
      · simp [revision, update, hsize]
    · have hne : other ≠ number := Ne.symm h
      simp [revision, update, Array.getElem?_modify, h, hne]

/-- Of all tags an update invalidates only that of the cell. -/
theorem validates_update (tag : Tag) :
    (cells.update number json).validates tag (cells.revision tag) = false ↔
      tag = .cell number ∧ number < cells.entries.size := by
  rw [validates, revision_update, beq_eq_false_iff_ne]
  split
  · next h => simp [h]
  · next h => simp [h]

/-- An update of a cell that does not exist changes nothing. -/
theorem update_of_le (h : cells.entries.size ≤ number) : cells.update number json = cells := by
  have hentries : (cells.update number json).entries = cells.entries := by
    refine Array.ext_getElem? fun other => ?_
    by_cases hother : number = other
    · subst hother
      simp [update, h]
    · simp [update, Array.getElem?_modify, hother]
  exact congrArg Cells.mk hentries

end Cells

namespace Reference

mutual

/-- The cells that a reference is read from. -/
def sources : Reference → List Nat
  | .fixed _ _ => []
  | .root cell => [cell]
  | .property inner _ | .truth inner | .isComponent inner | .presence inner => inner.sources
  | .concat _ parts => sourcesOfAll parts
  | .namedArguments ⟨_, _, named⟩ => sourcesOfAll named

def sourcesOfAll : List Reference → List Nat
  | [] => []
  | r :: rest => r.sources ++ sourcesOfAll rest

end

/-- The cells that a reference is read from by way of what is gathered from several references. -/
def gathered : Reference → List Nat
  | .fixed _ _ | .root _ => []
  | .property inner _ | .truth inner | .isComponent inner | .presence inner => inner.gathered
  | .concat _ parts => sourcesOfAll parts
  | .namedArguments arguments => sourcesOfAll arguments.named

mutual

/-- The datum of a reference depends on its sources only. -/
theorem value_congr {cells later : Cells} :
    ∀ r : Reference, (∀ cell ∈ r.sources, cells.json cell = later.json cell) →
      r.value cells = r.value later
  | .fixed _ _, _ => rfl
  | .root cell, h => congrArg Datum.data (h cell List.mem_cons_self)
  | .property inner key, h => congrArg (Datum.get · key) (value_congr inner h)
  | .truth inner, h => by rw [value, value, value_congr inner h]
  | .isComponent inner, h => by rw [value, value, value_congr inner h]
  | .presence inner, h => by rw [value, value, value_congr inner h]
  | .concat _ parts, h => by rw [value, value, values_congr parts h]
  | .namedArguments ⟨_, _, named⟩, h => by rw [value, value, values_congr named h]

theorem values_congr {cells later : Cells} :
    ∀ rs : List Reference, (∀ cell ∈ sourcesOfAll rs, cells.json cell = later.json cell) →
      values cells rs = values later rs
  | [], _ => rfl
  | r :: rest, h => by
    rw [values, values, value_congr r fun cell hcell => h cell (List.mem_append_left _ hcell),
      values_congr rest fun cell hcell => h cell (List.mem_append_right _ hcell)]

end

/-- A source that the tag does not count is gathered. -/
theorem tag_of_mem_sources {cell : Nat} :
    ∀ {r : Reference}, cell ∈ r.sources → r.tag = .cell cell ∨ cell ∈ r.gathered
  | .fixed _ _, h => absurd h List.not_mem_nil
  | .root _, h => .inl (congrArg Tag.cell (List.mem_singleton.mp h).symm)
  | .property inner _, h | .truth inner, h | .isComponent inner, h | .presence inner, h =>
    tag_of_mem_sources (r := inner) h
  | .concat _ _, h => .inr h
  | .namedArguments ⟨_, _, _⟩, h => .inr h

/-- An update of a cell that changes what a reference leads to invalidates the tag of the reference,
if that is the tag of the cell; and it is, unless the cell is gathered with others on the way. -/
theorem tag_notices {r : Reference} {cells : Cells} {number : Nat} {json : Json}
    (h : r.value (cells.update number json) ≠ r.value cells) :
    ((cells.update number json).validates r.tag (cells.revision r.tag) = false ↔
        r.tag = .cell number) ∧
      (r.tag = .cell number ∨ number ∈ r.gathered) := by
  have hsize : number < cells.entries.size :=
    Nat.lt_of_not_le fun hle => h (by rw [Cells.update_of_le hle])
  have hsource : number ∈ r.sources := Decidable.byContradiction fun hnot =>
    h (value_congr r fun cell hcell => Cells.json_update_of_ne fun heq => hnot (heq ▸ hcell))
  refine ⟨?_, tag_of_mem_sources hsource⟩
  rw [Cells.validates_update]
  exact and_iff_left hsize

/-- A text that is gathered from a cell, with a tag of its own. -/
def quoted : Reference := .concat (.cell 1) [.fixed .still (.data (.str "<")), .root 0]

/-- The two cells: the data, and the tag of the text. -/
def quotedCells : Cells := ⟨#[⟨.str "a", 0⟩, ⟨.null, 0⟩]⟩

theorem quoted_changes :
    quoted.value (quotedCells.update 0 (.str "b")) ≠ quoted.value quotedCells := by
  intro h
  have htext := congrArg Datum.content? h
  revert htext
  decide

/-- The text has changed, and its tag does not tell. -/
theorem quoted_unnoticed :
    (quoted.value (quotedCells.update 0 (.str "b")) ≠ quoted.value quotedCells ∧
      (((quotedCells.update 0 (.str "b")).validates quoted.tag (quotedCells.revision quoted.tag) =
          false ↔ quoted.tag = .cell 0) ∧
        (quoted.tag = .cell 0 ∨ 0 ∈ quoted.gathered))) ∧
      (quotedCells.update 0 (.str "b")).validates quoted.tag (quotedCells.revision quoted.tag) =
        true :=
  ⟨⟨quoted_changes, tag_notices quoted_changes⟩, by decide⟩

end Reference

end TemplateMachine
