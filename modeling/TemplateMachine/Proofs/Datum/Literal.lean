import TemplateMachine.Machine.Step
import TemplateMachine.Proofs.Number.Integer

/-! Literals of templates, held against the same data.  A number in a template is kept as a double
and given back as an integer only below the bound, so the datum of a literal may be another than the
one it was written as.  Places that write or test a datum do not tell the two apart; equality does,
from the bound on. -/

namespace TemplateMachine

/-- A value of a document that has no parts: an integer has a word, and a number in
floating point is finite. -/
def Json.IsScalar : Json → Prop
  | .null | .bool _ | .str _ => True
  | .int n => -0x8000000000000000 ≤ n ∧ n < 0x10000000000000000
  | .float x => x.isFinite = true
  | .arr _ | .obj _ => False

namespace Datum

/-- Data that no place tells apart where they are written or tested. -/
structure Alike (d e : Datum) : Prop where
  content : d.content? = e.content?
  attributeText : Exec.attributeText? d = Exec.attributeText? e
  truth : d.isTruthy = e.isTruthy
  component : d.isComponent = e.isComponent

theorem Alike.refl (d : Datum) : d.Alike d := ⟨rfl, rfl, rfl, rfl⟩

/-- Data other than booleans give attributes their content. -/
theorem Alike.of_content {d e : Datum} (hd : Exec.attributeText? d = d.content?)
    (he : Exec.attributeText? e = e.content?) (hcontent : d.content? = e.content?)
    (htruth : d.isTruthy = e.isTruthy)
    (hcomponent : d.isComponent = e.isComponent) : d.Alike e where
  content := hcontent
  attributeText := by rw [hd, he, hcontent]
  truth := htruth
  component := hcomponent

section

variable {x : Binary64}

theorem contentText_of_smallInt? {n : Int} (h : x.smallInt? = some n) :
    (Binary64.ofInt n).contentText = x.contentText := by
  have hn := Binary64.smallInt?_ofInt (Binary64.of_smallInt? h).1
  rw [Binary64.contentText, Binary64.contentText, hn, h]

/-- A number is written in the same way as an integer and as a double. -/
theorem content?_ofBinary64 (hx : x.isFinite = true) :
    (data (Json.ofBinary64 x)).content? = some x.contentText := by
  unfold Json.ofBinary64
  cases h : x.smallInt? with
  | some n => exact congrArg some (contentText_of_smallInt? h)
  | none =>
    rw [if_pos hx]
    rfl

/-- A number is true as an integer exactly if it is as a double. -/
theorem isTruthy_ofBinary64 (hx : x.isFinite = true) :
    (data (Json.ofBinary64 x)).isTruthy = x.isTruthy := by
  unfold Json.ofBinary64
  cases h : x.smallInt? with
  | none =>
    rw [if_pos hx]
    rfl
  | some n => exact (Binary64.of_smallInt? h).2.symm

end

/-- The double of a finite number is like the number it is given back as. -/
theorem alike_ofBinary64 {x : Binary64} {d : Datum} (hx : x.isFinite = true)
    (hattribute : Exec.attributeText? d = d.content?) (hcontent : d.content? = some x.contentText)
    (htruth : d.isTruthy = x.isTruthy) (hcomponent : d.isComponent = false) :
    (data (Json.ofBinary64 x)).Alike d := by
  refine .of_content ?_ hattribute ?_ ?_ hcomponent.symm
  · unfold Json.ofBinary64
    cases x.smallInt? with
    | some n => rfl
    | none =>
      rw [if_pos hx]
      rfl
  · rw [content?_ofBinary64 hx, hcontent]
  · rw [isTruthy_ofBinary64 hx, htruth]

end Datum

/-- The datum of a literal is like the literal. -/
theorem Primitive.alike_of_ofJson {v : Json} (hv : v.IsScalar) {p : Primitive}
    (hp : ofJson v = .ok p) :
    (Datum.data p.toJson).Alike (.data v) := by
  cases v with
  | null | bool | str =>
    cases hp
    exact .refl _
  | int n =>
    cases hp
    have hn : n.natAbs < UInt64.size := by
      have := hv.1
      have := hv.2
      simp only [UInt64.size]
      omega
    exact Datum.alike_ofBinary64 (Binary64.ofInt_of_word hn).1 rfl rfl
      (Binary64.isTruthy_ofInt hn).symm rfl
  | float x =>
    cases hp
    exact Datum.alike_ofBinary64 hv rfl rfl rfl rfl
  | arr | obj => exact hv.elim

/-- The primitive of a scalar. -/
theorem Primitive.ofJson_of_isScalar {v : Json} (hv : v.IsScalar) : ∃ p, ofJson v = .ok p := by
  cases v with
  | null | bool | int | float | str => exact ⟨_, rfl⟩
  | arr | obj => exact hv.elim

/-- An integer literal equals the integer exactly below the bound for integers. -/
theorem Json.eq_ofInt (n : Int) :
    (Json.ofBinary64 (Binary64.ofInt n)).eq (.int n) = decide
      (n.natAbs < Binary64.integerBound) := by
  by_cases hn : n.natAbs < Binary64.integerBound
  · rw [ofBinary64, Binary64.smallInt?_ofInt hn, decide_eq_true hn]
    simp [Json.eq]
  · rw [decide_eq_false hn, ofBinary64]
    cases h : (Binary64.ofInt n).smallInt? with
    | some m =>
      -- the integer that is given back lies below the bound, so it is another
      have hm := (Binary64.of_smallInt? h).1
      have hne : m ≠ n := by
        rintro rfl
        exact hn hm
      simpa [Json.eq] using hne
    | none =>
      dsimp only
      split <;> rfl

end TemplateMachine
