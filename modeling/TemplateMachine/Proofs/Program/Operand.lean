import TemplateMachine.Code.Verify
import TemplateMachine.Proofs.Program.Word

/-! The constants that instructions name.  An index that was handed out always names something, and
what is named stays so as constants are added.  This is less than an index standing for its own
value, which takes a pool small enough for indices; it holds of pools of any size. -/

namespace TemplateMachine

/-! ### Indices -/

namespace Pool

variable {α : Type} {p q : Pool α}

/-- There is a value at the index. -/
def Names (p : Pool α) (index : UInt32) : Prop := p.get? index ≠ none

theorem names_iff_lt {index : UInt32} : p.Names index ↔ index.toNat < p.size := by
  rw [Names, get?, size, ne_eq, Array.getElem?_eq_none_iff, Nat.not_le]

theorem Extends.names (h : p.Extends q) (index : UInt32) (hp : p.Names index) : q.Names index :=
  names_iff_lt.mpr (Nat.lt_of_lt_of_le (names_iff_lt.mp hp) h.size_le)

variable [BEq α]

/-- A place that is there is named also by the word that is left of it. -/
theorem exists_intern (p : Pool α) (v : α) :
    ∃ i, (p.intern v).1 = UInt32.ofNat i ∧ i < (p.intern v).2.size := by
  rcases p.intern_cases v with ⟨i, hi, hfound⟩ | ⟨-, hadded⟩
  · rw [hfound]
    obtain ⟨w, hw, -⟩ := idxOf?_spec hi
    exact ⟨i, rfl, (Array.getElem?_eq_some_iff.mp hw).1⟩
  · rw [hadded]
    refine ⟨p.entries.size, rfl, ?_⟩
    rw [size, Array.size_push]
    exact Nat.lt_succ_self _

theorem names_intern (p : Pool α) (v : α) : (p.intern v).2.Names (p.intern v).1 := by
  obtain ⟨i, hi, hlt⟩ := exists_intern p v
  rw [names_iff_lt, hi, UInt32.toNat_ofNat']
  exact Nat.lt_of_le_of_lt (Nat.mod_le _ _) hlt

end Pool

theorem IndexedPool.names_intern {α : Type} [BEq α] (p : IndexedPool α) (v : α) :
    (p.intern v).2.Names (p.intern v).1 := by
  rw [toPool_intern, fst_intern]
  exact Pool.names_intern _ v

namespace Constants

variable {c d : Constants}

/-- The string array and its strings are there. -/
theorem getStringArray?_ne_none {index : UInt32} :
    c.getStringArray? index ≠ none ↔
      ∃ indices, c.stringArrays.get? index = some indices ∧ ∀ i ∈ indices, c.strings.Names i := by
  have hmap (indices : List UInt32) :
      indices.mapM c.strings.get? ≠ none ↔ ∀ i ∈ indices, c.strings.Names i := by
    induction indices with
    | nil => simp
    | cons i rest ih =>
      rw [List.forall_mem_cons, ← ih, List.mapM_cons, Pool.Names]
      cases c.strings.get? i with
      | none => simp
      | some s =>
        cases rest.mapM c.strings.get? with
        | none => simp
        | some more => simp
  unfold getStringArray?
  cases c.stringArrays.get? index with
  | none => simp
  | some indices =>
    rw [Option.bind_some, hmap]
    simp

theorem names_stringList (values : List String) (c : Constants) :
    ∀ i ∈ (c.stringList values).1, (c.stringList values).2.strings.Names i := by
  induction values generalizing c with
  | nil => exact nofun
  | cons s rest ih =>
    refine List.forall_mem_cons.mpr ⟨?_, ih _⟩
    exact ((c.string s).2.extends_stringList rest).strings.names _ (c.strings.names_intern s)

theorem stringArrays_stringList (values : List String) (c : Constants) :
    (c.stringList values).2.stringArrays = c.stringArrays := by
  induction values generalizing c with
  | nil => rfl
  | cons s rest ih => exact ih (c.string s).2

/-- The string arrays are made of strings that are there. -/
def Closed (c : Constants) : Prop :=
  ∀ index indices, c.stringArrays.get? index = some indices → ∀ i ∈ indices, c.strings.Names i

theorem closed_initial : initial.Closed := by
  intro index indices h
  cases h

theorem Closed.mono (h : c.Closed) (hstrings : c.strings.Extends d.strings)
    (harrays : d.stringArrays = c.stringArrays) : d.Closed := by
  intro index indices hget i hi
  rw [harrays] at hget
  exact hstrings.names i (h index indices hget i hi)

theorem Closed.stringArray (h : c.Closed) (values : List String) :
    (c.stringArray values).2.Closed := by
  have hlist : (c.stringList values).2.Closed :=
    h.mono (c.extends_stringList values).strings (stringArrays_stringList values c)
  intro index indices hget i hi
  rcases IndexedPool.get?_intern hget with hold | rfl
  · exact hlist index indices hold i hi
  · exact names_stringList values c i hi

theorem Closed.getStringArray?_stringArray (h : c.Closed) (values : List String) :
    (c.stringArray values).2.getStringArray? (c.stringArray values).1 ≠ none := by
  have hindex : (c.stringArray values).2.stringArrays.Names (c.stringArray values).1 :=
    IndexedPool.names_intern _ _
  obtain ⟨indices, hget⟩ := Option.ne_none_iff_exists'.mp hindex
  exact getStringArray?_ne_none.mpr ⟨indices, hget, h.stringArray values _ _ hget⟩

end Constants

/-! ### Instructions -/

namespace Constants

/-- All constants that an instruction names are there. -/
def Supplies (c : Constants) (i : Instruction) : Prop :=
  i.op ≠ .invokeStatic → ({ constants := c } : Program).missingOperand? i = none

variable {c d : Constants}

theorem decode?_mono (h : c.Extends d) {w : UInt32} (hw : Primitive.decode? w c ≠ none) :
    Primitive.decode? w d ≠ none := by
  have hfloat (p : Binary64 → Primitive) (index : UInt32) :
      (c.floats.get? index).map p ≠ none → (d.floats.get? index).map p ≠ none := by
    simpa [Pool.Names] using h.floats.names index
  have hstring (p : String → Primitive) (index : UInt32) :
      (c.strings.get? index).map p ≠ none → (d.strings.get? index).map p ≠ none := by
    simpa [Pool.Names] using h.strings.names index
  unfold Primitive.decode? at *
  grind

theorem getStringArray?_ne_none_mono (h : c.Extends d) {index : UInt32}
    (hindex : c.getStringArray? index ≠ none) : d.getStringArray? index ≠ none := by
  obtain ⟨indices, hget, hnames⟩ := getStringArray?_ne_none.mp hindex
  exact getStringArray?_ne_none.mpr
    ⟨indices, h.stringArrays.get? hget, fun i hi => h.strings.names i (hnames i hi)⟩

theorem Supplies.mono (h : c.Extends d) {i : Instruction} (hi : c.Supplies i) : d.Supplies i := by
  intro hop
  have hc := hi hop
  have hstrings := h.strings.names
  have htables := h.tables.names
  have hhandles := h.handles.names
  have hreferers := h.referers.names
  have hfragments := h.fragments.names
  have hprimitive := fun w => decode?_mono h (w := w)
  have hnames (index : UInt32) (hindex : c.getStringArray? index ≠ none) :=
    getStringArray?_ne_none_mono h hindex
  simp only [Pool.Names, ne_eq] at *
  rcases i with ⟨op, x, y, z⟩
  cases op <;> simp [Program.missingOperand?] at hc ⊢ <;> grind

/-- Without a call, an instruction needs no more than constants. -/
theorem supplies_iff {p : Program} {i : Instruction} (hop : i.op ≠ .invokeStatic) :
    p.constants.Supplies i ↔ p.missingOperand? i = none := by
  rcases i with ⟨op, x, y, z⟩
  cases op <;> first | exact absurd rfl hop | exact ⟨fun h => h hop, fun h _ => h⟩

end Constants

/-! ### Operands that were added -/

/-- Operations on a string. -/
def Opcode.takesString : Opcode → Bool
  | .text | .comment | .openElement | .getProperty => true
  | _ => false

/-- Operations on what a name was resolved to. -/
def Opcode.takesHandle : Opcode → Bool
  | .helper | .modifier | .pushComponentSpec => true
  | _ => false

/-- Operations that look names up at run time. -/
def Opcode.takesReferer : Opcode → Bool
  | .pushDynamicComponentManager | .curryComponent => true
  | _ => false

/-- Operations that are neither jumps nor calls of a block. -/
def Opcode.isOrdinary : Opcode → Bool
  | .invokeStatic => false
  | o => !o.isJump

/-- Ordinary instructions that name no constant. -/
def Instruction.isFree (i : Instruction) : Bool :=
  i.op.isOrdinary && (Program.missingOperand? { constants := {} } i).isNone

namespace Opcode

variable {o : Opcode}

theorem isOrdinary_iff : o.isOrdinary = true ↔ o.isJump = false ∧ o ≠ .invokeStatic := by
  cases o <;> decide

theorem isOrdinary_of_takesString (h : o.takesString = true) : o.isOrdinary = true := by
  cases o <;> first | exact absurd h (by decide) | rfl

theorem isOrdinary_of_takesHandle (h : o.takesHandle = true) : o.isOrdinary = true := by
  cases o <;> first | exact absurd h (by decide) | rfl

theorem isOrdinary_of_takesReferer (h : o.takesReferer = true) : o.isOrdinary = true := by
  cases o <;> first | exact absurd h (by decide) | rfl

end Opcode

namespace Constants

variable {c : Constants} {o : Opcode} {x y z : UInt32}

theorem supplies_of_takesString (ho : o.takesString = true) (h : c.strings.Names x) :
    c.Supplies ⟨o, x, y, z⟩ := by
  intro _
  cases o <;>
    first | exact absurd ho (by decide) | simpa [Program.missingOperand?, Pool.Names] using h

theorem supplies_of_takesHandle (ho : o.takesHandle = true) (h : c.handles.Names x) :
    c.Supplies ⟨o, x, y, z⟩ := by
  intro _
  cases o <;>
    first | exact absurd ho (by decide) | simpa [Program.missingOperand?, Pool.Names] using h

theorem supplies_of_takesReferer (ho : o.takesReferer = true) (h : c.referers.Names x) :
    c.Supplies ⟨o, x, y, z⟩ := by
  intro _
  cases o <;>
    first | exact absurd ho (by decide) | simpa [Program.missingOperand?, Pool.Names] using h

/-- An instruction that lacks nothing without constants never lacks anything. -/
theorem supplies_of_isFree {i : Instruction} (h : i.isFree = true) : c.Supplies i := by
  have hnone := Option.isNone_iff_eq_none.mp (Bool.and_eq_true_iff.mp h).2
  have hextends : Extends {} c := by
    constructor <;> exact fun i v hv => by simp [IndexedPool.empty] at hv
  exact Supplies.mono hextends fun _ => hnone

/-- A distance is no constant. -/
theorem supplies_of_isJump {i : Instruction} (h : i.op.isJump = true) : c.Supplies i := by
  intro _
  obtain ⟨o, x, y, z⟩ := i
  replace h : o.isJump = true := h
  cases o <;> first | exact absurd h (by decide) | rfl

theorem supplies_pushSymbolTable (h : c.tables.Names x) :
    c.Supplies ⟨.pushSymbolTable, x, y, z⟩ := by
  intro _
  simpa [Program.missingOperand?, Pool.Names] using h

theorem supplies_constant (h : c.fragments.Names x) : c.Supplies ⟨.constant, x, y, z⟩ := by
  intro _
  simpa [Program.missingOperand?, Pool.Names] using h

theorem supplies_primitive (h : Primitive.decode? x c ≠ none) :
    c.Supplies ⟨.primitive, x, y, z⟩ := by
  intro _
  simpa [Program.missingOperand?] using h

theorem supplies_pushArgs (h : c.getStringArray? x ≠ none) : c.Supplies ⟨.pushArgs, x, y, z⟩ := by
  intro _
  simpa [Program.missingOperand?] using h

theorem supplies_staticAttr (hname : c.strings.Names x) (hvalue : c.strings.Names y)
    (hspace : c.strings.Names z) : c.Supplies ⟨.staticAttr, x, y, z⟩ := by
  intro _
  simpa [Program.missingOperand?, Pool.Names] using ⟨hname, hvalue, hspace⟩

theorem supplies_attr (ho : o = .dynamicAttr ∨ o = .componentAttr) (hname : c.strings.Names x)
    (hspace : c.strings.Names z) : c.Supplies ⟨o, x, y, z⟩ := by
  intro _
  rcases ho with rfl | rfl <;>
    simpa [Program.missingOperand?, Pool.Names] using And.intro hname hspace

end Constants

/-- What was encoded can be decoded, if perhaps not to the same value. -/
theorem Primitive.decode?_encode_ne_none (p : Primitive) (c : Constants) :
    decode? (p.encode c).1 (p.encode c).2 ≠ none := by
  have hnames {α : Type} {pool : Pool α} {payload : UInt32} (kind : Kind) (h : pool.Names payload) :
      pool.Names (UInt32.ofNat ((word kind payload).toNat / 8)) := by
    rw [Pool.names_iff_lt] at *
    rw [UInt32.toNat_ofNat']
    have := (tag_word kind payload).2
    omega
  cases p with
  | number x =>
    cases himm : immediate? x with
    | some n => simp [encode_immediate himm, decode?, tag_word, Kind.tag]
    | none =>
      rw [encode_float himm]
      have hindex : (c.float x).2.floats.Names (c.float x).1 := c.floats.names_intern x
      have hfloat := hnames .float hindex
      simpa [decode?, tag_word, Kind.tag, Pool.Names] using hfloat
  | string s =>
    have hindex : (c.string s).2.strings.Names (c.string s).1 := c.strings.names_intern s
    have hstring := hnames .string hindex
    simpa [encode, decode?, tag_word, Kind.tag, Pool.Names] using hstring
  | boolean b => cases b <;> simp [encode, decode?, word, Kind.tag]
  | null => simp [encode, decode?, word, Kind.tag]
  | undefined => simp [encode, decode?, word, Kind.tag]

end TemplateMachine
