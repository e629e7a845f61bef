import TemplateMachine.Code.Program

/-! The growth of programs.  Compilation only ever adds to a program: a pool keeps what its indices
stand for, the heap keeps its words, and a fragment keeps its handle.  An index is a word, so it
stands for its value only as long as the pool fits. -/

namespace TemplateMachine

theorem mapM_cons_eq_some {α β : Type} {f : α → Option β} {a : α} {as : List α} {bs : List β} :
    (a :: as).mapM f = some bs ↔ ∃ b more, f a = some b ∧ as.mapM f = some more ∧
    bs = b :: more := by
  rw [List.mapM_cons]
  cases f a <;> cases as.mapM f <;> simp [eq_comm]

/-! ### Pools -/

namespace Pool

variable {α : Type}

/-- `q` keeps what the indices of `p` stand for. -/
def Extends (p q : Pool α) : Prop := ∀ (i : Nat) (v : α), p.entries[i]? = some v →
    q.entries[i]? = some v

/-- The indices of the pool are small enough to be part of a word. -/
def Fits (p : Pool α) : Prop := p.size < 0x20000000

instance (p : Pool α) : Decidable p.Fits := inferInstanceAs (Decidable (_ < _))

/-- Every entry has an index of its own. -/
def Numbered (p : Pool α) : Prop := p.size ≤ UInt32.size

instance (p : Pool α) : Decidable p.Numbered := inferInstanceAs (Decidable (_ ≤ _))

theorem Fits.numbered {p : Pool α} (h : p.Fits) : p.Numbered :=
  Nat.le_trans (Nat.le_of_lt h) (by decide)

theorem Extends.refl (p : Pool α) : p.Extends p := fun _ _ h => h

theorem Extends.trans {p q r : Pool α} (h : p.Extends q) (h' : q.Extends r) : p.Extends r :=
  fun i v hv => h' i v (h i v hv)

theorem Extends.size_le {p q : Pool α} (h : p.Extends q) : p.size ≤ q.size := by
  by_cases hsize : p.size ≤ q.size
  · exact hsize
  · have hlt : q.entries.size < p.entries.size := by simpa [size] using hsize
    have := h q.entries.size _ (Array.getElem?_eq_getElem hlt)
    simp at this

theorem Extends.fits {p q : Pool α} (h : p.Extends q) (hq : q.Fits) : p.Fits :=
  Nat.lt_of_le_of_lt h.size_le hq

theorem Extends.numbered {p q : Pool α} (h : p.Extends q) (hq : q.Numbered) : p.Numbered :=
  Nat.le_trans h.size_le hq

theorem Extends.get? {p q : Pool α} (h : p.Extends q) {index : UInt32} {v : α}
    (hv : p.get? index = some v) : q.get? index = some v :=
  h index.toNat v hv

theorem idxOf?_spec [BEq α] {xs : Array α} {v : α} {i : Nat} (h : xs.idxOf? v = some i) :
    ∃ w, xs[i]? = some w ∧ (w == v) = true := by
  rcases xs with ⟨xs⟩
  simp only [List.idxOf?_toArray, List.idxOf?, List.findIdx?_eq_some_iff_getElem] at h
  obtain ⟨hi, hw, -⟩ := h
  exact ⟨xs[i], by simp [hi], hw⟩

variable [BEq α]

/-- A value that is found keeps its index, and any other is added at the end. -/
theorem intern_cases (p : Pool α) (v : α) :
    (∃ i, p.entries.idxOf? v = some i ∧ p.intern v = (UInt32.ofNat i, p)) ∨
      p.entries.idxOf? v = none ∧
        p.intern v = (UInt32.ofNat p.entries.size, ⟨p.entries.push v⟩) := by
  unfold intern
  cases p.entries.idxOf? v with
  | some i => exact .inl ⟨i, rfl, rfl⟩
  | none => exact .inr ⟨rfl, rfl⟩

theorem extends_intern (p : Pool α) (v : α) : p.Extends (p.intern v).2 := by
  intro i w h
  rcases p.intern_cases v with ⟨_, -, hfound⟩ | ⟨-, hadded⟩
  · rw [hfound]
    exact h
  · have hi := (Array.getElem?_eq_some_iff.mp h).1
    rw [hadded, Array.getElem?_push_lt hi]
    exact (Array.getElem?_eq_getElem hi).symm.trans h

/-- The entries of a pool after interning are its own and the value. -/
theorem get?_intern {p : Pool α} {v w : α} {index : UInt32}
    (h : (p.intern v).2.get? index = some w) : p.get? index = some w ∨ w = v := by
  rcases p.intern_cases v with ⟨_, -, hfound⟩ | ⟨-, hadded⟩
  · rw [hfound] at h
    exact .inl h
  · rw [hadded] at h
    simp only [get?, Array.getElem?_push] at h
    split at h
    · exact .inr (Option.some.inj h).symm
    · exact .inl h

/-- The index of a value stands for it, or for one that the pool takes to be equal. -/
theorem get?_intern_self [ReflBEq α] {p : Pool α} {v : α} (hsize : (p.intern v).2.Numbered) :
    ∃ w, (p.intern v).2.get? (p.intern v).1 = some w ∧ (w == v) = true := by
  have hindex {q : Pool α} (hq : q.Numbered) {i : Nat} {w : α} (hw : q.entries[i]? = some w) :
      q.get? (UInt32.ofNat i) = some w := by
    have hlt : i < q.entries.size := (Array.getElem?_eq_some_iff.mp hw).1
    rw [get?, UInt32.toNat_ofNat_of_lt' (Nat.lt_of_lt_of_le hlt hq), hw]
  rcases p.intern_cases v with ⟨i, hi, hfound⟩ | ⟨-, hadded⟩
  · rw [hfound] at hsize ⊢
    obtain ⟨w, hw, heq⟩ := idxOf?_spec hi
    exact ⟨w, hindex hsize hw, heq⟩
  · rw [hadded] at hsize ⊢
    exact ⟨v, hindex hsize Array.getElem?_push_size, BEq.rfl⟩

end Pool

/-! ### Pools with maps -/

namespace IndexedPool

variable {α : Type} [BEq α] {p : IndexedPool α} {v w : α}

/-- The map tells the place that a search finds. -/
theorem lookup_eq (p : IndexedPool α) (v : α) :
    p.lookup v = (p.entries.idxOf? v).map UInt32.ofNat := p.tells v

/-- Interning by the map is interning by a search. -/
theorem intern_eq (p : IndexedPool α) (v : α) :
    ((p.intern v).1, ((p.intern v).2 : Pool α)) = p.toPool.intern v := by
  unfold intern Pool.intern
  rw [lookup_eq]
  cases p.entries.idxOf? v <;> rfl

theorem fst_intern (p : IndexedPool α) (v : α) : (p.intern v).1 = (p.toPool.intern v).1 :=
  congrArg Prod.fst (p.intern_eq v)

theorem toPool_intern (p : IndexedPool α) (v : α) : (p.intern v).2.toPool = (p.toPool.intern v).2 :=
  congrArg Prod.snd (p.intern_eq v)

theorem extends_intern (p : IndexedPool α) (v : α) : p.Extends (p.intern v).2 := by
  rw [toPool_intern]
  exact Pool.extends_intern _ v

theorem get?_intern {index : UInt32} (h : (p.intern v).2.get? index = some w) :
    p.get? index = some w ∨ w = v := by
  rw [toPool_intern] at h
  exact Pool.get?_intern h

variable [LawfulBEq α]

theorem get?_intern_eq (hsize : (p.intern v).2.Numbered) :
    (p.intern v).2.get? (p.intern v).1 = some v := by
  rw [toPool_intern] at *
  obtain ⟨w, hw, heq⟩ := Pool.get?_intern_self hsize
  rw [fst_intern, hw, eq_of_beq heq]

/-- The first value keeps its index. -/
theorem intern_first (h : p.get? 0 = some v) : (p.intern v).1 = 0 := by
  rcases p with ⟨⟨⟨_ | ⟨w, rest⟩⟩⟩, _, _⟩
  · cases h
  · obtain rfl : w = v := by simpa [Pool.get?] using h
    simp [fst_intern, Pool.intern, List.idxOf?, List.findIdx?_cons]

end IndexedPool

namespace Fragment

/-- Fragments of the same identity are the same. -/
theorem beq_iff {f g : Fragment} : (f == g) = true ↔ f.id = g.id := by
  rw [← beq_iff_eq (a := f.id)]
  rfl

instance : EquivBEq Fragment where
  rfl := beq_iff.mpr rfl
  symm h := beq_iff.mpr (beq_iff.mp h).symm
  trans h h' := beq_iff.mpr ((beq_iff.mp h).trans (beq_iff.mp h'))

end Fragment

/-! ### Constants -/

namespace Constants

/-- Every pool of `d` extends the one of `c`. -/
structure Extends (c d : Constants) : Prop where
  strings : c.strings.Extends d.strings
  floats : c.floats.Extends d.floats
  arrays : c.arrays.Extends d.arrays
  stringArrays : c.stringArrays.Extends d.stringArrays
  tables : c.tables.Extends d.tables
  handles : c.handles.Extends d.handles
  referers : c.referers.Extends d.referers
  fragments : c.fragments.Extends d.fragments

/-- Every pool fits. -/
structure Fits (c : Constants) : Prop where
  strings : c.strings.Fits
  floats : c.floats.Fits
  arrays : c.arrays.Fits
  stringArrays : c.stringArrays.Fits
  tables : c.tables.Fits
  handles : c.handles.Fits
  referers : c.referers.Fits
  fragments : c.fragments.Fits

/-- Every entry of every pool has an index of its own. -/
structure Numbered (c : Constants) : Prop where
  strings : c.strings.Numbered
  floats : c.floats.Numbered
  arrays : c.arrays.Numbered
  stringArrays : c.stringArrays.Numbered
  tables : c.tables.Numbered
  handles : c.handles.Numbered
  referers : c.referers.Numbered
  fragments : c.fragments.Numbered

theorem Fits.numbered {c : Constants} (h : c.Fits) : c.Numbered :=
  ⟨h.strings.numbered, h.floats.numbered, h.arrays.numbered, h.stringArrays.numbered,
    h.tables.numbered, h.handles.numbered, h.referers.numbered, h.fragments.numbered⟩

instance (c : Constants) : Decidable c.Fits :=
  decidable_of_iff (c.strings.Fits ∧ c.floats.Fits ∧ c.arrays.Fits ∧ c.stringArrays.Fits ∧
      c.tables.Fits ∧ c.handles.Fits ∧ c.referers.Fits ∧ c.fragments.Fits)
    ⟨fun ⟨h₁, h₂, h₃, h₄, h₅, h₆, h₇, h₈⟩ => ⟨h₁, h₂, h₃, h₄, h₅, h₆, h₇, h₈⟩,
      fun h => ⟨h.strings, h.floats, h.arrays, h.stringArrays, h.tables, h.handles, h.referers,
        h.fragments⟩⟩

theorem Extends.refl (c : Constants) : c.Extends c :=
  ⟨.refl _, .refl _, .refl _, .refl _, .refl _, .refl _, .refl _, .refl _⟩

theorem Extends.trans {c d e : Constants} (h : c.Extends d) (h' : d.Extends e) : c.Extends e :=
  ⟨h.strings.trans h'.strings, h.floats.trans h'.floats, h.arrays.trans h'.arrays,
    h.stringArrays.trans h'.stringArrays, h.tables.trans h'.tables, h.handles.trans h'.handles,
    h.referers.trans h'.referers, h.fragments.trans h'.fragments⟩

theorem Extends.fits {c d : Constants} (h : c.Extends d) (hd : d.Fits) : c.Fits :=
  ⟨h.strings.fits hd.strings, h.floats.fits hd.floats, h.arrays.fits hd.arrays,
    h.stringArrays.fits hd.stringArrays, h.tables.fits hd.tables, h.handles.fits hd.handles,
    h.referers.fits hd.referers, h.fragments.fits hd.fragments⟩

theorem Extends.numbered {c d : Constants} (h : c.Extends d) (hd : d.Numbered) : c.Numbered :=
  ⟨h.strings.numbered hd.strings, h.floats.numbered hd.floats, h.arrays.numbered hd.arrays,
    h.stringArrays.numbered hd.stringArrays, h.tables.numbered hd.tables,
    h.handles.numbered hd.handles, h.referers.numbered hd.referers,
    h.fragments.numbered hd.fragments⟩

theorem extends_string (c : Constants) (s : String) : c.Extends (c.string s).2 :=
  { Extends.refl c with strings := c.strings.extends_intern s }

theorem extends_float (c : Constants) (x : Binary64) : c.Extends (c.float x).2 :=
  { Extends.refl c with floats := c.floats.extends_intern x }

theorem extends_array (c : Constants) (values : List UInt32) : c.Extends (c.array values).2 :=
  { Extends.refl c with arrays := c.arrays.extends_intern values }

theorem extends_table (c : Constants) (t : SymbolTable) : c.Extends (c.table t).2 :=
  { Extends.refl c with tables := c.tables.extends_intern t }

theorem extends_handle (c : Constants) (h : UInt32) : c.Extends (c.handle h).2 :=
  { Extends.refl c with handles := c.handles.extends_intern h }

theorem extends_referer (c : Constants) (s : String) : c.Extends (c.referer s).2 :=
  { Extends.refl c with referers := c.referers.extends_intern s }

theorem extends_fragment (c : Constants) (f : Fragment) : c.Extends (c.fragment f).2 :=
  { Extends.refl c with fragments := c.fragments.extends_intern f }

theorem extends_stringList (values : List String) (c : Constants) :
    c.Extends (c.stringList values).2 := by
  induction values generalizing c with
  | nil => exact .refl c
  | cons s rest ih => exact (c.extends_string s).trans (ih _)

theorem extends_stringArray (c : Constants) (values : List String) :
    c.Extends (c.stringArray values).2 :=
  (c.extends_stringList values).trans
    { Extends.refl _ with stringArrays := IndexedPool.extends_intern _ _ }

theorem fragments_stringList (c : Constants) (values : List String) :
    (c.stringList values).2.fragments = c.fragments := by
  induction values generalizing c with
  | nil => rfl
  | cons s rest ih => exact ih (c.string s).2

/-- The indices of several strings stand for them. -/
theorem mapM_stringList (values : List String) {c d : Constants}
    (h : (c.stringList values).2.strings.Extends d.strings) (hd : d.strings.Numbered) :
    (c.stringList values).1.mapM d.strings.get? = some values := by
  induction values generalizing c with
  | nil => rfl
  | cons s rest ih =>
    have hs : (c.string s).2.strings.Extends d.strings :=
      ((c.string s).2.extends_stringList rest).strings.trans h
    have hget : d.strings.get? (c.string s).1 = some s :=
      hs.get? (IndexedPool.get?_intern_eq (hs.numbered hd))
    exact mapM_cons_eq_some.mpr ⟨s, rest, hget, ih h, rfl⟩

theorem getStringArray?_stringArray {c d : Constants} {values : List String}
    (h : (c.stringArray values).2.Extends d) (hd : d.Numbered) :
    d.getStringArray? (c.stringArray values).1 = some values := by
  have harray : d.stringArrays.get? (c.stringArray values).1 = some (c.stringList values).1 :=
    h.stringArrays.get? (IndexedPool.get?_intern_eq (h.stringArrays.numbered hd.stringArrays))
  unfold getStringArray?
  rw [harray]
  exact mapM_stringList values h.strings hd.strings

theorem getStringArray?_mono {d e : Constants} (h : d.Extends e) {index : UInt32}
    {names : List String} (hnames : d.getStringArray? index = some names) :
    e.getStringArray? index = some names := by
  obtain ⟨indices, hindices, hmap⟩ := Option.bind_eq_some_iff.mp hnames
  unfold getStringArray?
  rw [h.stringArrays.get? hindices]
  show indices.mapM e.strings.get? = some names
  clear hnames hindices
  induction indices generalizing names with
  | nil => exact hmap
  | cons i rest ih =>
    obtain ⟨s, more, hs, hmore, rfl⟩ := mapM_cons_eq_some.mp hmap
    exact mapM_cons_eq_some.mpr ⟨s, more, h.strings.get? hs, ih hmore, rfl⟩

end Constants

/-! ### Programs -/

namespace Program

/-- `q` has what `p` has, and perhaps more. -/
structure Grows (p q : Program) : Prop where
  words : ∀ a w, p.heap.word? a = some w → q.heap.word? a = some w
  blocks : p.heap.blocks.size ≤ q.heap.blocks.size
  constants : p.constants.Extends q.constants
  linked : ∀ id handle, p.linked? id = some handle → q.linked? id = some handle
  fresh : p.fresh ≤ q.fresh

/-- Addresses, distances and indices are small enough for the words that hold them. -/
structure Fits (p : Program) : Prop where
  words : p.heap.words.size < 0x80000000
  blocks : p.heap.blocks.size < 0x100000000
  constants : p.constants.Fits

instance (p : Program) : Decidable p.Fits :=
  decidable_of_iff (p.heap.words.size < 0x80000000 ∧ p.heap.blocks.size < 0x100000000 ∧
      p.constants.Fits)
    ⟨fun ⟨h₁, h₂, h₃⟩ => ⟨h₁, h₂, h₃⟩, fun h => ⟨h.words, h.blocks, h.constants⟩⟩

theorem Grows.refl (p : Program) : p.Grows p :=
  ⟨fun _ _ h => h, Nat.le_refl _, .refl _, fun _ _ h => h, Nat.le_refl _⟩

theorem Grows.trans {p q r : Program} (h : p.Grows q) (h' : q.Grows r) : p.Grows r :=
  ⟨fun a w hw => h'.words a w (h.words a w hw), Nat.le_trans h.blocks h'.blocks,
    h.constants.trans h'.constants, fun id handle hh => h'.linked id handle (h.linked id handle hh),
    Nat.le_trans h.fresh h'.fresh⟩

theorem Grows.words_le {p q : Program} (h : p.Grows q) :
    p.heap.words.size ≤ q.heap.words.size := by
  by_cases hsize : p.heap.words.size ≤ q.heap.words.size
  · exact hsize
  · have := h.words q.heap.words.size _ (Array.getElem?_eq_getElem (by omega))
    simp [Heap.word?] at this

theorem Grows.fits {p q : Program} (h : p.Grows q) (hq : q.Fits) : p.Fits :=
  ⟨Nat.lt_of_le_of_lt h.words_le hq.words, Nat.lt_of_le_of_lt h.blocks hq.blocks,
    h.constants.fits hq.constants⟩

/-- Constants may be added. -/
theorem grows_constants {heap : Heap} {c d : Constants} {linked : List (FragmentId × UInt32)}
    {fresh : Nat} (h : c.Extends d) : Grows ⟨heap, c, linked, fresh⟩ ⟨heap, d, linked, fresh⟩ :=
  ⟨fun _ _ h => h, Nat.le_refl _, h, fun _ _ h => h, Nat.le_refl _⟩

end Program

end TemplateMachine
