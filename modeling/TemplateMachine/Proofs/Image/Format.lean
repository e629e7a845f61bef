import TemplateMachine.Code.Image

/-! Reading back what was written.  A reader takes exactly the bytes that were written for a value,
and as long as some of them are missing it asks for more.  Both hold of the format as a whole
because they hold of its numbers and strings, and are kept by sequences and counted lists: every
part of an image is read back from its bytes, so an image delimits itself, and what follows one is
not looked at. -/

namespace TemplateMachine

namespace Bytes

/-- The value is read from its bytes, whatever follows, and not from a part of them. -/
structure Recovers {α : Type} (read : ByteReader α) (bytes : Bytes) (a : α) : Prop where
  whole : ∀ rest, read (bytes ++ rest) = .ok (a, rest)
  cut : ∀ part, part <+: bytes → part ≠ bytes → read part = .error .unexpectedEof

/-- A length that a word can hold. -/
def Countable (n : Nat) : Prop := n < UInt32.size

instance (n : Nat) : Decidable (Countable n) := inferInstanceAs (Decidable (_ < _))

section

variable {α β : Type} {bytes more : Bytes} {a : α} {b : β}

namespace Recovers

/-- A value that takes no bytes. -/
theorem pure : Recovers (fun bytes => .ok (a, bytes)) [] a where
  whole _ := rfl
  cut _ hpart hne := absurd (List.prefix_nil.mp hpart) hne

/-- One value after the other, the second perhaps read in a way that depends on the first. -/
theorem bind {read : ByteReader α} {next : α × Bytes → Except ImageError (β × Bytes)}
    (h : Recovers read bytes a) (hnext : Recovers (fun rest => next (a, rest)) more b) :
    Recovers (fun bytes => read bytes >>= next) (bytes ++ more) b where
  whole rest := by
    rw [List.append_assoc, h.whole]
    exact hnext.whole rest
  cut part hpart hne := by
    rcases List.prefix_or_prefix_of_prefix hpart (List.prefix_append bytes more) with
      hshort | ⟨tail, rfl⟩
    · by_cases hall : part = bytes
      · -- The first value is there, and nothing of the second.
        subst hall
        have hmore : [] ≠ more := fun hnil => hne (by rw [← hnil, List.append_nil])
        have hread := h.whole []
        rw [List.append_nil] at hread
        rw [hread]
        exact hnext.cut [] List.nil_prefix hmore
      · rw [h.cut part hshort hall]
        rfl
    · have htail : tail ≠ more := fun heq => hne (congrArg (bytes ++ ·) heq)
      rw [h.whole tail]
      exact hnext.cut tail ((List.prefix_append_right_inj bytes).mp hpart) htail

/-- The last value that is read makes up the whole. -/
theorem last {read : ByteReader α} {next : α × Bytes → Except ImageError (β × Bytes)}
    (h : Recovers read bytes a) (hnext : ∀ rest, next (a, rest) = .ok (b, rest)) :
    Recovers (fun bytes => read bytes >>= next) bytes b := by
  have hpure : Recovers (fun rest => next (a, rest)) [] b := by
    rw [funext hnext]
    exact pure
  have := h.bind hpure
  rwa [List.append_nil] at this

end Recovers

/-! ### Numbers -/

theorem recovers_read (bytes : Bytes) : Recovers (read bytes.length) bytes bytes where
  whole rest := by simp [read]
  cut part hpart hne := by
    have hlength : part.length ≠ bytes.length := fun heq => hne (hpart.eq_of_length heq)
    have hle := hpart.length_le
    have htake : (part.take bytes.length).length ≠ bytes.length := by
      rw [List.length_take]
      omega
    exact if_neg htake

theorem recovers_readByte (byte : UInt8) : Recovers readByte [byte] byte where
  whole _ := rfl
  cut part hpart hne := by
    have hlength : part.length ≠ 1 := fun heq => hne (hpart.eq_of_length heq)
    have hle : part.length ≤ 1 := hpart.length_le
    obtain rfl : part = [] := List.eq_nil_of_length_eq_zero (by omega)
    rfl

theorem recovers_readFlag (b : Bool) : Recovers readFlag (ofFlag b) b := by
  cases b with
  | true => exact (recovers_readByte 1).last fun _ => rfl
  | false => exact (recovers_readByte 0).last fun _ => rfl

theorem length_ofNat (width n : Nat) : (ofNat width n).length = width := by
  induction width generalizing n with
  | zero => rfl
  | succ width ih => rw [ofNat, List.length_cons, ih]

/-- The bytes of a number are its digits to the base 256. -/
theorem toNat_ofNat (width n : Nat) : toNat (ofNat width n) = n % Nat.pow 256 width := by
  induction width generalizing n with
  | zero => exact (Nat.mod_one n).symm
  | succ width ih =>
    have hbyte : (UInt8.ofNat n).toNat = n % 256 := UInt8.toNat_ofNat'
    have hpow : Nat.pow 256 (width + 1) = 256 * Nat.pow 256 width := Nat.mul_comm _ _
    rw [ofNat, toNat, ih, hbyte, hpow, Nat.mod_mul]

theorem recovers_readWord (w : UInt32) : Recovers readWord (ofWord w) w := by
  have hvalue : UInt32.ofNat (toNat (ofWord w)) = w := by
    have hsize : w.toNat < Nat.pow 256 4 := w.toNat_lt
    rw [ofWord, toNat_ofNat, Nat.mod_eq_of_lt hsize]
    exact UInt32.ofNat_toNat
  have h := recovers_read (ofWord w)
  rw [ofWord, length_ofNat, ← ofWord] at h
  refine h.last fun rest => ?_
  simp only [hvalue]
  rfl

/-- Every double comes back with all its bits, a NaN included. -/
theorem recovers_readFloat (x : Binary64) : Recovers readFloat (ofFloat x) x := by
  have hvalue : (⟨UInt64.ofNat (toNat (ofFloat x))⟩ : Binary64) = x := by
    have hsize : x.bits.toNat < Nat.pow 256 8 := x.bits.toNat_lt
    rw [ofFloat, toNat_ofNat, Nat.mod_eq_of_lt hsize, UInt64.ofNat_toNat]
  have h := recovers_read (ofFloat x)
  rw [ofFloat, length_ofNat, ← ofFloat] at h
  refine h.last fun rest => ?_
  simp only [hvalue]
  rfl

/-! ### Lists and strings -/

/-- A number of values in a row, each of which is read back. -/
theorem recovers_readMany {read : ByteReader α} {write : α → Bytes} {items : List α}
    (h : ∀ a ∈ items, Recovers read (write a) a) :
    Recovers (readMany read items.length) (items.flatMap write) items := by
  induction items with
  | nil => exact Recovers.pure
  | cons a rest ih =>
    obtain ⟨hfirst, hrest⟩ := List.forall_mem_cons.mp h
    exact hfirst.bind ((ih hrest).last fun _ => rfl)

theorem recovers_readList {read : ByteReader α} {write : α → Bytes} {items : List α}
    (hlength : Countable items.length) (h : ∀ a ∈ items, Recovers read (write a) a) :
    Recovers (readList read) (ofList write items) items := by
  have hcount : (UInt32.ofNat items.length).toNat = items.length :=
    UInt32.toNat_ofNat_of_lt' hlength
  refine (recovers_readWord (UInt32.ofNat items.length)).bind ?_
  show Recovers (readMany read (UInt32.ofNat items.length).toNat) _ _
  rw [hcount]
  exact recovers_readMany h

/-- The number of bytes of a string. -/
def width (s : String) : Nat := s.toUTF8.data.toList.length

/-- The text is decoded after all its bytes were read. -/
theorem recovers_readString {s : String} (hlength : Countable (width s)) :
    Recovers readString (ofString s) s := by
  have hcount : (UInt32.ofNat (width s)).toNat = width s := UInt32.toNat_ofNat_of_lt' hlength
  have hdecode : String.fromUTF8? ⟨s.toUTF8.data.toList.toArray⟩ = some s := by
    rw [Array.toArray_toList, String.toUTF8_eq_toByteArray, String.fromUTF8?, dif_pos s.isValidUTF8]
    rfl
  refine (recovers_readWord (UInt32.ofNat (width s))).bind ?_
  have hbytes := recovers_read s.toUTF8.data.toList
  rw [← width, ← hcount] at hbytes
  refine hbytes.last fun rest => ?_
  simp only [hdecode]
  rfl

end

end Bytes

namespace Bytes

/-- A list that can be counted, of values that can be written. -/
def Writable {α : Type} (each : α → Prop) (items : List α) : Prop :=
  Countable items.length ∧ ∀ a ∈ items, each a

instance {α : Type} (each : α → Prop) [DecidablePred each] (items : List α) :
    Decidable (Writable each items) := inferInstanceAs (Decidable (_ ∧ _))

/-- Strings whose bytes can be counted. -/
def WritableString (s : String) : Prop := Countable (width s)

instance : DecidablePred WritableString :=
  fun s => inferInstanceAs (Decidable (Countable (width s)))

/-- Words, which can always be written. -/
def WritableWords (ws : List UInt32) : Prop := Countable ws.length

instance : DecidablePred WritableWords :=
  fun ws => inferInstanceAs (Decidable (Countable ws.length))

def WritableTable : SymbolTable → Prop
  | .program t => Writable WritableString t.symbols ∧ WritableString t.referer
  | .block t => WritableWords t.parameters ∧ WritableString t.referer

instance : DecidablePred WritableTable
  | .program _ => inferInstanceAs (Decidable (_ ∧ _))
  | .block _ => inferInstanceAs (Decidable (_ ∧ _))

/-- A list of values that are read back is read back. -/
theorem recovers_readAll {α : Type} {read : ByteReader α} {write : α → Bytes} {each : α → Prop}
    (hread : ∀ a, each a → Recovers read (write a) a) {items : List α} (h : Writable each items) :
    Recovers (readList read) (ofList write items) items :=
  recovers_readList h.1 fun a ha => hread a (h.2 a ha)

theorem recovers_readWords {ws : List UInt32} (h : WritableWords ws) :
    Recovers (readList readWord) (ofList ofWord ws) ws :=
  recovers_readList h fun w _ => recovers_readWord w

theorem recovers_readBlock (b : Block) : Recovers readBlock (ofBlock b) b := by
  unfold ofBlock readBlock
  rw [List.append_assoc, List.append_assoc]
  refine (recovers_readWord b.offset).bind ?_
  refine (recovers_readWord b.size).bind ?_
  refine (recovers_readWord b.scopeSize).bind ?_
  exact (recovers_readFlag b.finished).last fun _ => rfl

/-- The tag tells the two kinds of symbol tables apart. -/
theorem recovers_readTable {t : SymbolTable} (h : WritableTable t) :
    Recovers readTable (ofTable t) t := by
  unfold readTable
  cases t with
  | program t =>
    obtain ⟨hsymbols, hreferer⟩ := h
    rw [ofTable, ← List.singleton_append, List.append_assoc, List.append_assoc]
    refine (recovers_readByte programTag).bind ?_
    refine (recovers_readAll (fun s hs => recovers_readString hs) hsymbols).bind ?_
    refine (recovers_readFlag t.hasEval).bind ?_
    exact (recovers_readString hreferer).last fun _ => rfl
  | block t =>
    obtain ⟨hparameters, hreferer⟩ := h
    rw [ofTable, ← List.singleton_append, List.append_assoc]
    refine (recovers_readByte blockTag).bind ?_
    refine (recovers_readWords hparameters).bind ?_
    exact (recovers_readString hreferer).last fun _ => rfl

end Bytes

open Bytes

/-- Everything that the heap counts can be counted by a word. -/
structure Heap.Writable (h : Heap) : Prop where
  words : WritableWords h.words.toList
  blocks : Countable h.blocks.toList.length

/-- Everything that the pools count can be counted by a word. -/
structure Constants.Writable (c : Constants) : Prop where
  strings : Bytes.Writable WritableString c.strings.toList
  floats : Countable c.floats.toList.length
  arrays : Bytes.Writable WritableWords c.arrays.toList
  stringArrays : Bytes.Writable WritableWords c.stringArrays.toList
  tables : Bytes.Writable WritableTable c.tables.toList
  handles : WritableWords c.handles.toList
  referers : Bytes.Writable WritableString c.referers.toList

/-- All lengths that are written, of lists and of strings, fit the words that hold them. -/
structure Program.Writable (p : Program) : Prop where
  heap : p.heap.Writable
  constants : p.constants.Writable

instance (h : Heap) : Decidable h.Writable :=
  decidable_of_iff (WritableWords h.words.toList ∧ Countable h.blocks.toList.length)
    ⟨fun ⟨words, blocks⟩ => ⟨words, blocks⟩, fun ⟨words, blocks⟩ => ⟨words, blocks⟩⟩

instance (c : Constants) : Decidable c.Writable :=
  decidable_of_iff (Bytes.Writable WritableString c.strings.toList ∧
    Countable c.floats.toList.length ∧
      Bytes.Writable WritableWords c.arrays.toList ∧
      Bytes.Writable WritableWords c.stringArrays.toList ∧
      Bytes.Writable WritableTable c.tables.toList ∧ WritableWords c.handles.toList ∧
      Bytes.Writable WritableString c.referers.toList)
    ⟨fun ⟨h₁, h₂, h₃, h₄, h₅, h₆, h₇⟩ => ⟨h₁, h₂, h₃, h₄, h₅, h₆, h₇⟩,
      fun ⟨h₁, h₂, h₃, h₄, h₅, h₆, h₇⟩ => ⟨h₁, h₂, h₃, h₄, h₅, h₆, h₇⟩⟩

instance (p : Program) : Decidable p.Writable :=
  decidable_of_iff (p.heap.Writable ∧ p.constants.Writable)
    ⟨fun ⟨heap, constants⟩ => ⟨heap, constants⟩, fun ⟨heap, constants⟩ => ⟨heap, constants⟩⟩

/-- The heap without the block that is being written. -/
def Heap.closed (h : Heap) : Heap := { h with writing := none }

/-- The pools with each value once; no fragments. -/
def Constants.interned (c : Constants) : Constants where
  strings := .ofList c.strings.toList
  floats := .ofList c.floats.toList
  arrays := .ofList c.arrays.toList
  stringArrays := .ofList c.stringArrays.toList
  tables := .ofList c.tables.toList
  handles := .ofList c.handles.toList
  referers := .ofList c.referers.toList

/-- What is left of a program that was written and read: its code and its constants. -/
def Program.restored (p : Program) : Program where
  heap := p.heap.closed
  constants := p.constants.interned

namespace Bytes

theorem recovers_readHeap {h : Heap} (hwritable : h.Writable) :
    Recovers readHeap (ofHeap h) h.closed := by
  unfold readHeap ofHeap
  refine (recovers_readWords hwritable.words).bind ?_
  exact (recovers_readList hwritable.blocks fun b _ => recovers_readBlock b).last fun _ => rfl

theorem recovers_readConstants {c : Constants} (h : c.Writable) :
    Recovers readConstants (ofConstants c) c.interned := by
  unfold readConstants ofConstants
  simp only [List.append_assoc]
  refine (recovers_readAll (fun s hs => recovers_readString hs) h.strings).bind ?_
  dsimp only
  refine (recovers_readList h.floats fun x _ => recovers_readFloat x).bind ?_
  dsimp only
  refine (recovers_readAll (fun ws hws => recovers_readWords hws) h.arrays).bind ?_
  dsimp only
  refine (recovers_readAll (fun ws hws => recovers_readWords hws) h.stringArrays).bind ?_
  dsimp only
  refine (recovers_readAll (fun t ht => recovers_readTable ht) h.tables).bind ?_
  dsimp only
  refine (recovers_readWords h.handles).bind ?_
  dsimp only
  exact (recovers_readAll (fun s hs => recovers_readString hs) h.referers).last fun _ => rfl

/-- The bytes of a program without fragments. -/
def image (p : Program) : Bytes :=
  imageMark ++ (ofWord imageVersion ++ (ofHeap p.heap ++ ofConstants p.constants))

/-- Reads a program and leaves what follows. -/
def readProgram : ByteReader Program := fun bytes => do
  let (mark, rest) ← read imageMark.length bytes
  if mark ≠ imageMark then .error .invalidMagic
  let (version, rest) ← readWord rest
  if version ≠ imageVersion then .error (.unsupportedVersion version)
  let (heap, rest) ← readHeap rest
  let (constants, rest) ← readConstants rest
  return ({ heap, constants }, rest)

theorem recovers_readProgram {p : Program} (h : p.Writable) :
    Recovers readProgram (image p) p.restored := by
  unfold readProgram image
  refine (recovers_read imageMark).bind ?_
  simp only [ne_eq, not_true_eq_false, if_false]
  refine (recovers_readWord imageVersion).bind ?_
  simp only [not_true_eq_false, if_false]
  refine (recovers_readHeap h.heap).bind ?_
  dsimp only
  exact (recovers_readConstants h.constants).last fun _ => rfl

end Bytes

end TemplateMachine
