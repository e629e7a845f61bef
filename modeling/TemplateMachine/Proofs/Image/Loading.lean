import Mathlib.Data.List.Induction
import Mathlib.Data.List.Perm.Subperm
import TemplateMachine.Proofs.Image.Format
import TemplateMachine.Proofs.Program.Interning

/-! Loading images.  The reader interns the entries of each pool once more, in their order.  In an
image that was written an entry keeps its index, because no pool that interning builds holds a value
twice.  In an image of unknown origin an entry that repeats an earlier one takes up no index, and
those after it move down.  The code is not changed with them: an index names the entry that it has
in the image as long as nothing repeats up to that entry, and no longer. -/

namespace TemplateMachine

/-! ### Programs that were written and read -/

/-- The reader finds every constant at the index that it had. -/
theorem Constants.Interned.interned_eq {c : Constants} (h : c.Interned)
    (hfragments : c.fragments.size = 0) : c.interned = c := by
  have hempty : ({} : Pool Fragment) = c.fragments :=
    congrArg Pool.mk (Array.eq_empty_of_size_eq_zero hfragments).symm
  rw [interned, h.strings.ofList_toList, h.floats.ofList_toList, h.arrays.ofList_toList,
    h.stringArrays.ofList_toList, h.tables.ofList_toList, h.handles.ofList_toList,
    h.referers.ofList_toList, hempty]

namespace Program

open Bytes

/-- A program without fragments has an image. -/
theorem toBytes_eq {p : Program} (hfragments : p.constants.fragments.size = 0) :
    p.toBytes = .ok (image p) := by
  rw [toBytes, if_pos hfragments, image, List.append_assoc, List.append_assoc]

theorem toBytes_eq_ok_iff {p : Program} {bytes : Bytes} :
    p.toBytes = .ok bytes ↔ p.constants.fragments.size = 0 ∧ image p = bytes := by
  constructor
  · intro h
    by_cases hfragments : p.constants.fragments.size = 0
    · rw [toBytes_eq hfragments] at h
      exact ⟨hfragments, Except.ok.inj h⟩
    · rw [toBytes, if_neg hfragments] at h
      cases h
  · rintro ⟨hfragments, rfl⟩
    exact toBytes_eq hfragments

/-- The program of bytes is the one that their reader finds first. -/
theorem ofBytes_eq (bytes : Bytes) : ofBytes bytes = (readProgram bytes).map Prod.fst := by
  simp only [ofBytes, readProgram, bind, Except.bind]
  cases read imageMark.length bytes with
  | error e => rfl
  | ok mark =>
    by_cases hmark : mark.1 = imageMark
    case neg => simp only [if_pos hmark]; rfl
    simp only [hmark, ne_eq, not_true_eq_false, if_false]
    cases readWord mark.2 with
    | error e => rfl
    | ok version =>
      by_cases hversion : version.1 = imageVersion
      case neg => simp only [if_pos hversion]; rfl
      simp only [hversion, not_true_eq_false, if_false]
      cases readHeap version.2 with
      | error e => rfl
      | ok heap =>
        cases hconstants : readConstants heap.2 with
        | error e => simp only [hconstants]; rfl
        | ok constants => simp only [hconstants]; rfl

/-- The image of a program, whatever follows it, is read as the program with its constants interned
once more. -/
theorem ofBytes_image_append {p : Program} (hwritable : p.Writable) (rest : Bytes) :
    ofBytes (image p ++ rest) = .ok p.restored := by
  rw [ofBytes_eq, (recovers_readProgram hwritable).whole rest]
  rfl

theorem ofBytes_image {p : Program} (hwritable : p.Writable) :
    ofBytes (image p) = .ok p.restored := by
  have h := ofBytes_image_append hwritable []
  rwa [List.append_nil] at h

/-- Reading undoes writing.  The program that is read has the same words, the same blocks, whatever
their state, and the same constants, and its image is the same again. -/
theorem ofBytes_toBytes {p : Program} (hfragments : p.constants.fragments.size = 0)
    (hinterned : p.constants.Interned) (hwritable : p.Writable) :
    ∃ bytes q, p.toBytes = .ok bytes ∧ ofBytes bytes = .ok q ∧ q.heap.words = p.heap.words ∧
      q.heap.blocks = p.heap.blocks ∧ q.constants = p.constants ∧ q.toBytes = .ok bytes := by
  have hconstants : p.restored.constants = p.constants := hinterned.interned_eq hfragments
  refine ⟨image p, p.restored, toBytes_eq hfragments, ofBytes_image hwritable, rfl, rfl,
    hconstants, ?_⟩
  rw [toBytes_eq (by rw [hconstants]; exact hfragments), image, hconstants]
  rfl

/-- An image delimits itself: every part of it is too short, and what
follows it is not looked at. -/
theorem ofBytes_delimited {p : Program} {bytes : Bytes} (hwritable : p.Writable)
    (h : p.toBytes = .ok bytes) :
    (∀ part, part <+: bytes → part ≠ bytes → ofBytes part = .error .unexpectedEof) ∧
      ∃ q, ofBytes bytes = .ok q ∧ ∀ rest, ofBytes (bytes ++ rest) = .ok q := by
  obtain ⟨-, rfl⟩ := toBytes_eq_ok_iff.mp h
  refine ⟨fun part hpart hne => ?_, p.restored, ofBytes_image hwritable,
    ofBytes_image_append hwritable⟩
  rw [ofBytes_eq, (recovers_readProgram hwritable).cut part hpart hne]
  rfl

/-- A program with a constant of every kind, a block that is finished and one that is not. -/
def sampler : Program where
  heap := { words := #[11, 1, 0, 0, 2, 0, 0, 0], blocks := #[⟨0, 8, 3, true⟩, ⟨8, 0, 0, false⟩] }
  constants :=
    let c := (Constants.initial.string "née").2
    let c := (c.float ⟨0x7ff8000000000001⟩).2
    let c := (c.array [1, 2]).2
    let c := (c.stringArray ["@title", "size"]).2
    let c := (c.table (.program ⟨["@title"], true, "app"⟩)).2
    let c := (c.table (.block ⟨[1, 2], "app"⟩)).2
    let c := (c.handle 7).2
    (c.referer "app").2

theorem sampler_interned : sampler.constants.Interned :=
  ((((((((Constants.interned_initial.string _).float _).array _).stringArray _).table _).table
    _).handle _).referer _)

theorem sampler_writable : sampler.Writable := by decide

theorem sampler_restored :
    sampler.constants.fragments.size = 0 ∧ sampler.constants.Interned ∧ sampler.Writable ∧
      ∃ bytes q, sampler.toBytes = .ok bytes ∧ ofBytes bytes = .ok q ∧
        q.heap.words = sampler.heap.words ∧ q.heap.blocks = sampler.heap.blocks ∧
        q.constants = sampler.constants ∧ q.toBytes = .ok bytes :=
  ⟨rfl, sampler_interned, sampler_writable,
    ofBytes_toBytes rfl sampler_interned sampler_writable⟩

theorem sampler_delimited :
    sampler.Writable ∧ sampler.toBytes = .ok (image sampler) ∧
      (∀ part, part <+: image sampler → part ≠ image sampler →
        ofBytes part = .error .unexpectedEof) ∧
      ∃ q, ofBytes (image sampler) = .ok q ∧ ∀ rest, ofBytes (image sampler ++ rest) = .ok q :=
  ⟨sampler_writable, toBytes_eq rfl, ofBytes_delimited sampler_writable (toBytes_eq rfl)⟩

end Program

/-! ### Images of unknown origin -/

/-! ### Pools -/

namespace Pool

section

variable {α : Type} [BEq α] [LawfulBEq α] {values : List α}

/-- Interning keeps the first occurrence of each value. -/
theorem toList_ofList (values : List α) :
    (IndexedPool.ofList values).toList = values.eraseDups := by
  induction values using List.reverseRecOn with
  | nil => rfl
  | append_singleton values v ih =>
    rw [IndexedPool.ofList_concat, List.eraseDups_append, ← ih]
    by_cases h : v ∈ values
    · have hold : v ∈ (IndexedPool.ofList values).toList := by rwa [ih, List.mem_eraseDups]
      rw [IndexedPool.intern_of_mem hold]
      simp [List.removeAll, h]
    · have hnew : v ∉ (IndexedPool.ofList values).toList := by rwa [ih, List.mem_eraseDups]
      rw [IndexedPool.intern_of_not_mem hnew]
      simp [List.removeAll, h, List.eraseDups_cons]

theorem nodup_eraseDups (values : List α) : values.eraseDups.Nodup :=
  toList_ofList values ▸ (IndexedPool.interned_ofList values).nodup

theorem eraseDups_of_nodup (h : values.Nodup) : values.eraseDups = values := by
  induction values using List.reverseRecOn with
  | nil => rfl
  | append_singleton values v ih =>
    have hparts := List.nodup_append.mp h
    have hnew : v ∉ values := fun hmem => hparts.2.2 v hmem v (List.mem_singleton_self v) rfl
    rw [List.eraseDups_append, ih hparts.1]
    simp [List.removeAll, hnew, List.eraseDups_cons]

/-- An entry stays where it is exactly if there are no repetitions up to it. -/
theorem getElem?_eraseDups_iff {n : Nat} (hn : n < values.length) :
    values.eraseDups[n]? = values[n]? ↔ (values.take (n + 1)).Nodup := by
  -- The first entries without repetitions come before what the rest adds to them.
  have hsplit : values.eraseDups = (values.take (n + 1)).eraseDups ++
      ((values.drop (n + 1)).removeAll (values.take (n + 1))).eraseDups := by
    rw [← List.eraseDups_append, List.take_append_drop]
  have hlength : (values.take (n + 1)).length = n + 1 := by
    rw [List.length_take]
    omega
  constructor
  · intro heq
    have hmem : values[n] ∈ (values.take (n + 1)).eraseDups := by
      rw [List.mem_eraseDups, List.mem_take_iff_getElem]
      exact ⟨n, by omega, rfl⟩
    obtain ⟨m, hm, hget⟩ := List.mem_iff_getElem.mp hmem
    have hat : values.eraseDups[m]? = values.eraseDups[n]? := by
      rw [heq, hsplit, List.getElem?_append_left hm, List.getElem?_eq_getElem hm, hget,
        List.getElem?_eq_getElem hn]
    obtain rfl : m = n :=
      (List.getElem?_inj (by rw [hsplit, List.length_append]; omega)
        (nodup_eraseDups values)).mp hat
    have hsub : (values.take (m + 1)).eraseDups.Subperm (values.take (m + 1)) :=
      List.subperm_of_subset (nodup_eraseDups _) fun v hv => List.mem_eraseDups.mp hv
    have hperm := hsub.perm_of_length_le (by omega)
    exact hperm.nodup_iff.mp (nodup_eraseDups _)
  · intro hnodup
    rw [hsplit, eraseDups_of_nodup hnodup, List.getElem?_append_left (by omega),
      List.getElem?_take_of_lt (Nat.lt_succ_self n)]

/-- How a pool comes from the entries that an image has for it. -/
structure Loads (values : List α) (pool : Pool α) : Prop where
  /-- It has the first occurrence of each value, in order. -/
  entries : pool.toList = values.eraseDups
  /-- An index names the entry of the image exactly if nothing repeats up to it. -/
  keeps_iff : ∀ index : UInt32, index.toNat < values.length →
    (pool.get? index = values[index.toNat]? ↔ (values.take (index.toNat + 1)).Nodup)
  /-- All indices do exactly if nothing repeats at all. -/
  same_iff : (∀ index : UInt32, pool.get? index = values[index.toNat]?) ↔ values.Nodup

end

theorem get?_eq {α : Type} (p : Pool α) (index : UInt32) : p.get? index = p.toList[index.toNat]? :=
  Array.getElem?_toList.symm

theorem loads_ofList {α : Type} [BEq α] [LawfulBEq α] {values : List α}
    (hlength : values.length < UInt32.size) : Loads values (IndexedPool.ofList values) := by
  have hget (index : UInt32) :
      (IndexedPool.ofList values).get? index = values.eraseDups[index.toNat]? := by
    rw [get?_eq, toList_ofList]
  refine ⟨toList_ofList values, fun index hindex => hget index ▸ getElem?_eraseDups_iff hindex, ?_⟩
  constructor
  · intro hall
    rcases Nat.eq_zero_or_pos values.length with hzero | hpos
    · rw [List.eq_nil_of_length_eq_zero hzero]
      exact List.nodup_nil
    · have hlast : (UInt32.ofNat (values.length - 1)).toNat = values.length - 1 :=
        UInt32.toNat_ofNat_of_lt' (by omega)
      have hkeeps := hget _ ▸ hall (UInt32.ofNat (values.length - 1))
      rw [hlast, getElem?_eraseDups_iff (by omega), Nat.sub_add_cancel hpos,
        List.take_length] at hkeeps
      exact hkeeps
  · intro hnodup index
    rw [hget, eraseDups_of_nodup hnodup]

end Pool

/-! ### Images -/

/-- The constants as an image lists them. -/
structure ConstantLists where
  strings : List String
  floats : List Binary64
  arrays : List (List UInt32)
  stringArrays : List (List UInt32)
  tables : List SymbolTable
  handles : List UInt32
  referers : List String

/-- The pools that are made of the lists. -/
def ConstantLists.pools (l : ConstantLists) : Constants where
  strings := .ofList l.strings
  floats := .ofList l.floats
  arrays := .ofList l.arrays
  stringArrays := .ofList l.stringArrays
  tables := .ofList l.tables
  handles := .ofList l.handles
  referers := .ofList l.referers

/-- All lists are shorter than a word can count. -/
structure ConstantLists.Counted (l : ConstantLists) : Prop where
  strings : l.strings.length < UInt32.size
  floats : l.floats.length < UInt32.size
  arrays : l.arrays.length < UInt32.size
  stringArrays : l.stringArrays.length < UInt32.size
  tables : l.tables.length < UInt32.size
  handles : l.handles.length < UInt32.size
  referers : l.referers.length < UInt32.size

namespace Bytes

/-- Reads the lists of constants as they are. -/
def readConstantLists : ByteReader ConstantLists := fun bytes => do
  let (strings, rest) ← readList readString bytes
  let (floats, rest) ← readList readFloat rest
  let (arrays, rest) ← readList (readList readWord) rest
  let (stringArrays, rest) ← readList (readList readWord) rest
  let (tables, rest) ← readList readTable rest
  let (handles, rest) ← readList readWord rest
  let (referers, rest) ← readList readString rest
  return (⟨strings, floats, arrays, stringArrays, tables, handles, referers⟩, rest)

theorem bind_eq_ok {α β : Type} {x : Except ImageError α} {f : α → Except ImageError β} {b : β} :
    x >>= f = .ok b ↔ ∃ a, x = .ok a ∧ f a = .ok b := by
  cases x with
  | error e => exact ⟨(nomatch ·), fun ⟨_, h, _⟩ => nomatch h⟩
  | ok a => exact ⟨fun h => ⟨a, rfl, h⟩, fun ⟨_, ha, h⟩ => by cases ha; exact h⟩

theorem length_readMany {α : Type} {item : ByteReader α} {count : Nat} {bytes rest : Bytes}
    {items : List α} (h : readMany item count bytes = .ok (items, rest)) :
    items.length = count := by
  induction count generalizing bytes items with
  | zero =>
    cases h
    rfl
  | succ count ih =>
    obtain ⟨⟨a, more⟩, -, h⟩ := bind_eq_ok.mp h
    obtain ⟨⟨others, last⟩, hothers, h⟩ := bind_eq_ok.mp h
    cases h
    rw [List.length_cons, ih hothers]

theorem length_readList {α : Type} {item : ByteReader α} {bytes rest : Bytes} {items : List α}
    (h : readList item bytes = .ok (items, rest)) : items.length < UInt32.size := by
  obtain ⟨⟨count, more⟩, -, h⟩ := bind_eq_ok.mp h
  rw [length_readMany h]
  exact count.toNat_lt

/-- Reading constants is reading their lists, and interning them. -/
theorem readConstants_inv {bytes rest : Bytes} {c : Constants}
    (h : readConstants bytes = .ok (c, rest)) :
    ∃ lists, readConstantLists bytes = .ok (lists, rest) ∧ lists.Counted ∧ c = lists.pools := by
  obtain ⟨⟨strings, r1⟩, hstrings, h⟩ := bind_eq_ok.mp h
  obtain ⟨⟨floats, r2⟩, hfloats, h⟩ := bind_eq_ok.mp h
  obtain ⟨⟨arrays, r3⟩, harrays, h⟩ := bind_eq_ok.mp h
  obtain ⟨⟨stringArrays, r4⟩, hstringArrays, h⟩ := bind_eq_ok.mp h
  obtain ⟨⟨tables, r5⟩, htables, h⟩ := bind_eq_ok.mp h
  obtain ⟨⟨handles, r6⟩, hhandles, h⟩ := bind_eq_ok.mp h
  obtain ⟨⟨referers, r7⟩, hreferers, h⟩ := bind_eq_ok.mp h
  cases h
  refine ⟨⟨strings, floats, arrays, stringArrays, tables, handles, referers⟩, ?_, ?_, rfl⟩
  · simp only [readConstantLists, hstrings, hfloats, harrays, hstringArrays, htables, hhandles,
      hreferers, bind, Except.bind]
    rfl
  · exact ⟨length_readList hstrings, length_readList hfloats, length_readList harrays,
      length_readList hstringArrays, length_readList htables, length_readList hhandles,
      length_readList hreferers⟩

end Bytes

namespace Program

open Bytes

/-- Reads an image up to its constants. -/
def readFront : ByteReader Heap := fun bytes => do
  let (mark, rest) ← read imageMark.length bytes
  if mark ≠ imageMark then .error .invalidMagic
  let (version, rest) ← readWord rest
  if version ≠ imageVersion then .error (.unsupportedVersion version)
  readHeap rest

/-- The lists of constants in an image. -/
def listsOfBytes (bytes : Bytes) : Except ImageError ConstantLists := do
  let (_, rest) ← readFront bytes
  let (lists, _) ← readConstantLists rest
  return lists

theorem ofBytes_eq_front (bytes : Bytes) :
    ofBytes bytes = readFront bytes >>= fun front =>
      readConstants front.2 >>= fun constants =>
        .ok { heap := front.1, constants := constants.1 } := by
  simp only [ofBytes, readFront, bind, Except.bind]
  cases read imageMark.length bytes with
  | error e => rfl
  | ok mark =>
    by_cases hmark : mark.1 = imageMark
    case neg => simp only [if_pos hmark]
    simp only [hmark, ne_eq, not_true_eq_false, if_false]
    cases readWord mark.2 with
    | error e => rfl
    | ok version =>
      by_cases hversion : version.1 = imageVersion
      case neg => simp only [if_pos hversion]
      simp only [hversion, not_true_eq_false, if_false]
      rfl

/-- The constants of a program that was loaded are the lists of its image, interned. -/
theorem ofBytes_inv {bytes : Bytes} {p : Program} (h : ofBytes bytes = .ok p) :
    ∃ lists, listsOfBytes bytes = .ok lists ∧ lists.Counted ∧ p.constants = lists.pools := by
  rw [ofBytes_eq_front] at h
  obtain ⟨⟨heap, rest⟩, hfront, h⟩ := bind_eq_ok.mp h
  obtain ⟨⟨constants, last⟩, hconstants, h⟩ := bind_eq_ok.mp h
  cases h
  obtain ⟨lists, hlists, hcounted, heq⟩ := readConstants_inv hconstants
  refine ⟨lists, ?_, hcounted, heq⟩
  exact bind_eq_ok.mpr ⟨_, hfront, bind_eq_ok.mpr ⟨_, hlists, rfl⟩⟩

/-- How the constants of a program come from the lists in its image. -/
structure LoadsConstants (lists : ConstantLists) (c : Constants) : Prop where
  strings : Pool.Loads lists.strings c.strings
  floats : Pool.Loads lists.floats c.floats
  arrays : Pool.Loads lists.arrays c.arrays
  stringArrays : Pool.Loads lists.stringArrays c.stringArrays
  tables : Pool.Loads lists.tables c.tables
  handles : Pool.Loads lists.handles c.handles
  referers : Pool.Loads lists.referers c.referers

/-- Whatever bytes are loaded, a pool of the program has the entries that the image lists for it in
their order, each of them once.  So an index names the entry that it has in the image exactly if no
entry up to it repeats an earlier one, and every index of a pool does if none repeats at all. -/
theorem ofBytes_indices {bytes : Bytes} {p : Program} (h : ofBytes bytes = .ok p) :
    ∃ lists, listsOfBytes bytes = .ok lists ∧ LoadsConstants lists p.constants := by
  obtain ⟨lists, hlists, hcounted, heq⟩ := ofBytes_inv h
  refine ⟨lists, hlists, ?_⟩
  rw [heq]
  exact ⟨Pool.loads_ofList hcounted.strings, Pool.loads_ofList hcounted.floats,
    Pool.loads_ofList hcounted.arrays, Pool.loads_ofList hcounted.stringArrays,
    Pool.loads_ofList hcounted.tables, Pool.loads_ofList hcounted.handles,
    Pool.loads_ofList hcounted.referers⟩

/-- A program whose image lists a string twice; interning never makes it. -/
def stammering : Program where
  constants :=
    { strings :=
        { entries := #["", "a", "a", "b"]
          index := [("", 0), ("a", 1), ("b", 3)]
          tells := by
            intro s
            rw [List.idxOf?_toArray]
            simp only [List.find?_cons, List.idxOf?_cons]
            cases "" == s <;> cases "a" == s <;> cases "b" == s <;> rfl } }

theorem stammering_writable : stammering.Writable := by decide

theorem stammering_loaded : ofBytes (image stammering) = .ok stammering.restored :=
  ofBytes_image stammering_writable

/-- The index of the fourth string names nothing any more, that of the third the fourth. -/
theorem stammering_indices :
    (ofBytes (image stammering) = .ok stammering.restored ∧
      ∃ lists, listsOfBytes (image stammering) = .ok lists ∧
        LoadsConstants lists stammering.restored.constants) ∧
      stammering.restored.constants.strings.toList = ["", "a", "b"] :=
  ⟨⟨stammering_loaded, ofBytes_indices stammering_loaded⟩, by decide⟩

end Program

end TemplateMachine
