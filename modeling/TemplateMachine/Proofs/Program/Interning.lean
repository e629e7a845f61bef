import Mathlib.Data.List.Induction
import TemplateMachine.Proofs.Program.Growth

/-! Interning.  A pool that is built by interning holds no value twice, so the values in their order
give the pool again, and as long as there are indices for all entries the map of a pool and its
entries say the same.  Over all pools: a call returns an index at which the value is found from then
on, and two calls return the same index for the same pool exactly if their values are the same,
whatever is interned before, between and after them. -/

namespace TemplateMachine

/-! ### Pools -/

namespace Pool

variable {α : Type} [BEq α] {p : Pool α}

/-- No two entries are the same. -/
def Distinct (p : Pool α) : Prop := p.toList.Pairwise fun v w => (v == w) = false

theorem distinct_iff_nodup [LawfulBEq α] : p.Distinct ↔ p.toList.Nodup := by
  simp only [Distinct, List.Nodup, beq_eq_false_iff_ne]

theorem distinct_empty : ({} : Pool α).Distinct := List.Pairwise.nil

theorem Distinct.intern (h : p.Distinct) (v : α) : (p.intern v).2.Distinct := by
  rcases p with ⟨⟨entries⟩⟩
  rw [Pool.intern, List.idxOf?_toArray]
  split
  · exact h
  · rename_i hnone
    have hnew : ∀ w ∈ entries, (w == v) = false := List.findIdx?_eq_none_iff.mp hnone
    have hlast : ∀ w ∈ entries, ∀ v' ∈ [v], (w == v') = false := by
      intro w hw v' hv'
      obtain rfl := List.mem_singleton.mp hv'
      exact hnew w hw
    show List.Pairwise _ (entries.toArray.push v).toList
    rw [Array.toList_push]
    exact List.pairwise_append.mpr ⟨h, List.pairwise_singleton _ v, hlast⟩

/-- The same value stands in one place only. -/
theorem Distinct.eq_place [PartialEquivBEq α] (h : p.Distinct) {m n : Nat} {v w : α}
    (hv : p.entries[m]? = some v) (hw : p.entries[n]? = some w)
    (heq : (v == w) = true) : m = n := by
  rw [← Array.getElem?_toList] at hv hw
  obtain ⟨hm, rfl⟩ := List.getElem?_eq_some_iff.mp hv
  obtain ⟨hn, rfl⟩ := List.getElem?_eq_some_iff.mp hw
  have hpairs := List.pairwise_iff_getElem.mp h
  rcases Nat.lt_trichotomy m n with hlt | rfl | hlt
  · exact absurd ((hpairs m n hm hn hlt).symm.trans heq) (by decide)
  · rfl
  · exact absurd ((hpairs n m hn hm hlt).symm.trans (BEq.symm heq)) (by decide)

/-- A value has one index. -/
theorem Distinct.eq_index [PartialEquivBEq α] (h : p.Distinct) {i j : UInt32} {v w : α}
    (hv : p.get? i = some v) (hw : p.get? j = some w) (heq : (v == w) = true) : i = j :=
  UInt32.toNat_inj.mp (h.eq_place hv hw heq)

/-- A value that has an index is given it again. -/
theorem Distinct.intern_of_get? [PartialEquivBEq α] (h : p.Distinct) {i : UInt32} {v w : α}
    (hw : p.get? i = some w) (heq : (w == v) = true) : p.intern v = (i, p) := by
  have hmem : w ∈ p.entries := Array.mem_of_getElem? hw
  cases hfound : p.entries.idxOf? v with
  | none =>
    rcases p with ⟨⟨entries⟩⟩
    rw [List.idxOf?_toArray] at hfound
    have hnone := List.findIdx?_eq_none_iff.mp hfound w (by simpa using hmem)
    rw [heq] at hnone
    cases hnone
  | some n =>
    obtain ⟨w', hw', heq'⟩ := idxOf?_spec hfound
    obtain rfl : n = i.toNat := h.eq_place hw' hw (BEq.trans heq' (BEq.symm heq))
    rw [Pool.intern, hfound]
    exact congrArg (·, p) (UInt32.ofNat_toNat)

/-- Indices that stand for the same values are the same. -/
theorem Distinct.eq_indices [LawfulBEq α] (h : p.Distinct) {is js : List UInt32} {values : List α}
    (hi : is.mapM p.get? = some values) (hj : js.mapM p.get? = some values) : is = js := by
  induction is generalizing js values with
  | nil =>
    obtain rfl := Option.some.inj hi
    cases js with
    | nil => rfl
    | cons j js =>
      obtain ⟨w, more, -, -, heq⟩ := mapM_cons_eq_some.mp hj
      cases heq
  | cons i is ih =>
    obtain ⟨v, rest, hv, hrest, rfl⟩ := mapM_cons_eq_some.mp hi
    cases js with
    | nil => cases hj
    | cons j js =>
      obtain ⟨w, more, hw, hmore, heq⟩ := mapM_cons_eq_some.mp hj
      obtain ⟨rfl, rfl⟩ := List.cons.inj heq
      rw [h.eq_index hv hw BEq.rfl, ih hrest hmore]

end Pool

/-! ### Pools with maps -/

namespace IndexedPool

variable {α : Type} [BEq α] {p : IndexedPool α} {v : α}

/-- A pool grows by one entry at most. -/
theorem size_intern_le (p : IndexedPool α) (v : α) : (p.intern v).2.size ≤ p.size + 1 := by
  unfold intern
  split
  · exact Nat.le_succ _
  · exact Nat.le_of_eq (Array.size_push v)

/-- Interning some values, one after the other, gives the pool. -/
def Interned (p : IndexedPool α) : Prop := ∃ values, p = ofList values

theorem interned_ofList (values : List α) : (ofList values).Interned := ⟨values, rfl⟩

theorem interned_empty : (empty : IndexedPool α).Interned := interned_ofList []

theorem ofList_concat (values : List α) (v : α) :
    ofList (values ++ [v]) = ((ofList values).intern v).2 := by
  rw [ofList, ofList, List.foldl_append]
  rfl

theorem Interned.intern (h : p.Interned) (v : α) : (p.intern v).2.Interned := by
  obtain ⟨values, rfl⟩ := h
  exact ⟨values ++ [v], (ofList_concat values v).symm⟩

/-- A pool that interning built holds no value twice. -/
theorem Interned.distinct (h : p.Interned) : p.Distinct := by
  obtain ⟨values, rfl⟩ := h
  induction values using List.reverseRecOn with
  | nil => exact Pool.distinct_empty
  | append_singleton values v ih =>
    rw [ofList_concat, toPool_intern]
    exact ih.intern v

variable [LawfulBEq α]

theorem Interned.nodup (h : p.Interned) : p.toList.Nodup := Pool.distinct_iff_nodup.mp h.distinct

theorem intern_of_mem (h : v ∈ p.toList) : (p.intern v).2 = p := by
  have hfound : p.lookup v ≠ none := by
    rw [p.lookup_eq, ne_eq, Option.map_eq_none_iff, Array.idxOf?_eq_none_iff, Classical.not_not]
    exact Array.mem_toList_iff.mp h
  unfold intern
  split
  · rfl
  · contradiction

theorem intern_of_not_mem (h : v ∉ p.toList) : (p.intern v).2.toList = p.toList ++ [v] := by
  have hnone : p.entries.idxOf? v = none :=
    Array.idxOf?_eq_none_iff.mpr fun hmem => h (Array.mem_toList_iff.mpr hmem)
  rw [toPool_intern, Pool.intern, hnone]
  exact Array.toList_push

/-- Interning the entries of an interned pool gives the pool. -/
theorem Interned.ofList_toList (h : p.Interned) : ofList p.toList = p := by
  obtain ⟨values, rfl⟩ := h
  induction values using List.reverseRecOn with
  | nil => rfl
  | append_singleton values v ih =>
    rw [ofList_concat]
    by_cases hmem : v ∈ (ofList values).toList
    · rw [intern_of_mem hmem, ih]
    · rw [intern_of_not_mem hmem, ofList_concat, ih]

/-- A value that is interned again has the same index, whatever was added meanwhile. -/
theorem intern_again {q : IndexedPool α} (h : (p.intern v).2.Extends q)
    (hsize : (p.intern v).2.Numbered) (hq : q.Interned) : (q.intern v).1 = (p.intern v).1 := by
  have hget := h.get? (get?_intern_eq hsize)
  rw [fst_intern, hq.distinct.intern_of_get? hget BEq.rfl]

/-- The map and the entries say the same of every value and every index,
and no value is there twice. -/
structure Consistent (p : IndexedPool α) : Prop where
  nodup : p.toList.Nodup
  lookup_iff : ∀ v i, p.lookup v = some i ↔ p.get? i = some v

theorem Interned.consistent (h : p.Interned) (hsize : p.Numbered) : p.Consistent := by
  have hfound {v : α} {i : UInt32} (hlookup : p.lookup v = some i) : p.get? i = some v := by
    rw [p.lookup_eq] at hlookup
    obtain ⟨n, hn, rfl⟩ := Option.map_eq_some_iff.mp hlookup
    obtain ⟨w, hw, heq⟩ := Pool.idxOf?_spec hn
    have hlt : n < p.entries.size := (Array.getElem?_eq_some_iff.mp hw).1
    rw [Pool.get?, UInt32.toNat_ofNat_of_lt' (Nat.lt_of_lt_of_le hlt hsize), hw, eq_of_beq heq]
  refine ⟨h.nodup, fun v i => ⟨hfound, fun hget => ?_⟩⟩
  have hmem : v ∈ p.entries := Array.mem_of_getElem? hget
  cases hlookup : p.lookup v with
  | none =>
    rw [p.lookup_eq, Option.map_eq_none_iff, Array.idxOf?_eq_none_iff] at hlookup
    exact absurd hmem hlookup
  | some j => rw [h.distinct.eq_index (hfound hlookup) hget BEq.rfl]

end IndexedPool

/-! ### Constants -/

namespace Constants

/-- Every pool was built by interning. -/
structure Interned (c : Constants) : Prop where
  strings : c.strings.Interned
  floats : c.floats.Interned
  arrays : c.arrays.Interned
  stringArrays : c.stringArrays.Interned
  tables : c.tables.Interned
  handles : c.handles.Interned
  referers : c.referers.Interned

/-- Everything that is added to the constants is interned. -/
theorem interned_initial : initial.Interned where
  strings := IndexedPool.interned_ofList [""]
  floats := IndexedPool.interned_empty
  arrays := IndexedPool.interned_empty
  stringArrays := IndexedPool.interned_empty
  tables := IndexedPool.interned_empty
  handles := IndexedPool.interned_empty
  referers := IndexedPool.interned_empty

namespace Interned

variable {c : Constants} (h : c.Interned)

include h

theorem string (s : String) : (c.string s).2.Interned := { h with strings := h.strings.intern s }

theorem float (x : Binary64) : (c.float x).2.Interned := { h with floats := h.floats.intern x }

theorem array (values : List UInt32) : (c.array values).2.Interned :=
  { h with arrays := h.arrays.intern values }

theorem table (t : SymbolTable) : (c.table t).2.Interned := { h with tables := h.tables.intern t }

theorem handle (handle : UInt32) : (c.handle handle).2.Interned :=
  { h with handles := h.handles.intern handle }

theorem referer (s : String) : (c.referer s).2.Interned :=
  { h with referers := h.referers.intern s }

theorem fragment (f : Fragment) : (c.fragment f).2.Interned := { h with }

omit h in
theorem stringList {c : Constants} (h : c.Interned) (values : List String) :
    (c.stringList values).2.Interned := by
  induction values generalizing c with
  | nil => exact h
  | cons s rest ih => exact ih (h.string s)

theorem stringArray (values : List String) : (c.stringArray values).2.Interned :=
  { h.stringList values with stringArrays := (h.stringList values).stringArrays.intern _ }

end Interned

end Constants

/-! ### Calls -/

/-- A constant, for the pool of its kind. -/
inductive Constant where
  | string (s : String)
  | float (x : Binary64)
  | array (values : List UInt32)
  | stringArray (values : List String)
  | table (t : SymbolTable)
  | handle (handle : UInt32)
  | referer (s : String)
  | fragment (f : Fragment)

namespace Constant

/-- The kinds of constants, one for each pool. -/
inductive Kind where
  | string
  | float
  | array
  | stringArray
  | table
  | handle
  | referer
  | fragment
deriving DecidableEq

def kind : Constant → Kind
  | .string _ => .string
  | .float _ => .float
  | .array _ => .array
  | .stringArray _ => .stringArray
  | .table _ => .table
  | .handle _ => .handle
  | .referer _ => .referer
  | .fragment _ => .fragment

/-- What tells a constant from others: fragments have an identity, anything else is what it is. -/
def identity : Constant → Constant ⊕ FragmentId
  | .fragment f => .inr f.id
  | k => .inl k

end Constant

namespace Constants

/-- The index of a constant, which is added to its pool if the pool does not hold it. -/
def intern (c : Constants) : Constant → UInt32 × Constants
  | .string s => c.string s
  | .float x => c.float x
  | .array values => c.array values
  | .stringArray values => c.stringArray values
  | .table t => c.table t
  | .handle handle => c.handle handle
  | .referer s => c.referer s
  | .fragment f => c.fragment f

/-- The constants after calls for some, one after the other. -/
def internAll (c : Constants) (calls : List Constant) : Constants :=
  calls.foldl (fun c k => (c.intern k).2) c

/-- The constant at an index of the pool of a kind; of a string array, its strings. -/
def get? (c : Constants) (i : UInt32) : Constant.Kind → Option Constant
  | .string => (c.strings.get? i).map .string
  | .float => (c.floats.get? i).map .float
  | .array => (c.arrays.get? i).map .array
  | .stringArray => (c.getStringArray? i).map .stringArray
  | .table => (c.tables.get? i).map .table
  | .handle => (c.handles.get? i).map .handle
  | .referer => (c.referers.get? i).map .referer
  | .fragment => (c.fragments.get? i).map .fragment

theorem internAll_append (c : Constants) (calls more : List Constant) :
    c.internAll (calls ++ more) = (c.internAll calls).internAll more :=
  List.foldl_append

theorem extends_intern (c : Constants) (k : Constant) : c.Extends (c.intern k).2 := by
  cases k with
  | string s => exact c.extends_string s
  | float x => exact c.extends_float x
  | array values => exact c.extends_array values
  | stringArray values => exact c.extends_stringArray values
  | table t => exact c.extends_table t
  | handle handle => exact c.extends_handle handle
  | referer s => exact c.extends_referer s
  | fragment f => exact c.extends_fragment f

theorem extends_internAll (c : Constants) (calls : List Constant) :
    c.Extends (c.internAll calls) := by
  induction calls generalizing c with
  | nil => exact .refl c
  | cons k rest ih => exact (c.extends_intern k).trans (ih _)

/-- What an index stands for does not change. -/
theorem Extends.get? {c d : Constants} (h : c.Extends d) {i : UInt32} {kind : Constant.Kind}
    {k : Constant} (hk : c.get? i kind = some k) : d.get? i kind = some k := by
  cases kind <;> obtain ⟨v, hv, rfl⟩ := Option.map_eq_some_iff.mp hk
  case string => exact congrArg (Option.map _) (h.strings.get? hv)
  case float => exact congrArg (Option.map _) (h.floats.get? hv)
  case array => exact congrArg (Option.map _) (h.arrays.get? hv)
  case stringArray => exact congrArg (Option.map _) (getStringArray?_mono h hv)
  case table => exact congrArg (Option.map _) (h.tables.get? hv)
  case handle => exact congrArg (Option.map _) (h.handles.get? hv)
  case referer => exact congrArg (Option.map _) (h.referers.get? hv)
  case fragment => exact congrArg (Option.map _) (h.fragments.get? hv)

/-- What holds of the constants that some calls leave. -/
structure Made (calls : List Constant) (c : Constants) : Prop where
  interned : c.Interned
  distinct : c.fragments.Distinct
  fragments : ∀ index f, c.fragments.get? index = some f → .fragment f ∈ calls
  empty : c.strings.get? 0 = some ""

variable {calls : List Constant} {c : Constants}

theorem Interned.intern (h : c.Interned) (k : Constant) : (c.intern k).2.Interned := by
  cases k with
  | string s => exact h.string s
  | float x => exact h.float x
  | array values => exact h.array values
  | stringArray values => exact h.stringArray values
  | table t => exact h.table t
  | handle handle => exact h.handle handle
  | referer s => exact h.referer s
  | fragment f => exact h.fragment f

/-- Fragments are added by calls for them only. -/
theorem fragments_intern (c : Constants) (k : Constant) :
    (c.intern k).2.fragments = c.fragments ∨
      ∃ f, k = .fragment f ∧ (c.intern k).2.fragments = (c.fragments.intern f).2 := by
  cases k with
  | fragment f => exact .inr ⟨f, rfl, rfl⟩
  | stringArray values => exact .inl (c.fragments_stringList values)
  | _ => exact .inl rfl

theorem made_initial : Made [] initial where
  interned := interned_initial
  distinct := Pool.distinct_empty
  fragments _ _ h := nomatch h
  empty := rfl

theorem Made.intern (h : c.Made calls) (k : Constant) : (c.intern k).2.Made (calls ++ [k]) := by
  have hempty := (c.extends_intern k).strings.get? h.empty
  rcases c.fragments_intern k with heq | ⟨f, rfl, heq⟩
  · refine ⟨h.interned.intern k, heq ▸ h.distinct, fun index g hg => ?_, hempty⟩
    exact List.mem_append_left _ (h.fragments index g (heq ▸ hg))
  · refine ⟨h.interned.intern _, heq ▸ h.distinct.intern f, fun index g hg => ?_, hempty⟩
    rcases Pool.get?_intern (heq ▸ hg) with hold | rfl
    · exact List.mem_append_left _ (h.fragments index g hold)
    · exact List.mem_append_right _ (List.mem_singleton_self _)

theorem made_internAll (calls : List Constant) : (initial.internAll calls).Made calls := by
  induction calls using List.reverseRecOn with
  | nil => exact made_initial
  | append_singleton calls k ih =>
    rw [internAll_append]
    exact ih.intern k

/-- The constant is found at the index that the call returns; of fragments with the same identity
the first one is. -/
theorem Made.get?_intern (h : c.Made calls) {k : Constant} (hsize : (c.intern k).2.Numbered) :
    ∃ k' ∈ calls ++ [k], k'.identity = k.identity ∧
      (c.intern k).2.get? (c.intern k).1 k.kind = some k' := by
  have hself (hk : (c.intern k).2.get? (c.intern k).1 k.kind = some k) :
      ∃ k' ∈ calls ++ [k], k'.identity = k.identity ∧
        (c.intern k).2.get? (c.intern k).1 k.kind = some k' :=
    ⟨k, List.mem_append_right _ (List.mem_singleton_self k), rfl, hk⟩
  cases k with
  | string s => exact hself (congrArg (Option.map _) (IndexedPool.get?_intern_eq hsize.strings))
  | float x => exact hself (congrArg (Option.map _) (IndexedPool.get?_intern_eq hsize.floats))
  | array values => exact hself (congrArg (Option.map _) (IndexedPool.get?_intern_eq hsize.arrays))
  | stringArray values =>
    exact hself (congrArg (Option.map _) (getStringArray?_stringArray (.refl _) hsize))
  | table t => exact hself (congrArg (Option.map _) (IndexedPool.get?_intern_eq hsize.tables))
  | handle handle =>
    exact hself (congrArg (Option.map _) (IndexedPool.get?_intern_eq hsize.handles))
  | referer s => exact hself (congrArg (Option.map _) (IndexedPool.get?_intern_eq hsize.referers))
  | fragment f =>
    obtain ⟨g, hg, hid⟩ := Pool.get?_intern_self hsize.fragments
    exact ⟨.fragment g, (h.intern _).fragments _ g hg, congrArg Sum.inr (Fragment.beq_iff.mp hid),
      congrArg (Option.map _) hg⟩

/-! ### Indices -/

/-- The same constant has one index in the pool of its kind. -/
theorem Made.eq_index (h : c.Made calls) {i j : UInt32} {kind : Constant.Kind} {k k' : Constant}
    (hi : c.get? i kind = some k) (hj : c.get? j kind = some k')
    (hsame : k.identity = k'.identity) : i = j := by
  cases kind <;> obtain ⟨v, hv, rfl⟩ := Option.map_eq_some_iff.mp hi <;>
    obtain ⟨w, hw, rfl⟩ := Option.map_eq_some_iff.mp hj
  case fragment => exact h.distinct.eq_index hv hw (Fragment.beq_iff.mpr (Sum.inr.inj hsame))
  all_goals cases hsame
  case string => exact h.interned.strings.distinct.eq_index hv hw BEq.rfl
  case float => exact h.interned.floats.distinct.eq_index hv hw BEq.rfl
  case array => exact h.interned.arrays.distinct.eq_index hv hw BEq.rfl
  case table => exact h.interned.tables.distinct.eq_index hv hw BEq.rfl
  case handle => exact h.interned.handles.distinct.eq_index hv hw BEq.rfl
  case referer => exact h.interned.referers.distinct.eq_index hv hw BEq.rfl
  case stringArray =>
    -- The same strings are the same indices of strings, of which the pool holds one list.
    obtain ⟨is, his, hstrings⟩ := Option.bind_eq_some_iff.mp hv
    obtain ⟨js, hjs, hstrings'⟩ := Option.bind_eq_some_iff.mp hw
    obtain rfl := h.interned.strings.distinct.eq_indices hstrings hstrings'
    exact h.interned.stringArrays.distinct.eq_index his hjs BEq.rfl

/-- Every pool holds each value once, and its map says what its entries say. -/
structure Consistent (c : Constants) : Prop where
  strings : c.strings.Consistent
  floats : c.floats.Consistent
  arrays : c.arrays.Consistent
  stringArrays : c.stringArrays.Consistent
  tables : c.tables.Consistent
  handles : c.handles.Consistent
  referers : c.referers.Consistent
  fragments : (c.fragments.toList.map Fragment.id).Nodup

theorem Made.consistent (h : c.Made calls) (hsize : c.Numbered) : c.Consistent where
  strings := h.interned.strings.consistent hsize.strings
  floats := h.interned.floats.consistent hsize.floats
  arrays := h.interned.arrays.consistent hsize.arrays
  stringArrays := h.interned.stringArrays.consistent hsize.stringArrays
  tables := h.interned.tables.consistent hsize.tables
  handles := h.interned.handles.consistent hsize.handles
  referers := h.interned.referers.consistent hsize.referers
  fragments := List.pairwise_map.mpr (h.distinct.imp fun hne heq => by
    rw [Fragment.beq_iff.mpr heq] at hne
    cases hne)

/-- The index that the call for a constant returns after some other calls. -/
def indexAfter (before : List Constant) (k : Constant) : UInt32 :=
  ((initial.internAll before).intern k).1

/-- What calls from no constants on make of indices. -/
structure InternStably (calls : List Constant) : Prop where
  /-- A call returns an index at which the pool has the value; for a fragment, the first one with
  its identity that there was a call for. -/
  gives : ∀ before k after, calls = before ++ k :: after →
    ∃ k' ∈ before ++ [k], k'.identity = k.identity ∧
      (initial.internAll (before ++ [k])).get? (indexAfter before k) k.kind = some k'
  /-- Two calls return the same index of a pool exactly if they are for the same value. -/
  same_iff : ∀ before k after before' k' after', calls = before ++ k :: after →
    calls = before' ++ k' :: after' → k.kind = k'.kind →
      (indexAfter before k = indexAfter before' k' ↔ k.identity = k'.identity)
  /-- What an index stands for after some of the calls it stands for after all of them. -/
  keeps : ∀ before after, calls = before ++ after → ∀ i kind k,
    (initial.internAll before).get? i kind = some k → (initial.internAll calls).get? i kind = some k
  /-- The empty string has the index zero. -/
  empty : (initial.internAll calls).get? 0 .string = some (.string "") ∧
    indexAfter calls (.string "") = 0
  consistent : (initial.internAll calls).Consistent

/-- Whatever calls there are for constants, of all kinds and in any order, and as long as no pool
has more entries than there are indices: every call returns an index that stands for its value from
then on, equal values have the same index and different ones of a pool different indices, the empty
string is first, and no pool holds a value twice or has a map that says something else. -/
theorem calls_intern_stably {calls : List Constant} (hsize : (initial.internAll calls).Numbered) :
    InternStably calls := by
  have hmade := made_internAll calls
  have hlater {before after : List Constant} (heq : calls = before ++ after) :
      (initial.internAll before).Extends (initial.internAll calls) := by
    rw [heq, internAll_append]
    exact extends_internAll _ _
  -- what the call returns right away stands for the value in the end, too
  have hgives {before k after} (heq : calls = before ++ k :: after) :
      ∃ k' ∈ before ++ [k], k'.identity = k.identity ∧
        (initial.internAll (before ++ [k])).get? (indexAfter before k) k.kind = some k' := by
    have hsplit : calls = (before ++ [k]) ++ after := by rw [heq, List.append_cons]
    have hnumbered := (hlater hsplit).numbered hsize
    rw [internAll_append] at hnumbered ⊢
    exact (made_internAll before).get?_intern hnumbered
  have hfinally {before k after} (heq : calls = before ++ k :: after) :
      ∃ k', k'.identity = k.identity ∧
        (initial.internAll calls).get? (indexAfter before k) k.kind = some k' := by
    obtain ⟨k', -, hsame, hget⟩ := hgives heq
    exact ⟨k', hsame, (hlater (heq.trans (List.append_cons ..))).get? hget⟩
  refine ⟨fun _ _ _ => hgives, fun before k after before' k' after' heq heq' hkind => ?_,
    fun _ _ heq _ _ _ => (hlater heq).get?,
    ⟨congrArg (Option.map _) hmade.empty, IndexedPool.intern_first hmade.empty⟩,
    hmade.consistent hsize⟩
  obtain ⟨m, hm, hget⟩ := hfinally heq
  obtain ⟨m', hm', hget'⟩ := hfinally heq'
  rw [← hkind] at hget'
  constructor
  · intro hindex
    rw [hindex, hget'] at hget
    rw [← hm, ← hm', Option.some.inj hget]
  · intro hsame
    exact hmade.eq_index hget hget' (hm.trans (hsame.trans hm'.symm))

/-- Calls for constants of all kinds; some are repeated, and some differ in a sign, in their order
or in their identity only. -/
def assortedCalls : List Constant :=
  [.string "a", .float (.zero true), .stringArray ["b", "a", "b"], .float (.zero false),
    .array [1, 2], .table (.block ⟨[1], "app"⟩), .handle 7, .referer "app",
    .fragment (.ofLayout (.part 0) default), .fragment (.ofLayout (.part 1) default),
    .stringArray ["b", "a", "b"], .string "", .array [2, 1],
    .fragment (.ofLayout (.part 0) default), .string "b"]

theorem assorted_numbered : (initial.internAll assortedCalls).Numbered :=
  Fits.numbered (by decide +kernel)

/-- The two string arrays are one, the zeros and the two fragments are not. -/
theorem assorted_intern_stably :
    ((initial.internAll assortedCalls).Numbered ∧ InternStably assortedCalls) ∧
      (initial.internAll assortedCalls).strings.toList = ["", "a", "b"] ∧
      (initial.internAll assortedCalls).stringArrays.toList = [[2, 1, 2]] ∧
      (initial.internAll assortedCalls).floats.toList = [.zero true, .zero false] ∧
      (initial.internAll assortedCalls).fragments.size = 2 :=
  ⟨⟨assorted_numbered, calls_intern_stably assorted_numbered⟩, by decide +kernel⟩

end Constants

end TemplateMachine
