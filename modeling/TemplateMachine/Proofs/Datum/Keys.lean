import Mathlib.Data.List.Nodup
import TemplateMachine.Datum.Iteration

/-! The items of an iteration.  There is one for each element of the list, in order, and it reads
that element.  The first element with a key gets the key itself, and each further one a number after
it.  Nothing keeps the key of an element from being another key with a number, so the keys of the
items are distinct unless it is. -/

namespace TemplateMachine

/-! ### Numbers in keys -/

theorem toList_toString (n : Nat) : (toString n).toList = Nat.toDigits 10 n := by
  rw [Nat.toString_eq_repr, Nat.toList_repr]

theorem not_mem_toString {n : Nat} {c : Char} (hc : c.isDigit = false) :
    c ∉ (toString n).toList := by
  intro h
  rw [toList_toString] at h
  have hdigit := Nat.isDigit_of_mem_toDigits (by decide) (by decide) h
  exact Bool.false_ne_true (hc.symm.trans hdigit)

theorem toString_injective {m n : Nat} (h : toString m = toString n) : m = n := by
  calc
    m = Nat.ofDigitChars 10 (Nat.toDigits 10 m) 0 := Nat.ofDigitChars_ten_toDigits.symm
    _ = Nat.ofDigitChars 10 (Nat.toDigits 10 n) 0 := by rw [← toList_toString, h, toList_toString]
    _ = n := Nat.ofDigitChars_ten_toDigits

namespace Datum

/-- The text of a number stands for that number. -/
theorem index?_toString {n : Nat} (h : n < UInt64.size) : index? (toString n) = some n := by
  obtain ⟨c, rest, hdigits⟩ : ∃ c rest, Nat.toDigits 10 n = c :: rest :=
    List.exists_cons_of_ne_nil Nat.toDigits_ne_nil
  have hlist : (toString n).toList = c :: rest := (toList_toString n).trans hdigits
  have hplus : c ≠ '+' := by
    rintro rfl
    exact not_mem_toString (n := n) rfl (hlist ▸ List.mem_cons_self)
  have hall : (c :: rest).all Char.isDigit = true := List.all_eq_true.mpr fun d hd =>
    Nat.isDigit_of_mem_toDigits (by decide) (by decide) (hdigits ▸ hd)
  have hvalue : (c :: rest).foldl (fun n c => n * 10 + (c.toNat - '0'.toNat)) 0 = n := by
    have hread : Nat.ofDigitChars 10 (c :: rest) 0 = n :=
      hdigits ▸ Nat.ofDigitChars_ten_toDigits
    simpa only [Nat.ofDigitChars, Nat.mul_comm] using hread
  unfold index?
  rw [hlist]
  split
  · next heq => exact absurd (List.cons.inj heq).1 hplus
  · simp only [hall, hvalue, if_pos h, List.isEmpty_cons, Bool.not_true, Bool.or_self,
      Bool.false_eq_true, if_false]

/-- The elements of a list are read by their numbers. -/
theorem get_toString {n : Nat} (elements : List Json) (h : n < UInt64.size) :
    (Datum.data (.arr elements)).get (toString n) = .data (elements[n]?.getD .null) := by
  have hlength : toString n ≠ "length" := fun heq =>
    not_mem_toString (n := n) (c := 'l') rfl (by rw [heq]; decide)
  rw [get, if_neg hlength, index?_toString h, Option.bind_some]

/-- Only lists have items. -/
theorem eq_arr_of_items {d : Datum} (h : d.items ≠ []) : d = .data (.arr d.items) := by
  unfold items at h ⊢
  split at h
  · rfl
  · exact absurd rfl h

end Datum

/-! ### Repetitions -/

/-- The key of an item, of which so many came before. -/
def numbered (key : String) (before : Nat) : String :=
  if before = 0 then key else key ++ "-" ++ toString before

theorem toList_numbered {before : Nat} (key : String) (h : 0 < before) :
    (numbered key before).toList = key.toList ++ '-' :: (toString before).toList := by
  rw [numbered, if_neg (Nat.ne_of_gt h), String.toList_append, String.toList_append,
    List.append_assoc]
  rfl

/-- A number has no dash, so the last dash is the one before it. -/
theorem numbered_injective {a b : String} {m n : Nat} (hm : 0 < m) (hn : 0 < n)
    (h : numbered a m = numbered b n) : a = b ∧ m = n := by
  have hlists : a.toList ++ '-' :: (toString m).toList = b.toList ++ '-' ::
      (toString n).toList := by
    rw [← toList_numbered a hm, h, toList_numbered b hn]
  have hnone : ∀ {k l : Nat} {between : List Char},
      '-' :: (toString k).toList = between ++ '-' :: (toString l).toList → between = [] := by
    intro k l between hrest
    cases between with
    | nil => rfl
    | cons c between =>
      have hdash : '-' ∈ (toString k).toList := by
        rw [(List.cons.inj hrest).2]
        exact List.mem_append_right _ List.mem_cons_self
      exact absurd hdash (not_mem_toString rfl)
  have hkeys : a.toList = b.toList := by
    rcases List.append_eq_append_iff.mp hlists with ⟨between, heq, hrest⟩ | ⟨between, heq, hrest⟩
    · rw [heq, hnone hrest, List.append_nil]
    · rw [heq, hnone hrest, List.append_nil]
  rw [hkeys, List.append_cancel_left_eq] at hlists
  exact ⟨String.toList_inj.mp hkeys,
    toString_injective (String.toList_inj.mp (List.cons.inj hlists).2)⟩

/-- Each key of a list with the number of times that it came before, after the given keys. -/
def occurrences (seen : List String) : List String → List (String × Nat)
  | [] => []
  | key :: rest => (key, seen.count key) :: occurrences (key :: seen) rest

theorem occurrences_cons (seen : List String) (key : String) (rest : List String) :
    occurrences seen (key :: rest) = (key, seen.count key) :: occurrences (key :: seen) rest := rfl

theorem mem_occurrences {seen keys : List String} {key : String} {before : Nat} :
    (key, before) ∈ occurrences seen keys ↔
      seen.count key ≤ before ∧ before < seen.count key + keys.count key := by
  induction keys generalizing seen with
  | nil =>
    show _ ∈ [] ↔ _
    simp
  | cons first keys ih =>
    rw [occurrences_cons, List.mem_cons, ih, Prod.mk.injEq, List.count_cons, List.count_cons]
    by_cases h : first = key
    · subst h
      simp only [beq_self_eq_true, if_true, true_and]
      omega
    · have hne : (first == key) = false := beq_eq_false_iff_ne.mpr h
      simp only [hne, Bool.false_eq_true, if_false, Nat.add_zero, Ne.symm h, false_and, false_or]

theorem nodup_occurrences (seen keys : List String) : (occurrences seen keys).Nodup := by
  induction keys generalizing seen with
  | nil => exact List.nodup_nil
  | cons key keys ih =>
    refine List.nodup_cons.mpr ⟨fun h => ?_, ih _⟩
    have hcount := (mem_occurrences.mp h).1
    rw [List.count_cons_self] at hcount
    omega

theorem map_fst_occurrences (seen keys : List String) :
    (occurrences seen keys).map Prod.fst = keys := by
  induction keys generalizing seen with
  | nil => rfl
  | cons key keys ih => rw [occurrences_cons, List.map_cons, ih]

/-- Numbering keeps keys apart, unless one of them is another with the number of a repetition. -/
theorem nodup_numbered_iff (keys : List String) :
    ((occurrences [] keys).map fun o => numbered o.1 o.2).Nodup ↔
      ∀ key before, 0 < before → before < keys.count key → numbered key before ∉ keys := by
  rw [List.nodup_map_iff_inj_on (nodup_occurrences [] keys)]
  have hmem : ∀ {key before}, (key, before) ∈ occurrences [] keys ↔ before < keys.count key := by
    simp [mem_occurrences]
  constructor
  · intro hinj key before hpos hcount hkey
    have hfirst : (numbered key before, 0) ∈ occurrences [] keys :=
      hmem.mpr (List.count_pos_iff.mpr hkey)
    have heq := hinj _ (hmem.mpr hcount) _ hfirst rfl
    exact Nat.ne_of_gt hpos (congrArg Prod.snd heq)
  · rintro hfresh ⟨a, m⟩ ha ⟨b, n⟩ hb h
    have hin : ∀ {key before}, before < keys.count key → key ∈ keys := fun hcount =>
      List.count_pos_iff.mp (Nat.zero_lt_of_lt hcount)
    rw [hmem] at ha hb
    rcases Nat.eq_zero_or_pos m with rfl | hm <;> rcases Nat.eq_zero_or_pos n with rfl | hn
    · exact congrArg (·, 0) h
    · exact absurd (h ▸ hin ha) (hfresh b n hn hb)
    · exact absurd (h ▸ hin hb) (hfresh a m hm ha)
    · obtain ⟨rfl, rfl⟩ := numbered_injective hm hn h
      rfl

/-! ### Items -/

namespace Iteration

variable {i : Iteration} {cells : Cells}

/-- The keys that the elements of the list have of themselves. -/
def ownKeys (i : Iteration) (cells : Cells) : List String :=
  (i.list.value cells).items.mapIdx fun n element => i.key.text n (.data element)

theorem itemsFrom_succ (seen : List String) (index count : Nat) :
    i.itemsFrom cells seen index (count + 1) =
      let value : Reference := .property i.list (toString index)
      let key := i.key.text index (value.value cells)
      ⟨numbered key (seen.count key), value, .ofJson (.int index)⟩ ::
        i.itemsFrom cells (key :: seen) (index + 1) count := rfl

/-- The keys of the items are those of the data that they read, each with the number of a
repetition. -/
theorem keys_itemsFrom (seen : List String) (index count : Nat) :
    (i.itemsFrom cells seen index count).map (·.key) =
      (occurrences seen ((List.range' index count).map fun n =>
        i.key.text n ((i.list.value cells).get (toString n)))).map fun o => numbered o.1 o.2 := by
  induction count generalizing seen index with
  | zero => rfl
  | succ count ih =>
    rw [itemsFrom_succ, List.map_cons, ih]
    rfl

/-- The items are properties of the list, by consecutive numbers. -/
theorem references_itemsFrom (seen : List String) (index count : Nat) :
    (i.itemsFrom cells seen index count).map (fun item => (item.value, item.memo)) =
      (List.range' index count).map fun n =>
        (.property i.list (toString n), .ofJson (.int n)) := by
  induction count generalizing seen index with
  | zero => rfl
  | succ count ih =>
    rw [itemsFrom_succ, List.map_cons, ih]
    rfl

/-- What is read by the numbers of all elements is the elements. -/
theorem range'_elements {α : Type} (f : Nat → Datum → α)
    (hsize : (i.list.value cells).items.length ≤ UInt64.size) :
    (List.range' 0 (i.list.value cells).items.length).map
        (fun n => f n ((i.list.value cells).get (toString n))) =
      (i.list.value cells).items.mapIdx fun n element => f n (.data element) := by
  refine List.ext_getElem (by simp) fun n hn _ => ?_
  have hlt : n < (i.list.value cells).items.length := by simpa using hn
  have hlist := Datum.eq_arr_of_items (List.ne_nil_of_length_pos (Nat.zero_lt_of_lt hlt))
  have hread : (i.list.value cells).get (toString n) = .data (i.list.value cells).items[n] := by
    calc
      _ = Datum.get (.data (.arr (i.list.value cells).items)) (toString n) := by rw [← hlist]
      _ = _ := by
        rw [Datum.get_toString _ (Nat.lt_of_lt_of_le hlt hsize), List.getElem?_eq_getElem hlt,
          Option.getD_some]
  simp only [List.getElem_map, List.getElem_range', Nat.zero_add, Nat.one_mul, List.getElem_mapIdx,
    hread]

/-- The positions of a list differ, and so do their keys. -/
theorem nodup_ownKeys_of_index (h : i.key = .index) : (i.ownKeys cells).Nodup := by
  unfold ownKeys
  rw [List.nodup_iff_injective_getElem]
  rintro ⟨m, hm⟩ ⟨n, hn⟩ heq
  simp only [h, List.getElem_mapIdx, IterationKey.text] at heq
  exact Fin.ext (toString_injective heq)

/-- The keys of the items are the own keys of the elements, numbered where they repeat. -/
theorem keys_items (hsize : (i.list.value cells).items.length ≤ UInt64.size) :
    (i.items cells).map (·.key) =
      (occurrences [] (i.ownKeys cells)).map fun o => numbered o.1 o.2 := by
  rw [items, keys_itemsFrom, range'_elements (fun n d => i.key.text n d) hsize]
  rfl

/-- What the items of a list are. -/
structure Enumerates (i : Iteration) (cells : Cells) (items : List IterationItem) : Prop where
  /-- There is one for each element, in order, that reads the element and knows its number. -/
  complete : items.map (fun item => (item.value.value cells, item.memo.value cells)) =
    (i.list.value cells).items.mapIdx fun n element => (.data element, .data (.int n))
  /-- Each reads the element of its number also after the list was changed. -/
  follows : ∀ later elements, i.list.value later = .data (.arr elements) →
    items.map (·.value.value later) =
      (List.range items.length).map fun n => .data (elements[n]?.getD .null)
  /-- What is not a list has none. -/
  nothing : (∀ elements, i.list.value cells ≠ .data (.arr elements)) → items = []
  /-- Own keys that do not repeat are kept. -/
  keeps : (i.ownKeys cells).Nodup → items.map (·.key) = i.ownKeys cells
  /-- Keys are distinct exactly if no element has, of itself, the key that a repetition gets. -/
  distinct_iff : (items.map (·.key)).Nodup ↔ ∀ key before, 0 < before →
    before < (i.ownKeys cells).count key → numbered key before ∉ i.ownKeys cells
  /-- Positions are always distinct. -/
  distinct_of_index : i.key = .index → (items.map (·.key)).Nodup

/-- The items of an iteration are complete and in order, and each reads its element; but their keys
are only distinct where no numbered key is the own key of another element.  The number of an element
has to be one that an index can be. -/
theorem items_enumerate (hsize : (i.list.value cells).items.length ≤ UInt64.size) :
    i.Enumerates cells (i.items cells) := by
  have hkeys := keys_items hsize
  have hkeeps (hnodup : (i.ownKeys cells).Nodup) :
      (i.items cells).map (·.key) = i.ownKeys cells := by
    have hfirst : ∀ o ∈ occurrences [] (i.ownKeys cells), numbered o.1 o.2 = o.1 := by
      rintro ⟨key, before⟩ ho
      have hcount := (mem_occurrences.mp ho).2
      have hle := List.nodup_iff_count_le_one.mp hnodup key
      obtain rfl : before = 0 := by simp only [List.count_nil] at hcount; omega
      rfl
    rw [hkeys, List.map_congr_left hfirst, map_fst_occurrences]
  have hreferences : (i.items cells).map (fun item => (item.value, item.memo)) =
      (List.range' 0 (i.list.value cells).items.length).map fun n =>
        (.property i.list (toString n), .ofJson (.int n)) := references_itemsFrom [] 0 _
  have hlength : (i.items cells).length = (i.list.value cells).items.length := by
    simpa using congrArg List.length hreferences
  refine ⟨?_, fun later elements hlater => ?_, fun hlist => ?_, hkeeps,
    hkeys ▸ nodup_numbered_iff _, fun hindex => ?_⟩
  · have hread :=
      congrArg (List.map fun pair => (pair.1.value cells, pair.2.value cells)) hreferences
    simp only [List.map_map] at hread
    exact hread.trans (range'_elements (fun n d => (d, Datum.data (.int n))) hsize)
  · have hread := congrArg (List.map fun pair => pair.1.value later) hreferences
    simp only [List.map_map] at hread
    rw [hlength, List.range_eq_range']
    refine hread.trans (List.map_congr_left fun n hn => ?_)
    have hlt : n < (i.list.value cells).items.length := by simpa using hn
    show (i.list.value later).get (toString n) = _
    rw [hlater, Datum.get_toString elements (Nat.lt_of_lt_of_le hlt hsize)]
  · have hnone : (i.list.value cells).items = [] := by
      by_contra hitems
      exact hlist _ (Datum.eq_arr_of_items hitems)
    rw [items, hnone]
    rfl
  · have hnodup : (i.ownKeys cells).Nodup := nodup_ownKeys_of_index hindex
    exact (hkeeps hnodup).symm ▸ hnodup

/-- A list in which one element is what the repetition of another is called. -/
def crowded : Iteration :=
  ⟨.ofJson (.arr [.str "x", .str "x", .str "x-1"]), .identity⟩

theorem crowded_enumerate :
    ((crowded.list.value {}).items.length ≤ UInt64.size ∧
      crowded.Enumerates {} (crowded.items {})) ∧
      (crowded.items {}).map (·.key) = ["x", "x-1", "x-1"] :=
  have hsize : (crowded.list.value {}).items.length ≤ UInt64.size := by decide
  ⟨⟨hsize, items_enumerate hsize⟩, by decide⟩

end Iteration

end TemplateMachine
