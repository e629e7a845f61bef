import TemplateMachine.Json.Document

/-! The form in which objects are kept: members in the order of their keys, each key once.  What a
document is read as has this form, and a value of this form is read back from the document that it
is written as. -/

namespace TemplateMachine.Json

/-- Members in the order of their keys, each key once. -/
def IsSorted (members : List (String × Json)) : Prop := members.Pairwise fun m n => m.1 < n.1

instance (members : List (String × Json)) : Decidable (IsSorted members) :=
  inferInstanceAs (Decidable (members.Pairwise fun m n => m.1 < n.1))

mutual

/-- In every object the members are sorted. -/
def isCanonical : Json → Bool
  | .arr items => itemsCanonical items
  | .obj members => decide (IsSorted members) && membersCanonical members
  | _ => true

def itemsCanonical : List Json → Bool
  | [] => true
  | j :: rest => j.isCanonical && itemsCanonical rest

def membersCanonical : List (String × Json) → Bool
  | [] => true
  | (_, j) :: rest => j.isCanonical && membersCanonical rest

end

/-! ### Members -/

section

variable {key : String} {value : Json} {members : List (String × Json)}

theorem insertMember_cons {k : String} {v : Json} :
    insertMember key value ((k, v) :: members) =
      if key = k then (key, value) :: members
      else if key < k then (key, value) :: (k, v) :: members
      else (k, v) :: insertMember key value members := rfl

/-- A member whose key is the last comes last. -/
theorem insertMember_last (h : ∀ m ∈ members, m.1 < key) :
    insertMember key value members = members ++ [(key, value)] := by
  induction members with
  | nil => rfl
  | cons m rest ih =>
    obtain ⟨k, v⟩ := m
    have hk : k < key := h (k, v) List.mem_cons_self
    have hne : key ≠ k := fun heq => String.lt_irrefl key (heq ▸ hk)
    rw [insertMember_cons, if_neg hne, if_neg (String.lt_asymm hk),
      ih fun m hm => h m (List.mem_cons_of_mem _ hm), List.cons_append]

/-- A new member joins the others. -/
theorem insertMember_perm (h : ∀ m ∈ members, m.1 ≠ key) :
    (insertMember key value members).Perm ((key, value) :: members) := by
  induction members with
  | nil => exact .refl _
  | cons m rest ih =>
    obtain ⟨k, v⟩ := m
    rw [insertMember_cons, if_neg fun heq => h (k, v) List.mem_cons_self heq.symm]
    split
    · exact .refl _
    · exact ((ih fun m hm => h m (List.mem_cons_of_mem _ hm)).cons _).trans (.swap _ _ _)

theorem mem_insertMember {m : String × Json} (h : m ∈ insertMember key value members) :
    m = (key, value) ∨ m ∈ members := by
  induction members with
  | nil => exact .inl (List.mem_singleton.mp h)
  | cons first rest ih =>
    obtain ⟨k, v⟩ := first
    rw [insertMember_cons] at h
    split at h
    · exact (List.mem_cons.mp h).imp_right (List.mem_cons_of_mem _)
    · split at h
      · exact List.mem_cons.mp h
      · rcases List.mem_cons.mp h with rfl | h
        · exact .inr List.mem_cons_self
        · exact (ih h).imp_right (List.mem_cons_of_mem _)

theorem IsSorted.insertMember (h : IsSorted members) :
    IsSorted (insertMember key value members) := by
  induction members with
  | nil => exact List.pairwise_singleton _ _
  | cons first rest ih =>
    obtain ⟨k, v⟩ := first
    obtain ⟨hfirst, hrest⟩ := List.pairwise_cons.mp h
    rw [insertMember_cons]
    split
    · next heq => exact List.pairwise_cons.mpr ⟨fun m hm => heq ▸ hfirst m hm, hrest⟩
    · next hne =>
      split
      · next hlt =>
        refine List.pairwise_cons.mpr ⟨fun m hm => ?_, h⟩
        rcases List.mem_cons.mp hm with rfl | hm
        · exact hlt
        · exact String.lt_trans hlt (hfirst m hm)
      · next hnlt =>
        refine List.pairwise_cons.mpr ⟨fun m hm => ?_, ih hrest⟩
        rcases mem_insertMember hm with rfl | hm
        · exact Decidable.by_contra fun hge =>
            hne (String.le_antisymm (String.not_lt.mp hge) (String.not_lt.mp hnlt))
        · exact hfirst m hm

theorem membersCanonical_iff : membersCanonical members ↔ ∀ m ∈ members, m.2.isCanonical := by
  induction members with
  | nil => simp [membersCanonical]
  | cons first rest ih => simp [membersCanonical, ih]

/-- Members with others put among them. -/
def insertMembers (kept members : List (String × Json)) : List (String × Json) :=
  members.foldl (fun sorted (key, value) => Json.insertMember key value sorted) kept

theorem ofMembers_eq : ofMembers members = .obj (insertMembers [] members) := rfl

theorem insertMembers_cons {kept : List (String × Json)} :
    insertMembers kept ((key, value) :: members) =
      insertMembers (Json.insertMember key value kept) members := rfl

theorem insertMembers_sorted {kept : List (String × Json)} (h : IsSorted (kept ++ members)) :
    insertMembers kept members = kept ++ members := by
  induction members generalizing kept with
  | nil => exact (List.append_nil kept).symm
  | cons first rest ih =>
    obtain ⟨key, value⟩ := first
    obtain ⟨-, -, hbelow⟩ := List.pairwise_append.mp h
    have hlast : ∀ m ∈ kept, m.1 < key := fun m hm => hbelow m hm (key, value) List.mem_cons_self
    have hnext : kept ++ [(key, value)] ++ rest = kept ++ (key, value) :: rest := by
      rw [List.append_assoc, List.singleton_append]
    rw [insertMembers_cons, insertMember_last hlast, ih (hnext ▸ h), hnext]

theorem insertMembers_perm {kept : List (String × Json)}
    (h : ((kept ++ members).map Prod.fst).Nodup) :
    (insertMembers kept members).Perm (kept ++ members) := by
  induction members generalizing kept with
  | nil =>
    rw [List.append_nil]
    exact .refl _
  | cons first rest ih =>
    obtain ⟨key, value⟩ := first
    have hnew : ∀ m ∈ kept, m.1 ≠ key := by
      rw [List.map_append] at h
      intro m hm
      exact (List.nodup_append.mp h).2.2 _ (List.mem_map_of_mem hm) _ List.mem_cons_self
    have hperm : (Json.insertMember key value kept ++ rest).Perm (kept ++ (key, value) :: rest) :=
      ((insertMember_perm hnew).append_right rest).trans List.perm_middle.symm
    exact (ih ((hperm.map Prod.fst).nodup_iff.mpr h)).trans hperm

theorem mem_insertMembers {kept : List (String × Json)} {m : String × Json}
    (h : m ∈ insertMembers kept members) : m ∈ kept ∨ m ∈ members := by
  induction members generalizing kept with
  | nil => exact .inl h
  | cons first rest ih =>
    obtain ⟨key, value⟩ := first
    rcases ih h with h | h
    · rcases mem_insertMember h with rfl | h
      · exact .inr List.mem_cons_self
      · exact .inl h
    · exact .inr (List.mem_cons_of_mem _ h)

theorem IsSorted.insertMembers {kept : List (String × Json)} (h : IsSorted kept) :
    IsSorted (insertMembers kept members) := by
  induction members generalizing kept with
  | nil => exact h
  | cons first rest ih => exact ih h.insertMember

/-- Sorted members are already as they are kept. -/
theorem ofMembers_sorted (h : IsSorted members) : ofMembers members = .obj members :=
  congrArg Json.obj (insertMembers_sorted h)

/-- Members with different keys are kept all. -/
theorem ofMembers_perm (h : (members.map Prod.fst).Nodup) :
    ∃ kept, ofMembers members = .obj kept ∧ kept.Perm members :=
  ⟨_, rfl, insertMembers_perm h⟩

theorem isCanonical_ofMembers (h : ∀ m ∈ members, m.2.isCanonical) :
    (ofMembers members).isCanonical := by
  have hsorted : IsSorted (insertMembers [] members) := IsSorted.insertMembers List.Pairwise.nil
  rw [ofMembers_eq, isCanonical, Bool.and_eq_true]
  refine ⟨decide_eq_true hsorted, membersCanonical_iff.mpr fun m hm => h m ?_⟩
  exact (mem_insertMembers hm).resolve_left List.not_mem_nil

end

/-! ### Values and documents -/

namespace Document

mutual

/-- What a document is read as is canonical. -/
theorem isCanonical_of_toJson? {d : Document} {j : Json} (h : d.toJson? = some j) :
    j.isCanonical := by
  cases d with
  | arr items =>
    obtain ⟨js, hitems, hj⟩ := Option.bind_eq_some_iff.mp h
    cases hj
    exact itemsCanonical_of_toJson? hitems
  | obj members =>
    obtain ⟨kept, hmembers, hj⟩ := Option.bind_eq_some_iff.mp h
    cases hj
    exact isCanonical_ofMembers (membersCanonical_of_toJson? hmembers)
  | unreadable => cases h
  | _ => cases h; rfl
termination_by structural d

theorem itemsCanonical_of_toJson? {items : List Document} {js : List Json}
    (h : itemsToJson? items = some js) : itemsCanonical js := by
  cases items with
  | nil => cases h; rfl
  | cons d rest =>
    obtain ⟨j, hd, h⟩ := Option.bind_eq_some_iff.mp h
    obtain ⟨js', hrest, hjs⟩ := Option.bind_eq_some_iff.mp h
    cases hjs
    rw [itemsCanonical, Bool.and_eq_true]
    exact ⟨isCanonical_of_toJson? hd, itemsCanonical_of_toJson? hrest⟩
termination_by structural items

theorem membersCanonical_of_toJson? {members : List (String × Document)}
    {kept : List (String × Json)} (h : membersToJson? members = some kept) :
    ∀ m ∈ kept, m.2.isCanonical := by
  cases members with
  | nil => cases h; intro m hm; cases hm
  | cons first rest =>
    obtain ⟨key, d⟩ := first
    obtain ⟨j, hd, h⟩ := Option.bind_eq_some_iff.mp h
    obtain ⟨kept', hrest, hkept⟩ := Option.bind_eq_some_iff.mp h
    cases hkept
    intro m hm
    rcases List.mem_cons.mp hm with rfl | hm
    · exact isCanonical_of_toJson? hd
    · exact membersCanonical_of_toJson? hrest m hm
termination_by structural members

end

mutual

/-- A canonical value is read back from the document that it is written as. -/
theorem toJson?_ofJson {j : Json} (h : j.isCanonical) : (ofJson j).toJson? = some j := by
  cases j with
  | arr items =>
    rw [ofJson, toJson?, itemsToJson?_ofItems h]
    rfl
  | obj members =>
    rw [isCanonical, Bool.and_eq_true] at h
    rw [ofJson, toJson?, membersToJson?_ofMemberList h.2]
    exact congrArg some (ofMembers_sorted (of_decide_eq_true h.1))
  | _ => rfl
termination_by structural j

theorem itemsToJson?_ofItems {items : List Json} (h : itemsCanonical items) :
    itemsToJson? (ofItems items) = some items := by
  cases items with
  | nil => rfl
  | cons j rest =>
    rw [itemsCanonical, Bool.and_eq_true] at h
    rw [ofItems, itemsToJson?, toJson?_ofJson h.1, itemsToJson?_ofItems h.2]
    rfl
termination_by structural items

theorem membersToJson?_ofMemberList {members : List (String × Json)}
    (h : membersCanonical members) : membersToJson? (ofMemberList members) = some members := by
  cases members with
  | nil => rfl
  | cons first rest =>
    obtain ⟨key, j⟩ := first
    rw [membersCanonical, Bool.and_eq_true] at h
    rw [ofMemberList, membersToJson?, toJson?_ofJson h.1, membersToJson?_ofMemberList h.2]
    rfl
termination_by structural members

end

end Document

end TemplateMachine.Json
