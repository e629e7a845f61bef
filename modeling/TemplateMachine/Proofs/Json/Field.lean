import TemplateMachine.Proofs.Json.Canonical
import TemplateMachine.Template.Encode
import TemplateMachine.Template.Field

/-! Laws of the readers of records and variants: each finds what was written, and what it finds was
read from a part of the document. -/

namespace TemplateMachine.Json.Document

section

variable {α β : Type} {d : Document} {field : Option (Part d)} {j : Json}

/-! ### What was written is found -/

/-- The field is there and holds a value. -/
def Holds (field : Option (Part d)) (j : Json) : Prop := field.map Subtype.val = some (ofJson j)

theorem required_of_holds (h : Holds field j) (read : Document → Option α) :
    required field (fun c _ => read c) = read (ofJson j) := by
  obtain ⟨c, rfl, hc⟩ := Option.map_eq_some_iff.mp h
  rw [required, hc]

theorem orDefault_of_holds (h : Holds field j) (default : α) (read : Document → Option α) :
    orDefault field default (fun c _ => read c) = read (ofJson j) := by
  obtain ⟨c, rfl, hc⟩ := Option.map_eq_some_iff.mp h
  rw [orDefault, hc]

/-- An option is found again, if a value of it is found and is not written as null. -/
theorem nullable_of_holds {encode : α → Json} {o : Option α} (h : Holds field (ofOption encode o))
    {read : Document → Option α}
    (hread : ∀ a, o = some a → ofJson (encode a) ≠ .null ∧ read (ofJson (encode a)) = some a) :
    nullable field (fun c _ => read c) = some o := by
  obtain ⟨⟨c, hlt⟩, rfl, hc⟩ := Option.map_eq_some_iff.mp h
  replace hc : c = ofJson (ofOption encode o) := hc
  cases o with
  | none =>
    subst hc
    rfl
  | some a =>
    obtain ⟨hne, ha⟩ := hread a rfl
    replace hc : c = ofJson (encode a) := hc
    subst hc
    rw [nullable, ha]
    · rfl
    · exact hne

/-- A variant is found with its payload. -/
theorem variant?_variant (name : String) (payload : Json) :
    ∃ field, (ofJson (variant name payload)).variant? = some (name, field) ∧ Holds field payload :=
  ⟨_, rfl, rfl⟩

theorem ofMemberList_eq (members : List (String × Json)) :
    ofMemberList members = members.map fun m => (m.1, ofJson m.2) := by
  induction members with
  | nil => rfl
  | cons first rest ih => rw [ofMemberList, ih, List.map_cons]

theorem ofItems_eq (items : List Json) : ofItems items = items.map ofJson := by
  induction items with
  | nil => rfl
  | cons j rest ih => rw [ofItems, ih, List.map_cons]

/-- A member whose key is its own is found by it. -/
theorem field?_of_mem {members : List (String × α)} (hnodup : (members.map Prod.fst).Nodup)
    {m : String × α} (hm : m ∈ members) : field? members m.1 = some (some m.2) := by
  have hfilter : (members.filter fun n => n.1 == m.1) = [m] := by
    induction members with
    | nil => cases hm
    | cons first rest ih =>
      rw [List.map_cons, List.nodup_cons] at hnodup
      rcases List.mem_cons.mp hm with rfl | hm
      · rw [List.filter_cons_of_pos (by exact beq_self_eq_true _), List.filter_eq_nil_iff.mpr]
        intro n hn heq
        exact hnodup.1 (eq_of_beq heq ▸ List.mem_map_of_mem hn)
      · rw [List.filter_cons_of_neg, ih hnodup.2 hm]
        intro heq
        exact hnodup.1 (eq_of_beq heq ▸ List.mem_map_of_mem hm)
  rw [field?, hfilter]

/-- The fields of a record are found among its members. -/
theorem record?_obj {members : List (String × Document)} (h : (members.map Prod.fst).Nodup)
    {fields : List (String × Json)} (hfields : ∀ m ∈ fields, (m.1, ofJson m.2) ∈ members) :
    ∃ found : String → Option (Part (.obj members)),
      record? (fields.map Prod.fst) (.obj members) = some ((fields.map Prod.fst).map found) ∧
        ∀ m ∈ fields, Holds (found m.1) m.2 := by
  let parts : List (String × Part (.obj members)) :=
    members.attach.map fun m => (m.1.1, ⟨m.1.2, sizeOf_member_lt m.2⟩)
  have hnodup : (parts.map Prod.fst).Nodup := by
    rw [List.map_map]
    show (members.attach.map fun m => m.1.1).Nodup
    rwa [List.attach_map_val (f := Prod.fst)]
  have hfield : ∀ m ∈ fields, ∃ c, field? parts m.1 = some (some c) ∧ c.1 = ofJson m.2 := by
    intro m hm
    have hmem : (m.1, ⟨_, sizeOf_member_lt (hfields m hm)⟩) ∈ parts :=
      List.mem_map.mpr ⟨⟨_, hfields m hm⟩, List.mem_attach _ _, rfl⟩
    exact ⟨_, field?_of_mem hnodup hmem, rfl⟩
  refine ⟨fun name => (field? parts name).getD none, ?_, fun m hm => ?_⟩
  · show (fields.map Prod.fst).mapM (field? parts) = _
    clear hfields
    induction fields with
    | nil => rfl
    | cons first rest ih =>
      obtain ⟨c, hc, -⟩ := hfield first List.mem_cons_self
      rw [List.map_cons, List.mapM_cons, ih fun m hm => hfield m (List.mem_cons_of_mem _ hm),
        List.map_cons, hc]
      rfl
  · obtain ⟨c, hc, hval⟩ := hfield m hm
    simp only [hc]
    exact congrArg some hval

/-- The fields of a record that was written with all of them are found. -/
theorem record?_ofMembers (names : List String) (fields : List (String × Json))
    (hnames : fields.map Prod.fst = names) (hnodup : names.Nodup) :
    ∃ found : String → Option (Part (ofJson (ofMembers fields))),
      record? names (ofJson (ofMembers fields)) = some (names.map found) ∧
      ∀ m ∈ fields, Holds (found m.1) m.2 := by
  subst hnames
  obtain ⟨kept, hkept, hperm⟩ := ofMembers_perm hnodup
  rw [hkept, ofJson, ofMemberList_eq]
  refine record?_obj ?_ fun m hm => List.mem_map.mpr ⟨m, hperm.mem_iff.mpr hm, rfl⟩
  rw [List.map_map]
  exact (hperm.map Prod.fst).nodup_iff.mpr hnodup

/-- A variant that holds a record is found with all of its fields. -/
theorem variant?_ofMembers (name : String) (names : List String) (fields : List (String × Json))
    (hnames : fields.map Prod.fst = names) (hnodup : names.Nodup) :
    ∃ payload, ∃ found : String → Option (Part (ofJson (ofMembers fields))),
      (ofJson (variant name (ofMembers fields))).variant? = some (name, payload) ∧
      (∀ {β : Type} (read : (c : Document) → List (Option (Part c)) → Option β),
        (required payload fun c _ => (record? names c).bind (read c)) = read _ (names.map found)) ∧
      ∀ m ∈ fields, Holds (found m.1) m.2 := by
  obtain ⟨payload, hvariant, hpayload⟩ := variant?_variant name (ofMembers fields)
  obtain ⟨found, hrecord, hfound⟩ := record?_ofMembers names fields hnames hnodup
  refine ⟨payload, found, hvariant, fun read => ?_, hfound⟩
  rw [required_of_holds hpayload fun c => (record? names c).bind (read c), hrecord]
  rfl

/-- A list is read item by item. -/
theorem list?_arr (items : List Document) (read : Document → Option α) :
    (Document.arr items).list? (fun c _ => read c) = items.mapM read := by
  show (items.attach.map fun c => (⟨c.1, sizeOf_item_lt c.2⟩ : Part (.arr items))).mapM
    (fun c => read c.1) = items.mapM read
  rw [List.mapM_map]
  conv => rhs; rw [← List.attach_map_subtype_val items, List.mapM_map]
  rfl

/-- A list is found again, if its items are. -/
theorem list?_map {encode : α → Json} {read : Document → Option α} {as : List α}
    (h : ∀ a ∈ as, read (ofJson (encode a)) = some a) :
    (ofJson (.arr (as.map encode))).list? (fun c _ => read c) = some as := by
  rw [ofJson, list?_arr, ofItems_eq]
  induction as with
  | nil => rfl
  | cons a rest ih =>
    rw [List.map_cons, List.map_cons, List.mapM_cons, h a List.mem_cons_self,
      ih fun b hb => h b (List.mem_cons_of_mem _ hb)]
    rfl

/-! ### What is found was read -/

variable {read : Reader d α} {a : α}

theorem required_eq_some (h : required field read = some a) : ∃ c hc, read c hc = some a := by
  cases field with
  | none => cases h
  | some c => exact ⟨c.1, c.2, h⟩

theorem orDefault_eq_some {default : α} (h : orDefault field default read = some a) :
    a = default ∨ ∃ c hc, read c hc = some a := by
  cases field with
  | none => exact .inl (Option.some.inj h).symm
  | some c => exact .inr ⟨c.1, c.2, h⟩

theorem nullable_eq_some (h : nullable field read = some (some a)) :
    ∃ c hc, read c hc = some a := by
  cases field with
  | none => cases h
  | some c =>
    obtain ⟨c, hc⟩ := c
    refine ⟨c, hc, ?_⟩
    cases c with
    | null => cases h
    | _ =>
      obtain ⟨b, hb, heq⟩ := Option.map_eq_some_iff.mp h
      cases heq
      exact hb

theorem list?_eq_some {as : List α} (h : d.list? read = some as) (ha : a ∈ as) :
    ∃ c hc, read c hc = some a := by
  unfold list? at h
  split at h
  · next items hitems =>
    clear hitems
    induction items generalizing as with
    | nil =>
      cases h
      cases ha
    | cons c rest ih =>
      rw [List.mapM_cons] at h
      obtain ⟨b, hb, h⟩ := Option.bind_eq_some_iff.mp h
      obtain ⟨bs, hbs, h⟩ := Option.bind_eq_some_iff.mp h
      cases h
      rcases List.mem_cons.mp ha with rfl | ha
      · exact ⟨c.1, c.2, hb⟩
      · exact ih ha hbs
  · cases h

end

end TemplateMachine.Json.Document
