import TemplateMachine.Json.Document

/-! Decoding of records and variants.  A record is an object with some of the declared fields, each
at most once and others ignored, or an array of the fields in their order, from which the last may
be missing.  A variant is its bare name, or an object whose only member has its name and holds its
payload.  Each part that a record or variant hands out is smaller than the whole. -/

namespace TemplateMachine.Json.Document

/-- A part of a document. -/
abbrev Part (d : Document) := { c : Document // sizeOf c < sizeOf d }

theorem sizeOf_item_lt {items : List Document} {c : Document} (h : c ∈ items) :
    sizeOf c < sizeOf (Document.arr items) := by
  have := List.sizeOf_lt_of_mem h
  simp only [Document.arr.sizeOf_spec]
  omega

theorem sizeOf_member_lt {members : List (String × Document)} {m : String × Document}
    (h : m ∈ members) : sizeOf m.2 < sizeOf (Document.obj members) := by
  have hm := List.sizeOf_lt_of_mem h
  obtain ⟨key, c⟩ := m
  simp only [Document.obj.sizeOf_spec]
  simp only [Prod.mk.sizeOf_spec] at hm
  omega

/-- The items of an array. -/
def items? : (d : Document) → Option (List (Part d))
  | .arr items => some (items.attach.map fun ⟨c, h⟩ => ⟨c, sizeOf_item_lt h⟩)
  | _ => none

/-- The members of an object, in the order of the text. -/
def members? : (d : Document) → Option (List (String × Part d))
  | .obj members => some (members.attach.map fun ⟨m, h⟩ => (m.1, ⟨m.2, sizeOf_member_lt h⟩))
  | _ => none

/-- The field of the given name: absent, or present once; none if it is repeated. -/
def field? {α : Type} (members : List (String × α)) (name : String) : Option (Option α) :=
  match members.filter fun m => m.1 == name with
  | [] => some none
  | [m] => some (some m.2)
  | _ => none

/-- The declared fields of a record, absent ones as `none`. -/
def record? (names : List String) (d : Document) : Option (List (Option (Part d))) :=
  match d.members? with
  | some members => names.mapM (field? members)
  | none =>
    match d.items? with
    | some items =>
      if items.length ≤ names.length then
        some (items.map some ++ List.replicate (names.length - items.length) none)
      else none
    | none => none

/-- The name of a variant and its payload. -/
def variant? (d : Document) : Option (String × Option (Part d)) :=
  match d with
  | .str name => some (name, none)
  | d =>
    match d.members? with
    | some [(name, payload)] => some (name, some payload)
    | _ => none

/-- A payload of a variant without content: absent or null. -/
def isUnit {d : Document} : Option (Part d) → Bool
  | none => true
  | some ⟨.null, _⟩ => true
  | some _ => false

/-- A decoder of the parts of a document. -/
abbrev Reader (d : Document) (α : Type) := (c : Document) → sizeOf c < sizeOf d → Option α

/-- A field that has to be there. -/
def required {d : Document} {α : Type} (field : Option (Part d)) (read : Reader d α) : Option α :=
  match field with
  | some ⟨c, h⟩ => read c h
  | none => none

/-- A field with a default for its absence. -/
def orDefault {d : Document} {α : Type} (field : Option (Part d)) (default : α)
    (read : Reader d α) : Option α :=
  match field with
  | some ⟨c, h⟩ => read c h
  | none => some default

/-- A field that may be absent or null. -/
def nullable {d : Document} {α : Type} (field : Option (Part d)) (read : Reader d α) :
    Option (Option α) :=
  match field with
  | some ⟨.null, _⟩ => some none
  | some ⟨c, h⟩ => (read c h).map some
  | none => some none

/-- An array whose items are all read the same way. -/
def list? {α : Type} (d : Document) (read : Reader d α) : Option (List α) :=
  match d.items? with
  | some items => items.mapM fun ⟨c, h⟩ => read c h
  | none => none

def asString? : Document → Option String
  | .str s => some s
  | _ => none

def asBool? : Document → Option Bool
  | .bool b => some b
  | _ => none

/-- A number of thirty-two bits without sign. -/
def asWord? : Document → Option UInt32
  | .int n => if 0 ≤ n ∧ n < UInt32.size then some (UInt32.ofNat n.toNat) else none
  | _ => none

/-- A number of sixty-four bits without sign. -/
def asIndex? : Document → Option Nat
  | .int n => if 0 ≤ n ∧ n < UInt64.size then some n.toNat else none
  | _ => none

def asStrings? (d : Document) : Option (List String) := d.list? fun c _ => c.asString?

def asWords? (d : Document) : Option (List UInt32) := d.list? fun c _ => c.asWord?

end TemplateMachine.Json.Document
