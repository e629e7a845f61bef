import Mathlib.Data.List.DropRight
import Mathlib.Data.List.ReduceOption
import TemplateMachine.Markup.Sink

/-! The class of an element.  Classes that invocations pass are added to the one of the element
itself, each after a space.  An absent one is not passed over: it takes away the class that there
is, so of all values only those after the last absent one are left. -/

namespace TemplateMachine

/-! ### Values and their text -/

/-- The class that several values make, if any. -/
def joined (values : List String) : Option String :=
  if values = [] then none else some (" ".intercalate values)

theorem joined_nil : joined [] = none := rfl

theorem joined_concat (values : List String) (v : String) :
    joined (values ++ [v]) = some ((joined values).elim v (· ++ " " ++ v)) := by
  by_cases h : values = []
  · subst h
    simp [joined]
  · simp [joined, h, String.intercalate_append_of_ne_nil]

/-- A value more can be seen. -/
theorem joined_append_eq_iff {before values : List String} :
    joined values = joined (before ++ values) ↔ before = [] := by
  refine ⟨fun h => ?_, fun h => h ▸ rfl⟩
  by_contra hbefore
  by_cases hvalues : values = []
  · subst hvalues
    simp [joined, hbefore] at h
  · have htext : " ".intercalate values = " ".intercalate before ++ " " ++
        " ".intercalate values := by
      rw [← String.intercalate_append_of_ne_nil hbefore hvalues]
      simpa [joined, hvalues] using h
    have hlength := congrArg String.length htext
    simp only [String.length_append] at hlength
    have hspace : " ".length = 1 := rfl
    omega

/-- The values after the last absent one. -/
def lasting (values : List (Option String)) : List String :=
  (values.rtakeWhile Option.isSome).reduceOption

theorem lasting_absent (values : List (Option String)) : lasting (values ++ [none]) = [] := by
  rw [lasting, List.rtakeWhile_concat_neg _ _ _ (by simp)]
  rfl

theorem lasting_present (values : List (Option String)) (v : String) :
    lasting (values ++ [some v]) = lasting values ++ [v] := by
  rw [lasting, List.rtakeWhile_concat_pos _ _ _ (by simp), List.reduceOption_append]
  rfl

/-- The values up to the last absent one and those after it are all of them. -/
theorem reduceOption_split (values : List (Option String)) :
    values.reduceOption = (values.rdropWhile Option.isSome).reduceOption ++ lasting values := by
  rw [lasting, ← List.reduceOption_append, List.rdropWhile_append_rtakeWhile]

/-! ### Elements -/

namespace PendingElement

variable {e : PendingElement} {space : Option String}

/-- The value of the class attribute. -/
def classValue? (e : PendingElement) : Option String :=
  (e.attributes.find? (·.name == "class")).map (·.value)

/-- The attributes that are not the class. -/
def others (e : PendingElement) : List Attribute := e.attributes.filter (·.name != "class")

/-- A value that is added to the class there is. -/
theorem find?_extend {attributes : List Attribute} {value : String} :
    ((extend "class" value attributes).find? (·.name == "class")).map (·.value) =
      ((attributes.find? (·.name == "class")).map (·.value)).map (· ++ " " ++ value) := by
  induction attributes with
  | nil => rfl
  | cons a rest ih =>
    by_cases h : a.name = "class"
    · simp [extend, h]
    · simp [extend, h, ih]

theorem filter_extend {attributes : List Attribute} {value : String} :
    (extend "class" value attributes).filter (·.name != "class") =
      attributes.filter (·.name != "class") := by
  induction attributes with
  | nil => rfl
  | cons a rest ih =>
    by_cases h : a.name = "class"
    · simp [extend, h]
    · simp [extend, h, ih]

theorem others_eq (h : e.attributes.any (·.name == "class") = false) : e.others = e.attributes := by
  rw [List.any_eq_false] at h
  exact List.filter_eq_self.mpr fun a ha => by simpa using h a ha

/-! The three ways of setting a class: to what is there, as the first one, and not at all. -/

theorem set_added (h : e.attributes.any (·.name == "class") = true) (value : String) :
    e.setComponentAttribute "class" (some value) space =
      { e with attributes := extend "class" value e.attributes } := by
  simp [setComponentAttribute, h]

theorem set_first (h : e.attributes.any (·.name == "class") = false) (value : String) :
    e.setComponentAttribute "class" (some value) space =
      { e with attributes := e.attributes ++ [⟨"class", space, value⟩] } := by
  conv_rhs => rw [← others_eq h]
  simp [setComponentAttribute, h, setAttribute, others]

theorem set_absent :
    e.setComponentAttribute "class" none space = { e with attributes := e.others } := rfl

theorem classValue?_present (value : String) :
    (e.setComponentAttribute "class" (some value) space).classValue? =
      some (e.classValue?.elim value (· ++ " " ++ value)) := by
  cases h : e.attributes.any (·.name == "class") with
  | true =>
    rw [set_added h, classValue?, find?_extend]
    obtain ⟨a, ha⟩ := Option.isSome_iff_exists.mp (List.find?_isSome.mpr (List.any_eq_true.mp h))
    simp [classValue?, ha]
  | false =>
    have hnone : e.attributes.find? (·.name == "class") = none :=
      List.find?_eq_none.mpr (List.any_eq_false.mp h)
    simp [set_first h, classValue?, List.find?_append, hnone]

theorem classValue?_absent : (e.setComponentAttribute "class" none space).classValue? = none := by
  simp [set_absent, classValue?, others]

theorem others_set (value : Option String) :
    (e.setComponentAttribute "class" value space).others = e.others := by
  cases value with
  | none => simp [set_absent, others]
  | some value =>
    cases h : e.attributes.any (·.name == "class") with
    | true => rw [set_added h, others, filter_extend, others]
    | false => simp [set_first h, others]

theorem tag_set (value : Option String) :
    (e.setComponentAttribute "class" value space).tag = e.tag := by
  cases value with
  | none => rfl
  | some value =>
    cases h : e.attributes.any (·.name == "class") with
    | true => rw [set_added h]
    | false => rw [set_first h]

/-- Sets the class on behalf of invocations, to several values with their namespaces. -/
def setClasses (e : PendingElement) (settings : List (Option String × Option String)) :
    PendingElement :=
  settings.foldl (fun e setting => e.setComponentAttribute "class" setting.1 setting.2) e

theorem setClasses_concat (settings : List (Option String × Option String))
    (setting : Option String × Option String) :
    e.setClasses (settings ++ [setting]) =
      (e.setClasses settings).setComponentAttribute "class" setting.1 setting.2 := by
  simp [setClasses, List.foldl_append]

/-- The class of the element itself, if any, and the values that are passed. -/
def classes (e : PendingElement) (settings : List (Option String × Option String)) :
    List (Option String) := e.classValue?.toList.map some ++ settings.map Prod.fst

theorem classes_concat (settings : List (Option String × Option String))
    (setting : Option String × Option String) :
    e.classes (settings ++ [setting]) = e.classes settings ++ [setting.1] := by
  simp [classes]

/-- What setting the class leaves of an element. -/
theorem setClasses_frame (settings : List (Option String × Option String)) :
    (e.setClasses settings).tag = e.tag ∧ (e.setClasses settings).others = e.others := by
  induction settings using List.reverseRecOn with
  | nil => exact ⟨rfl, rfl⟩
  | append_singleton settings setting ih => rw [setClasses_concat, tag_set, others_set]; exact ih

/-- The class is made of the values after the last absent one. -/
theorem classValue?_setClasses (settings : List (Option String × Option String)) :
    (e.setClasses settings).classValue? = joined (lasting (e.classes settings)) := by
  induction settings using List.reverseRecOn with
  | nil =>
    show e.classValue? = _
    cases h : e.classValue? with
    | none => simp [classes, h, lasting, joined]
    | some own => simp [classes, h, lasting, joined, List.rtakeWhile]
  | append_singleton settings setting ih =>
    obtain ⟨value, space⟩ := setting
    rw [setClasses_concat, classes_concat]
    cases value with
    | none => rw [classValue?_absent, lasting_absent, joined_nil]
    | some value => rw [classValue?_present, lasting_present, joined_concat, ih]

/-- What an element is after its class was set on behalf of invocations. -/
structure Joins (e : PendingElement) (settings : List (Option String × Option String))
    (later : PendingElement) : Prop where
  tag : later.tag = e.tag
  others : later.others = e.others
  /-- The class is made of its own value and those that are passed, in order, but only of the ones
  after the last absent one. -/
  value : later.classValue? = joined (lasting (e.classes settings))
  /-- It is made of all of them exactly if none was there before an absent one. -/
  adds_iff : later.classValue? = joined (e.classes settings).reduceOption ↔
    ∀ value ∈ (e.classes settings).rdropWhile Option.isSome, value = none

theorem joins_setClasses (settings : List (Option String × Option String)) :
    e.Joins settings (e.setClasses settings) := by
  obtain ⟨htag, hothers⟩ := e.setClasses_frame settings
  refine ⟨htag, hothers, e.classValue?_setClasses settings, ?_⟩
  rw [e.classValue?_setClasses settings, reduceOption_split, joined_append_eq_iff,
    List.reduceOption_eq_nil_iff]
  constructor
  · rintro ⟨n, hn⟩ value hvalue
    exact List.eq_of_mem_replicate (hn ▸ hvalue)
  · exact fun h => ⟨_, List.eq_replicate_length.mpr h⟩

end PendingElement

namespace Sink

/-- Sets the class of the pending element on behalf of invocations. -/
def setClasses (s : Sink) (settings : List (Option String × Option String)) : Result :=
  settings.foldlM (fun s setting => s.setComponentAttribute "class" setting.1 setting.2) s

/-- The class of a pending element can be set on behalf of invocations any number of times.  That
leaves its other attributes, and joins the values; but an absent one takes away those before it. -/
theorem setClasses_joins {s : Sink} {e : PendingElement} (h : s.pending = some e)
    (settings : List (Option String × Option String)) :
    ∃ later, s.setClasses settings = .ok { s with pending := some later } ∧
      e.Joins settings later := by
  refine ⟨e.setClasses settings, ?_, PendingElement.joins_setClasses settings⟩
  induction settings generalizing s e with
  | nil => rw [setClasses, PendingElement.setClasses, List.foldlM_nil, List.foldl_nil, ← h]; rfl
  | cons setting settings ih =>
    have hset : s.setComponentAttribute "class" setting.1 setting.2 =
        .ok { s with pending := some (e.setComponentAttribute "class" setting.1 setting.2) } := by
      rw [setComponentAttribute, onPending, h]
    rw [setClasses, List.foldlM_cons, hset]
    exact ih rfl

/-- A paragraph with a class of its own. -/
def paragraph : PendingElement := ⟨"p", [⟨"class", none, "base"⟩, ⟨"id", none, "x"⟩]⟩

/-- Two classes that are passed to it, and an absent one between them. -/
def passedClasses : List (Option String × Option String) :=
  [(some "extra", none), (none, none), (some "more", none)]

/-- The absent one takes away the class of the paragraph and the first that is passed. -/
theorem paragraph_joins :
    (Sink.pending { pending := some paragraph } = some paragraph ∧
      ∃ later, Sink.setClasses { pending := some paragraph } passedClasses =
          .ok { pending := some later } ∧
        paragraph.Joins passedClasses later) ∧
      joined (lasting (paragraph.classes passedClasses)) = some "more" :=
  ⟨⟨rfl, setClasses_joins rfl passedClasses⟩, by decide⟩

end Sink

end TemplateMachine
