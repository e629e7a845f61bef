import Mathlib.Data.List.Induction
import TemplateMachine.Markup.Sink

/-! The attributes of an element by name.  Setting an attribute replaces the one of the same
name, whatever its namespace, so a pending element is a map from the names that attributes
are given.  They are printed with their namespaces, and it is a map from printed names as
well if two settings print alike exactly when they give the same name.  Otherwise an
attribute may be printed twice, or lost. -/

namespace TemplateMachine

/-- An attribute that is set to a value, or removed. -/
structure Setting where
  name : String
  value : Option String
  space : Option String
deriving DecidableEq

namespace Setting

/-- The attribute that is there once it is set. -/
def attribute? (s : Setting) : Option Attribute := s.value.map fun value => ⟨s.name, s.space, value⟩

/-- The name that the attribute is printed with. -/
def printedName (s : Setting) : String := Attribute.printedName ⟨s.name, s.space, ""⟩

variable {s : Setting} {a : Attribute}

theorem value_of_attribute? (h : s.attribute? = some a) : s.value = some a.value := by
  obtain ⟨value, hvalue, rfl⟩ := Option.map_eq_some_iff.mp h
  exact hvalue

theorem name_of_attribute? (h : s.attribute? = some a) : a.name = s.name := by
  obtain ⟨value, -, rfl⟩ := Option.map_eq_some_iff.mp h
  rfl

theorem printedName_of_attribute? (h : s.attribute? = some a) : a.printedName = s.printedName := by
  obtain ⟨value, -, rfl⟩ := Option.map_eq_some_iff.mp h
  rfl

/-! ### The last setting of a name -/

variable (key : Setting → String)

/-- The last setting with a key. -/
def last? (k : String) (settings : List Setting) : Option Setting :=
  (settings.filter fun s => key s = k).getLast?

theorem last?_concat (k : String) (settings : List Setting) (s : Setting) :
    last? key k (settings ++ [s]) = if key s = k then some s else last? key k settings := by
  by_cases h : key s = k <;> simp [last?, h]

variable {key} {k : String} {settings : List Setting}

theorem mem_of_last? (h : last? key k settings = some s) : s ∈ settings ∧ key s = k := by
  simpa using List.mem_of_getLast? h

end Setting

/-- Attributes are what settings leave, if these are told apart by a key that the attributes
show: each key is there once, with the last value set for it, and only keys whose last
setting gives a value are. -/
structure Reflects (key : Setting → String) (shown : Attribute → String) (settings : List Setting)
    (attributes : List Attribute) : Prop where
  once : (attributes.map shown).Nodup
  value_iff : ∀ k value, (∃ a ∈ attributes, shown a = k ∧ a.value = value) ↔
    ∃ s, Setting.last? key k settings = some s ∧ s.value = some value
  shown_iff : ∀ k, k ∈ attributes.map shown ↔
    ∃ s, Setting.last? key k settings = some s ∧ s.value.isSome

/-- Two settings print alike exactly if they give the same name. -/
def PrintsApart (settings : List Setting) : Prop :=
  ∀ s ∈ settings, ∀ t ∈ settings, s.printedName = t.printedName ↔ s.name = t.name

instance (settings : List Setting) : Decidable (PrintsApart settings) :=
  inferInstanceAs (Decidable (∀ s ∈ settings, ∀ t ∈ settings, _))

namespace Setting

variable {settings : List Setting} {attributes : List Attribute}

/-- The last setting of what is printed as one of the settings is the last one of its name. -/
theorem last?_printedName (h : PrintsApart settings) {s : Setting} (hs : s ∈ settings) :
    last? printedName s.printedName settings = last? name s.name settings := by
  have hfilter : settings.filter (fun t => t.printedName = s.printedName) =
      settings.filter fun t => t.name = s.name :=
    List.filter_congr fun t ht => by rw [decide_eq_decide]; exact h t ht s hs
  rw [last?, last?, hfilter]

/-- Attributes reflect settings under a key that they show if each is what the last
setting of its key leaves. -/
theorem reflects_of_mem_iff {key : Setting → String} {shown : Attribute → String}
    (hshown : ∀ s a, s.attribute? = some a → shown a = key s) (once : (attributes.map shown).Nodup)
    (hmem : ∀ a, a ∈ attributes ↔
      ∃ s, last? key (shown a) settings = some s ∧ s.attribute? = some a) :
    Reflects key shown settings attributes := by
  have hvalue (k value : String) : (∃ a ∈ attributes, shown a = k ∧ a.value = value) ↔
      ∃ s, last? key k settings = some s ∧ s.value = some value := by
    constructor
    · rintro ⟨a, ha, rfl, rfl⟩
      obtain ⟨s, hs, hattribute⟩ := (hmem a).mp ha
      exact ⟨s, hs, value_of_attribute? hattribute⟩
    · rintro ⟨s, hs, hvalue⟩
      have hattribute : s.attribute? = some ⟨s.name, s.space, value⟩ := by
        rw [attribute?, hvalue]
        rfl
      have hk := (hshown s _ hattribute).trans (mem_of_last? hs).2
      exact ⟨_, (hmem _).mpr ⟨s, hk ▸ hs, hattribute⟩, hk, rfl⟩
  refine ⟨once, hvalue, fun k => ?_⟩
  simp only [List.mem_map, Option.isSome_iff_exists]
  constructor
  · rintro ⟨a, ha, hk⟩
    obtain ⟨s, hs, hset⟩ := (hvalue k a.value).mp ⟨a, ha, hk, rfl⟩
    exact ⟨s, hs, a.value, hset⟩
  · rintro ⟨s, hs, value, hset⟩
    obtain ⟨a, ha, hk, -⟩ := (hvalue k value).mpr ⟨s, hs, hset⟩
    exact ⟨a, ha, hk⟩

end Setting

namespace PendingElement

variable {e : PendingElement}

/-- Sets several attributes, one after the other. -/
def setAttributes (e : PendingElement) (settings : List Setting) : PendingElement :=
  settings.foldl (fun e s => e.setAttribute s.name s.value s.space) e

theorem setAttributes_concat (settings : List Setting) (s : Setting) :
    e.setAttributes (settings ++ [s]) =
      (e.setAttributes settings).setAttribute s.name s.value s.space := by
  simp [setAttributes, List.foldl_append]

theorem tag_setAttribute (s : Setting) :
    (e.setAttribute s.name s.value s.space).tag = e.tag := by
  obtain ⟨name, value, space⟩ := s
  cases value <;> rfl

theorem attributes_setAttribute (s : Setting) :
    (e.setAttribute s.name s.value s.space).attributes =
      e.attributes.filter (·.name != s.name) ++ s.attribute?.toList := by
  obtain ⟨name, value, space⟩ := s
  cases value <;> simp [setAttribute, Setting.attribute?]

theorem tag_setAttributes (settings : List Setting) : (e.setAttributes settings).tag = e.tag := by
  induction settings using List.reverseRecOn with
  | nil => rfl
  | append_singleton settings s ih => rw [setAttributes_concat, tag_setAttribute, ih]

variable {tag : String}

/-- No two attributes of an element have one name. -/
theorem nodup_setAttributes (settings : List Setting) :
    ((setAttributes { tag } settings).attributes.map (·.name)).Nodup := by
  induction settings using List.reverseRecOn with
  | nil => exact List.nodup_nil
  | append_singleton settings s ih =>
    rw [setAttributes_concat, attributes_setAttribute, List.map_append]
    refine List.nodup_append.mpr ⟨ih.sublist (List.filter_sublist.map _), ?_, ?_⟩
    · cases s.attribute? <;> simp
    · simp only [List.mem_map, List.mem_filter, Option.mem_toList]
      rintro _ ⟨a, ⟨-, ha⟩, rfl⟩ _ ⟨b, hb, rfl⟩ heq
      rw [Setting.name_of_attribute? hb] at heq
      simp [heq] at ha

/-- The attributes of an element are those that the last settings of their names leave. -/
theorem mem_setAttributes {a : Attribute} (settings : List Setting) :
    a ∈ (setAttributes { tag } settings).attributes ↔
      ∃ s, Setting.last? Setting.name a.name settings = some s ∧ s.attribute? = some a := by
  induction settings using List.reverseRecOn with
  | nil => simp [setAttributes, Setting.last?]
  | append_singleton settings s ih =>
    rw [setAttributes_concat, attributes_setAttribute, List.mem_append, List.mem_filter, ih,
      Option.mem_toList, Setting.last?_concat]
    by_cases hname : s.name = a.name
    · simp [hname]
    · have hnot : s.attribute? ≠ some a := fun h => hname (Setting.name_of_attribute? h).symm
      simp [hname, hnot, Ne.symm hname]

/-- An element is a map from the names that attributes are given. -/
theorem reflects_names (settings : List Setting) :
    Reflects Setting.name Attribute.name settings (setAttributes { tag } settings).attributes :=
  Setting.reflects_of_mem_iff (fun _ _ => Setting.name_of_attribute?) (nodup_setAttributes settings)
    fun _ => mem_setAttributes settings

/-- An element is a map from the names that attributes are printed with, if these tell apart what
the given ones do. -/
theorem reflects_printedNames {settings : List Setting} (h : PrintsApart settings) :
    Reflects Setting.printedName Attribute.printedName settings
      (setAttributes { tag } settings).attributes := by
  have hset {a : Attribute} (ha : a ∈ (setAttributes { tag } settings).attributes) :
      ∃ s ∈ settings, s.attribute? = some a := by
    obtain ⟨s, hs, hattribute⟩ := (mem_setAttributes settings).mp ha
    exact ⟨s, (Setting.mem_of_last? hs).1, hattribute⟩
  refine Setting.reflects_of_mem_iff (fun _ _ => Setting.printedName_of_attribute?) ?_ fun a => ?_
  · have hnames : (setAttributes { tag } settings).attributes.Pairwise (·.name ≠ ·.name) :=
      List.pairwise_map.mp (nodup_setAttributes settings)
    refine List.pairwise_map.mpr (hnames.imp_of_mem fun ha hb hne heq => hne ?_)
    obtain ⟨s, hs, hsa⟩ := hset ha
    obtain ⟨t, ht, htb⟩ := hset hb
    rw [Setting.printedName_of_attribute? hsa, Setting.printedName_of_attribute? htb] at heq
    rw [Setting.name_of_attribute? hsa, Setting.name_of_attribute? htb]
    exact (h s hs t ht).mp heq
  · rw [mem_setAttributes]
    constructor
    · rintro ⟨s, hs, ha⟩
      refine ⟨s, ?_, ha⟩
      rw [Setting.printedName_of_attribute? ha,
        Setting.last?_printedName h (Setting.mem_of_last? hs).1, ← Setting.name_of_attribute? ha]
      exact hs
    · rintro ⟨s, hs, ha⟩
      refine ⟨s, ?_, ha⟩
      rw [Setting.name_of_attribute? ha, ← Setting.last?_printedName h (Setting.mem_of_last? hs).1,
        ← Setting.printedName_of_attribute? ha]
      exact hs

end PendingElement

namespace Sink

/-- Sets several attributes of the pending element. -/
def applySettings (s : Sink) (settings : List Setting) : Result :=
  settings.foldlM (fun s setting => s.setAttribute setting.name setting.value setting.space) s

theorem applySettings_pending {s : Sink} {e : PendingElement} (h : s.pending = some e)
    (settings : List Setting) :
    s.applySettings settings = .ok { s with pending := some (e.setAttributes settings) } := by
  induction settings generalizing s e with
  | nil =>
    rw [applySettings, PendingElement.setAttributes, List.foldlM_nil, List.foldl_nil, ← h]
    rfl
  | cons setting settings ih =>
    have hset : s.setAttribute setting.name setting.value setting.space = .ok { s with
        pending := some (e.setAttribute setting.name setting.value setting.space) } := by
      rw [setAttribute, onPending, h]
    rw [applySettings, List.foldlM_cons, hset]
    exact ih rfl

/-- The tag of an element whose attributes are set in any way has each name once, with the value of
its last setting.  The same is true of printed names if they tell apart what the names do. -/
theorem flush_reflects (s : Sink) (tag : String) (settings : List Setting) :
    ∃ attributes,
      (do (← (s.openElement tag).applySettings settings).flushElement) =
        .ok ⟨s.output ++ PendingElement.text ⟨tag, attributes⟩, none, tag :: s.stack⟩ ∧
      Reflects Setting.name Attribute.name settings attributes ∧
      (PrintsApart settings →
        Reflects Setting.printedName Attribute.printedName settings attributes) := by
  refine ⟨(PendingElement.setAttributes ⟨tag, []⟩ settings).attributes, ?_,
    PendingElement.reflects_names settings, fun h => PendingElement.reflects_printedNames h⟩
  rw [applySettings_pending rfl]
  have hflush (e : PendingElement) (he : e.tag = tag) :
      flushElement { s.openElement tag with pending := some e } =
        .ok ⟨s.output ++ PendingElement.text ⟨tag, e.attributes⟩, none, tag :: s.stack⟩ := by
    subst he
    rfl
  exact hflush _ (PendingElement.tag_setAttributes settings)

/-- A link in a namespace that is set twice, beside a name that is set and removed. -/
def linkSettings : List Setting :=
  [⟨"href", some "#a", some "xlink"⟩, ⟨"id", some "x", none⟩, ⟨"href", some "#b", some "xlink"⟩,
   ⟨"id", none, none⟩]

/-- The link again, with the namespace as a part of its name. -/
def doubledSettings : List Setting :=
  [⟨"href", some "#a", some "xlink"⟩, ⟨"xlink:href", some "#b", none⟩]

/-- The link, and one of the same name without a namespace. -/
def droppedSettings : List Setting :=
  [⟨"href", some "#a", none⟩, ⟨"href", some "#b", some "xlink"⟩]

/-- The link is printed once, with its last value.  Settings that do not print apart print a name
twice, or lose one that was not set again. -/
theorem link_reflects :
    (PrintsApart linkSettings ∧ ∃ attributes,
      (do (← (({} : Sink).openElement "use").applySettings linkSettings).flushElement) =
        .ok ⟨"" ++ PendingElement.text ⟨"use", attributes⟩, none, ["use"]⟩ ∧
      Reflects Setting.printedName Attribute.printedName linkSettings attributes) ∧
    (¬ PrintsApart doubledSettings ∧
      (PendingElement.setAttributes ⟨"use", []⟩ doubledSettings).attributes.map
        Attribute.printedName = ["xlink:href", "xlink:href"]) ∧
    (¬ PrintsApart droppedSettings ∧
      (PendingElement.setAttributes ⟨"use", []⟩ droppedSettings).attributes.map
        Attribute.printedName = ["xlink:href"]) := by
  have happart : PrintsApart linkSettings := by decide
  obtain ⟨attributes, hflush, -, hprinted⟩ := flush_reflects {} "use" linkSettings
  exact ⟨⟨happart, attributes, hflush, hprinted happart⟩, by decide, by decide⟩

end Sink

end TemplateMachine
