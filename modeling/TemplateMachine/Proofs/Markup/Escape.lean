import Mathlib.Data.List.Basic
import TemplateMachine.Text.Escape

/-! What escaping keeps.  The entities an escape writes are listed in a table.  Every one of them
starts with an ampersand and holds no other, none is the beginning of another, and the ampersand
itself is escaped; from this alone each ampersand of the output starts an entity, and replacing the
entities from left to right gives back what was escaped, entities it held before included. -/

namespace TemplateMachine.Text

/-- The characters that an escape replaces, each with its entity. -/
structure Entities where
  table : List (Char × List Char)
  started : ∀ e ∈ table, e.2 = '&' :: e.2.tail ∧ '&' ∉ e.2.tail
  apart : ∀ e ∈ table, ∀ f ∈ table, e.2 <+: f.2 → e = f
  ampersand : '&' ∈ table.map Prod.fst

namespace Entities

variable {E : Entities}

/-- The written form of a character. -/
def written (E : Entities) (c : Char) : List Char := (E.table.lookup c).getD [c]

/-- Reads the entities of a text back, the first `skip` characters of which belong to an entity that
has been read. -/
def readFrom (E : Entities) : Nat → List Char → List Char
  | _, [] => []
  | skip + 1, _ :: rest => E.readFrom skip rest
  | 0, c :: rest =>
    match E.table.find? (·.2.isPrefixOf (c :: rest)) with
    | some e => e.1 :: E.readFrom e.2.tail.length rest
    | none => c :: E.readFrom 0 rest

/-- The text with every entity of the table replaced by its character, from left to right. -/
def unescape (E : Entities) (s : String) : String := String.ofList (E.readFrom 0 s.toList)

/-- The characters of the table are tried in its order. -/
theorem written_eq_foldr (E : Entities) (c : Char) :
    E.written c = E.table.foldr (fun e other => if c = e.1 then e.2 else other) [c] := by
  unfold written
  induction E.table with
  | nil => rfl
  | cons e table ih =>
    rw [List.foldr_cons, ← ih, List.lookup_cons]
    by_cases h : c = e.1
    · rw [h, BEq.rfl, if_pos rfl, Option.getD_some]
    · rw [beq_false_of_ne h, if_neg h]

theorem mem_of_lookup {table : List (Char × List Char)} {c : Char} {entity : List Char}
    (h : table.lookup c = some entity) : (c, entity) ∈ table := by
  obtain ⟨before, after, rfl, -⟩ := List.lookup_eq_some_iff.mp h
  simp

/-- A character is written as its entity, or stays as it is if it has none. -/
theorem written_cases (E : Entities) (c : Char) :
    (∃ e ∈ E.table, e.1 = c ∧ E.written c = e.2) ∨
      c ∉ E.table.map Prod.fst ∧ E.written c = [c] := by
  cases h : E.table.lookup c with
  | some entity => exact .inl ⟨(c, entity), mem_of_lookup h, rfl, by simp [written, h]⟩
  | none =>
    refine .inr ⟨fun hkey => ?_, by simp [written, h]⟩
    obtain ⟨e, he, rfl⟩ := List.mem_map.mp hkey
    have habsent := List.lookup_eq_none_iff.mp h e he
    simp at habsent

theorem ne_ampersand {c : Char} (hplain : c ∉ E.table.map Prod.fst) : c ≠ '&' :=
  fun h => hplain (h ▸ E.ampersand)

/-! ### Reading back -/

theorem find?_entity {e : Char × List Char} (he : e ∈ E.table) (rest : List Char) :
    E.table.find? (·.2.isPrefixOf (e.2 ++ rest)) = some e := by
  have hsome : (E.table.find? (·.2.isPrefixOf (e.2 ++ rest))).isSome :=
    List.find?_isSome.mpr ⟨e, he, by simp⟩
  obtain ⟨f, hf⟩ := Option.isSome_iff_exists.mp hsome
  have hmem := List.mem_of_find?_eq_some hf
  have hprefix : f.2 <+: e.2 ++ rest := by simpa using List.find?_some hf
  -- two entities that the same text starts with are one
  have heq : f = e := by
    obtain h | h := List.prefix_or_prefix_of_prefix hprefix (List.prefix_append e.2 rest)
    · exact E.apart f hmem e he h
    · exact (E.apart e he f hmem h).symm
  rw [hf, heq]

theorem find?_plain {c : Char} (hc : c ≠ '&') (rest : List Char) :
    E.table.find? (·.2.isPrefixOf (c :: rest)) = none := by
  refine List.find?_eq_none.mpr fun e he => ?_
  obtain ⟨hentity, -⟩ := E.started e he
  rw [hentity]
  simp [hc.symm]

theorem readFrom_skip (entity rest : List Char) :
    E.readFrom entity.length (entity ++ rest) = E.readFrom 0 rest := by
  induction entity with
  | nil => rfl
  | cons c entity ih => exact ih

theorem readFrom_entity {e : Char × List Char} (he : e ∈ E.table) (rest : List Char) :
    E.readFrom 0 (e.2 ++ rest) = e.1 :: E.readFrom 0 rest := by
  have hfind := find?_entity he rest
  obtain ⟨hentity, -⟩ := E.started e he
  rw [hentity, List.cons_append] at hfind ⊢
  rw [readFrom, hfind]
  exact congrArg (e.1 :: ·) (readFrom_skip e.2.tail rest)

theorem readFrom_plain {c : Char} (hc : c ≠ '&') (rest : List Char) :
    E.readFrom 0 (c :: rest) = c :: E.readFrom 0 rest := by
  rw [readFrom, find?_plain hc]

theorem readFrom_written (s : List Char) : E.readFrom 0 (s.flatMap E.written) = s := by
  induction s with
  | nil => rfl
  | cons c s ih =>
    rw [List.flatMap_cons]
    obtain ⟨e, he, rfl, hwritten⟩ | ⟨hplain, hwritten⟩ := E.written_cases c
    · rw [hwritten, readFrom_entity he, ih]
    · rw [hwritten, List.singleton_append, readFrom_plain (ne_ampersand hplain), ih]

/-! ### Ampersands -/

/-- Every ampersand of a written text starts an entity. -/
theorem entity_of_ampersand {s before after : List Char}
    (h : s.flatMap E.written = before ++ '&' :: after) : ∃ e ∈ E.table, e.2 <+: '&' :: after := by
  induction s generalizing before with
  | nil => simp at h
  | cons c s ih =>
    rw [List.flatMap_cons] at h
    -- the ampersand stands behind what the character was written as, or within it
    obtain ⟨between, -, hrest⟩ | ⟨inside, hinside, hafter⟩ := List.append_eq_append_iff.mp h
    · exact ih hrest
    · cases inside with
      | nil =>
        have hrest : s.flatMap E.written = [] ++ '&' :: after := by simpa using hafter.symm
        exact ih hrest
      | cons d inside =>
        obtain ⟨rfl, hafter⟩ := List.cons_eq_cons.mp hafter
        obtain ⟨e, he, -, hwritten⟩ | ⟨hplain, hwritten⟩ := E.written_cases c
        · obtain ⟨hentity, honce⟩ := E.started e he
          refine ⟨e, he, ?_⟩
          rw [hwritten, hentity] at hinside
          cases before with
          | nil =>
            rw [hentity, (List.cons_eq_cons.mp hinside).2, hafter]
            exact List.prefix_append ('&' :: inside) _
          | cons b before =>
            rw [(List.cons_eq_cons.mp hinside).2] at honce
            simp at honce
        · rw [hwritten] at hinside
          cases before with
          | nil => exact absurd (List.cons_eq_cons.mp hinside).1 (ne_ampersand hplain)
          | cons b before => simp at hinside

/-- A character that is escaped, and stands in no entity, does not stand in a written text. -/
theorem not_mem_written {c : Char} (hkey : c ∈ E.table.map Prod.fst)
    (hentities : ∀ e ∈ E.table, c ∉ e.2) (s : List Char) : c ∉ s.flatMap E.written := by
  rw [List.mem_flatMap]
  rintro ⟨d, -, hd⟩
  obtain ⟨e, he, -, hwritten⟩ | ⟨hplain, hwritten⟩ := E.written_cases d
  · exact hentities e he (hwritten ▸ hd)
  · obtain rfl : c = d := by simpa [hwritten] using hd
    exact hplain hkey

/-! ### Escapes -/

/-- What it is for `escaped` to be `s` with entities of the table in it: none of the characters that
mean something where the text goes is left, each ampersand starts an entity, and reading the
entities back gives `s`. -/
structure Escapes (E : Entities) (meaningful : List Char) (s escaped : String) : Prop where
  absent : ∀ c ∈ meaningful, c ∉ escaped.toList
  entity : ∀ before after, escaped.toList = before ++ '&' :: after →
    ∃ e ∈ E.table, e.2 <+: '&' :: after
  back : E.unescape escaped = s

theorem escapes_written {meaningful : List Char}
    (hmeaningful : ∀ c ∈ meaningful, c ∈ E.table.map Prod.fst ∧ ∀ e ∈ E.table, c ∉ e.2)
    (s : String) : E.Escapes meaningful s (String.ofList (s.toList.flatMap E.written)) where
  absent c hc := by
    obtain ⟨hkey, hentities⟩ := hmeaningful c hc
    rw [String.toList_ofList]
    exact not_mem_written hkey hentities s.toList
  entity before after h := entity_of_ampersand (String.toList_ofList ▸ h)
  back := by rw [unescape, String.toList_ofList, readFrom_written, String.ofList_toList]

theorem injective_of_escapes {meaningful : List Char} {escape : String → String}
    (h : ∀ s, E.Escapes meaningful s (escape s)) : Function.Injective escape :=
  Function.LeftInverse.injective (g := E.unescape) fun s => (h s).back

end Entities

/-! ### Text -/

/-- The seven entities of text. -/
def textEntities : Entities where
  table := [('&', "&amp;".toList), ('<', "&lt;".toList), ('>', "&gt;".toList),
    ('\x22', "&quot;".toList), ('\x27', "&#x27;".toList), ('\x60', "&#x60;".toList),
    ('=', "&#x3D;".toList)]
  started := by decide
  apart := by decide
  ampersand := by decide

theorem textEntity_eq_written : textEntity = textEntities.written := by
  funext c
  rw [Entities.written_eq_foldr]
  rfl

theorem escapes_escapeText (s : String) :
    textEntities.Escapes ['<', '>', '\x22', '\x27', '\x60', '='] s (escapeText s) := by
  rw [escapeText, textEntity_eq_written]
  exact Entities.escapes_written (by simp [textEntities]) s

/-! ### Attribute values -/

/-- The two entities of attribute values. -/
def attributeEntities : Entities where
  table := [('&', "&amp;".toList), ('\x22', "&quot;".toList)]
  started := by decide
  apart := by decide
  ampersand := by decide

theorem attributeEntity_eq_written : attributeEntity = attributeEntities.written := by
  funext c
  rw [Entities.written_eq_foldr]
  rfl

theorem escapes_escapeAttribute (s : String) :
    attributeEntities.Escapes ['\x22'] s (escapeAttribute s) := by
  rw [escapeAttribute, attributeEntity_eq_written]
  exact Entities.escapes_written (by simp [attributeEntities]) s

/-- A text with a character replaced wherever it stands. -/
def replaced (c : Char) (entity s : List Char) : List Char :=
  s.flatMap fun d => if d = c then entity else [d]

/-- An attribute value is escaped in two passes over the whole of it.  The ampersands are replaced
first: those of the entities for quotes come only after. -/
theorem escapeAttribute_eq_replaced (s : String) :
    (escapeAttribute s).toList =
      replaced '\x22' "&quot;".toList (replaced '&' "&amp;".toList s.toList) := by
  rw [escapeAttribute, String.toList_ofList, replaced, replaced, List.flatMap_assoc]
  refine congrArg (s.toList.flatMap ·) (funext fun c => ?_)
  rw [attributeEntity]
  split_ifs with hampersand hquote
  · rfl
  · rw [List.flatMap_singleton, if_pos hquote]
  · rw [List.flatMap_singleton, if_neg hquote]

/-- Escaping is safe and loses nothing. -/
theorem escapes_faithfully (s : String) :
    textEntities.Escapes ['<', '>', '\x22', '\x27', '\x60', '='] s (escapeText s) ∧
      attributeEntities.Escapes ['\x22'] s (escapeAttribute s) ∧
      Function.Injective escapeText ∧ Function.Injective escapeAttribute :=
  ⟨escapes_escapeText s, escapes_escapeAttribute s,
    Entities.injective_of_escapes escapes_escapeText,
    Entities.injective_of_escapes escapes_escapeAttribute⟩

end TemplateMachine.Text
