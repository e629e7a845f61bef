import Mathlib.Data.List.Induction
import TemplateMachine.Proofs.Emission.Append
import TemplateMachine.Proofs.Emission.Link
import TemplateMachine.Proofs.Emission.Upkeep

/-! Where jumps lead.  Calls on a builder are recorded: what was appended, which labels were
put where, and in which scope.  Scopes may nest in any way and share names, and labels may be
put before a jump or after it, or several times; when the block is committed each jump leads to
the last label of its name in the scope that was the innermost one at the jump, and nothing
else in the code has changed. -/

namespace TemplateMachine

/-! ### Transcripts -/

/-- What a call appended to the code. -/
inductive Appended where
  | instruction (i : Instruction)
  /-- A jump to a label, and the innermost scope that was open. -/
  | jump (op : Opcode) (target : String) (scope : Nat)

/-- A label before the instruction at a place. -/
structure PutLabel where
  scope : Nat
  name : String
  place : Nat

/-- The record of calls on a builder.  Label scopes are numbered as they are opened. -/
structure Transcript where
  opened : Nat := 0
  /-- The open scopes, the innermost first. -/
  scopes : List Nat := []
  code : List Appended := []
  labels : List PutLabel := []

namespace Transcript

def emit (t : Transcript) (code : List Instruction) : Transcript :=
  { t with code := t.code ++ code.map .instruction }

def openScope (t : Transcript) : Transcript :=
  { t with opened := t.opened + 1, scopes := t.opened :: t.scopes }

def closeScope (t : Transcript) : Transcript := { t with scopes := t.scopes.tail }

def jump (t : Transcript) (op : Opcode) (target : String) : Transcript :=
  { t with code := t.code ++ (t.scopes.head?.map (.jump op target)).toList }

def label (t : Transcript) (name : String) : Transcript :=
  { t with labels := t.labels ++ (t.scopes.head?.map fun scope =>
    ⟨scope, name, t.code.length⟩).toList }

/-- The place of the last label of a name in a scope. -/
def place? (t : Transcript) (scope : Nat) (name : String) : Option Nat :=
  (t.labels.filter fun l => l.scope = scope ∧ l.name = name).getLast?.map (·.place)

/-- What a committed instruction is, given what was appended at its place: a jump leads from there
to its label, and nothing else is changed. -/
def Lands (t : Transcript) (place : Nat) : Appended → Instruction → Prop
  | .instruction i, j => j = i
  | .jump op target scope, ⟨op', a, b, c⟩ => op' = op ∧ b = 0 ∧ c = 0 ∧
    ∃ labelPlace, t.place? scope target = some labelPlace ∧
      instructionWidth * place + relativeOffset a = instructionWidth * labelPlace

end Transcript

/-- Calls on a new builder that all succeed: of emitters, which only append, and of
those that deal with labels. -/
inductive Emit.Runs (c : BuildContext) (p : Program) : Transcript → Builder → Prop
  | start : Runs c p {} { program := p }
  | emit {t : Transcript} {b b' : Builder} {α : Type} {x : Emit α} {a : α}
    {code : List Instruction} : Runs c p t b → x.Appends → x c b = .ok a b' →
    b'.code.toList = b.code.toList ++ code → Runs c p (t.emit code) b'
  | openLabels {t : Transcript} {b b' : Builder} :
    Runs c p t b → Emit.openLabels c b = .ok () b' → Runs c p t.openScope b'
  | closeLabels {t : Transcript} {b b' : Builder} :
    Runs c p t b → Emit.closeLabels c b = .ok () b' → Runs c p t.closeScope b'
  | label {t : Transcript} {b b' : Builder} (name : String) :
    Runs c p t b → Emit.label name c b = .ok () b' → Runs c p (t.label name) b'
  | jump {t : Transcript} {b b' : Builder} (op : Opcode) (target : String) :
    Runs c p t b → Emit.jump op target c b = .ok () b' → Runs c p (t.jump op target) b'

/-! ### Distances -/

theorem relativeOffset_between {source target : Nat} (hsource : 4 * source < 0x80000000)
    (htarget : 4 * target < 0x80000000) :
    instructionWidth * source + relativeOffset (Emit.distance source target) =
      instructionWidth * target := by
  have hcases : ((((target : Int) - source) * 4 % 4294967296).toNat < 4294967296 ∧
      ((((target : Int) - source) * 4 % 4294967296).toNat : Int) =
        ((target : Int) - source) * 4 % 4294967296) := by omega
  have htoNat : (Emit.distance source target).toNat =
      (((target : Int) - source) * 4 % 4294967296).toNat := by
    show (UInt32.ofNat (((target : Int) - source) * 4 % 4294967296).toNat).toNat = _
    exact UInt32.toNat_ofNat_of_lt' hcases.1
  have hsize : ((UInt32.size : Nat) : Int) = 4294967296 := rfl
  have hwidth : (instructionWidth : Int) = 4 := rfl
  rw [relativeOffset, htoNat, hsize, hwidth]
  split <;> omega

namespace Emit

variable {c : BuildContext} {b b' : Builder} {places : List (String × Nat)} {uses : List LabelUse}
variable {u : Unit}

/-- Jumps at different places get their distances; what stands elsewhere does not change. -/
theorem setDistances_code (hnodup : (uses.map (·.position)).Nodup)
    (h : setDistances places uses c b = .ok u b') :
    b'.code.size = b.code.size ∧
      (∀ use ∈ uses, ∃ place, places.lookup use.label = some place ∧
        b'.code[use.position]? =
          b.code[use.position]?.map fun i => { i with a := distance use.position place }) ∧
      ∀ k, (∀ use ∈ uses, use.position ≠ k) → b'.code[k]? = b.code[k]? := by
  induction uses generalizing b with
  | nil =>
    obtain ⟨-, rfl⟩ := pure_ok h
    exact ⟨rfl, nofun, fun _ _ => rfl⟩
  | cons use rest ih =>
    obtain ⟨place, _, hfound, h⟩ := bind_ok h
    obtain ⟨hplace, rfl⟩ := orFail_ok hfound
    obtain ⟨_, m, hmodify, h⟩ := bind_ok h
    have hm := modify_ok hmodify
    obtain ⟨hfirst, hrest⟩ := List.nodup_cons.mp hnodup
    obtain ⟨hsize, huses, hothers⟩ := ih hrest h
    have hunused : ∀ other ∈ rest, other.position ≠ use.position := fun other hother heq =>
      hfirst (List.mem_map.mpr ⟨other, hother, heq⟩)
    have hkeep (k : Nat) (hk : use.position ≠ k) : m.code[k]? = b.code[k]? := by
      rw [hm]
      simp only [Array.getElem?_modify, if_neg hk]
    refine ⟨by rw [hsize, hm, Array.size_modify],
      List.forall_mem_cons.mpr ⟨?_, fun other hother => ?_⟩, fun k hk => ?_⟩
    · refine ⟨place, hplace, ?_⟩
      rw [hothers _ hunused, hm]
      simp only [Array.getElem?_modify, if_true]
    · obtain ⟨found, hlookup, hcode⟩ := huses other hother
      exact ⟨found, hlookup, by rw [hcode, hkeep _ (hunused other hother).symm]⟩
    · obtain ⟨hne, hk⟩ := List.forall_mem_cons.mp hk
      rw [hothers k hk, hkeep k hne]

/-- The only thing that can be missing is a label. -/
theorem setDistances_fails_iff :
    (∃ name b', setDistances places uses c b = .error (.fault (.unresolvedLabel name)) b') ↔
      ∃ use ∈ uses, places.lookup use.label = none := by
  induction uses generalizing b with
  | nil =>
    refine ⟨?_, nofun⟩
    rintro ⟨name, b', h⟩
    cases h
  | cons use rest ih =>
    cases hplace : places.lookup use.label with
    | none =>
      refine ⟨fun _ => ⟨use, List.mem_cons_self, hplace⟩, fun _ => ⟨use.label, b, ?_⟩⟩
      unfold setDistances
      rw [bind_apply, hplace]
      rfl
    | some place =>
      have hstep : setDistances places (use :: rest) c b = setDistances places rest c { b with
          code := b.code.modify use.position fun i =>
            { i with a := distance use.position place } } := by
        conv_lhs => unfold setDistances
        rw [bind_apply, hplace]
        rfl
      rw [hstep, ih]
      constructor
      · rintro ⟨other, hother, hnone⟩
        exact ⟨other, List.mem_cons_of_mem _ hother, hnone⟩
      · rintro ⟨other, hother, hnone⟩
        refine ⟨other, (List.mem_cons.mp hother).resolve_left ?_, hnone⟩
        rintro rfl
        cases hplace.symm.trans hnone

end Emit

/-! ### What a transcript tells of the builder -/

namespace Transcript

variable {t : Transcript} {b b' : Builder} {c : BuildContext}

/-- What was appended as a jump to a label of a scope. -/
def use? (scope : Nat) : Appended × Nat → Option LabelUse
  | (.jump _ target s, k) => if s = scope then some ⟨k, target⟩ else none
  | (.instruction _, _) => none

/-- The jumps to labels of a scope, with their places. -/
def uses (t : Transcript) (scope : Nat) : List LabelUse := t.code.zipIdx.filterMap (use? scope)

/-- A scope as the builder has it. -/
def labelScope (t : Transcript) (scope : Nat) : LabelScope where
  places := ((t.labels.filter (·.scope = scope)).map fun l => (l.name, l.place)).reverse
  uses := (t.uses scope).reverse

/-- What stands in the code for what was appended: a jump has no distance
until its scope is closed. -/
def Stands (t : Transcript) (k : Nat) : Appended → Instruction → Prop
  | .instruction i, j => j = i
  | .jump op target scope, j =>
    (scope ∈ t.scopes ∧ j = ⟨op, 0, 0, 0⟩) ∨
      (scope ∉ t.scopes ∧ ∃ place, t.place? scope target = some place ∧
        j = ⟨op, Emit.distance k place, 0, 0⟩)

/-- The builder is as the transcript says. -/
structure Tracks (t : Transcript) (b : Builder) : Prop where
  size : b.code.size = t.code.length
  code : ∀ (k : Nat) e, t.code[k]? = some e → ∃ i, b.code[k]? = some i ∧ t.Stands k e i
  scopes : b.scopes = t.scopes.map t.labelScope
  nodup : t.scopes.Nodup
  opened : ∀ scope ∈ t.scopes, scope < t.opened
  jumps : ∀ op target scope, .jump op target scope ∈ t.code → scope < t.opened
  labels : ∀ l ∈ t.labels, l.scope < t.opened ∧ l.place ≤ t.code.length

/-! #### Uses and places -/

theorem mem_uses {scope : Nat} {use : LabelUse} :
    use ∈ t.uses scope ↔ ∃ op, t.code[use.position]? = some (.jump op use.label scope) := by
  obtain ⟨k, target⟩ := use
  simp only [uses, List.mem_filterMap, Prod.exists, List.mem_zipIdx_iff_getElem?]
  constructor
  · rintro ⟨e, k', he, hsome⟩
    cases e with
    | instruction i => cases hsome
    | jump op target' s =>
      obtain ⟨rfl, heq⟩ := Option.ite_none_right_eq_some.mp hsome
      cases heq
      exact ⟨op, he⟩
  · rintro ⟨op, he⟩
    exact ⟨_, _, he, if_pos rfl⟩

theorem nodup_uses (scope : Nat) : ((t.uses scope).map (·.position)).Nodup := by
  have hplaces : t.code.zipIdx.Pairwise fun p q => p.2 ≠ q.2 := by
    refine List.pairwise_map.mp ?_
    rw [List.zipIdx_map_snd]
    exact List.nodup_range'
  refine List.pairwise_map.mpr (hplaces.filterMap _ ?_)
  rintro ⟨_ | ⟨op, target, s⟩, k⟩ ⟨_ | ⟨op', target', s'⟩, k'⟩ hne use huse use' huse'
  · cases huse
  · cases huse
  · cases huse'
  · obtain ⟨-, heq⟩ := Option.ite_none_right_eq_some.mp huse
    obtain ⟨-, heq'⟩ := Option.ite_none_right_eq_some.mp huse'
    cases heq
    cases heq'
    exact hne

/-- The last label of a name is the first one that a scope remembers. -/
theorem lookup_labels (labels : List PutLabel) (name : String) :
    (labels.map fun l => (l.name, l.place)).reverse.lookup name =
      (labels.filter (·.name = name)).getLast?.map (·.place) := by
  induction labels using List.reverseRecOn with
  | nil => rfl
  | append_singleton labels l ih =>
    rw [List.map_append, List.map_singleton, List.reverse_append, List.reverse_singleton,
      List.singleton_append, List.lookup_cons, ih, List.filter_append]
    by_cases h : l.name = name
    · simp [h]
    · simp [h, beq_false_of_ne (Ne.symm h)]

theorem lookup_places (scope : Nat) (name : String) :
    (t.labelScope scope).places.lookup name = t.place? scope name := by
  rw [labelScope, lookup_labels, List.filter_filter, place?]
  simp only [Bool.decide_and, Bool.and_comm]

/-! #### Calls -/

theorem uses_append (more : List Appended) (scope : Nat) :
    uses { t with code := t.code ++ more } scope =
      t.uses scope ++ (more.zipIdx t.code.length).filterMap (use? scope) := by
  simp only [uses, List.zipIdx_append, List.filterMap_append, Nat.zero_add]

theorem labelScope_emit (code : List Instruction) : (t.emit code).labelScope = t.labelScope := by
  funext scope
  have hnone : ((code.map Appended.instruction).zipIdx t.code.length).filterMap
      (use? scope) = [] := by
    rw [List.filterMap_eq_nil_iff]
    rintro ⟨e, k⟩ he
    obtain ⟨i, -, rfl⟩ := List.mem_map.mp (List.fst_mem_of_mem_zipIdx he)
    rfl
  have huses : (t.emit code).uses scope = t.uses scope := by
    rw [emit, uses_append, hnone, List.append_nil]
  rw [labelScope, huses]
  rfl

theorem labelScope_opened (h : t.Tracks b) : t.labelScope t.opened = {} := by
  have hlabels : t.labels.filter (·.scope = t.opened) = [] := by
    rw [List.filter_eq_nil_iff]
    intro l hl
    simpa using Nat.ne_of_lt (h.labels l hl).1
  have huses : t.uses t.opened = [] := by
    rw [List.eq_nil_iff_forall_not_mem]
    intro use huse
    obtain ⟨op, he⟩ := mem_uses.mp huse
    exact Nat.lt_irrefl _ (h.jumps _ _ _ (List.mem_of_getElem? he))
  rw [labelScope, hlabels, huses]
  rfl

section

variable {n : Nat} {outer : List Nat} (ht : t.scopes = n :: outer)

include ht

theorem labels_label (name : String) :
    (t.label name).labels = t.labels ++ [⟨n, name, t.code.length⟩] := by
  simp [label, ht]

theorem labelScope_label_self (name : String) :
    (t.label name).labelScope n =
      { t.labelScope n with places := (name, t.code.length) :: (t.labelScope n).places } := by
  simp only [labelScope, labels_label ht, List.filter_append, List.map_append, List.reverse_append]
  simp [uses, label]

theorem labelScope_label_of_ne (name : String) {m : Nat} (hm : m ≠ n) :
    (t.label name).labelScope m = t.labelScope m := by
  simp only [labelScope, labels_label ht, List.filter_append]
  simp [uses, label, Ne.symm hm]

theorem code_jump (op : Opcode) (target : String) :
    (t.jump op target).code = t.code ++ [.jump op target n] := by
  simp [jump, ht]

theorem uses_jump (op : Opcode) (target : String) (m : Nat) :
    (t.jump op target).uses m = t.uses m ++ if n = m then [⟨t.code.length, target⟩] else [] := by
  have happend := uses_append (t := t) [.jump op target n] m
  rw [← code_jump ht] at happend
  refine Eq.trans happend (congrArg _ ?_)
  by_cases h : n = m <;> simp [use?, h]

theorem labelScope_jump_self (op : Opcode) (target : String) :
    (t.jump op target).labelScope n =
      { t.labelScope n with uses := ⟨t.code.length, target⟩ :: (t.labelScope n).uses } := by
  simp only [labelScope, uses_jump ht, if_true, List.reverse_append]
  rfl

theorem labelScope_jump_of_ne (op : Opcode) (target : String) {m : Nat} (hm : m ≠ n) :
    (t.jump op target).labelScope m = t.labelScope m := by
  simp only [labelScope, uses_jump ht, if_neg hm.symm, List.append_nil]
  rfl

end

namespace Tracks

/-- The innermost scope of a builder is the innermost one of the transcript. -/
theorem innermost (h : t.Tracks b) {scope : LabelScope} {rest : List LabelScope}
    (hb : b.scopes = scope :: rest) :
    ∃ n outer, t.scopes = n :: outer ∧ t.labelScope n = scope ∧ outer.map t.labelScope = rest :=
  List.map_eq_cons_iff.mp (h.scopes ▸ hb)

theorem start (p : Program) : Tracks {} { program := p } :=
  ⟨rfl, nofun, rfl, List.nodup_nil, nofun, nofun, nofun⟩

theorem emit (h : t.Tracks b) {code : List Instruction}
    (hcode : b'.code.toList = b.code.toList ++ code) (hscopes : b'.scopes = b.scopes) :
    (t.emit code).Tracks b' where
  size := by
    rw [← Array.length_toList, hcode, List.length_append, Array.length_toList, h.size]
    simp [Transcript.emit]
  code k e he := by
    have hk : b'.code[k]? = (b.code.toList ++ code)[k]? := by rw [← hcode, Array.getElem?_toList]
    simp only [Transcript.emit, List.getElem?_append, Array.length_toList, h.size] at he hk
    split at he
    · obtain ⟨i, hi, hstands⟩ := h.code k e he
      rw [if_pos ‹_›, Array.getElem?_toList, hi] at hk
      exact ⟨i, hk, hstands⟩
    · rw [if_neg ‹_›] at hk
      rw [List.getElem?_map] at he
      obtain ⟨i, hi, rfl⟩ := Option.map_eq_some_iff.mp he
      exact ⟨i, hk.trans hi, rfl⟩
  scopes := by rw [hscopes, h.scopes, labelScope_emit]; rfl
  nodup := h.nodup
  opened := h.opened
  jumps op target scope hmem := by
    rcases List.mem_append.mp hmem with hmem | hmem
    · exact h.jumps op target scope hmem
    · obtain ⟨i, -, heq⟩ := List.mem_map.mp hmem
      cases heq
  labels l hl := by
    refine ⟨(h.labels l hl).1, Nat.le_trans (h.labels l hl).2 ?_⟩
    simp [Transcript.emit]

theorem openScope (h : t.Tracks b) : t.openScope.Tracks { b with scopes := {} :: b.scopes } where
  size := h.size
  code k e he := by
    obtain ⟨i, hi, hstands⟩ := h.code k e he
    refine ⟨i, hi, ?_⟩
    cases e with
    | instruction i' => exact hstands
    | jump op target scope =>
      have hlt := h.jumps op target scope (List.mem_of_getElem? he)
      have hmem : scope ∈ t.opened :: t.scopes ↔ scope ∈ t.scopes :=
        List.mem_cons.trans (or_iff_right (Nat.ne_of_lt hlt))
      exact hstands.imp (And.imp_left hmem.mpr) (And.imp_left (mt hmem.mp))
  scopes := by
    show {} :: b.scopes = t.labelScope t.opened :: t.scopes.map t.labelScope
    rw [labelScope_opened h, h.scopes]
  nodup := List.nodup_cons.mpr ⟨fun hmem => Nat.lt_irrefl _ (h.opened _ hmem), h.nodup⟩
  opened scope hscope := by
    rcases List.mem_cons.mp hscope with rfl | hscope
    · exact Nat.lt_succ_self _
    · exact Nat.lt_succ_of_lt (h.opened scope hscope)
  jumps op target scope hmem := Nat.lt_succ_of_lt (h.jumps op target scope hmem)
  labels l hl := ⟨Nat.lt_succ_of_lt (h.labels l hl).1, (h.labels l hl).2⟩

theorem label (h : t.Tracks b) {name : String} {scope : LabelScope} {rest : List LabelScope}
    (hb : b.scopes = scope :: rest) :
    (t.label name).Tracks { b with
      scopes := { scope with places := (name, b.code.size) :: scope.places } :: rest } := by
  obtain ⟨n, outer, ht, rfl, rfl⟩ := h.innermost hb
  have hlabels := labels_label ht name
  obtain ⟨hnot, -⟩ := List.nodup_cons.mp (ht ▸ h.nodup)
  refine ⟨h.size, fun k e he => ?_, ?_, h.nodup, h.opened, h.jumps, fun l hl => ?_⟩
  · obtain ⟨i, hi, hstands⟩ := h.code k e he
    refine ⟨i, hi, ?_⟩
    cases e with
    | instruction i' => exact hstands
    | jump op target s =>
      -- a label in an open scope is of no concern to the jumps of closed ones
      refine hstands.imp_right ?_
      rintro ⟨hclosed, place, hplace, rfl⟩
      have hne : n ≠ s := fun heq => hclosed (ht ▸ heq ▸ List.mem_cons_self)
      refine ⟨hclosed, place, ?_, rfl⟩
      rw [← hplace, place?, place?, hlabels, List.filter_append]
      simp [hne]
  · show _ = (t.label name).scopes.map _
    rw [show (t.label name).scopes = n :: outer from ht, List.map_cons, h.size,
      List.map_congr_left fun m hm => labelScope_label_of_ne ht name (ne_of_mem_of_not_mem hm hnot),
      labelScope_label_self ht]
  · rw [hlabels, List.mem_append, List.mem_singleton] at hl
    rcases hl with hl | rfl
    · exact h.labels l hl
    · exact ⟨h.opened n (ht ▸ List.mem_cons_self), Nat.le_refl _⟩

theorem jump (h : t.Tracks b) {op : Opcode} {target : String} {scope : LabelScope}
    {rest : List LabelScope} (hb : b.scopes = scope :: rest) :
    (t.jump op target).Tracks { b with
      code := b.code.push ⟨op, 0, 0, 0⟩
      scopes := { scope with uses := ⟨b.code.size, target⟩ :: scope.uses } :: rest } := by
  obtain ⟨n, outer, ht, rfl, rfl⟩ := h.innermost hb
  have hcode := code_jump ht op target
  obtain ⟨hnot, -⟩ := List.nodup_cons.mp (ht ▸ h.nodup)
  have hn : n ∈ t.scopes := ht ▸ List.mem_cons_self
  refine ⟨?_, fun k e he => ?_, ?_, h.nodup, h.opened, fun o s m hm => ?_, fun l hl => ?_⟩
  · rw [hcode, Array.size_push, h.size, List.length_append, List.length_singleton]
  · rw [hcode, List.getElem?_append] at he
    rw [Array.getElem?_push, h.size]
    split at he
    · obtain ⟨i, hi, hstands⟩ := h.code k e he
      rw [if_neg (by omega)]
      exact ⟨i, hi, by cases e <;> exact hstands⟩
    · have hlength := (List.getElem?_eq_some_iff.mp he).1
      obtain rfl : k = t.code.length := by rw [List.length_singleton] at hlength; omega
      rw [Nat.sub_self, List.getElem?_cons_zero] at he
      cases he
      exact ⟨_, if_pos rfl, .inl ⟨hn, rfl⟩⟩
  · show _ = (t.jump op target).scopes.map _
    rw [show (t.jump op target).scopes = n :: outer from ht, List.map_cons, h.size,
      List.map_congr_left fun m hm =>
        labelScope_jump_of_ne ht op target (ne_of_mem_of_not_mem hm hnot),
      labelScope_jump_self ht]
  · rw [hcode, List.mem_append, List.mem_singleton] at hm
    rcases hm with hm | hm
    · exact h.jumps o s m hm
    · cases hm
      exact h.opened n hn
  · refine ⟨(h.labels l hl).1, Nat.le_trans (h.labels l hl).2 ?_⟩
    rw [hcode, List.length_append]
    exact Nat.le_add_right _ _

/-- Closing a scope gives its jumps their distances. -/
theorem closeScope (h : t.Tracks b) {scope : LabelScope} {rest : List LabelScope} {u : Unit}
    (hb : b.scopes = scope :: rest)
    (hset : Emit.setDistances scope.places scope.uses.reverse c { b with scopes := rest } =
      .ok u b') : t.closeScope.Tracks b' := by
  obtain ⟨n, outer, ht, rfl, rfl⟩ := h.innermost hb
  obtain ⟨hnot, hnodup⟩ := List.nodup_cons.mp (ht ▸ h.nodup)
  have hframe := (BuildContext.Maintains.setDistances_frame (c := c) (t.labelScope n).places
    (t.labelScope n).uses.reverse { b with scopes := outer.map t.labelScope }).2
  rw [hset] at hframe
  have huses : (t.labelScope n).uses.reverse = t.uses n := List.reverse_reverse _
  rw [huses] at hset
  obtain ⟨hsize, hpatched, hothers⟩ := Emit.setDistances_code (nodup_uses n) hset
  have hscopes : t.closeScope.scopes = outer := congrArg List.tail ht
  refine ⟨hsize.trans h.size, fun k e he => ?_, ?_, hscopes ▸ hnodup, fun s hs => ?_,
    h.jumps, h.labels⟩
  · obtain ⟨i, hi, hstands⟩ := h.code k e he
    have hkeep (hunused : ∀ op target, e ≠ .jump op target n) : b'.code[k]? = some i := by
      rw [hothers k]
      · exact hi
      · rintro use huse rfl
        obtain ⟨op, hop⟩ := mem_uses.mp huse
        exact hunused op use.label (Option.some.inj (he.symm.trans hop))
    cases e with
    | instruction i' => exact ⟨i, hkeep nofun, hstands⟩
    | jump op target s =>
      by_cases hs : s = n
      · subst hs
        obtain ⟨place, hplace, hcode⟩ := hpatched ⟨k, target⟩ (mem_uses.mpr ⟨op, he⟩)
        have hraw : i = ⟨op, 0, 0, 0⟩ := by
          rcases hstands with ⟨-, hraw⟩ | ⟨hclosed, -⟩
          · exact hraw
          · exact absurd (ht ▸ List.mem_cons_self) hclosed
        refine ⟨_, hcode.trans (congrArg _ hi), .inr ⟨hscopes ▸ hnot, place, ?_, by rw [hraw]⟩⟩
        rw [← hplace, lookup_places]
        rfl
      · refine ⟨i, hkeep fun _ _ heq => hs (by cases heq; rfl), ?_⟩
        have hmem : s ∈ t.closeScope.scopes ↔ s ∈ t.scopes := by
          rw [hscopes, ht, List.mem_cons, or_iff_right hs]
        exact hstands.imp (And.imp_left hmem.mpr) (And.imp_left (mt hmem.mp))
  · rw [hscopes]
    exact hframe
  · rw [hscopes] at hs
    exact h.opened s (ht ▸ List.mem_cons_of_mem _ hs)

end Tracks

/-- The code that is committed after the calls: all that was appended, with jumps that lead to their
labels. -/
structure Commits (t : Transcript) (code : List Instruction) : Prop where
  length : code.length = t.code.length
  lands : ∀ (k : Nat) e, t.code[k]? = some e → ∃ i, code[k]? = some i ∧ t.Lands k e i

/-- When all scopes are closed every jump leads to its label. -/
theorem Tracks.commits (h : t.Tracks b) (hscopes : b.scopes = [])
    (hsize : 4 * b.code.size < 0x80000000) : t.Commits b.code.toList where
  length := by rw [Array.length_toList, h.size]
  lands k e he := by
    obtain ⟨i, hi, hstands⟩ := h.code k e he
    refine ⟨i, by rw [Array.getElem?_toList, hi], ?_⟩
    cases e with
    | instruction i' => exact hstands
    | jump op target scope =>
      have hclosed : t.scopes = [] := List.map_eq_nil_iff.mp (h.scopes ▸ hscopes)
      rcases hstands with ⟨hopen, -⟩ | ⟨-, place, hplace, rfl⟩
      · rw [hclosed] at hopen
        cases hopen
      · obtain ⟨l, hl, rfl⟩ := Option.map_eq_some_iff.mp hplace
        have hbound := (h.labels l (List.mem_filter.mp (List.mem_of_getLast? hl)).1).2
        have hk := (List.getElem?_eq_some_iff.mp he).1
        rw [← h.size] at hbound hk
        exact ⟨rfl, rfl, rfl, l.place, hplace, relativeOffset_between (by omega) (by omega)⟩

/-- A label that is missing in a scope was not put there. -/
theorem place?_eq_none {scope : Nat} {name : String} :
    t.place? scope name = none ↔ ∀ l ∈ t.labels, l.scope = scope → l.name ≠ name := by
  simp [place?]

end Transcript

/-! ### Commitment -/

/-- What a heap gains when a block is written to its end. -/
structure Heap.Gains (h h' : Heap) (handle : UInt32) (code : List Instruction) : Prop where
  words : h'.words.toList = h.words.toList ++ code.flatMap Instruction.words
  block : ∃ scopeSize, h'.block? handle =
    some ⟨UInt32.ofNat h.words.size, UInt32.ofNat (instructionWidth * code.length), scopeSize, true⟩

/-- Code is written behind the words that are there, to a handle that was opened there. -/
theorem Heap.gains_finish (h g : Heap) {handle : UInt32} {block : Block}
    (hwords : g.words = h.words)
    (hblock : g.blocks[handle.toNat]? = some block)
    (hoffset : block.offset = UInt32.ofNat h.words.size) (code : List Instruction)
    (scopeSize : UInt32) : h.Gains ((g.write code).finish handle scopeSize) handle code where
  words := by
    show (g.write code).words.toList = _
    rw [toList_write, hwords]
  block := by
    have hsize : UInt32.ofNat (g.write code).words.size - block.offset =
        UInt32.ofNat (instructionWidth * code.length) := by
      rw [size_words_write, hwords, hoffset, UInt32.ofNat_add, UInt32.add_comm,
        UInt32.add_sub_cancel]
      rfl
    refine ⟨scopeSize, ?_⟩
    simp only [block?, finish, blocks_write, Array.getElem?_modify, if_true, hblock,
      Option.map_some, hsize, Option.filter_some]
    rw [hoffset]

/-- Committing writes the code with a return behind it. -/
theorem Emit.commit_gains {c : BuildContext} {b b' : Builder} {reserved : Option UInt32}
    {handle : UInt32} (h : Emit.commit reserved c b = .ok handle b')
    (hreserved : ∀ r ∈ reserved, r.toNat < b.program.heap.blocks.size)
    (hblocks : b'.program.heap.blocks.size ≤ UInt32.size) :
    b.scopes = [] ∧
      b.program.heap.Gains b'.program.heap handle (b.code.toList ++ [⟨.ret, 0, 0, 0⟩]) := by
  obtain ⟨⟨heap, constants, linked, fresh⟩, code, scopes⟩ := b
  cases scopes with
  | cons scope rest => cases h
  | nil =>
    refine ⟨rfl, ?_⟩
    cases reserved with
    | some r =>
      cases h
      rw [← Array.foldl_toList, Array.toList_push]
      obtain ⟨block, hblock⟩ : ∃ block, heap.blocks[handle.toNat]? = some block :=
        ⟨_, Array.getElem?_eq_getElem (hreserved handle rfl)⟩
      have hopen : (heap.openReserved handle).blocks[handle.toNat]? =
          some { block with offset := UInt32.ofNat heap.words.size } := by
        simp only [Heap.openReserved, Array.getElem?_modify, if_true, hblock, Option.map_some]
      exact Heap.gains_finish heap (heap.openReserved handle) rfl hopen rfl _ _
    | none =>
      cases h
      rw [← Array.foldl_toList, Array.toList_push] at hblocks ⊢
      have hsize : heap.blocks.size < UInt32.size := by
        change ((heap.allocate.2.write _).finish _ _).blocks.size ≤ _ at hblocks
        simp only [Heap.finish, Heap.blocks_write, Array.size_modify, Heap.allocate,
          Array.size_push] at hblocks
        omega
      have hopen : heap.allocate.2.blocks[heap.allocate.1.toNat]? =
          some ⟨UInt32.ofNat heap.words.size, 0, 0, false⟩ := by
        simp only [Heap.allocate, UInt32.toNat_ofNat_of_lt' hsize, Array.getElem?_push_size]
      exact Heap.gains_finish heap heap.allocate.2 rfl hopen rfl _ _

namespace Emit.Runs

variable {c : BuildContext} {p : Program} {t : Transcript} {b : Builder}

/-- The transcript of calls that succeed tells all of the builder. -/
theorem tracks (h : Emit.Runs c p t b) : t.Tracks b := by
  induction h with
  | start => exact .start p
  | emit hruns happends hx hcode ih =>
    obtain ⟨-, -, hscopes⟩ := happends _ _ _ _ hx
    exact ih.emit hcode hscopes
  | openLabels hruns hx ih =>
    obtain rfl := modify_ok hx
    exact ih.openScope
  | @closeLabels t b b' hruns hx ih =>
    obtain ⟨scope, rest, hscopes, hset⟩ := closeLabels_ok hx
    exact ih.closeScope hscopes hset
  | @label t b b' name hruns hx ih =>
    obtain ⟨program, code, scopes⟩ := b
    cases scopes with
    | nil => cases hx
    | cons scope rest =>
      cases hx
      exact ih.label rfl
  | @jump t b b' op target hruns hx ih =>
    obtain ⟨program, code, scopes⟩ := b
    cases scopes with
    | nil => cases hx
    | cons scope rest =>
      cases hx
      exact ih.jump rfl

/-- Closing a scope fails for want of a label exactly if a jump of that scope has none. -/
theorem closeLabels_fails_iff (h : t.Tracks b) :
    (∃ name b', Emit.closeLabels c b = .error (.fault (.unresolvedLabel name)) b') ↔
      ∃ scope ∈ t.scopes.head?, ∃ op target, Appended.jump op target scope ∈ t.code ∧
        ∀ l ∈ t.labels, l.scope = scope → l.name ≠ target := by
  obtain ⟨program, code, scopes⟩ := b
  cases hscopes : t.scopes with
  | nil =>
    obtain rfl : scopes = [] := by
      have := h.scopes
      rwa [hscopes] at this
    refine ⟨?_, nofun⟩
    rintro ⟨name, b', hclose⟩
    cases hclose
  | cons n outer =>
    obtain rfl : scopes = t.labelScope n :: outer.map t.labelScope := by
      have := h.scopes
      rwa [hscopes] at this
    have hclose : Emit.closeLabels c ⟨program, code, t.labelScope n :: outer.map t.labelScope⟩ =
        setDistances (t.labelScope n).places (t.labelScope n).uses.reverse c
          ⟨program, code, outer.map t.labelScope⟩ := rfl
    have huses : (t.labelScope n).uses.reverse = t.uses n := List.reverse_reverse _
    rw [hclose, huses, setDistances_fails_iff]
    simp only [List.head?_cons, Option.mem_some_iff, exists_eq_left', Transcript.lookup_places,
      Transcript.place?_eq_none]
    constructor
    · rintro ⟨use, huse, hmissing⟩
      obtain ⟨op, hop⟩ := Transcript.mem_uses.mp huse
      exact ⟨op, use.label, List.mem_of_getElem? hop, hmissing⟩
    · rintro ⟨op, target, hjump, hmissing⟩
      obtain ⟨k, hk⟩ := List.mem_iff_getElem?.mp hjump
      exact ⟨⟨k, target⟩, Transcript.mem_uses.mpr ⟨op, hk⟩, hmissing⟩

/-- Jumps land on their labels.  Committed code is all that was appended, in order, with a return
behind it; it stands at the end of the heap as the block of its handle, and each jump leads to the
last label of its name in the scope that was the innermost one where it was appended.  Closing a
scope fails for want of a label exactly if a jump of that scope has none. -/
theorem jumps_land (h : Emit.Runs c p t b) :
    (∀ reserved handle b', commit reserved c b = .ok handle b' →
      instructionWidth * b.code.size < 0x80000000 →
      (∀ r ∈ reserved, r.toNat < b.program.heap.blocks.size) →
      b'.program.heap.blocks.size ≤ UInt32.size →
      ∃ code, b.program.heap.Gains b'.program.heap handle (code ++ [⟨.ret, 0, 0, 0⟩]) ∧
        t.Commits code) ∧
    ((∃ name b', Emit.closeLabels c b = .error (.fault (.unresolvedLabel name)) b') ↔
      ∃ scope ∈ t.scopes.head?, ∃ op target, Appended.jump op target scope ∈ t.code ∧
        ∀ l ∈ t.labels, l.scope = scope → l.name ≠ target) := by
  refine ⟨fun reserved handle b' hcommit hsize hreserved hblocks => ?_,
    closeLabels_fails_iff h.tracks⟩
  obtain ⟨hscopes, hgains⟩ := commit_gains hcommit hreserved hblocks
  exact ⟨b.code.toList, hgains, h.tracks.commits hscopes hsize⟩

/-- A block of a template without symbols, in an empty registry. -/
def bareContext : BuildContext where
  lookup := ({} : Registry).lookup
  strategy := .lazy
  layout := ⟨{ statements := [], symbols := [], hasEval := false, blocks := [] }, "main"⟩
  link := (({} : Registry).options .lazy).compile

/-- Two scopes that share a name: the inner jump leads to the inner label and the outer one to the
outer label.  An inner scope whose label was put in the outer one cannot be closed. -/
theorem nested_jumps_land :
    (∃ t b handle b' code, Emit.Runs bareContext {} t b ∧
      Emit.commit none bareContext b = .ok handle b' ∧
      b.program.heap.Gains b'.program.heap handle (code ++ [⟨.ret, 0, 0, 0⟩]) ∧ t.Commits code ∧
      t.code = [.jump .jump "END" 0, .jump .returnTo "END" 1, .instruction ⟨.popFrame, 0, 0, 0⟩] ∧
      b.code = #[⟨.jump, 12, 0, 0⟩, ⟨.returnTo, 4, 0, 0⟩, ⟨.popFrame, 0, 0, 0⟩]) ∧
    ∃ t b, Emit.Runs bareContext {} t b ∧
      ∃ name b', Emit.closeLabels bareContext b = .error (.fault (.unresolvedLabel name)) b' := by
  have hstart : Emit.Runs bareContext {} {} { program := {} } := .start
  constructor
  · have hjumps := hstart |>.openLabels rfl |>.jump .jump "END" rfl |>.openLabels rfl
      |>.jump .returnTo "END" rfl |>.label "END" rfl |>.closeLabels rfl
    have htext : Emit.Runs bareContext {} (Transcript.emit _ [⟨.popFrame, 0, 0, 0⟩]) _ :=
      hjumps.emit (x := Emit.op .popFrame) .op rfl rfl
    have hruns := htext |>.label "END" rfl |>.closeLabels rfl
    obtain ⟨code, hgains, hcommits⟩ :=
      (jumps_land hruns).1 none _ _ rfl (by decide) nofun (by decide)
    exact ⟨_, _, _, _, code, hruns, rfl, hgains, hcommits, rfl, rfl⟩
  · have hruns := hstart |>.openLabels rfl |>.label "END" rfl |>.openLabels rfl
      |>.jump .jump "END" rfl
    exact ⟨_, _, hruns, (jumps_land hruns).2.mpr ⟨1, rfl, .jump, "END", .head _, by decide⟩⟩

end Emit.Runs

end TemplateMachine
