import TemplateMachine.Datum.Arguments

/-! The combination of arguments, where a component is given more of them again and again.
Positional values add up, and of the values of a name the last one given counts.  The named values
are looked at as one list of entries here, a name with its value each. -/

namespace TemplateMachine

/-! ### Entries -/

namespace Entries

variable {ρ : Type} {entries more : List (String × ρ)} {name other : String} {value : ρ}

/-- Gives a name a value: the first one it has is replaced, a new name comes last. -/
def set (name : String) (value : ρ) : List (String × ρ) → List (String × ρ)
  | [] => [(name, value)]
  | (key, old) :: rest =>
    if key = name then (name, value) :: rest else (key, old) :: set name value rest

theorem set_nil : set name value [] = [(name, value)] := rfl

theorem set_cons {key : String} {old : ρ} : set name value ((key, old) :: entries) =
    if key = name then (name, value) :: entries else (key, old) :: set name value entries := rfl

/-- Gives several names values, the first of the list first. -/
def setAll (entries more : List (String × ρ)) : List (String × ρ) :=
  more.foldl (fun entries entry => set entry.1 entry.2 entries) entries

theorem setAll_cons (entries : List (String × ρ)) (entry : String × ρ) (more : List (String × ρ)) :
    setAll entries (entry :: more) = setAll (set entry.1 entry.2 entries) more := rfl

theorem lookup_cons_of_ne (h : other ≠ name) :
    ((name, value) :: entries).lookup other = entries.lookup other := by
  rw [List.lookup_cons, beq_eq_false_iff_ne.mpr h]

theorem lookup_set : (set name value entries).lookup other =
    if other = name then some value else entries.lookup other := by
  induction entries with
  | nil => by_cases h : other = name <;> simp [set_nil, h, lookup_cons_of_ne]
  | cons first entries ih =>
    obtain ⟨key, old⟩ := first
    rw [set_cons]
    by_cases hkey : key = name
    · subst hkey
      by_cases h : other = key <;> simp [h, lookup_cons_of_ne]
    · rw [if_neg hkey]
      by_cases h : other = key
      · subst h
        simp [hkey]
      · simp only [lookup_cons_of_ne h, ih]

/-- The last of the values that a name is given counts. -/
theorem lookup_setAll : (setAll entries more).lookup other =
    (more.reverse.lookup other).or (entries.lookup other) := by
  induction more generalizing entries with
  | nil => rfl
  | cons entry more ih =>
    obtain ⟨key, value⟩ := entry
    rw [setAll_cons, ih, lookup_set, List.reverse_cons, List.lookup_append, Option.or_assoc]
    by_cases h : other = key <;> simp [h, lookup_cons_of_ne]

theorem mem_names_set : other ∈ (set name value entries).map Prod.fst ↔
    other = name ∨ other ∈ entries.map Prod.fst := by
  induction entries with
  | nil => simp [set_nil]
  | cons first entries ih =>
    obtain ⟨key, old⟩ := first
    rw [set_cons]
    split
    · rename_i h
      subst h
      simp
    · simp only [List.map_cons, List.mem_cons, ih]
      exact or_left_comm

theorem nodup_set (h : (entries.map Prod.fst).Nodup) :
    ((set name value entries).map Prod.fst).Nodup := by
  induction entries with
  | nil => simp [set_nil]
  | cons first entries ih =>
    obtain ⟨key, old⟩ := first
    rw [List.map_cons, List.nodup_cons] at h
    rw [set_cons]
    split
    · rename_i hkey
      subst hkey
      exact List.nodup_cons.mpr h
    · rename_i hkey
      refine List.nodup_cons.mpr ⟨fun hmem => ?_, ih h.2⟩
      exact (mem_names_set.mp hmem).elim hkey h.1

theorem nodup_setAll (h : (entries.map Prod.fst).Nodup) :
    ((setAll entries more).map Prod.fst).Nodup := by
  induction more generalizing entries with
  | nil => exact h
  | cons entry more ih => exact ih (nodup_set h)

/-- Where names are distinct the first value of a name is the last. -/
theorem lookup_reverse (h : (entries.map Prod.fst).Nodup) (name : String) :
    entries.reverse.lookup name = entries.lookup name := by
  induction entries with
  | nil => rfl
  | cons first entries ih =>
    obtain ⟨key, value⟩ := first
    rw [List.map_cons, List.nodup_cons] at h
    rw [List.reverse_cons, List.lookup_append, ih h.2]
    by_cases heq : name = key
    · subst heq
      have hnone : entries.lookup name = none := by
        rw [List.lookup_eq_none_iff]
        intro entry hentry
        rw [bne_iff_ne]
        rintro rfl
        exact h.1 (List.mem_map.mpr ⟨entry, hentry, rfl⟩)
      simp [hnone]
    · simp [lookup_cons_of_ne heq]

theorem set_set (name : String) (old value : ρ) (entries : List (String × ρ)) :
    set name value (set name old entries) = set name value entries := by
  induction entries with
  | nil => simp [set_nil, set_cons]
  | cons first entries ih =>
    obtain ⟨key, _⟩ := first
    by_cases h : key = name <;> simp [set_cons, h, ih]

/-- A name that has a value already keeps its place. -/
theorem set_comm {a b : ρ} (hmem : name ∈ entries.map Prod.fst) (hne : other ≠ name) :
    set name a (set other b entries) = set other b (set name a entries) := by
  induction entries with
  | nil => cases hmem
  | cons first entries ih =>
    obtain ⟨key, old⟩ := first
    by_cases hkey : key = name
    · subst hkey
      simp [set_cons, Ne.symm hne]
    · have hmem : name ∈ entries.map Prod.fst :=
        (List.mem_cons.mp hmem).resolve_left fun h => hkey h.symm
      by_cases hother : key = other
      · simp [set_cons, hother, hne]
      · simp [set_cons, hkey, hother, ih hmem]

theorem set_setAll_comm (hmem : name ∈ entries.map Prod.fst) (hnew : name ∉ more.map Prod.fst) :
    set name value (setAll entries more) = setAll (set name value entries) more := by
  induction more generalizing entries with
  | nil => rfl
  | cons entry more ih =>
    rw [List.map_cons, List.mem_cons, not_or] at hnew
    rw [setAll_cons, setAll_cons, ih (mem_names_set.mpr (.inr hmem)) hnew.2,
      set_comm hmem (Ne.symm hnew.1)]

/-- A name that is given a value last may as well be given it among the others. -/
theorem set_setAll (h : (more.map Prod.fst).Nodup) :
    set name value (setAll entries more) = setAll entries (set name value more) := by
  induction more generalizing entries with
  | nil => rfl
  | cons entry more ih =>
    obtain ⟨key, old⟩ := entry
    rw [List.map_cons, List.nodup_cons] at h
    by_cases hkey : key = name
    · subst hkey
      rw [setAll_cons, set_setAll_comm (mem_names_set.mpr (.inl rfl)) h.1, set_set]
      simp [set_cons, setAll_cons]
    · rw [setAll_cons, ih h.2]
      simp [set_cons, hkey, setAll_cons]

theorem setAll_assoc {last : List (String × ρ)} (h : (more.map Prod.fst).Nodup) :
    setAll (setAll entries more) last = setAll entries (setAll more last) := by
  induction last generalizing more with
  | nil => rfl
  | cons entry last ih =>
    rw [setAll_cons, setAll_cons, set_setAll h, ih (nodup_set h)]

theorem setAll_nil (h : (more.map Prod.fst).Nodup) : setAll [] more = more := by
  suffices ∀ kept : List (String × ρ), ((kept ++ more).map Prod.fst).Nodup →
      setAll kept more = kept ++ more from this [] h
  clear h
  induction more with
  | nil => simp [setAll]
  | cons entry more ih =>
    intro kept h
    have hset : set entry.1 entry.2 kept = kept ++ [entry] := by
      rw [List.map_append, List.map_cons] at h
      have hnew : entry.1 ∉ kept.map Prod.fst := fun hmem =>
        (List.nodup_append.mp h).2.2 _ hmem _ List.mem_cons_self rfl
      clear h ih
      induction kept with
      | nil => rfl
      | cons first kept ih =>
        rw [List.map_cons, List.mem_cons, not_or] at hnew
        obtain ⟨key, old⟩ := first
        simp [set_cons, Ne.symm hnew.1, ih hnew.2]
    rw [setAll_cons, hset, ih _ (by simpa using h)]
    simp

end Entries

/-! ### Arguments -/

namespace ArgumentsOf

variable {ρ : Type} {args more last : ArgumentsOf ρ} {name other : String} {value : ρ}

/-- The named values with their names. -/
def entries (args : ArgumentsOf ρ) : List (String × ρ) := args.names.zip args.named

/-- Every name has a value, and every named value a name. -/
def IsAligned (args : ArgumentsOf ρ) : Prop := args.names.length = args.named.length

/-- Every name has a single value. -/
structure IsDistinct (args : ArgumentsOf ρ) : Prop where
  aligned : args.IsAligned
  nodup : args.names.Nodup

theorem IsDistinct.empty : ({} : ArgumentsOf ρ).IsDistinct := ⟨rfl, List.nodup_nil⟩

theorem IsAligned.names_eq (h : args.IsAligned) : args.entries.map Prod.fst = args.names :=
  List.map_fst_zip (Nat.le_of_eq h)

theorem IsDistinct.entries (h : args.IsDistinct) : (args.entries.map Prod.fst).Nodup := by
  rw [h.aligned.names_eq]
  exact h.nodup

theorem IsAligned.ext (h : args.IsAligned) (hmore : more.IsAligned)
    (hpositional : args.positional = more.positional) (hentries : args.entries = more.entries) :
    args = more := by
  obtain ⟨positional, names, named⟩ := args
  obtain ⟨positional', names', named'⟩ := more
  obtain ⟨hnames, hnamed⟩ : names = names' ∧ named = named' := by
    have h₁ : (names.zip named).unzip = (names, named) := List.unzip_zip h
    have h₂ : (names'.zip named').unzip = (names', named') := List.unzip_zip hmore
    rw [show names.zip named = names'.zip named' from hentries, h₂] at h₁
    exact ⟨(Prod.mk.inj h₁).1.symm, (Prod.mk.inj h₁).2.symm⟩
  cases hpositional
  cases hnames
  cases hnamed
  rfl

theorem named?_eq_lookup (args : ArgumentsOf ρ) (name : String) :
    args.named? name = args.entries.lookup name := by
  obtain ⟨positional, names, named⟩ := args
  unfold named? ArgumentsOf.entries
  simp only
  induction names generalizing named with
  | nil => rfl
  | cons first names ih =>
    rw [List.idxOf?_cons]
    cases named with
    | nil => cases h : (if first == name then some 0 else _ : Option Nat) <;> rfl
    | cons value named =>
      rw [List.zip_cons_cons, List.lookup_cons]
      by_cases h : first = name
      · subst h
        simp
      · rw [if_neg (by simpa using h), beq_eq_false_iff_ne.mpr (Ne.symm h), ← ih]
        cases List.idxOf? name names <;> rfl

theorem entries_setNamed (h : args.IsAligned) (name : String) (value : ρ) :
    (args.setNamed name value).IsAligned ∧
      (args.setNamed name value).positional = args.positional ∧
      (args.setNamed name value).entries = Entries.set name value args.entries := by
  obtain ⟨positional, names, named⟩ := args
  unfold setNamed ArgumentsOf.entries IsAligned at *
  simp only at h ⊢
  induction names generalizing named with
  | nil =>
    obtain rfl := List.eq_nil_of_length_eq_zero h.symm
    exact ⟨rfl, rfl, rfl⟩
  | cons first names ih =>
    obtain ⟨v, named, rfl⟩ := List.exists_cons_of_length_eq_add_one h.symm
    have h : names.length = named.length := by simpa using h
    rw [List.idxOf?_cons]
    by_cases hfirst : first = name
    · subst hfirst
      simp [Entries.set_cons, h]
    · rw [if_neg (by simpa using hfirst)]
      have ih := ih named h
      cases hindex : List.idxOf? name names with
      | some i =>
        rw [hindex] at ih
        simpa [Entries.set_cons, hfirst, h] using ih.2.2
      | none =>
        rw [hindex] at ih
        simpa [Entries.set_cons, hfirst] using ih

theorem entries_merge (h : args.IsAligned) (more : ArgumentsOf ρ) :
    (args.merge more).IsAligned ∧
      (args.merge more).positional = args.positional ++ more.positional ∧
      (args.merge more).entries = Entries.setAll args.entries more.entries := by
  suffices ∀ (given : List (String × ρ)) (kept : ArgumentsOf ρ), kept.IsAligned →
      let merged := given.foldl (fun merged entry => merged.setNamed entry.1 entry.2) kept
      merged.IsAligned ∧ merged.positional = kept.positional ∧
        merged.entries = Entries.setAll kept.entries given from
    this more.entries { args with positional := args.positional ++ more.positional } h
  intro given
  induction given with
  | nil => exact fun kept h => ⟨h, rfl, rfl⟩
  | cons entry given ih =>
    intro kept h
    obtain ⟨haligned, hpositional, hentries⟩ := entries_setNamed h entry.1 entry.2
    obtain ⟨h₁, h₂, h₃⟩ := ih _ haligned
    exact ⟨h₁, h₂.trans hpositional, h₃.trans (by rw [hentries, Entries.setAll_cons])⟩

theorem IsAligned.merge (h : args.IsAligned) (more : ArgumentsOf ρ) : (args.merge more).IsAligned :=
  (entries_merge h more).1

theorem IsDistinct.merge (h : args.IsDistinct) (more : ArgumentsOf ρ) :
    (args.merge more).IsDistinct := by
  obtain ⟨haligned, -, hentries⟩ := entries_merge h.aligned more
  refine ⟨haligned, ?_⟩
  rw [← haligned.names_eq, hentries]
  exact Entries.nodup_setAll h.entries

/-- Of the values of a name the last one given counts. -/
theorem named?_merge (h : args.IsAligned) (more : ArgumentsOf ρ) (name : String) :
    (args.merge more).named? name = (more.entries.reverse.lookup name).or (args.named? name) := by
  rw [named?_eq_lookup, (entries_merge h more).2.2, Entries.lookup_setAll, ← named?_eq_lookup]

theorem IsDistinct.named?_merge (h : args.IsAligned) (hmore : more.IsDistinct) (name : String) :
    (args.merge more).named? name = (more.named? name).or (args.named? name) := by
  rw [ArgumentsOf.named?_merge h, Entries.lookup_reverse hmore.entries, ← named?_eq_lookup]

/-- How arguments are grouped does not matter. -/
theorem merge_assoc (h : args.IsAligned) (hmore : more.IsDistinct) (last : ArgumentsOf ρ) :
    (args.merge more).merge last = args.merge (more.merge last) := by
  obtain ⟨h₁, hpositional₁, hentries₁⟩ := entries_merge h more
  obtain ⟨-, hpositional₂, hentries₂⟩ := entries_merge hmore.aligned last
  obtain ⟨h₃, hpositional₃, hentries₃⟩ := entries_merge h₁ last
  obtain ⟨h₄, hpositional₄, hentries₄⟩ := entries_merge h (more.merge last)
  refine h₃.ext h₄ ?_ ?_
  · rw [hpositional₃, hpositional₄, hpositional₁, hpositional₂, List.append_assoc]
  · rw [hentries₃, hentries₄, hentries₁, hentries₂, Entries.setAll_assoc hmore.entries]

theorem empty_merge (h : args.IsDistinct) : ({} : ArgumentsOf ρ).merge args = args := by
  obtain ⟨haligned, hpositional, hentries⟩ := entries_merge (IsDistinct.empty (ρ := ρ)).aligned args
  exact haligned.ext h.aligned hpositional (hentries.trans (Entries.setAll_nil h.entries))

/-! ### Chains -/

/-- Arguments that are given more of them, one after the other. -/
def mergeAll (args : ArgumentsOf ρ) (steps : List (ArgumentsOf ρ)) : ArgumentsOf ρ :=
  steps.foldl merge args

/-- Positional values follow those before. -/
theorem positional_mergeAll (h : args.IsAligned) (steps : List (ArgumentsOf ρ)) :
    (args.mergeAll steps).positional = args.positional ++ steps.flatMap positional := by
  induction steps generalizing args with
  | nil => simp [ArgumentsOf.mergeAll]
  | cons step steps ih =>
    refine (ih (h.merge step)).trans ?_
    rw [(entries_merge h step).2.1, List.append_assoc, List.flatMap_cons]

/-- The value of a name is that of the last step that gives it one. -/
theorem named?_mergeAll (h : args.IsAligned) {steps : List (ArgumentsOf ρ)}
    (hsteps : ∀ step ∈ steps, step.IsDistinct) (name : String) :
    (args.mergeAll steps).named? name = ((args :: steps).reverse).findSome? (·.named? name) := by
  induction steps generalizing args with
  | nil => simp [ArgumentsOf.mergeAll]
  | cons step steps ih =>
    have hstep := hsteps step List.mem_cons_self
    refine (ih (h.merge step) fun s hs => hsteps s (List.mem_cons_of_mem _ hs)).trans ?_
    simp only [List.reverse_cons, List.findSome?_append, List.findSome?_cons, List.findSome?_nil,
      hstep.named?_merge h, List.append_assoc, List.cons_append, List.nil_append]
    cases step.named? name <;> cases args.named? name <;> rfl

theorem merge_mergeAll (h : args.IsAligned) (hmore : more.IsDistinct)
    (steps : List (ArgumentsOf ρ)) :
    args.merge (more.mergeAll steps) = (args.merge more).mergeAll steps := by
  induction steps generalizing more with
  | nil => rfl
  | cons step steps ih =>
    refine (ih (hmore.merge step)).trans ?_
    rw [← merge_assoc h hmore]
    rfl

theorem merge_empty (args : ArgumentsOf ρ) : args.merge {} = args := by
  simp [merge]

theorem mergeAll_append (args : ArgumentsOf ρ) (steps more : List (ArgumentsOf ρ)) :
    args.mergeAll (steps ++ more) = (args.mergeAll steps).mergeAll more :=
  List.foldl_append ..

/-- Steps may be grouped in any way. -/
theorem mergeAll_flatten (h : args.IsAligned) (groups : List (List (ArgumentsOf ρ))) :
    args.mergeAll (groups.map (mergeAll {})) = args.mergeAll groups.flatten := by
  induction groups generalizing args with
  | nil => rfl
  | cons group groups ih =>
    have hgroup : args.merge (({} : ArgumentsOf ρ).mergeAll group) = args.mergeAll group := by
      rw [merge_mergeAll h .empty, merge_empty]
    calc args.mergeAll (({} : ArgumentsOf ρ).mergeAll group :: groups.map (mergeAll {}))
        = (args.mergeAll group).mergeAll (groups.map (mergeAll {})) := by rw [← hgroup]; rfl
      _ = (args.mergeAll group).mergeAll groups.flatten := ih (hgroup ▸ h.merge _)
      _ = args.mergeAll (group ++ groups.flatten) := (mergeAll_append args group _).symm

/-- The arguments of all steps, in whatever groups they were added. -/
structure Combines (all : ArgumentsOf ρ) (steps : List (ArgumentsOf ρ)) : Prop where
  positional : all.positional = steps.flatMap ArgumentsOf.positional
  named : ∀ name, all.named? name = steps.reverse.findSome? (·.named? name)
  regrouped : ∀ groups : List (List (ArgumentsOf ρ)), groups.flatten = steps →
    ({} : ArgumentsOf ρ).mergeAll (groups.map (mergeAll {})) = all

theorem IsDistinct.combines {steps : List (ArgumentsOf ρ)} (h : args.IsDistinct)
    (hsteps : ∀ step ∈ steps, step.IsDistinct) :
    (args.mergeAll steps).Combines (args :: steps) where
  positional := by rw [positional_mergeAll h.aligned, List.flatMap_cons]
  named := named?_mergeAll h.aligned hsteps
  regrouped groups hgroups := by
    rw [mergeAll_flatten IsDistinct.empty.aligned, hgroups]
    exact congrArg (ArgumentsOf.mergeAll · steps) (empty_merge h)

end ArgumentsOf

end TemplateMachine
