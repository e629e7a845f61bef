import TemplateMachine.Proofs.Render.Currying

/-! The readers of a named argument.  A symbol of a layout gets the first value of its name, whether
the invocation is bound by code of its own or by the machine, but where arguments are added to
others, or become an object, the last value of a name counts.  So the readers agree on the names
that an invocation gives once. -/

namespace TemplateMachine

/-! ### Positions -/

/-- The last position of a name. -/
def lastIdxOf? (name : String) : List String → Option Nat
  | [] => none
  | first :: names =>
    ((lastIdxOf? name names).map (· + 1)).or (if first = name then some 0 else none)

theorem lastIdxOf?_cons (name first : String) (names : List String) :
    lastIdxOf? name (first :: names) =
      ((lastIdxOf? name names).map (· + 1)).or (if first = name then some 0 else none) := rfl

theorem lastIdxOf?_eq_none {name : String} {names : List String} :
    lastIdxOf? name names = none ↔ name ∉ names := by
  induction names with
  | nil => simp [lastIdxOf?]
  | cons first names ih => simp [lastIdxOf?_cons, ih, @eq_comm _ name first, and_comm]

theorem lt_of_lastIdxOf? {name : String} {names : List String} {i : Nat}
    (h : lastIdxOf? name names = some i) : i < names.length := by
  induction names generalizing i with
  | nil => cases h
  | cons first names ih =>
    rw [lastIdxOf?_cons] at h
    cases hlast : lastIdxOf? name names with
    | some j =>
      rw [hlast] at h
      cases h
      exact Nat.succ_lt_succ (ih hlast)
    | none =>
      rw [hlast] at h
      by_cases hfirst : first = name <;> simp [hfirst] at h
      simp [← h]

/-- The first position of a name is the last if the name occurs no more than once. -/
theorem idxOf?_eq_lastIdxOf?_iff {name : String} {names : List String} :
    names.idxOf? name = lastIdxOf? name names ↔ names.count name ≤ 1 := by
  induction names with
  | nil => simp [lastIdxOf?]
  | cons first names ih =>
    rw [List.idxOf?_cons, lastIdxOf?_cons]
    by_cases hfirst : first = name
    · subst hfirst
      rw [if_pos (by simp), if_pos rfl, List.count_cons_self]
      cases hlast : lastIdxOf? first names with
      | some i =>
        have hmem : first ∈ names :=
          Decidable.not_not.mp (mt lastIdxOf?_eq_none.mpr (by simp [hlast]))
        have := List.count_pos_iff.mpr hmem
        simp
        omega
      | none => simp [List.count_eq_zero.mpr (lastIdxOf?_eq_none.mp hlast)]
    · rw [if_neg (by simpa using hfirst), if_neg hfirst, List.count_cons_of_ne hfirst, ← ih,
        Option.or_none]
      cases names.idxOf? name <;> cases lastIdxOf? name names <;> simp

theorem lookup_reverse_zip {ρ : Type} {name : String} {names : List String} {values : List ρ}
    (h : names.length = values.length) :
    (names.zip values).reverse.lookup name = (lastIdxOf? name names).bind fun i => values[i]? := by
  induction names generalizing values with
  | nil => rfl
  | cons first names ih =>
    obtain ⟨value, values, rfl⟩ := List.exists_cons_of_length_eq_add_one h.symm
    have h : names.length = values.length := by simpa using h
    rw [List.zip_cons_cons, List.reverse_cons, List.lookup_append, ih h, lastIdxOf?_cons]
    cases hlast : lastIdxOf? name names with
    | some i => simp [List.getElem?_eq_getElem (h ▸ lt_of_lastIdxOf? hlast)]
    | none =>
      by_cases hfirst : name = first
      · simp [hfirst]
      · simp [Entries.lookup_cons_of_ne hfirst, Ne.symm hfirst]

/-! ### Objects -/

namespace Json

theorem member?_insertMember {key other : String} {value : Json} {members : List (String × Json)} :
    member? (insertMember key value members) other =
      if other = key then some value else member? members other := by
  induction members with
  | nil => by_cases h : other = key <;> simp [insertMember, member?, h, Entries.lookup_cons_of_ne]
  | cons first members ih =>
    obtain ⟨k, v⟩ := first
    unfold member? at ih ⊢
    unfold insertMember
    by_cases hkey : key = k
    · subst hkey
      by_cases h : other = key <;> simp [h, Entries.lookup_cons_of_ne]
    · rw [if_neg hkey]
      split
      · by_cases h : other = key <;> simp [h, Entries.lookup_cons_of_ne]
      · by_cases h : other = k
        · subst h
          simp [Ne.symm hkey]
        · simp only [Entries.lookup_cons_of_ne h, ih]

theorem get?_ofMembers (members : List (String × Json)) (key : String) :
    (ofMembers members).get? key = members.reverse.lookup key := by
  suffices ∀ kept,
    member? (members.foldl (fun sorted entry => insertMember entry.1 entry.2 sorted) kept) key =
      (members.reverse.lookup key).or (member? kept key) from
    (this []).trans (Option.or_none ..)
  induction members with
  | nil => intro kept; rfl
  | cons first members ih =>
    intro kept
    obtain ⟨name, value⟩ := first
    rw [List.foldl_cons, ih, member?_insertMember, List.reverse_cons, List.lookup_append,
      Option.or_assoc]
    by_cases h : key = name <;> simp [h, Entries.lookup_cons_of_ne]

end Json

theorem Reference.values_eq_map (cells : Cells) (rs : List Reference) :
    Reference.values cells rs = rs.map (·.value cells) := by
  induction rs with
  | nil => rfl
  | cons r rs ih => rw [Reference.values, ih, List.map_cons]

/-! ### Readers -/

section

variable {s : Scene} {p : Site} {i : Invocation} {hash : Hash} {given : Arguments} {name : String}

/-- The name of an argument as the invocation writes it. -/
def Invocation.spelling (i : Invocation) (name : String) : String :=
  if i.synthetic then name else "@" ++ name

/-- The names of a hash without `@`. -/
def HashOf.bareNames {ε : Type} (hash : HashOf ε) : List String := hash.names.map Walk.bareName

/-- The first entry of a name in its spelling is its first entry, if no other spelling is used. -/
theorem HashOf.idxOf?_spelling {spelling : String}
    (h : ∀ written ∈ hash.names, written = spelling ↔ Walk.bareName written = name) :
    hash.names.idxOf? spelling = hash.bareNames.idxOf? name := by
  unfold HashOf.bareNames
  generalize hash.names = names at h
  induction names with
  | nil => rfl
  | cons first names ih =>
    have hfirst := h first List.mem_cons_self
    rw [List.map_cons, List.idxOf?_cons, List.idxOf?_cons,
      ih fun written hw => h written (.tail _ hw)]
    by_cases heq : first = spelling
    · rw [if_pos (by simpa using heq), if_pos (by simpa using hfirst.mp heq)]
    · rw [if_neg (by simpa using heq), if_neg (by simpa using mt hfirst.mpr heq)]

namespace ArgumentsOf

/-- Where arguments are added to others the last value of a name counts. -/
theorem named?_merge_eq {inner : Arguments} (hinner : inner.IsAligned) (hgiven : given.IsAligned) :
    (inner.merge given).named? name =
      ((lastIdxOf? name given.names).bind (given.named[·]?)).or (inner.named? name) := by
  rw [named?_merge hinner, ← lookup_reverse_zip hgiven]
  rfl

/-- In the object of named arguments the last value of a name counts,
and what is no data is null. -/
theorem get?_namedJson (cells : Cells) (hgiven : given.IsAligned) :
    (given.namedJson cells).get? name =
      ((lastIdxOf? name given.names).bind (given.named[·]?)).map fun r =>
        (r.value cells).toJson?.getD .null := by
  have hmembers : ((given.names.zip (Reference.values cells given.named)).map fun entry =>
      (entry.1, entry.2.toJson?.getD .null)) =
        given.names.zip (given.named.map fun r => (r.value cells).toJson?.getD .null) := by
    rw [Reference.values_eq_map, List.zip_map_right, List.map_map, List.zip_map_right]
    rfl
  refine (Json.get?_ofMembers _ _).trans ?_
  rw [hmembers, lookup_reverse_zip (by simpa [IsAligned] using hgiven)]
  cases lastIdxOf? name given.names with
  | none => rfl
  | some i => simp

end ArgumentsOf

namespace Walk

/-- The value that code of its own binds a symbol to is that of the first entry in the spelling of
the invocation. -/
theorem symbolBinding_argument (hi : i.hash = some hash) :
    symbolBinding s p i ("@" ++ name) =
      match (hash.names.idxOf? (i.spelling name)).bind (hash.values[·]?) with
      | some value => do return some (.value (← expression s p value))
      | none => return none := by
  unfold symbolBinding
  rw [SymbolRole.ofSymbol_argument]
  simp only [hi, Option.bind_some]
  rfl

/-- The readers of a named argument.  Code of its own and the machine take the first entry of a
name, though code of its own only looks for its spelling.  Where arguments were added to others, and
in the object that is `self` of a component, it is the last entry.  All take the same entry of a
name that is given once. -/
theorem argument_readers (s : Scene) (p : Site) (hi : i.hash = some hash)
    (haligned : hash.names.length = hash.values.length) (name : String) :
    let first := hash.bareNames.idxOf? name
    let last := lastIdxOf? name hash.bareNames
    (symbolBinding s p i ("@" ++ name) =
      match (hash.names.idxOf? (i.spelling name)).bind (hash.values[·]?) with
      | some value => do return some (.value (← expression s p value))
      | none => return none) ∧
    ((args s p i.params i.hash).Gives fun given =>
      given.named.length = hash.values.length ∧
      binding? p i given ("@" ++ name) = (first.bind (given.named[·]?)).map .value ∧
      (∀ inner : Arguments, inner.IsAligned → (inner.merge given).named? name =
        (last.bind (given.named[·]?)).or (inner.named? name)) ∧
      ∀ (cells : Cells) (inst : Instance), inst.args = some given →
        (((Manager.args.selfReference cells inst).property name).value cells) =
          .data (((last.bind (given.named[·]?)).bind
            fun r => (r.value cells).toJson?).getD .null)) ∧
    (first = last ↔ hash.bareNames.count name ≤ 1) ∧
    ((∀ written ∈ hash.names, written = i.spelling name ↔ bareName written = name) →
      hash.names.idxOf? (i.spelling name) = first) := by
  intro first last
  refine ⟨symbolBinding_argument hi, ?_, idxOf?_eq_lastIdxOf?_iff, HashOf.idxOf?_spelling⟩
  rw [hi]
  refine (args_named s p i.params hash).mono fun given ⟨hnames, hlength⟩ => ?_
  have hgiven : given.IsAligned := by
    rw [ArgumentsOf.IsAligned, hnames, hlength, List.length_map, haligned]
  refine ⟨hlength, ?_, fun inner hinner => ?_, fun cells inst hinst => ?_⟩
  · rw [binding?_argument, ArgumentsOf.named?, hnames]
    rfl
  · rw [ArgumentsOf.named?_merge_eq hinner hgiven, hnames]
    rfl
  · have hself : ((Manager.args.selfReference cells inst).property name).value cells =
        .data (((given.namedJson cells).get? name).getD .null) := by
      rw [Reference.value, show Manager.args.selfReference cells inst = .namedArguments given by
        simp [Manager.args, hinst], Reference.value]
      rfl
    rw [hself, ArgumentsOf.get?_namedJson cells hgiven, hnames,
      show lastIdxOf? name (hash.names.map bareName) = last from rfl]
    cases last.bind (given.named[·]?) <;> rfl

end Walk

end

/-- A title that is given twice: the layout's symbol gets the first, and `self` has the second. -/
theorem Request.boxed_argument_readers :
    let one : Reference := .ofJson (.int 1)
    let two : Reference := .ofJson (.int 2)
    let i : Invocation :=
    { hash := some ⟨["@title", "@title"], [.value (.int 1), .value (.int 2)]⟩ }
    let p := Request.boxed.place
    Walk.symbolBinding Request.boxed.scene p i "@title" {} = .ok (some (.value one)) {} ∧
      ∃ given, Walk.args Request.boxed.scene p i.params i.hash {} = .ok given {} ∧
        Walk.binding? p i given "@title" = some (.value one) ∧
        ((({} : Arguments).merge given).named? "title") = some two ∧
        (((Manager.args.selfReference {} ⟨"Box", given, false, false⟩).property "title").value {}) =
          .data (.int 2) := by
  intro one two i p
  obtain ⟨hstatic, hgiven, -, -⟩ := Walk.argument_readers Request.boxed.scene p (i := i)
    rfl rfl "title"
  obtain ⟨-, hbinding, hmerged, hself⟩ := hgiven {} ⟨[], ["title", "title"], [one, two]⟩ {} rfl
  refine ⟨?_, ⟨[], ["title", "title"], [one, two]⟩, rfl, hbinding, hmerged {} rfl, hself {} _ rfl⟩
  exact (congrFun hstatic {}).trans rfl

end TemplateMachine
