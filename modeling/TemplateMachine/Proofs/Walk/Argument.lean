import TemplateMachine.Proofs.Datum.Merge
import TemplateMachine.Proofs.Walk.Keep

/-! The arguments of an invocation, and the slots of a layout that they fill. -/

namespace TemplateMachine

/-- The names of arguments, without `@`, are distinct, and each has a value. -/
def HashOf.IsDistinct {ε : Type} (hash : HashOf ε) : Prop :=
  hash.names.length = hash.values.length ∧ (hash.names.map Walk.bareName).Nodup

namespace Walk

theorem expressions_length (s : Scene) (p : Site) (es : List Expression) :
    (expressions s p es).Gives fun values => values.length = es.length := by
  induction es with
  | nil =>
    rw [expressions]
    exact .pure rfl
  | cons e es ih =>
    rw [expressions]
    exact .bind fun value => ih.bind_of fun values h => .pure (congrArg Nat.succ h)

/-- Arguments have the names of a hash without `@`, and as many values as it has. -/
theorem args_named (s : Scene) (p : Site) (params : List Expression) (hash : Hash) :
    (args s p params (some hash)).Gives fun given =>
      given.names = hash.names.map bareName ∧ given.named.length = hash.values.length := by
  unfold args
  rw [namedValues]
  refine .bind fun positional => Gives.bind_of (P := fun named : List String × List Reference =>
    named.1 = hash.names ∧ named.2.length = hash.values.length) ?_ fun named hnamed =>
      .pure ⟨congrArg (List.map bareName) hnamed.1, hnamed.2⟩
  exact (expressions_length s p hash.values).bind_of fun values hvalues => .pure ⟨rfl, hvalues⟩

theorem args_distinct (s : Scene) (p : Site) (params : List Expression) {hash : Option Hash}
    (h : ∀ named, hash = some named → named.IsDistinct) :
    (args s p params hash).Gives fun given => given.IsDistinct := by
  cases hash with
  | none =>
    unfold args
    rw [namedValues]
    exact .bind fun positional => .pure ⟨rfl, List.nodup_nil⟩
  | some hash =>
    obtain ⟨hlength, hnodup⟩ := h hash rfl
    refine (args_named s p params hash).mono fun given hgiven => ⟨?_, hgiven.1 ▸ hnodup⟩
    rw [ArgumentsOf.IsAligned, hgiven.1, hgiven.2, List.length_map, hlength]

end Walk

/-! ### Slots -/

theorem Slots.bind_ne {s : Slots} {symbol other : UInt32} (h : other ≠ symbol) (b : Binding) :
    s.bind symbol b other = s other := if_neg h

namespace Walk

variable {p : Site} {i : Invocation} {args : Arguments} {symbols : List String} {s : Slots}

/-- An argument symbol stands for the value of its name. -/
theorem binding?_argument (p : Site) (i : Invocation) (args : Arguments) (name : String) :
    binding? p i args ("@" ++ name) = (args.named? name).map .value := by
  have hne (symbol : String) (h : symbol.toList.head? ≠ some '@') : "@" ++ name ≠ symbol := by
    rintro rfl
    exact h (by simp)
  unfold binding?
  rw [if_neg (hne _ (by decide)), if_neg (hne _ (by decide)), if_neg (hne _ (by decide)),
    SymbolRole.ofSymbol_argument]

theorem bindAll_bindings_below {slot : UInt32} {start : Nat} (hslot : slot.toNat < start)
    (hsize : start + symbols.length < UInt32.size) :
    s.bindAll (bindings p i args (UInt32.ofNat start) symbols) slot = s slot := by
  induction symbols generalizing s start with
  | nil => rfl
  | cons symbol symbols ih =>
    rw [List.length_cons] at hsize
    have hnext : UInt32.ofNat start + 1 = UInt32.ofNat (start + 1) :=
      (UInt32.ofNat_add start 1).symm
    have ih {s : Slots} : s.bindAll
        (bindings p i args (UInt32.ofNat (start + 1)) symbols) slot = s slot :=
      ih (by omega) (by omega)
    unfold bindings
    rw [hnext]
    split
    · refine ih.trans (Slots.bind_ne ?_ _)
      rintro rfl
      rw [UInt32.toNat_ofNat_of_lt' (by omega)] at hslot
      omega
    · exact ih

/-- A slot holds what its symbol is bound to. -/
theorem bindAll_bindings {symbol : String} {start k : Nat} (hsymbol : symbols[k]? = some symbol)
    (hsize : start + symbols.length < UInt32.size) :
    s.bindAll (bindings p i args (UInt32.ofNat start) symbols) (UInt32.ofNat (start + k)) =
      (binding? p i args symbol).getD (s (UInt32.ofNat (start + k))) := by
  induction symbols generalizing s start k with
  | nil => cases hsymbol
  | cons first symbols ih =>
    rw [List.length_cons] at hsize
    have hnext : UInt32.ofNat start + 1 = UInt32.ofNat (start + 1) :=
      (UInt32.ofNat_add start 1).symm
    have htoNat : (UInt32.ofNat start).toNat = start := UInt32.toNat_ofNat_of_lt' (by omega)
    unfold bindings
    rw [hnext]
    cases k with
    | zero =>
      obtain rfl : first = symbol := Option.some.inj hsymbol
      have hbelow {s : Slots} : s.bindAll (bindings p i args (UInt32.ofNat (start + 1)) symbols)
          (UInt32.ofNat start) = s (UInt32.ofNat start) :=
        bindAll_bindings_below (by omega) (by omega)
      rw [Nat.add_zero]
      split
      · rename_i b hb
        rw [hb]
        exact hbelow.trans (if_pos rfl)
      · rename_i hb
        rw [hb]
        exact hbelow
    | succ k =>
      have ih {s : Slots} : s.bindAll (bindings p i args (UInt32.ofNat (start + 1)) symbols)
          (UInt32.ofNat (start + 1 + k)) =
            (binding? p i args symbol).getD (s (UInt32.ofNat (start + 1 + k))) :=
        ih hsymbol (by omega)
      rw [show start + (k + 1) = start + 1 + k by omega]
      split
      · refine ih.trans (congrArg _ (Slots.bind_ne ?_ _))
        intro heq
        have := congrArg UInt32.toNat heq
        obtain ⟨hk, -⟩ := List.getElem?_eq_some_iff.mp hsymbol
        rw [htoNat, UInt32.toNat_ofNat_of_lt' (by simp at hk; omega)] at this
        omega
      · exact ih

/-- The slot of an argument symbol holds the value of its name, if it has one. -/
theorem layoutSlots_argument {name : String} {k : Nat} (hsymbol : symbols[k]? = some ("@" ++ name))
    (hsize : 1 + symbols.length < UInt32.size) (self : Reference) :
    layoutSlots p i self args symbols (UInt32.ofNat (1 + k)) =
      ((args.named? name).map .value).getD .empty := by
  obtain ⟨hk, -⟩ := List.getElem?_eq_some_iff.mp hsymbol
  refine (bindAll_bindings (s := Slots.empty.bind 0 (.value self)) hsymbol hsize).trans ?_
  rw [binding?_argument, Slots.bind_ne]
  · rfl
  · intro heq
    have := congrArg UInt32.toNat heq
    rw [UInt32.toNat_ofNat_of_lt' (by omega)] at this
    simp at this

end Walk

end TemplateMachine
