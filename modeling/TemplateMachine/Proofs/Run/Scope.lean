import TemplateMachine.Proofs.Run.Perform
import TemplateMachine.Proofs.Shape.Expression

/-! Scopes that are entered and filled.  A new scope is filled by the instructions that follow,
until it is complete and nothing changes it any more. -/

namespace TemplateMachine

/-! ### Slots -/

theorem Scope.get_bind (s : Scope) (symbol other : UInt32) (slot : Slot) :
    (s.bind symbol slot).get other = if other = symbol then slot else s.get other := by
  simp only [Scope.get, Scope.bind, Array.getD_eq_getD_getElem?, Array.set!_eq_setIfInBounds]
  by_cases h : other = symbol
  · subst h
    rw [if_pos rfl, Array.getElem?_setIfInBounds_self_of_lt]
    · rfl
    · simp only [Array.size_append, Array.size_replicate]
      omega
  · have hne : symbol.toNat ≠ other.toNat := fun heq => h (UInt32.toNat_inj.mp heq.symm)
    rw [if_neg h, Array.getElem?_setIfInBounds_ne hne, Array.getElem?_append]
    split
    · rfl
    · rename_i hsize
      rw [Array.getElem?_replicate, Array.getElem?_eq_none (by omega)]
      split <;> rfl

@[simp] theorem Scope.caller_bind (s : Scope) (symbol : UInt32) (slot : Slot) :
    (s.bind symbol slot).caller = s.caller := rfl

theorem Scope.get_root (size : Nat) (caller : Option Nat) (symbol : UInt32) :
    (Scope.root size caller).get symbol = .empty := by
  simp only [Scope.get, Scope.root, Array.getD_eq_getD_getElem?, Array.getElem?_replicate]
  split <;> rfl

namespace Store

variable {strategy : Strategy} {t : Store} {scope : Scope} {slots : Slots}

theorem Holds.bind (h : t.Holds strategy scope slots) {symbol : UInt32} {b : Binding} {slot : Slot}
    (hslot : t.Fills strategy b slot scope.caller) :
    t.Holds strategy (scope.bind symbol slot) (slots.bind symbol b) := by
  intro other
  rw [Scope.get_bind, Scope.caller_bind, Slots.bind]
  by_cases hother : other = symbol
  · rwa [if_pos hother, if_pos hother]
  · rw [if_neg hother, if_neg hother]
    exact h other

theorem Holds.bindValue (h : t.Holds strategy scope slots) (symbol : UInt32) (r : Reference) :
    t.Holds strategy (scope.bind symbol (.value r)) (slots.bind symbol (.value r)) :=
  Holds.bind (b := .value r) h rfl

theorem Holds.bindParameters (h : t.Holds strategy scope slots) (symbols : List UInt32)
    (values : List Reference) :
    t.Holds strategy (Exec.bindParameters scope symbols values)
      (slots.bindValues symbols values) := by
  induction symbols generalizing scope slots values with
  | nil => exact h
  | cons symbol rest ih =>
    cases values with
    | nil => exact ih (h.bindValue symbol .null) []
    | cons value values => exact ih (h.bindValue symbol value) values

theorem caller_bindParameters (scope : Scope) (symbols : List UInt32) (values : List Reference) :
    (Exec.bindParameters scope symbols values).caller = scope.caller := by
  induction symbols generalizing scope values with
  | nil => rfl
  | cons symbol rest ih => cases values <;> exact ih _ _

theorem holds_root (size : Nat) (caller : Option Nat) :
    t.Holds strategy (.root size caller) .empty := by
  intro symbol
  rw [Scope.get_root]
  exact .inl rfl

end Store

/-- The machine stands at an address in a pose, but has entered a new scope besides. -/
def Opens (setup : Setup) (cells : Cells) (pc : Nat) (p : Pose) (w : World) (t : Store)
    (scope : Scope) (m : Machine) : Prop :=
  ∃ u current, t ≤ u ∧ setup.Valid u ∧
    m = .of cells pc (p.enter u.scopes.entries.size) w
      { u with scopes := ⟨u.scopes.entries.push scope⟩ } current

section

variable {setup : Setup} {cells : Cells} {a a' floor : Nat} {n : ENat} {p q : Pose}
variable {w : World} {t : Store}
variable {s : Beginning} {scope scope' : Scope} {m : Machine} {i : Instruction}
variable {rest : List Instruction} {α : Type}
variable {out : EStateM.Result (Stop Fault) World α} {final : α → World → Machine → Prop}

open Exec (bind_apply pure_apply get_apply read_apply modify_apply orFail_some pop_of)

/-- The new scope is complete. -/
theorem Opens.stands (hm : Opens setup cells a p w t scope m) :
    ∃ u number, t ≤ u ∧ u.scopes.entries[number]? = some scope ∧
      Stands setup cells a (p.enter number) w u m := by
  obtain ⟨u, current, hu, hvalid, hm⟩ := hm
  let v : Store := { u with scopes := ⟨u.scopes.entries.push scope⟩ }
  refine ⟨v, u.scopes.entries.size, ⟨hu.linkage, hu.scopes.trans (keeps_push _ _), hu.components,
    hu.iterators⟩, Array.getElem?_push_size, v, current, v.le_refl, hvalid, hm⟩

theorem Opens.next (hm : Opens setup cells a p w t scope m) (hcode : t.HasCode a (i :: rest))
    (hfills : i.op.fills s = true)
    (hperform : ∀ u current, setup.Later t u →
      Exec.perform a i setup (.of cells (a + 4) (p.enter u.scopes.entries.size) w
          { u with scopes := ⟨u.scopes.entries.push scope⟩ } current) =
        .ok () (.of cells a' (q.enter u.scopes.entries.size) w
          { u with scopes := ⟨u.scopes.entries.push scope'⟩ } current))
    (h : ∀ m', Opens setup cells a' q w t scope' m' →
      Leads setup (.filling s) floor n m' out final) :
    Leads setup (.filling s) floor n m out final := by
  refine Leads.of_fits fun hfits => ?_
  obtain ⟨u, current, hu, hvalid, rfl⟩ := hm
  have hholds := hcode.mono hu
  refine Leads.le (n := n + 1) ?_ le_self_add
  refine Leads.turn hholds (.fill hfills) (Leads.cuts_of_fills hfills)
    (fun hhalt => by rw [hhalt.1] at hfills; cases s <;> cases hfills)
    (hperform u (a, i.op) ⟨hu, hvalid, hfits⟩) fun _ => ?_
  exact h _ ⟨u, _, hu, hvalid, rfl⟩

/-! ### Entering -/

/-- An instruction that enters a new scope. -/
theorem Stands.enterScope (hm : Stands setup cells a p w t m) (hcode : t.HasCode a (i :: rest))
    (henters : i.op.beginning? = some s)
    (hperform : ∀ u current, setup.Later t u →
      Exec.perform a i setup (.of cells (a + 4) p w u current) =
        .ok () (.of cells (a + 4) (p.enter u.scopes.entries.size) w
          { u with scopes := ⟨u.scopes.entries.push scope⟩ } current))
    (h : ∀ m', Opens setup cells (a + 4) p w t scope m' →
      Leads setup (.filling s) floor n m' out final) :
    Leads setup .free floor n m out final := by
  refine Leads.of_fits fun hfits => ?_
  have hholds := hm.hasCode hcode
  obtain ⟨u, current, hu, hvalid, rfl⟩ := hm
  refine Leads.le (n := n + 1) ?_ le_self_add
  refine Leads.turn hholds (.enter henters) (Leads.cuts_of_enters henters)
    (fun hhalt => by rw [hhalt.1] at henters; cases henters)
    (hperform u (a, i.op) ⟨hu, hvalid, hfits⟩) fun _ => ?_
  exact h _ ⟨u, _, hu, hvalid, rfl⟩

/-- A new scope of empty slots, whose caller is the current scope if it is asked for. -/
theorem leads_rootScope {number : Nat} {others : List Nat} {size b c : UInt32}
    (hm : Stands setup cells a p w t m) (hstack : p.scopeStack = number :: others)
    (hcode : t.HasCode a (⟨.rootScope, size, b, c⟩ :: rest))
    (h : ∀ m', Opens setup cells (a + 4) p w t
      (.root size.toNat (if b != 0 then some number else none)) m' →
        Leads setup (.filling .empty) floor n m' out final) :
    Leads setup .free floor n m out final := by
  refine hm.enterScope hcode rfl (fun u current hu => ?_) h
  simp only [Exec.perform, Exec.enterRootScope, bind_apply, get_apply]
  rw [show (Machine.of cells (a + 4) p w u current).scopeStack = number :: others from hstack]
  rfl

theorem Exec.childScope_of {u : Store} {current : Nat × Opcode} {pc number : Nat}
    {others : List Nat} (hstack : p.scopeStack = number :: others) :
    Exec.enterChildScope setup (.of cells pc p w u current) =
      .ok () (.of cells pc (p.enter u.scopes.entries.size) w
        { u with scopes := ⟨u.scopes.entries.push (u.scopes.get number)⟩ } current) := by
  simp only [Exec.enterChildScope, bind_apply, Exec.currentScope_of hstack, get_apply]
  rfl

/-- A copy of the current scope. -/
theorem leads_childScope {number : Nat} {others : List Nat} {b c d : UInt32}
    (hm : Stands setup cells a p w t m) (hstack : p.scopeStack = number :: others)
    (hscope : t.scopes.entries[number]? = some scope)
    (hcode : t.HasCode a (⟨.childScope, b, c, d⟩ :: rest))
    (h : ∀ m', Opens setup cells (a + 4) p w t scope m' →
      Leads setup (.filling .copied) floor n m' out final) :
    Leads setup .free floor n m out final := by
  refine hm.enterScope hcode rfl (fun u current hu => ?_) h
  rw [Exec.perform, Exec.childScope_of hstack, Exec.scopes_get (hu.le.scopes _ _ hscope)]

theorem leads_popScope {number : Nat} {b c d : UInt32}
    (hm : Stands setup cells a (p.enter number) w t m)
    (hcode : t.HasCode a (⟨.popScope, b, c, d⟩ :: rest))
    (h : ∀ m', Stands setup cells (a + 4) p w t m' → Leads setup .free floor n m' out final) :
    Leads setup .free floor n m out final :=
  hm.next hcode (by simp) (fun _ _ _ => rfl) h

/-! ### Filling -/

theorem Scopes.bind_push (s : Scopes) (scope : Scope) (symbol : UInt32) (slot : Slot) :
    Scopes.bind ⟨s.entries.push scope⟩ s.entries.size symbol slot =
      ⟨s.entries.push (scope.bind symbol slot)⟩ := by
  simp only [Scopes.bind, Scopes.mk.injEq]
  apply Array.ext_getElem?
  intro i
  rw [Array.getElem?_modify, Array.getElem?_push, Array.getElem?_push]
  by_cases hi : s.entries.size = i
  · subst hi
    simp
  · rw [if_neg hi, if_neg (Ne.symm hi), if_neg (Ne.symm hi)]

theorem Exec.bindSlot_of {u : Store} {current : Nat × Opcode} {pc : Nat} (symbol : UInt32)
    (slot : Slot) :
    Exec.bindSlot symbol slot setup (.of cells pc (p.enter u.scopes.entries.size) w
        { u with scopes := ⟨u.scopes.entries.push scope⟩ } current) =
      .ok () (.of cells pc (p.enter u.scopes.entries.size) w
        { u with scopes := ⟨u.scopes.entries.push (scope.bind symbol slot)⟩ } current) := by
  rw [← Scopes.bind_push]
  rfl

theorem Exec.setVariable_of {u : Store} {current : Nat × Opcode} {pc start : Nat} (r : Reference)
    (symbol b c : UInt32) :
    Exec.perform start ⟨.setVariable, symbol, b, c⟩ setup
        (.of cells pc ((p.push (.ref r)).enter u.scopes.entries.size) w
          { u with scopes := ⟨u.scopes.entries.push scope⟩ } current) =
      .ok () (.of cells pc (p.enter u.scopes.entries.size) w
        { u with scopes := ⟨u.scopes.entries.push (scope.bind symbol (.value r))⟩ } current) := by
  rw [show (p.push (.ref r)).enter u.scopes.entries.size =
    (p.enter u.scopes.entries.size).push (.ref r) from rfl]
  simp only [Exec.perform, bind_apply, Exec.popRef_of, Exec.bindSlot_of]

theorem Opens.setVariable {r : Reference} {symbol b c : UInt32}
    (hm : Opens setup cells a (p.push (.ref r)) w t scope m)
    (hcode : t.HasCode a (⟨.setVariable, symbol, b, c⟩ :: rest))
    (h : ∀ m', Opens setup cells (a + 4) p w t (scope.bind symbol (.value r)) m' →
      Leads setup (.filling s) floor n m' out final) : Leads setup (.filling s) floor n
        m out final :=
  hm.next hcode (by simp) (fun _ _ _ => Exec.setVariable_of r symbol b c) h

theorem Opens.setBlock {table block : Value} {symbol b c : UInt32}
    (hm : Opens setup cells a ((p.push table).push block) w t scope m)
    (hcode : t.HasCode a (⟨.setBlock, symbol, b, c⟩ :: rest))
    (h : ∀ m', Opens setup cells (a + 4) p w t (scope.bind symbol (.block ⟨table, block⟩)) m' →
      Leads setup (.filling .empty) floor n m' out final) : Leads setup (.filling .empty) floor n m
        out final := by
  refine hm.next hcode (by simp) (fun u current _ => ?_) h
  rw [show ((p.push table).push block).enter u.scopes.entries.size =
    ((p.enter u.scopes.entries.size).push table).push block from rfl]
  simp only [Exec.perform, bind_apply, Exec.popBlock_of, Exec.bindSlot_of]

/-! ### Parameters -/

theorem Opens.dup_fp {depth c : UInt32} {v : Value} (hm : Opens setup cells a p w t scope m)
    (hdepth : depth.toNat ≤ p.fp) (hv : p.stack[p.fp - depth.toNat]? = some v)
    (hcode : t.HasCode a (⟨.dup, Register.fp.number, depth, c⟩ :: rest))
    (h : ∀ m', Opens setup cells (a + 4) (p.push v) w t scope m' →
      Leads setup (.filling s) floor n m' out final) :
    Leads setup (.filling s) floor n m out final :=
  hm.next (q := p.push v) hcode (by simp)
    (fun u _ _ => Exec.dup_fp_of (p := p.enter u.scopes.entries.size) hdepth hv) h

/-- Parameters are bound to the values below the frame. -/
theorem Opens.bindParameters {depth : UInt32} {symbols : List UInt32} {values : List Reference}
    (hm : Opens setup cells a p w t scope m) (hdepth : depth.toNat = values.length)
    (hfp : values.length ≤ p.fp) (hlength : symbols.length ≤ values.length)
    (hvalues : ∀ (i : Nat) r, values[i]? = some r →
      p.stack[p.fp - values.length + i]? = some (.ref r))
    (hcode : t.HasCode a (Coding.bindParameters depth symbols))
    (h : ∀ m', Opens setup cells (a + 4 * (Coding.bindParameters depth symbols).length) p w t
      (Exec.bindParameters scope symbols values) m' →
      Leads setup (.filling s) floor n m' out final) :
    Leads setup (.filling s) floor n m out final := by
  induction symbols generalizing depth values scope a m with
  | nil => exact h m hm
  | cons symbol symbols ih =>
    cases values with
    | nil => simp at hlength
    | cons r values =>
      simp only [List.length_cons] at hdepth hfp hlength hvalues
      refine hm.dup_fp (v := .ref r) (by omega) ?_ hcode fun m hm => ?_
      · have := hvalues 0 r rfl
        rwa [Nat.add_zero, ← hdepth] at this
      · refine hm.setVariable hcode.tail fun m hm => ?_
        have hdepth' : (depth - 1).toNat = values.length := by
          rw [UInt32.toNat_sub_of_le _ _ (UInt32.le_iff_toNat_le.mpr (by simp [hdepth]))]
          simp [hdepth]
        refine ih hm hdepth' (by omega) (by omega) (fun i v hv => ?_)
          hcode.tail.tail fun m hm => h m ?_
        · have := hvalues (i + 1) v hv
          rwa [show p.fp - (values.length + 1) + (i + 1) = p.fp - values.length + i by
            omega] at this
        · rw [Coding.bindParameters, List.length_cons, List.length_cons]
          rw [show a + 4 * ((Coding.bindParameters (depth - 1) symbols).length + 1 + 1) =
            a + 4 + 4 + 4 * (Coding.bindParameters (depth - 1) symbols).length by omega]
          exact hm

end

end TemplateMachine
