import TemplateMachine.Proofs.Run.Step
import TemplateMachine.Proofs.Run.Store

/-! Instructions of the machine in terms of its parts. -/

namespace TemplateMachine

section

variable {setup : Setup} {cells : Cells} {a a' pc floor : Nat} {n : ENat} {p q : Pose}
variable {w w' : World} {t u : Store} {current : Nat × Opcode} {m : Machine} {i : Instruction}
variable {rest : List Instruction} {α : Type} {out : EStateM.Result (Stop Fault) World α}
variable {final : α → World → Machine → Prop}

theorem Stands.hasCode (hm : Stands setup cells a p w t m) {code : List Instruction}
    (hcode : t.HasCode a code) : m.program.heap.Holds m.pc code := by
  obtain ⟨u, current, hu, -, rfl⟩ := hm
  exact hcode.mono hu

theorem Stands.canYield (hm : Stands setup cells a p w t m) {slots : Slots}
    (h : t.Sees setup.options.strategy p slots) : m.CanYield setup.options.strategy := by
  obtain ⟨u, current, hu, -, rfl⟩ := hm
  exact h.canYield hu rfl rfl

/-- An instruction that may change the store, on the way to a call. -/
theorem Stands.change_succ (hm : Stands setup cells a p w t m) (hcode : t.HasCode a (i :: rest))
    (hplain : i.op.isPlain = true)
    (hperform : ∀ u current, setup.Later t u →
      ∃ m', Exec.perform a i setup (.of cells (a + 4) p w u current) = .ok () m' ∧
        (m'.program.Fits → Leads setup .free floor n m' out final)) :
    Leads setup .free floor (n + 1) m out final := by
  refine Leads.of_fits fun hfits => ?_
  have hholds := hm.hasCode hcode
  obtain ⟨u, current, hu, hvalid, rfl⟩ := hm
  obtain ⟨m', hm', h⟩ := hperform u (a, i.op) ⟨hu, hvalid, hfits⟩
  exact Leads.instruction hholds hplain hm' h

/-- An instruction that may change the store. -/
theorem Stands.change (hm : Stands setup cells a p w t m) (hcode : t.HasCode a (i :: rest))
    (hplain : i.op.isPlain = true)
    (hperform : ∀ u current, setup.Later t u →
      ∃ m', Exec.perform a i setup (.of cells (a + 4) p w u current) = .ok () m' ∧
        (m'.program.Fits → Leads setup .free floor n m' out final)) :
    Leads setup .free floor n m out final :=
  (hm.change_succ hcode hplain hperform).le le_self_add

/-- An instruction that does not change the store, on the way to a call. -/
theorem Stands.next_succ (hm : Stands setup cells a p w t m) (hcode : t.HasCode a (i :: rest))
    (hplain : i.op.isPlain = true)
    (hperform : ∀ u current, setup.Later t u →
      Exec.perform a i setup (.of cells (a + 4) p w u current) =
        .ok () (.of cells a' q w' u current))
    (h : ∀ m', Stands setup cells a' q w' t m' → Leads setup .free floor n m' out final) :
    Leads setup .free floor (n + 1) m out final :=
  hm.change_succ hcode hplain fun u current hu =>
    ⟨_, hperform u current hu, fun _ => h _ ⟨u, current, hu.le, hu.valid, rfl⟩⟩

/-- An instruction that does not change the store. -/
theorem Stands.next (hm : Stands setup cells a p w t m) (hcode : t.HasCode a (i :: rest))
    (hplain : i.op.isPlain = true)
    (hperform : ∀ u current, setup.Later t u →
      Exec.perform a i setup (.of cells (a + 4) p w u current) =
        .ok () (.of cells a' q w' u current))
    (h : ∀ m', Stands setup cells a' q w' t m' → Leads setup .free floor n m' out final) :
    Leads setup .free floor n m out final :=
  (hm.next_succ hcode hplain hperform h).le le_self_add

/-- An instruction that leads from one phase to another and leaves the stack no higher. -/
theorem Stands.turn {phase phase' : Phase} (hm : Stands setup cells a p w t m)
    (hcode : t.HasCode a (i :: rest)) (hturn : ∀ m, Phase.Turn floor m i phase phase')
    (hop : i.op ≠ .ret)
    (hperform : ∀ u current, setup.Later t u →
      Exec.perform a i setup (.of cells (a + 4) p w u current) =
        .ok () (.of cells a' q w' u current))
    (hsize : q.stack.size ≤ p.stack.size)
    (h : ∀ m', Stands setup cells a' q w' t m' → Leads setup phase' floor n m' out final) :
    Leads setup phase floor n m out final := by
  refine Leads.of_fits fun hfits => ?_
  have hholds := hm.hasCode hcode
  obtain ⟨u, current, hu, hvalid, rfl⟩ := hm
  refine Leads.le (n := n + 1) ?_ le_self_add
  exact Leads.turn_within hholds (hturn _) hop (hperform u (a, i.op) ⟨hu, hvalid, hfits⟩) hsize
    fun _ => h _ ⟨u, (a, i.op), hu, hvalid, rfl⟩

/-- An instruction that fails. -/
theorem Stands.fails (hm : Stands setup cells a p w t m) (hcode : t.HasCode a (i :: rest))
    (hplain : i.op.isPlain = true) {fault : Fault}
    (hperform : ∀ u current, setup.Later t u →
      ∃ e m', Exec.perform a i setup (.of cells (a + 4) p w u current) = .error (.fault e) m' ∧
        e.fault? = some fault ∧ m'.Unwinds w') :
    Leads setup .free floor n m (.error (.fault fault) w') final := by
  refine Leads.of_fits fun hfits => ?_
  have hholds := hm.hasCode hcode
  obtain ⟨u, current, hu, hvalid, rfl⟩ := hm
  obtain ⟨e, m', hm', hfault, hw⟩ := hperform u (a, i.op) ⟨hu, hvalid, hfits⟩
  exact Leads.instruction_fails hholds (Leads.cuts_of_plain hplain) hm' hfault hw nofun

/-- What an instruction gives is what a walk gives. -/
def Agrees (done : EStateM.Result (Stop RuntimeError) Machine Unit)
    (out : EStateM.Result (Stop Fault) World α) (final : α → World → Machine → Prop) : Prop :=
  match out, done with
  | .ok a w', .ok _ m' => final a w' m'
  | .error (.fault fault) w', .error (.fault e) m' => e.fault? = some fault ∧ m'.Unwinds w'
  | _, _ => False

theorem Agrees.done {done : EStateM.Result (Stop RuntimeError) Machine Unit} {v : α}
    (hdone : done = .ok () m) (hout : out = .ok v w') (h : final v w' m) :
    Agrees done out final := by
  subst hdone hout
  exact h

theorem Agrees.failed {done : EStateM.Result (Stop RuntimeError) Machine Unit}
    {e : RuntimeError} {fault : Fault} (hdone : done = .error (.fault e) m)
    (hout : out = .error (.fault fault) w') (hfault : e.fault? = some fault) (hw : m.Unwinds w') :
    Agrees done out final := by
  subst hdone hout
  exact ⟨hfault, hw⟩

/-- An instruction that does what a walk does. -/
theorem Stands.agrees (hm : Stands setup cells a p w t m) (hcode : t.HasCode a (i :: rest))
    (hplain : i.op.isPlain = true)
    (hperform : ∀ u current, setup.Later t u →
      Agrees (Exec.perform a i setup (.of cells (a + 4) p w u current)) out final) :
    Leads setup .free floor n m out final := by
  refine Leads.of_fits fun hfits => ?_
  have hholds := hm.hasCode hcode
  obtain ⟨u, current, hu, hvalid, rfl⟩ := hm
  have hagrees := hperform u (a, i.op) ⟨hu, hvalid, hfits⟩
  cases hdone : Exec.perform a i setup (.of cells (a + 4) p w u (a, i.op)) with
  | ok b m' =>
    rw [hdone] at hagrees
    cases out with
    | ok a w' =>
      refine Leads.le (n := n + 1) ?_ le_self_add
      exact Leads.instruction hholds hplain hdone fun _ => Leads.done hagrees
    | error e w' => cases e <;> exact hagrees.elim
  | error e m' =>
    rw [hdone] at hagrees
    cases out with
    | ok a w' => exact hagrees.elim
    | error e' w' =>
      cases e' with
      | outOfFuel => exact hagrees.elim
      | fault fault =>
        cases e with
        | outOfFuel => exact hagrees.elim
        | fault e =>
          exact Leads.instruction_fails hholds (Leads.cuts_of_plain hplain) hdone
            hagrees.1 hagrees.2 nofun

/-- The machine that an instruction leaves stands where it should. -/
theorem Setup.Later.stands (hu : setup.Later t u) :
    Stands setup cells pc p w t (.of cells pc p w u current) := ⟨u, current, hu.le, hu.valid, rfl⟩

namespace Exec

/-! ### The stack -/

theorem pop_of (v : Value) :
    Exec.pop setup (.of cells pc (p.push v) w t current) =
      .ok v (.of cells pc p w t current) := by
  have hback : (Machine.of cells pc (p.push v) w t current).stack.back? = some v :=
    Array.back?_push
  simp only [Exec.pop, bind_apply, get_apply, hback, modify_apply, pure_apply]
  simp [Machine.of, Pose.push]

theorem popRef_of (r : Reference) :
    Exec.popRef setup (.of cells pc (p.push (.ref r)) w t current) =
      .ok r (.of cells pc p w t current) := by
  simp only [Exec.popRef, bind_apply, pop_of, pure_apply]

theorem popDatum_of (r : Reference) :
    Exec.popDatum setup (.of cells pc (p.push (.ref r)) w t current) =
      .ok (r.value cells) (.of cells pc p w t current) := by
  simp only [Exec.popDatum, bind_apply, popRef_of, get_apply, pure_apply]
  rfl

theorem popArgs_of (args : Arguments) :
    Exec.popArgs setup (.of cells pc (p.push (.args args)) w t current) =
      .ok args (.of cells pc p w t current) := by
  simp only [Exec.popArgs, bind_apply, pop_of, pure_apply]

theorem popBlock_of (table block : Value) :
    Exec.popBlock setup (.of cells pc ((p.push table).push block) w t current) =
      .ok ⟨table, block⟩ (.of cells pc p w t current) := by
  simp only [Exec.popBlock, bind_apply, pop_of, pure_apply]

/-- Several references are taken in the order they were pushed. -/
theorem popRefs_of (rs taken : List Reference) :
    Exec.popRefs taken rs.length setup
        (.of cells pc (p.pushAll (rs.map .ref)) w t current) =
      .ok (rs ++ taken) (.of cells pc p w t current) := by
  -- the last value comes off first
  obtain ⟨ss, rfl⟩ : ∃ ss : List Reference, rs = ss.reverse := ⟨rs.reverse, by simp⟩
  induction ss generalizing taken with
  | nil => simp [Exec.popRefs, pure_apply]
  | cons r ss ih =>
    have hpose : p.pushAll ((r :: ss).reverse.map .ref) =
        (p.pushAll (ss.reverse.map .ref)).push (.ref r) := by
      simp [Pose.pushAll, Pose.push]
    rw [hpose, List.reverse_cons, List.length_append, List.length_singleton, Exec.popRefs]
    simp only [bind_apply, popRef_of, ih, List.append_assoc, List.singleton_append]

theorem drop_of (vs : List Value) :
    Exec.drop vs.length setup (.of cells pc (p.pushAll vs) w t current) =
      .ok () (.of cells pc p w t current) := by
  obtain ⟨us, rfl⟩ : ∃ us : List Value, vs = us.reverse := ⟨vs.reverse, by simp⟩
  induction us with
  | nil => simp [Exec.drop, pure_apply]
  | cons v us ih =>
    have hpose : p.pushAll (v :: us).reverse = (p.pushAll us.reverse).push v := by
      simp [Pose.pushAll, Pose.push]
    rw [hpose, List.reverse_cons, List.length_append, List.length_singleton, Exec.drop]
    simp only [bind_apply, pop_of, ih]

/-- The value at a depth below the frame. -/
theorem dup_fp_of {depth : UInt32} {v : Value}
    (hdepth : depth.toNat ≤ p.fp) (hv : p.stack[p.fp - depth.toNat]? = some v) :
    Exec.dup Register.fp.number depth setup (.of cells pc p w t current) =
      .ok () (.of cells pc (p.push v) w t current) := by
  simp only [Exec.dup, bind_apply, get_apply, Exec.register,
    show Register.ofNumber? Register.fp.number = some .fp from rfl, orFail_some, pure_apply,
    Option.bind_some]
  rw [show (Machine.of cells pc p w t current).fp = p.fp from rfl, if_pos hdepth,
    show (Machine.of cells pc p w t current).stack = p.stack from rfl, hv]
  rfl

/-! ### Constants and scopes -/

theorem constant_of {β : Type} {kind : String} (find : Constants → UInt32 → Option β)
    {index : UInt32} {v : β} (h : find t.linkage.program.constants index = some v) :
    Exec.constant kind find index setup (.of cells pc p w t current) =
      .ok v (.of cells pc p w t current) := by
  simp only [Exec.constant, bind_apply, get_apply]
  rw [show (Machine.of cells pc p w t current).program = t.linkage.program from rfl, h, orFail_some]

theorem currentScope_of {number : Nat} {others : List Nat}
    (h : p.scopeStack = number :: others) :
    Exec.currentScope setup (.of cells pc p w t current) =
      .ok number (.of cells pc p w t current) := by
  simp [Exec.currentScope, bind_apply, get_apply, pure_apply, Machine.of, h]

theorem scopes_get {scopes : Scopes} {number : Nat} {scope : Scope}
    (h : scopes.entries[number]? = some scope) : scopes.get number = scope := by
  simp [Scopes.get, Array.getD_eq_getD_getElem?, h]

theorem slot_of {number : Nat} {others : List Nat} {scope : Scope}
    (h : p.scopeStack = number :: others) (hscope : t.scopes.entries[number]? = some scope)
    (symbol : UInt32) :
    Exec.slot symbol setup (.of cells pc p w t current) =
      .ok (scope.get symbol) (.of cells pc p w t current) := by
  simp only [Exec.slot, bind_apply, currentScope_of h, get_apply, pure_apply]
  rw [show (Machine.of cells pc p w t current).scopes = t.scopes from rfl, scopes_get hscope]

end Exec

end

end TemplateMachine
