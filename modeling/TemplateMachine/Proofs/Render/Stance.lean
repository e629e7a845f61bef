import TemplateMachine.Proofs.Render.Invocation

/-! Runs of a single piece of code.  The machine may stand at the code of any expression or
statement of a site, wherever that is in the program; from there it comes to what the walk of the
piece comes to, if there is enough stack. -/

namespace TemplateMachine

/-- The machine has a run to the outcome of a walk: a state that stands
for its value, or its fault. -/
def Setup.ComesTo {α : Type} (setup : Setup) (m : Machine)
    (out : EStateM.Result (Stop Fault) World α) (final : α → World → Machine → Prop) : Prop :=
  match out with
  | .ok a w => ∃ k m', Reaches setup k m m' ∧ final a w m'
  | .error (.fault fault) w =>
    ∃ k m' e m'', Reaches setup k m m' ∧ Exec.step setup m' = .error e m'' ∧
      e.fault? = some fault ∧ m''.Unwinds w
  | .error .outOfFuel _ => False

/-- Where the machine may stand when it begins code of a site. -/
structure Setup.Stance (setup : Setup) (cells : Cells) (site : Site) where
  coding : Coding
  store : Store
  pose : Pose
  address : Nat
  last : Nat × Opcode
  valid : setup.Valid store
  renders : site.Renders setup coding store pose 0

section

variable {setup : Setup} {cells : Cells} {site : Site} {m : Machine} {code : List Instruction}
variable {w : World}

/-- A walk that comes to an end, or fails, is the outcome of every run that has enough stack. -/
theorem Leads.comesTo {α : Type} {floor : Nat} {out : EStateM.Result (Stop Fault) World α}
    {final : α → World → Machine → Prop} (h : Leads setup .free floor ⊤ m out final)
    (hroom : setup.Suffices m) : setup.ComesTo m out final := by
  rcases h hroom.bounded with ⟨k, m', e, m'', hpath, hbreaks, hallows⟩ | hmeets
  · exact absurd hallows (hroom.goesOn _ _ _ _ hpath.reaches hbreaks.step)
  · cases out with
    | ok a w' =>
      obtain ⟨k, m', hpath, hfinal⟩ := hmeets
      exact ⟨k, m', hpath.reaches, hfinal⟩
    | error e w' =>
      cases e with
      | fault fault =>
        obtain ⟨k, m', e, m'', hpath, hbreaks, hfault, hunwinds⟩ := hmeets
        exact ⟨k, m', e, m'', hpath.reaches, hbreaks.step, hfault, hunwinds⟩
      | outOfFuel =>
        obtain ⟨k, m', hk, -⟩ := hmeets
        exact absurd hk (by simp)

namespace Setup.Stance

variable (b : setup.Stance cells site)

/-- The machine in a world. -/
def machine (w : World) : Machine := .of cells b.address b.pose w b.store b.last

/-- The machine stands at the code of an expression. -/
def HoldsExpression (e : Expression) (code : List Instruction) : Prop :=
  b.coding.expression e code ∧ b.store.HasCode b.address code

/-- The machine stands at the code of a statement. -/
def HoldsStatement (mode : AttrMode) (s : Statement) (code : List Instruction) : Prop :=
  b.coding.statement mode s code ∧ b.store.HasCode b.address code

/-- The machine stands behind the code, in the pose that it began it in. -/
def Past (code : List Instruction) (w : World) (m : Machine) : Prop :=
  Stands setup cells (b.address + 4 * code.length) b.pose w b.store m

/-- The machine stands behind the code, with a reference pushed. -/
def Pushed (code : List Instruction) (r : Reference) (w : World) (m : Machine) : Prop :=
  Stands setup cells (b.address + 4 * code.length) (b.pose.push (.ref r)) w b.store m

variable {b}

theorem stands (w : World) : Stands setup cells b.address b.pose w b.store (b.machine w) :=
  ⟨b.store, b.last, b.store.le_refl, b.valid, rfl⟩

/-- The code of an expression pushes its value. -/
theorem HoldsExpression.comesTo {e : Expression} (h : b.HoldsExpression e code)
    (hserves : setup.Serves) (hroom : setup.Suffices (b.machine w)) :
    setup.ComesTo (b.machine w) (Walk.expression (setup.scene cells) site e w) (b.Pushed code) := by
  have hleads : Leads setup .free 0 ⊤ (b.machine w) (Walk.expression (setup.scene cells) site e w)
      (b.Pushed code) :=
    leads_expression hserves e (b.stands w) b.renders.toReads h.1 h.2
  exact hleads.comesTo hroom

/-- The code of a statement does what the statement does.  The walk need not go deeper than the
stack is high. -/
theorem HoldsStatement.comesTo {mode : AttrMode} {s : Statement} (h : b.HoldsStatement mode s code)
    (hserves : setup.Serves) (hroom : setup.Suffices (b.machine w)) :
    setup.ComesTo (b.machine w)
      (Walk.statement (setup.scene cells) site
        (Walk.call (setup.scene cells) setup.maxStack) mode s w)
      fun _ => b.Past code := by
  have hsim : Simulates setup cells 1 ⊤ (Walk.call (setup.scene cells) setup.maxStack) :=
    simulates_call hserves cells setup.maxStack (.inr (by omega))
  exact (leads_statement hserves hsim mode s (b.stands w) b.renders h.1 h.2).comesTo hroom

/-- The code of a value that is neither an inline form nor to be tested for a
component, and its content. -/
theorem append_plain {mode : AttrMode} {e : Expression}
    (h : b.coding.statement mode (.append e false) code)
    (hinline : Compilable.inline? setup.options.lookup site.referer e = none)
    (hget : e.isGet = false) :
    ∃ push, b.coding.expression e push ∧ code = push ++ [⟨.dynamicContent, 0, 0, 0⟩] := by
  have h : b.coding.append e false code := h
  unfold Coding.append at h
  rw [b.renders.lookup cells, b.renders.referer] at h
  rw [show (setup.scene cells).lookup = setup.options.lookup from rfl, hinline] at h
  simp only [hget, Bool.or_self, Bool.false_eq_true, if_false] at h
  exact h

/-- Code that appends such a value begins with the code of the value. -/
theorem HoldsStatement.expression {mode : AttrMode} {e : Expression}
    (h : b.HoldsStatement mode (.append e false) code)
    (hinline : Compilable.inline? setup.options.lookup site.referer e = none)
    (hget : e.isGet = false) :
    ∃ push, b.HoldsExpression e push := by
  obtain ⟨push, hpush, rfl⟩ := append_plain h.1 hinline hget
  exact ⟨push, hpush, h.2.append.1⟩

end Setup.Stance

end

/-! ### Statements of a template -/

/-- The code of statements begins with the code of those that come first. -/
theorem Coding.statements_append {k : Coding} {mode : AttrMode} {before rest : List Statement}
    {code : List Instruction} (h : k.statements mode (before ++ rest) code) :
    ∃ passed more, k.statements mode before passed ∧ k.statements mode rest more ∧
    code = passed ++ more := by
  induction before generalizing code with
  | nil => exact ⟨[], code, rfl, h, rfl⟩
  | cons s before ih =>
    obtain ⟨first, others, hfirst, hothers, rfl⟩ := h
    obtain ⟨passed, more, hpassed, hmore, rfl⟩ := ih hothers
    exact ⟨first ++ passed, more, ⟨first, passed, hfirst, hpassed, rfl⟩, hmore,
      (List.append_assoc ..).symm⟩

/-- The machine before a render, with the first instruction to be executed at an address. -/
def Setup.Stance.start {setup : Setup} {layout : Layout} {l l' : Linkage} (hadmits : setup.Admits l)
    (hl : l' ≤ l) (hwell : layout.template.wellFormed) (self : Json) (symbols address : Nat) :
    setup.Stance (.single self) ⟨layout, .start, none⟩ where
  coding := ⟨setup.options.lookup, setup.options.strategy, l', layout⟩
  store := .start l symbols
  pose := .start
  address
  last := (0, .ret)
  valid := hadmits
  renders := ⟨⟨⟨rfl, rfl, hl, hwell⟩, rfl,
    ⟨0, [], _, rfl, rfl, (Store.holds_root _ _).bindValue 0 _⟩⟩, rfl,
    Nat.zero_le _⟩

namespace Request

variable {q : Request} {strategy : Strategy} {maxStack : Nat} {handle : UInt32} {program : Program}
variable {block : Block}

/-- The machine may stand at the code of each statement of a template. -/
theorem Compiled.stance (h : q.Compiled strategy maxStack q.entry handle program)
    (hblock : program.heap.block? handle = some block) {before rest : List Statement}
    {s : Statement} (hstatements : q.template.statements = before ++ s :: rest) :
    ∃ (b : (q.setup strategy maxStack).Stance (.single q.self) ⟨q.entry.layout, .start, none⟩)
      (passed code : List Instruction),
      b.coding.statements .element before passed ∧
      b.HoldsStatement .element s code ∧
      b.machine {} = .start program (block.offset.toNat + 4 * passed.length)
        block.scopeSize.toNat q.self := by
  obtain ⟨l, rfl, hadmits, htemplate, block', code, l', hblock', hholds, hl, hcode⟩ := h.sound
  obtain rfl := Option.some.inj (hblock.symm.trans hblock')
  have hcode : Coding.statements ⟨q.registry.lookup, strategy, l', q.entry.layout⟩ .element
      q.template.statements code := hcode
  rw [hstatements] at hcode
  obtain ⟨passed, more, hpassed, ⟨code, others, hs, -, rfl⟩, rfl⟩ := Coding.statements_append hcode
  have hholds := (Heap.Holds.append (Heap.Holds.append (Heap.Holds.append hholds).1).2).1
  exact ⟨.start hadmits hl (hadmits.wellFormed _ htemplate) q.self block.scopeSize.toNat
    (block.offset.toNat + 4 * passed.length), passed, code, hpassed, ⟨hs, hholds⟩, rfl⟩

end Request

end TemplateMachine
