import TemplateMachine.Proofs.Emission.Failure
import TemplateMachine.Proofs.Run.Block

/-! Calls of blocks with values from the stack, step by step.  Up to the call nothing depends on
what the block does, so the machine may be in any state that has the values on its stack. -/

namespace TemplateMachine

/-! ### Steps within a height -/

/-- The machine goes on until it has no stack left. -/
def Setup.Overflows (setup : Setup) (m : Machine) : Prop :=
  ∃ k m' m'', Reaches setup k m m' ∧
    Exec.step setup m' = .error (.fault (.stackOverflow m''.stack.size setup.maxStack)) m''

/-- The machine comes to a state by way of others whose stacks are no higher than so much, if it has
stack for them. -/
def Setup.Climbs (setup : Setup) (height : Nat) (m : Machine) (final : Machine → Prop) : Prop :=
  (setup.maxStack < height ∧ setup.Overflows m) ∨ ∃ k m', Reaches setup k m m' ∧ final m'

/-- The store with another program. -/
def Store.linked (t : Store) (q : Program) : Store :=
  { t with linkage := { t.linkage with program := q } }

section

variable {setup : Setup} {cells : Cells} {a height : Nat} {p : Pose} {w : World} {t : Store}
variable {current : Nat × Opcode} {m m' : Machine} {i : Instruction} {rest : List Instruction}
variable {final : Machine → Prop}

open Exec (bind_apply pop_of)

namespace Setup.Climbs

theorem done (h : final m) : setup.Climbs height m final := .inr ⟨0, m, .refl m, h⟩

/-- An instruction that succeeds. -/
theorem step {b : Nat} {q : Pose} {u : Store} (hcode : t.HasCode a (i :: rest)) (hop : i.op ≠ .ret)
    (hperform : Exec.perform a i setup (.of cells (a + 4) p w t (a, i.op)) =
      .ok () (.of cells b q w u (a, i.op)))
    (hsize : q.stack.size ≤ height)
    (h : ∀ current, setup.Climbs height (.of cells b q w u current) final) :
    setup.Climbs height (.of cells a p w t current) final := by
  have hstep := Exec.step_apply (m := .of cells a p w t current) setup hcode
  rw [show Exec.perform _ i setup (Machine.fetched _ i) = _ from hperform] at hstep
  simp only [hop, false_and, if_false] at hstep
  by_cases hstack : setup.maxStack < q.stack.size
  · rw [if_pos (show setup.maxStack < (Machine.of cells b q w u _).stack.size from hstack)] at hstep
    exact .inl ⟨Nat.lt_of_lt_of_le hstack hsize, 0, _, _, .refl _, hstep⟩
  · rw [if_neg (show ¬setup.maxStack < (Machine.of cells b q w u _).stack.size from
      hstack)] at hstep
    rcases h (a, i.op) with ⟨hmax, k, m₁, m₂, hr, hover⟩ | ⟨k, m₁, hr, hfinal⟩
    · exact .inl ⟨hmax, k + 1, m₁, m₂, .step hstep hr, hover⟩
    · exact .inr ⟨k + 1, m₁, .step hstep hr, hfinal⟩

/-- Where there is stack enough, the state is reached. -/
theorem reaches (h : setup.Climbs height m final) (hstack : height ≤ setup.maxStack) :
    ∃ k m', Reaches setup k m m' ∧ final m' :=
  h.resolve_left fun ⟨hmax, _⟩ => Nat.not_lt.mpr hstack hmax

/-! ### Pushing a block -/

theorem primitive {prim : Primitive} {k : Coding} {code : List Instruction}
    (hk : k.linkage = t.linkage) (hshape : k.primitive prim code)
    (hcode : t.HasCode a (code ++ rest)) (hsize : p.stack.size < height)
    (h : ∀ current, setup.Climbs height
      (.of cells (a + 4 * code.length) (p.push (.primitive prim)) w t current) final) :
    setup.Climbs height (.of cells a p w t current) final := by
  obtain ⟨word, hword, rfl⟩ := hshape
  rw [Coding.constants, hk] at hword
  refine step hcode (by simp) ?_ ?_ h
  · simp only [Exec.perform, bind_apply, Exec.constant_of (fun c w => Primitive.decode? w c) hword]
    rfl
  · exact (p.size_push _).le.trans hsize

/-- What was compiled has a handle, whether it is linked now or was before. -/
theorem pushBlock {k : Coding} {f : Fragment} {push : List Instruction}
    {handle : UInt32} {q : Program} (hk : k.linkage = t.linkage) (hshape : k.block (some f) push)
    (hcode : t.HasCode a (push ++ (k.resolve ++ rest)))
    (hcompile : setup.options.compile f t.linkage.program = .ok handle q)
    (hsize : p.stack.size < height)
    (h : ∀ v current, v.toHandle? = some handle → setup.Climbs height
      (.of cells (a + 4 * (push.length + k.resolve.length)) (p.push v) w
        (t.linked q) current) final) :
    setup.Climbs height (.of cells a p w t current) final := by
  unfold Coding.block at hshape
  unfold Coding.resolve at hcode h
  cases hs : k.strategy with
  | lazy =>
    simp only [hs] at hshape hcode h
    obtain ⟨index, -, hindex, rfl⟩ := hshape
    rw [Coding.constants, hk] at hindex
    refine step hcode (by simp) (b := a + 4) (q := p.push (.fragment f)) (u := t) ?_ ?_
      fun current => ?_
    · simp only [Exec.perform, bind_apply, Exec.constant_of (fun c => c.fragments.get?) hindex]
      rfl
    · exact (p.size_push _).le.trans hsize
    · refine step hcode.tail (by simp) (q := p.push (.handle handle)) ?_ ?_
        fun current => h (.handle handle) current rfl
      · simp only [Exec.perform, Exec.compileBlock, bind_apply, pop_of, Exec.link_of, hcompile]
        rfl
      · exact (p.size_push _).le.trans hsize
  | eager =>
    simp only [hs] at hshape hcode h
    obtain ⟨handle', -, hlinked, hpush⟩ := hshape
    rw [hk] at hlinked
    obtain ⟨rfl, rfl⟩ : handle' = handle ∧ t.linkage.program = q := by
      rcases Link.fragment_ok hcompile with ⟨hfound, rfl⟩ | ⟨hnone, -⟩
      · exact ⟨Option.some.inj (hlinked.symm.trans hfound), rfl⟩
      · cases hlinked.symm.trans hnone
    exact primitive hk hpush hcode hsize fun current => h _ current (Binary64.toWord?_ofNat handle')

theorem invokeVirtual {b c d handle : UInt32} {v : Value} {block : Block}
    (hcode : t.HasCode a (⟨.invokeVirtual, b, c, d⟩ :: rest)) (hv : v.toHandle? = some handle)
    (hblock : t.linkage.program.heap.block? handle = some block) (hsize : p.stack.size ≤ height)
    (h : ∀ current, setup.Climbs height
      (.of cells block.offset.toNat (p.returning (a + 4)) w t current) final) :
    setup.Climbs height (.of cells a (p.push v) w t current) final := by
  refine step hcode (by simp) (q := p.returning (a + 4)) ?_ hsize h
  rw [Exec.perform, Exec.invokeVirtual_of hv]
  simp only [Exec.call, bind_apply, Exec.get_apply]
  rw [show (Machine.of cells (a + 4) p w t (a, .invokeVirtual)).program = t.linkage.program from
    rfl, Heap.address?, hblock]
  rfl

/-! ### Binding parameters -/

/-- Parameters are bound to the values below the frame, in a scope that was just entered. -/
theorem bindParameters {depth : UInt32} {symbols : List UInt32} {values : List Reference}
    {scope : Scope} (hdepth : depth.toNat = values.length) (hfp : values.length ≤ p.fp)
    (hlength : symbols.length ≤ values.length)
    (hvalues : ∀ (i : Nat) r, values[i]? = some r →
      p.stack[p.fp - values.length + i]? = some (.ref r))
    (hsize : p.stack.size < height) (hcode : t.HasCode a (Coding.bindParameters depth symbols))
    (h : ∀ current, setup.Climbs height
      (.of cells (a + 4 * (Coding.bindParameters depth symbols).length)
        (p.enter t.scopes.entries.size) w
        { t with scopes := ⟨t.scopes.entries.push
          (Exec.bindParameters scope symbols values)⟩ } current)
      final) :
    setup.Climbs height
      (.of cells a (p.enter t.scopes.entries.size) w
        { t with scopes := ⟨t.scopes.entries.push scope⟩ } current) final := by
  induction symbols generalizing depth values scope a current with
  | nil => exact h current
  | cons symbol symbols ih =>
    cases values with
    | nil => simp at hlength
    | cons r values =>
      simp only [List.length_cons] at hdepth hfp hlength hvalues
      have hdepth' : (depth - 1).toNat = values.length := by
        rw [UInt32.toNat_sub_of_le _ _ (UInt32.le_iff_toNat_le.mpr (by simp [hdepth]))]
        simp [hdepth]
      have hvalue : p.stack[p.fp - depth.toNat]? = some (.ref r) := by
        have := hvalues 0 r rfl
        rwa [Nat.add_zero, ← hdepth] at this
      refine step hcode (by simp)
        (Exec.dup_fp_of (p := p.enter t.scopes.entries.size) (by rw [hdepth]; exact hfp) hvalue)
        ((p.size_push _).le.trans hsize) fun current => ?_
      refine step hcode.tail (by simp) (Exec.setVariable_of (p := p) (u := t) r symbol 0 0)
        (Nat.le_of_lt hsize) fun current => ?_
      refine ih hdepth' (by omega) (by omega) (fun i v hv => ?_) hcode.tail.tail fun current => ?_
      · have := hvalues (i + 1) v hv
        rwa [show p.fp - (values.length + 1) + (i + 1) = p.fp - values.length + i by omega] at this
      · have hcurrent := h current
        rwa [Coding.bindParameters, List.length_cons, List.length_cons,
          show a + 4 * ((Coding.bindParameters (depth - 1) symbols).length + 1 + 1) =
            a + 4 + 4 + 4 * (Coding.bindParameters (depth - 1) symbols).length by omega] at hcurrent

end Setup.Climbs

/-! ### Scopes with parameters -/

/-- The scopes when a block is called: with parameters there is one more, a copy of the current one
in which they are bound. -/
def Scopes.opened (s : Scopes) (number : Nat) (symbols : List UInt32)
    (values : List Reference) : Scopes :=
  if symbols.isEmpty then
    s else ⟨s.entries.push (Exec.bindParameters (s.get number) symbols values)⟩

/-- The scope that is entered for parameters, if there are any. -/
def Scopes.inner? (s : Scopes) (symbols : List UInt32) : Option Nat :=
  if symbols.isEmpty then none else some s.entries.size

theorem Scopes.isSome_inner? (s : Scopes) (symbols : List UInt32) :
    (s.inner? symbols).isSome = !symbols.isEmpty := by
  cases symbols <;> rfl

theorem Scopes.keeps_opened (s : Scopes) (number : Nat) (symbols : List UInt32)
    (values : List Reference) :
    Keeps s.entries (s.opened number symbols values).entries := by
  cases symbols with
  | nil => exact .refl _
  | cons symbol rest => exact keeps_push _ _

/-- The scope that the block is called in holds the parameters, whether it is a new one or not. -/
theorem Scopes.get_opened (s : Scopes) {number : Nat} {others : List Nat} {symbols : List UInt32}
    (values : List Reference) (hstack : p.scopeStack = number :: others) :
    ∃ inner rest, (p.inside (s.inner? symbols)).scopeStack = inner :: rest ∧
      (s.opened number symbols values).get inner =
        Exec.bindParameters (s.get number) symbols values := by
  cases symbols with
  | nil => exact ⟨number, others, hstack, rfl⟩
  | cons symbol rest =>
    exact ⟨s.entries.size, p.scopeStack, rfl, Exec.scopes_get Array.getElem?_push_size⟩

namespace Setup.Climbs

variable {number : Nat} {others : List Nat} {values : List Reference} {supplied : UInt32}

theorem enterParameters {symbols : List UInt32} (hsupplied : supplied.toNat = values.length)
    (hlength : symbols.length ≤ values.length) (hstack : p.scopeStack = number :: others)
    (hcode : t.HasCode a (Coding.enterParameters supplied symbols))
    (hsize : p.stack.size + values.length + 2 < height)
    (h : ∀ current, setup.Climbs height
      (.of cells (a + 4 * (Coding.enterParameters supplied symbols).length)
        (((p.pushAll (values.map .ref)).within p.ra []).inside (t.scopes.inner? symbols)) w
        { t with scopes := t.scopes.opened number symbols values } current) final) :
    setup.Climbs height (.of cells a ((p.pushAll (values.map .ref)).within p.ra []) w t current)
      final := by
  cases symbols with
  | nil => exact h current
  | cons symbol symbols =>
    refine step hcode (by simp) (Exec.childScope_of hstack) ?_ fun current => ?_
    · simp
      omega
    · refine bindParameters hsupplied (by simp [Pose.within, Pose.pushAll]) hlength
        (fun i r hi => Pose.getElem?_within hi) ?_ hcode.tail fun current => ?_
      · simp
        omega
      · have hcurrent := h current
        unfold Coding.enterParameters at hcurrent
        simp only [List.isEmpty_cons, Bool.false_eq_true, if_false, List.length_cons] at hcurrent
        rwa [show a + 4 * ((Coding.bindParameters supplied (symbol :: symbols)).length + 1) =
          a + 4 + 4 * (Coding.bindParameters supplied (symbol :: symbols)).length by
          omega] at hcurrent

/-- The code that calls a block comes to the first instruction of the block, with what it has pushed
below it, and the rest of the code is what it returns to. -/
theorem staticBlock {k : Coding} {f : Fragment} {code : List Instruction}
    {handle : UInt32} {q : Program} {block : Block} (hk : k.linkage = t.linkage)
    (hshape : k.staticBlock f supplied code) (hcode : t.HasCode a code)
    (hsupplied : supplied.toNat = values.length) (hstack : p.scopeStack = number :: others)
    (hcompile : setup.options.compile f t.linkage.program = .ok handle q)
    (hgrows : t.linkage.program.Grows q) (hblock : q.heap.block? handle = some block)
    (hm : m = .of cells a (p.pushAll (values.map .ref)) w t current) :
    ∃ ra, a < ra ∧ ra + 4 *
      (Coding.leaveParameters (f.table.parameters.take values.length)).length + 4 =
        a + 4 * code.length ∧
      t.HasCode ra (Coding.leaveParameters (f.table.parameters.take values.length) ++
        [⟨.popFrame, 0, 0, 0⟩]) ∧
      setup.Climbs (p.stack.size + values.length + 3) m fun entered => ∃ current,
        entered = .of cells block.offset.toNat
          (((p.pushAll (values.map .ref)).within ra []).inside
            (t.scopes.inner? (f.table.parameters.take values.length))) w
          { t.linked q with
            scopes := t.scopes.opened number (f.table.parameters.take values.length) values }
          current := by
  subst hm
  obtain ⟨push, hpush, rfl⟩ := hshape
  rw [hsupplied] at hcode ⊢
  generalize hsymbols : f.table.parameters.take values.length = symbols at hcode ⊢
  have hlength : symbols.length ≤ values.length := by
    rw [← hsymbols]
    exact List.length_take_le _ _
  simp only [List.cons_append, List.append_assoc] at hcode
  obtain ⟨henter, hcall⟩ := hcode.tail.append
  obtain ⟨-, hinvoke⟩ := (List.append_assoc push k.resolve _ ▸ hcall).append
  let ra := a + 4 + 4 * (Coding.enterParameters supplied symbols).length +
    4 * (push.length + k.resolve.length) + 4
  have hinvoke' : t.HasCode (ra - 4) (⟨.invokeVirtual, 0, 0, 0⟩ ::
      (Coding.leaveParameters symbols ++ [⟨.popFrame, 0, 0, 0⟩])) :=
    hinvoke.at (by simp only [List.length_append]; omega)
  refine ⟨ra, by omega, ?_, hinvoke'.tail.at (by omega), ?_⟩
  · simp only [List.length_cons, List.length_append, List.length_nil]
    omega
  refine step hcode (by simp) Exec.pushFrame_of (by simp) fun current => ?_
  refine enterParameters hsupplied hlength hstack henter (by omega) fun current => ?_
  refine pushBlock hk hpush hcall hcompile (by simp) fun v current hv => ?_
  refine invokeVirtual (Heap.Holds.mono hgrows.words hinvoke') hv hblock (by simp) fun current => ?_
  rw [Pose.returning_inside, Pose.within_returning]
  exact .done ⟨current, rfl⟩

/-- The code behind the call leaves what the code before it has entered. -/
theorem leaveBlock {symbols : List UInt32} {inner : Option Nat} {ra : Nat}
    (hinner : inner.isSome = !symbols.isEmpty)
    (hcode : t.HasCode a (Coding.leaveParameters symbols ++ [⟨.popFrame, 0, 0, 0⟩]))
    (hm : m = .of cells a ((p.within ra []).inside inner) w t current) :
    setup.Climbs (p.stack.size + 2) m fun m' => ∃ current,
      m' = .of cells (a + 4 * (Coding.leaveParameters symbols).length + 4) p w t current := by
  subst hm
  have hframe {b : Nat} {current : Nat × Opcode} (hframe : t.HasCode b [⟨.popFrame, 0, 0, 0⟩]) :
      setup.Climbs (p.stack.size + 2) (.of cells b (p.within ra []) w t current) fun m =>
        ∃ current, m = .of cells (b + 4) p w t current :=
    step hframe (by simp) Exec.popFrame_of (by omega) fun current => .done ⟨current, rfl⟩
  cases symbols with
  | nil =>
    cases inner with
    | none => exact hframe hcode
    | some number => cases hinner
  | cons symbol symbols =>
    cases inner with
    | none => cases hinner
    | some number =>
      refine step hcode (by simp) (q := p.within ra []) rfl (by simp) fun current => ?_
      exact hframe hcode.tail

end Setup.Climbs

end

end TemplateMachine
