import TemplateMachine.Proofs.Emission.StaticBlock
import TemplateMachine.Proofs.Render.Closure
import TemplateMachine.Proofs.Run.Calls
import TemplateMachine.Proofs.Run.Closure
import TemplateMachine.Proofs.Run.StaticBlock

/-! Parameters of static blocks.  A block that is called with values from the stack sees the first
of them in its parameters and the place that it was called from in its other slots, and leaves both
stack and scopes to its caller as they were. -/

namespace TemplateMachine

namespace Machine

/-! ### States in parts -/

def pose (m : Machine) : Pose :=
  ⟨m.stack, m.ra, m.fp, m.registers, m.scopeStack, m.dynamicScopes, m.blockDepth, m.listMarks⟩

def world (m : Machine) : World where
  sink := m.sink
  transactions := m.transactions
  destructors := m.destructors
  events := m.events

/-- The store of a state whose program is that of a linkage. -/
def store (m : Machine) (l : Linkage) : Store := ⟨l, m.scopes, m.components, m.iterators⟩

theorem eq_of (m : Machine) {l : Linkage} (hl : l.program = m.program) :
    m = .of m.cells m.pc m.pose m.world (m.store l) m.current := by
  simp only [Machine.of, pose, store, world, hl]

theorem exists_pose {m : Machine} {lower : Array Value} {values : List Reference}
    (hstack : m.stack = lower ++ (values.map Value.ref).toArray) :
    ∃ p : Pose, p.pushAll (values.map .ref) = m.pose := by
  refine ⟨{ m.pose with stack := lower }, ?_⟩
  simp only [Pose.pushAll, ← hstack]
  rfl

/-- The block of a handle is about to run, with values for its parameters. -/
structure Supplied (m entered : Machine) (q : Program) (handle : UInt32) (parameters : List UInt32)
    (values : List Reference) : Prop where
  program : entered.program = q
  pc : q.heap.address? handle = some entered.pc
  /-- The parameters have values in the scope of the block, which is
  otherwise like the one before. -/
  scope : ∃ number others inner rest, m.scopeStack = number :: others ∧
    entered.scopeStack = inner :: rest ∧
    (entered.scopes.get inner).Closes (m.scopes.get number) parameters values
  scopes : Keeps m.scopes.entries entered.scopes.entries

/-- Control is behind some code, and what the code has worked on is as before. -/
structure Passed (m m' : Machine) (code : List Instruction) : Prop where
  pc : m'.pc = m.pc + 4 * code.length
  /-- The stack, the registers, and the scopes that are entered. -/
  pose : m'.pose = m.pose
  transactions : m'.transactions = m.transactions
  scopes : Keeps m.scopes.entries m'.scopes.entries

end Machine

/-- The state is one that renders come to, of which a fragment is part: the program is sound and
stays small, and the current scope and the current component are those of a place in a template. -/
structure Setup.Ready (setup : Setup) (m : Machine) (f : Fragment) : Prop where
  small : ∀ k m', Reaches setup k m m' → m'.program.Fits
  placed : ∃ (l : Linkage) (slots : Slots) (current : Option Current), l.program = m.program ∧
    setup.Admits l ∧ l.known f.id = some f ∧
    (m.store l).Sees setup.options.strategy m.pose slots ∧
    (m.store l).IsCurrent m.registers.s0 current

section

variable {setup : Setup} {cells : Cells} {p : Pose} {w : World} {t : Store} {m : Machine}

/-- The end of a block is where it is left. -/
theorem Ends.leaves (h : Ends setup cells p w t m) : m.Leaves p.stack.size := by
  obtain ⟨a, i, rest, hop, hcode, hm⟩ := h
  have hholds := hm.hasCode hcode
  obtain ⟨u, current, -, -, rfl⟩ := hm
  exact ⟨i, hholds.next?, hop, Nat.le_refl _⟩

/-- A block that was entered as it should be is left as it was entered, to
where its caller goes on. -/
theorem Setup.CompiledAt.left (hserves : setup.Serves) {f : Fragment} {address j : Nat}
    {slots : Slots} {c : Option Current} {current : Nat × Opcode} {left : Machine}
    (hat : setup.CompiledAt t f address) (hvalid : setup.Valid t)
    (hsees : t.Sees setup.options.strategy p slots) (hcurrent : t.IsCurrent p.registers.s0 c)
    (hra : p.ra ≠ haltAddress) (hbounded : Bounded setup (.of cells address p w t current))
    (hleaves : setup.Leaves j (.of cells address p w t current) left) :
    ∃ w', w'.transactions = w.transactions ∧ Stands setup cells p.ra p w' t left := by
  have hsimulates : Simulates setup cells 0 (j + 1 : Nat) (Walk.call (setup.scene cells) (j + 1)) :=
    simulates_call hserves cells (j + 1) (.inl le_rfl)
  have hleads := hsimulates.compiled (w := w) (Nat.zero_le _) hat hsees hcurrent
    ⟨t, current, t.le_refl, hvalid, rfl⟩
  obtain ⟨_, w', last, hout, hends, hstep⟩ := hleads.leaves hbounded hleaves
    (Nat.cast_lt.mpr (Nat.lt_succ_self j)) fun _ _ _ hends => hends.leaves
  have hw : w'.transactions = w.transactions := hsimulates.balanced _ _ _ _ _ _ hout
  obtain ⟨i, hi, hop, -⟩ := hends.leaves
  have hsize : last.stack.size ≤ setup.maxStack := by
    rw [← Exec.stack_of_ret hi hop hstep]
    exact Exec.stack_of_step hstep
  obtain ⟨-, left', -, -, hstep', -, hm⟩ := hends.returns address current hra hsize hw
  cases hstep.symm.trans hstep'
  exact ⟨w', hw, hm⟩

/-- The block sees the place that it is called from, with values for its parameters. -/
theorem Store.Sees.opened {slots : Slots} {number : Nat} {others : List Nat} {symbols : List UInt32}
    {strategy : Strategy} {u : Store} (h : t.Sees strategy p slots)
    (hscope : p.scopeStack = number :: others) (values : List Reference) (hu : t ≤ u)
    (hscopes : u.scopes = t.scopes.opened number symbols values) :
    u.Sees strategy (p.inside (t.scopes.inner? symbols)) (slots.bindValues symbols values) := by
  cases symbols with
  | nil => exact h.mono hu
  | cons symbol rest =>
    obtain ⟨number', _, scope, hscope', hentry, hholds⟩ := h
    obtain rfl : number = number' := (List.cons.inj (hscope.symm.trans hscope')).1
    refine ⟨t.scopes.entries.size, p.scopeStack, _, rfl, ?_,
      (hholds.mono hu).bindParameters _ values⟩
    rw [hscopes, ← Exec.scopes_get hentry]
    exact Array.getElem?_push_size

/-- Behind the call the code takes back what it has pushed and entered,
when the block has returned. -/
theorem passes_staticBlock (hserves : setup.Serves) {f : Fragment} {handle : UInt32} {q : Program}
    {block : Block} {slots : Slots} {c : Option Current} {number ra j : Nat} {others : List Nat}
    {symbols : List UInt32} {values : List Reference} {current : Nat × Opcode}
    {entered left : Machine} (hvalid : setup.Valid t) (hknown : t.linkage.known f.id = some f)
    (hsees : t.Sees setup.options.strategy p slots) (hcurrent : t.IsCurrent p.registers.s0 c)
    (hscope : p.scopeStack = number :: others)
    (hcompile : setup.options.compile f t.linkage.program = .ok handle q)
    (hblock : q.heap.block? handle = some block)
    (hcode : t.HasCode ra (Coding.leaveParameters symbols ++ [⟨.popFrame, 0, 0, 0⟩]))
    (hentered : entered = .of cells block.offset.toNat
      (((p.pushAll (values.map .ref)).within ra []).inside (t.scopes.inner? symbols)) w
      { t.linked q with scopes := t.scopes.opened number symbols values } current)
    (hbounded : Bounded setup entered) (hleaves : setup.Leaves j entered left) :
    ∃ i m' w' u current, Reaches setup i left m' ∧ w'.transactions = w.transactions ∧
      Keeps t.scopes.entries u.scopes.entries ∧
      m' = .of cells (ra + 4 * (Coding.leaveParameters symbols).length + 4)
        (p.pushAll (values.map .ref)) w' u current := by
  subst hentered
  obtain ⟨l, rfl, hle, hvalid', htemplate, block', code, l', hblock', hbody, hl', hf⟩ :=
    hvalid.link hserves hknown hcompile hbounded.fits
  obtain rfl := Option.some.inj (hblock'.symm.trans hblock)
  let v : Store := { t with linkage := l, scopes := t.scopes.opened number symbols values }
  have hv : t ≤ v := ⟨hle, t.scopes.keeps_opened number symbols values, .refl _, .refl _⟩
  have hat : setup.CompiledAt v f block'.offset.toNat :=
    ⟨hvalid'.wellFormed _ htemplate, code, l', hbody, hl', hf⟩
  have hm : Stands setup cells block'.offset.toNat
      (((p.pushAll (values.map .ref)).within ra []).inside (t.scopes.inner? symbols)) w v
      (.of cells block'.offset.toNat _ w v current) := ⟨v, current, v.le_refl, hvalid', rfl⟩
  have hra : ra ≠ haltAddress :=
    hm.ne_haltAddress hbounded.fits (hcode.mono hv) (by simp) (Nat.le_add_right _ _)
  have hsees' := hsees.opened hscope values hv rfl
  generalize hinner : t.scopes.inner? symbols = inner at *
  obtain ⟨w', hw, hm⟩ : ∃ w', w'.transactions = w.transactions ∧ Stands setup cells ra
      (((p.pushAll (values.map .ref)).within ra []).inside inner) w' v left := by
    cases inner <;> exact hat.left hserves hvalid' (hsees'.of_scopeStack rfl) (hcurrent.mono hv) hra
      hbounded hleaves
  obtain ⟨_, -, -, hstep⟩ := hleaves
  have hsize := Exec.stack_of_step hstep
  obtain ⟨u, current', hu, -, hleft⟩ := hm
  have hsome : inner.isSome = !symbols.isEmpty := hinner ▸ t.scopes.isSome_inner? symbols
  have hheight : (p.pushAll (values.map .ref)).stack.size + 2 ≤ setup.maxStack := by
    rw [hleft] at hsize
    simpa [Machine.of] using hsize
  obtain ⟨i, m', hr, current'', hm'⟩ :=
    (Setup.Climbs.leaveBlock hsome ((hcode.mono hv).mono hu) hleft).reaches hheight
  exact ⟨i, m', w', u, current'', hr, hw, hv.scopes.trans hu.scopes, hm'⟩

end

/-- Whatever block is called with values from the stack, the code for it gives the first of the
values to its parameters, in a scope that is otherwise like the current one, and enters the block,
if there is stack for that.  A block that then returns in a render leaves the stack with the values,
the registers and the scopes that are entered as they were, and no scope that there was before has
been written to. -/
theorem Emit.invokeStaticBlock_binds {setup : Setup} (hserves : setup.Serves) {outer f : Fragment}
    {fuel : Nat} {supplied : UInt32} {b b' : Builder} {code : List Instruction}
    (hclosed : b.program.constants.Closed) (hown : b.program.constants.Identifies f)
    (hemit : Emit.invokeStaticBlock f supplied
      (outer.context setup.options.lookup setup.options.strategy fuel) b = .ok () b')
    (hcode : b'.code.toList = b.code.toList ++ code)
    {m : Machine} {values : List Reference} {lower : Array Value} {number : Nat} {others : List Nat}
    {handle : UInt32} {q : Program} {block : Block} (hgrows : b'.program.Grows m.program)
    (hfits : m.program.Fits) (hconstants : m.program.constants.Closed)
    (hholds : m.program.heap.Holds m.pc code)
    (hstack : m.stack = lower ++ (values.map Value.ref).toArray)
    (hsupplied : supplied.toNat = values.length) (hscope : m.scopeStack = number :: others)
    (hcompile : setup.options.compile f m.program = .ok handle q)
    (hblock : q.heap.block? handle = some block) :
    (setup.maxStack < m.stack.size + 3 ∧ setup.Overflows m) ∨
      ∃ k entered, Reaches setup k m entered ∧
        m.Supplied entered q handle (f.table.parameters.take values.length) values ∧
        (setup.Ready m f → ∀ j left, setup.Leaves j entered left →
          ∃ i m', Reaches setup i left m' ∧ m.Passed m' code) := by
  let free : Linkage := ⟨m.program, fun _ => some f, fun _ => True⟩
  have hshape := Emit.invokeStaticBlock_ok hemit hclosed hown (l := free) hgrows hfits rfl hcode
  have hgrows' : m.program.Grows q := by
    have hadvances : m.program.Advances setup.options.strategy _ := .of_compile hconstants f
    rw [hcompile] at hadvances
    exact hadvances.grows
  obtain ⟨p, hpose⟩ := Machine.exists_pose hstack
  have hscope' : p.scopeStack = number :: others := (congrArg Pose.scopeStack hpose).trans hscope
  have hsize : p.stack.size + values.length = m.stack.size := by
    rw [show m.stack = m.pose.stack from rfl, ← hpose, Pose.size_pushAll, List.length_map]
  have hm := m.eq_of (l := free) rfl
  rw [← hpose] at hm
  obtain ⟨ra, -, hend, hleave, hclimbs⟩ := Setup.Climbs.staticBlock (t := m.store free) rfl hshape
    hholds hsupplied hscope' hcompile hgrows' hblock hm
  rcases hclimbs with ⟨hmax, hover⟩ | ⟨k, entered, hr, current, hentered⟩
  · exact .inl ⟨hsize ▸ hmax, hover⟩
  refine .inr ⟨k, entered, hr, ?_, fun hready j left hleaves => ?_⟩
  · subst hentered
    refine ⟨rfl, ?_, ?_, m.scopes.keeps_opened number _ values⟩
    · rw [Heap.address?, hblock]
      rfl
    · obtain ⟨inner, rest, hinner, hget⟩ := m.scopes.get_opened values
        (p := (p.pushAll (values.map .ref)).within ra []) hscope'
      refine ⟨number, others, inner, rest, hscope, hinner, ?_⟩
      show ((m.scopes.opened number _ values).get inner).Closes _ _ _
      rw [hget]
      exact Scope.closes_bindParameters _ _ _
  · obtain ⟨⟨_, known, templates⟩, slots, c, rfl, hvalid, hknown, hsees, hcurrent⟩ := hready.placed
    have hlow : entered.stack.size ≤ setup.maxStack := by
      refine hr.stack.resolve_left fun heq => ?_
      have := congrArg (fun m => m.stack.size) (heq.symm.trans hentered)
      simp [Machine.of] at this
      omega
    have hbounded : Bounded setup entered := Reaches.bounded (fun i m' hi =>
      ⟨hready.small _ m' (hr.trans hi), (hr.trans hi).closed hconstants⟩) hlow
    rw [← hpose] at hsees
    rw [← show p.registers = m.registers from congrArg Pose.registers hpose] at hcurrent
    obtain ⟨i, m', w', u, current', hi, hw, hscopes, rfl⟩ := passes_staticBlock hserves
      (t := m.store ⟨m.program, known, templates⟩) (p := p) hvalid hknown
      (hsees.of_scopeStack rfl) hcurrent hscope' hcompile hblock hleave hentered hbounded hleaves
    exact ⟨i, _, hi, hend, hpose, hw, hscopes⟩

/-! ### A block with a repeated parameter -/

/-- The machine where a block is left: after the first return that finds no more than so much on the
stack. -/
def Machine.left? (setup : Setup) (floor : Nat) : Nat → Machine → Option Machine
  | 0, _ => none
  | n + 1, m =>
    match m.next?, Exec.step setup m with
    | some i, .ok true m' =>
      if i.op = .ret ∧ m.stack.size ≤ floor then some m' else m'.left? setup floor n
    | _, _ => none

theorem Machine.within_of_left? {setup : Setup} {floor n : Nat} {m left : Machine}
    (h : m.left? setup floor n = some left) :
    ∃ j last, Within setup floor j m last ∧ last.Leaves floor ∧ Exec.step setup last =
    .ok true left := by
  induction n generalizing m with
  | zero => cases h
  | succ n ih =>
    unfold left? at h
    split at h
    · rename_i i m' hi hstep
      split at h
      · rename_i hleaves
        cases h
        exact ⟨0, m, .refl m, ⟨i, hi, hleaves.1, hleaves.2⟩, hstep⟩
      · rename_i hstays
        obtain ⟨j, last, hwithin, hlast⟩ := ih h
        refine ⟨j + 1, last, .step ?_ hstep hwithin, hlast⟩
        rintro ⟨i', hi', hop, hsize⟩
        obtain rfl := Option.some.inj (hi.symm.trans hi')
        exact hstays ⟨hop, hsize⟩
    · cases h

/-- The machine stops, and before that it leaves each block that it enters at an address. -/
def Machine.leavesAlways (setup : Setup) (address : Nat) : Nat → Machine → Bool
  | 0, _ => false
  | n + 1, m =>
    (m.pc != address || (m.left? setup m.stack.size n).isSome) &&
      match Exec.step setup m with
      | .ok true m' => m'.leavesAlways setup address n
      | _ => true

theorem Machine.leaves_of_leavesAlways {setup : Setup} {n k : Nat} {m entered : Machine}
    (h : m.leavesAlways setup entered.pc n) (hr : Reaches setup k m entered) :
    ∃ j left, setup.Leaves j entered left := by
  induction hr generalizing n with
  | refl m =>
    cases n with
    | zero => cases h
    | succ n =>
      simp only [leavesAlways, bne_self_eq_false, Bool.false_or, Bool.and_eq_true] at h
      obtain ⟨left, hleft⟩ := Option.isSome_iff_exists.mp h.1
      obtain ⟨j, last, hleaves⟩ := within_of_left? hleft
      exact ⟨j, left, last, hleaves⟩
  | step hs _ ih =>
    cases n with
    | zero => cases h
    | succ n =>
      simp only [leavesAlways, Bool.and_eq_true, hs] at h
      exact ih h.2

/-- A template with a block that names one of its parameters twice. -/
def twice : Layout :=
  ⟨{ statements := []
     symbols := ["a", "b"]
     hasEval := false
     blocks := [⟨[.append (.get 1 []) false], [1, 1, 2]⟩] },
   "main"⟩

def twiceBlock : Fragment := .ofBlock (.nested 0) twice ⟨[.append (.get 1 []) false], [1, 1, 2]⟩

/-- The call of the block with four values. -/
def twiceCall : Builder :=
  stateAfter (Emit.invokeStaticBlock twiceBlock 4
    ((Fragment.ofLayout .entry twice).context Program.greetingSetup.options.lookup
      Program.greetingSetup.options.strategy 0)
    { program := { fresh := 1 } })

def twiceProgram : Program :=
  { twiceCall.program with
    heap := twiceCall.program.heap.commit 0 (twiceCall.code.toList ++ [⟨.ret, 0, 0, 0⟩]) 3 }

def twiceValues : List Reference := ["one", "two", "three", "four"].map fun s => .ofJson (.str s)

def twiceMachine : Machine :=
  { Machine.start twiceProgram 0 2 .null with stack := (twiceValues.map Value.ref).toArray }

theorem twice_leaves :
    (match Program.greetingSetup.options.compile twiceBlock twiceProgram with
      | .error .. => false
      | .ok handle q =>
        match q.heap.address? handle with
        | none => false
        | some address => twiceMachine.leavesAlways Program.greetingSetup address 40) = true := by
  decide +kernel

theorem greetingSetup_serves : Program.greetingSetup.Serves where
  coherent := Registry.coherent {}
  helper _ _ handle h := (Registry.host_backs {}).helper handle (Registry.handleOf_lt h)
  modifier _ _ handle h := (Registry.host_backs {}).modifier handle (Registry.handleOf_lt h)

/-- The linkage in which the block is known. -/
def twiceLinkage : Linkage where
  program := twiceProgram
  known id := if id = .nested 0 then some twiceBlock else none
  templates layout := layout = twice

theorem twiceLinkage_known {id : FragmentId} {f : Fragment} (h : twiceLinkage.known id = some f) :
    id = .nested 0 ∧ f = twiceBlock := by
  simp only [twiceLinkage] at h
  split at h
  · exact ⟨‹_›, (Option.some.inj h).symm⟩
  · cases h

/-- The only new constant is the block. -/
theorem twice_constants :
    twiceProgram.constants = { Constants.initial with fragments := ⟨#[twiceBlock]⟩ } := by
  with_unfolding_all rfl

theorem twice_closed : twiceProgram.constants.Closed := by
  rw [twice_constants]
  exact Constants.closed_initial.mono (.refl _) rfl

theorem twice_fragments {index : UInt32} {f : Fragment}
    (h : twiceProgram.constants.fragments.get? index = some f) : f = twiceBlock := by
  rw [twice_constants, Pool.get?, Array.getElem?_singleton] at h
  split at h
  · exact (Option.some.inj h).symm
  · cases h

theorem twice_admits : Program.greetingSetup.Admits twiceLinkage where
  empty := rfl
  fragments index f h := by
    obtain rfl := twice_fragments h
    rfl
  ids id f h := by
    obtain ⟨rfl, rfl⟩ := twiceLinkage_known h
    rfl
  fresh n f h := by
    obtain ⟨hid, -⟩ := twiceLinkage_known h
    cases hid
    decide +kernel
  layouts _ _ h := nomatch h
  partials _ _ h := nomatch h
  templates id f h := by
    obtain ⟨-, rfl⟩ := twiceLinkage_known h
    rfl
  regular id f h := by
    obtain ⟨-, rfl⟩ := twiceLinkage_known h
    exact .block _ _ List.mem_cons_self
  linked _ _ h := nomatch h
  reserved _ h := nomatch h
  distinct _ _ _ h := nomatch h
  wellFormed layout h := by
    obtain rfl : layout = twice := h
    rfl

theorem twice_ready : Program.greetingSetup.Ready twiceMachine twiceBlock where
  small k m' hr := Machine.fits_of_stopsSmall (n := 40) (by decide +kernel) hr
  placed := ⟨twiceLinkage, .start, none, rfl, twice_admits, rfl,
    ⟨0, [], _, rfl, rfl, (Store.holds_root _ _).bindValue 0 _⟩, rfl⟩

/-- Of four values the block takes three, of which the second is what its repeated parameter has in
the end; it is left, and everything is as before. -/
theorem twice_binds : ∃ q handle k j i entered left m',
    Reaches Program.greetingSetup k twiceMachine entered ∧
      twiceMachine.Supplied entered q handle [1, 1, 2] twiceValues ∧
      Program.greetingSetup.Leaves j entered left ∧ Reaches Program.greetingSetup i left m' ∧
      twiceMachine.Passed m' twiceCall.code.toList := by
  have hleaves := twice_leaves
  split at hleaves
  · cases hleaves
  · rename_i handle q hcompile
    split at hleaves
    · cases hleaves
    · rename_i address haddress
      obtain ⟨block, hblock, -⟩ := Option.map_eq_some_iff.mp haddress
      obtain ⟨u, hemit⟩ := eq_ok_of_hasResult (r := Emit.invokeStaticBlock twiceBlock 4
        ((Fragment.ofLayout .entry twice).context Program.greetingSetup.options.lookup
          Program.greetingSetup.options.strategy 0) { program := { fresh := 1 } })
            (by decide +kernel)
      have hown : Constants.initial.Identifies twiceBlock := fun _ _ h => by
        simp [Constants.initial, Pool.get?] at h
      have hcode : twiceCall.code.toList = (#[] : Array Instruction).toList ++
          twiceCall.code.toList := rfl
      have hgrows : twiceCall.program.Grows twiceMachine.program := Linkage.grows_commit ..
      have hstack : twiceMachine.stack = #[] ++ (twiceValues.map Value.ref).toArray := rfl
      rcases Emit.invokeStaticBlock_binds greetingSetup_serves Constants.closed_initial
        hown hemit hcode hgrows (by decide +kernel) twice_closed (by decide +kernel) hstack
        (by decide +kernel) rfl hcompile hblock with
        ⟨hmax, -⟩ | ⟨k, entered, hr, hsupplied, hreturns⟩
      · exact absurd hmax (by decide +kernel)
      · obtain rfl := Option.some.inj (haddress.symm.trans hsupplied.pc)
        obtain ⟨j, left, hleft⟩ := Machine.leaves_of_leavesAlways hleaves hr
        obtain ⟨i, m', hi, hpassed⟩ := hreturns twice_ready j left hleft
        exact ⟨q, handle, k, j, i, entered, left, m', hr, hsupplied, hleft, hi, hpassed⟩

end TemplateMachine
