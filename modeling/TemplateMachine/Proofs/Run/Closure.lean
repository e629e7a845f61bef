import TemplateMachine.Proofs.Emission.Advance
import TemplateMachine.Proofs.Run.Origin
import TemplateMachine.Proofs.Shape.Statement

/-! Yields.  What a slot holds when its block is to be rendered, how the machine gets from reading
the slot into the block, and what the block sees there. -/

namespace TemplateMachine

/-! ### Slots -/

/-- The block in a slot; it is not present if the slot holds none. -/
def Scope.found (scope : Scope) (slot : UInt32) : ScopeBlock :=
  match scope.get slot with
  | .block b => b
  | _ => .absent

theorem Scope.get_of_found {scope : Scope} {slot : UInt32}
    (h : (scope.found slot).isPresent = true) :
    scope.get slot = .block (scope.found slot) := by
  unfold found at h ⊢
  cases hslot : scope.get slot with
  | block b => rfl
  | _ =>
    rw [hslot] at h
    cases h

/-- A scope shows a block the place that it was written in, with values for its parameters; if a
parameter occurs twice then the last one counts. -/
structure Scope.Closes (scope place : Scope) (parameters : List UInt32) (values : List Reference) :
    Prop where
  parameter : ∀ i symbol, parameters[i]? = some symbol → symbol ∉ parameters.drop (i + 1) →
    scope.get symbol = .value ((values[i]?).getD .null)
  other : ∀ symbol, symbol ∉ parameters → scope.get symbol = place.get symbol

theorem Exec.get_bindParameters_of_not_mem {symbol : UInt32} (scope : Scope)
    {parameters : List UInt32} (values : List Reference) (h : symbol ∉ parameters) :
    (bindParameters scope parameters values).get symbol = scope.get symbol := by
  have hbind (scope : Scope) {parameter : UInt32} (hne : symbol ≠ parameter) (r : Reference) :
      (scope.bind parameter (.value r)).get symbol = scope.get symbol := by
    rw [Scope.get_bind, if_neg hne]
  induction parameters generalizing scope values with
  | nil => rfl
  | cons parameter rest ih =>
    have hne := List.ne_of_not_mem_cons h
    have hrest := List.not_mem_of_not_mem_cons h
    cases values with
    | nil => exact (ih _ _ hrest).trans (hbind _ hne _)
    | cons value values => exact (ih _ _ hrest).trans (hbind _ hne _)

theorem Exec.get_bindParameters_of_last {symbol : UInt32} (scope : Scope) {parameters : List UInt32}
    (values : List Reference) {i : Nat} (h : parameters[i]? = some symbol)
    (hlast : symbol ∉ parameters.drop (i + 1)) :
    (bindParameters scope parameters values).get symbol = .value ((values[i]?).getD .null) := by
  induction parameters generalizing scope values i with
  | nil => cases h
  | cons parameter rest ih =>
    cases i with
    | zero =>
      obtain rfl := Option.some.inj h
      cases values <;>
        exact (get_bindParameters_of_not_mem _ _ hlast).trans
          (by rw [Scope.get_bind, if_pos rfl]; rfl)
    | succ i =>
      cases values with
      | nil => exact ih (i := i) _ [] h hlast
      | cons value values => exact ih (i := i) _ values h hlast

theorem Scope.closes_bindParameters (place : Scope) (parameters : List UInt32)
    (values : List Reference) :
    (Exec.bindParameters place parameters values).Closes place parameters values where
  parameter _ _ h hlast := Exec.get_bindParameters_of_last place values h hlast
  other _ h := Exec.get_bindParameters_of_not_mem place values h

/-! ### Code -/

/-- Calls the block on the stack, which is ready to be called. -/
def Coding.callCode : List Instruction :=
  [⟨.invokeYield, 0, 0, 0⟩, ⟨.popScope, 0, 0, 0⟩, ⟨.popFrame, 0, 0, 0⟩]

/-- Calls the block in a slot with the arguments on the stack. -/
def Strategy.yieldCode (strategy : Strategy) (slot : UInt32) : List Instruction :=
  ⟨.getBlock, slot, 0, 0⟩ ::
    match strategy with
    | .lazy => ⟨.compileBlock, 0, 0, 0⟩ :: Coding.callCode
    | .eager => Coding.callCode

/-- A block on its way to being called: the lazy strategy links it now, the
eager one has its handle. -/
def ScopeBlock.Resolves (options : CompileOptions) (b : ScopeBlock) (p : Program) (v : Value)
    (p' : Program) : Prop :=
  match options.strategy, b.block with
  | .lazy, .fragment f => ∃ handle, options.compile f p = .ok handle p' ∧ v = .handle handle
  | _, _ => v = b.block ∧ p' = p

/-- The run ends for want of stack, or because something cannot be compiled. -/
def Stop.isLimit : Stop RuntimeError → Bool
  | .fault (.stackOverflow ..) => true
  | e => e.isUnlinked

/-- One of so many steps cannot be done, for want of stack or because
something cannot be compiled. -/
def Setup.Limits (setup : Setup) (n : Nat) (m : Machine) : Prop :=
  ∃ j m' e m'', j < n ∧ Reaches setup j m m' ∧ Exec.step setup m' = .error e m'' ∧ e.isLimit = true

section

variable {setup : Setup} {m m' : Machine} {i : Instruction} {j n : Nat}

theorem Setup.Limits.later (h : setup.Limits n m') (hr : Reaches setup j m m') :
    setup.Limits (j + n) m := by
  obtain ⟨k, m₁, e, m₂, hk, hr', hs, he⟩ := h
  exact ⟨j + k, m₁, e, m₂, Nat.add_lt_add_left hk j, hr.trans hr', hs, he⟩

theorem Setup.Limits.mono (h : setup.Limits j m) (hn : j ≤ n) : setup.Limits n m := by
  obtain ⟨k, m₁, e, m₂, hk, h⟩ := h
  exact ⟨k, m₁, e, m₂, Nat.lt_of_lt_of_le hk hn, h⟩

/-- An instruction that can be performed is a step, if there is stack for it. -/
theorem Exec.step_or_limits (hi : m.next? = some i) (hop : i.op ≠ .ret)
    (h : perform m.pc i setup (m.fetched i) = .ok () m') :
    setup.Limits 1 m ∨ step setup m = .ok true m' := by
  have hstep := step_of_next? setup hi
  rw [h] at hstep
  simp only [hop, false_and, if_false] at hstep
  by_cases hstack : setup.maxStack < m'.stack.size
  · rw [if_pos hstack] at hstep
    exact .inl ⟨0, m, _, _, Nat.one_pos, .refl m, hstep, rfl⟩
  · rw [if_neg hstack] at hstep
    exact .inr hstep

theorem Exec.step_error (hi : m.next? = some i) {e : Stop RuntimeError}
    (h : perform m.pc i setup (m.fetched i) = .error e m') : step setup m = .error e m' := by
  rw [step_of_next? setup hi, h]

end

/-- The machine comes to call a block that it has found in a slot. -/
structure Setup.ComesToCall (setup : Setup) (m : Machine) (slot : UInt32) (b : ScopeBlock) (j : Nat)
    (v : Value) (m' : Machine) : Prop where
  reaches : Reaches setup j m m'
  resolves : b.Resolves setup.options m.program v m'.program
  code : m'.program.heap.Holds m'.pc Coding.callCode
  pc : m'.pc = m.pc + 4 * j
  length : j + 3 = (setup.options.strategy.yieldCode slot).length
  rest : m' = { m with
    program := m'.program, pc := m'.pc, current := m'.current,
    stack := (m.stack.push b.table).push v }

section

variable {setup : Setup} {m : Machine} {slot : UInt32} {number : Nat} {rest : List Nat}

theorem Exec.currentScope_apply (hentered : m.scopeStack = number :: rest) :
    currentScope setup m = .ok number m := by
  simp only [currentScope, bind_apply, get_apply, hentered, pure_apply]

theorem Exec.slot_apply (hentered : m.scopeStack = number :: rest) :
    Exec.slot slot setup m = .ok ((m.scopes.get number).get slot) m := by
  simp only [Exec.slot, bind_apply, currentScope_apply hentered, get_apply, pure_apply]

theorem Exec.getBlock_apply (hentered : m.scopeStack = number :: rest) :
    getBlock slot setup m =
      let b := (m.scopes.get number).found slot
      .ok () { m with stack := (m.stack.push b.table).push b.block } := by
  simp only [getBlock, bind_apply, slot_apply hentered, Scope.found]
  cases (m.scopes.get number).get slot <;> rfl

theorem Exec.compileBlock_fragment (setup : Setup) {f : Fragment} {stack : Array Value}
    (h : m.stack = stack.push (.fragment f)) :
    compileBlock setup m =
      match setup.options.compile f m.program with
      | .ok handle program => .ok () { m with program, stack := stack.push (.handle handle) }
      | .error (.fault e) program => .error (.fault (.compile e)) { m with program, stack }
      | .error .outOfFuel program => .error .outOfFuel { m with program, stack } := by
  simp only [compileBlock, pop, bind_apply, get_apply, h, Array.back?_push,
    Array.pop_push, modify_apply, pure_apply, link]
  cases setup.options.compile f m.program with
  | ok handle program => rfl
  | error e program => cases e <;> rfl

theorem Exec.compileBlock_null (setup : Setup) {v : Value} {stack : Array Value}
    (h : m.stack = stack.push v) (hnull : v.isNull = true) : compileBlock setup m = .ok () m := by
  have hpush : ({ m with stack := stack.push v } : Machine) = m := by rw [← h]
  simp only [compileBlock, pop, bind_apply, get_apply, h, Array.back?_push,
    Array.pop_push, modify_apply, pure_apply]
  rw [← hpush]
  cases v with
  | primitive p => cases p <;> first | rfl | cases hnull
  | _ => cases hnull

/-- A block that is a template is linked. -/
theorem Setup.links_block {b : ScopeBlock} {stack : Array Value} {code : List Instruction}
    (hclosed : m.program.constants.Closed) (hlazy : setup.options.strategy = .lazy)
    (hstack : m.stack = stack.push b.block)
    (hcode : m.program.heap.Holds m.pc (⟨.compileBlock, 0, 0, 0⟩ :: code))
    (hcan : b.isPresent = true → b.CanBeCalled .lazy) :
    setup.Limits 1 m ∨ ∃ v m', Exec.step setup m = .ok true m' ∧
      b.Resolves setup.options m.program v m'.program ∧ m'.program.heap.Holds m'.pc code ∧
      m'.pc = m.pc + 4 ∧
      m' = { m with
        program := m'.program, pc := m'.pc, current := m'.current, stack := stack.push v } := by
  have hi : m.next? = some ⟨.compileBlock, 0, 0, 0⟩ := hcode.next?
  obtain ⟨-, -, -, -, hrest⟩ := hcode
  unfold ScopeBlock.Resolves
  rw [hlazy]
  by_cases hpresent : b.isPresent = true
  · obtain ⟨-, -, f, hf⟩ := hcan hpresent
    rw [hf] at hstack ⊢
    have hperform := Exec.compileBlock_fragment setup
      (m := m.fetched ⟨.compileBlock, 0, 0, 0⟩) hstack
    cases hcompile : setup.options.compile f m.program with
    | ok handle p =>
      rw [show (m.fetched ⟨.compileBlock, 0, 0, 0⟩).program = m.program from rfl,
        hcompile] at hperform
      refine (Exec.step_or_limits hi nofun hperform).imp_right fun hstep => ⟨_, _, hstep,
        ⟨handle, hcompile, rfl⟩, ?_, rfl, rfl⟩
      have hadvances : m.program.Advances setup.options.strategy
          (stateAfter (setup.options.compile f m.program)) := Link.advances_fragment _ f hclosed
      rw [hcompile] at hadvances
      exact hrest.mono hadvances.grows.words
    | error e p =>
      rw [show (m.fetched ⟨.compileBlock, 0, 0, 0⟩).program = m.program from rfl,
        hcompile] at hperform
      cases e with
      | fault e => exact .inl ⟨0, m, _, _, Nat.one_pos, .refl m, Exec.step_error hi hperform, rfl⟩
      | outOfFuel => exact .inl ⟨0, m, _, _, Nat.one_pos, .refl m, Exec.step_error hi hperform, rfl⟩
  · have hnull : b.block.isNull = true := by simpa [ScopeBlock.isPresent] using hpresent
    have hperform := Exec.compileBlock_null setup
      (m := m.fetched ⟨.compileBlock, 0, 0, 0⟩) hstack hnull
    refine (Exec.step_or_limits hi nofun hperform).imp_right fun hstep =>
      ⟨b.block, _, hstep, ?_, hrest, rfl, ?_⟩
    · split
      · rename_i f _ hf
        rw [hf] at hnull
        cases hnull
      · exact ⟨rfl, rfl⟩
    · rw [← hstack]
      rfl

/-- The machine reads the slot and, with the lazy strategy, links the block. -/
theorem Setup.comes_to_call (hclosed : m.program.constants.Closed)
    (hentered : m.scopeStack = number :: rest)
    (hcode : m.program.heap.Holds m.pc (setup.options.strategy.yieldCode slot))
    (hcan : ((m.scopes.get number).found slot).isPresent = true →
      ((m.scopes.get number).found slot).CanBeCalled setup.options.strategy) :
    setup.Limits 2 m ∨
      ∃ j v m', setup.ComesToCall m slot ((m.scopes.get number).found slot) j v m' := by
  have hgetBlock : m.next? = some ⟨.getBlock, slot, 0, 0⟩ := hcode.next?
  have hperform : Exec.perform m.pc ⟨.getBlock, slot, 0, 0⟩ setup
    (m.fetched ⟨.getBlock, slot, 0, 0⟩) =
      .ok () _ := Exec.getBlock_apply (m := m.fetched ⟨.getBlock, slot, 0, 0⟩) hentered
  obtain ⟨-, -, -, -, htail⟩ := id hcode
  have hscopes : (m.fetched ⟨.getBlock, slot, 0, 0⟩).scopes = m.scopes := rfl
  rw [hscopes] at hperform
  generalize hb : (m.scopes.get number).found slot = b at hcan hperform ⊢
  rcases Exec.step_or_limits hgetBlock nofun hperform with hlimits | hread
  · exact .inl (hlimits.mono (by decide))
  cases hstrategy : setup.options.strategy with
  | eager =>
    rw [hstrategy] at htail
    refine .inr ⟨1, b.block, _, .step hread (.refl _), ?_, htail, rfl, ?_, rfl⟩
    · unfold ScopeBlock.Resolves
      rw [hstrategy]
      exact ⟨rfl, rfl⟩
    · rw [hstrategy]
      rfl
  | lazy =>
    rw [hstrategy] at htail hcan
    rcases Setup.links_block (m := { m.fetched ⟨.getBlock, slot, 0, 0⟩ with
      stack := (m.stack.push b.table).push b.block }) hclosed hstrategy rfl htail hcan with
      hlimits | ⟨v, m', hstep, hresolves, hcode', hpc, hm'⟩
    · exact .inl (hlimits.later (.step hread (.refl _)))
    · refine .inr ⟨2, v, m', .step hread (.step hstep (.refl m')), hresolves, hcode', hpc, ?_, hm'⟩
      rw [hstrategy]
      rfl

/-! ### The call -/

/-- Stops that runs of compiled code may come to. -/
def Setup.Expects (setup : Setup) (e : Stop RuntimeError) : Prop :=
  setup.Allows e ∨ e.fault?.isSome = true

theorem Setup.not_expects {e : RuntimeError} (hallows : ¬setup.Allows (.fault e))
    (hfault : e.fault? = none) : ¬setup.Expects (.fault e) := by
  rintro (h | h)
  · exact hallows h
  · rw [show Stop.fault? (.fault e) = e.fault? from rfl, hfault] at h
    cases h

/-- There are arguments on the stack, or they are missed. -/
theorem Exec.popArgs_ok_or_error (setup : Setup) (m : Machine) :
    (∃ (stack : Array Value) (args : Arguments), m.stack = stack.push (.args args)) ∨
      ∃ e m', popArgs setup m = .error e m' ∧ ¬setup.Expects e := by
  cases hback : m.stack.back? with
  | none =>
    refine .inr ⟨.fault (.stackUnderflow m.current.1 m.current.2.name), m, ?_,
      Setup.not_expects id rfl⟩
    simp only [popArgs, pop, bind_apply, get_apply, hback, underflow]
    rfl
  | some v =>
    obtain ⟨stack, hstack⟩ := Array.back?_eq_some_iff.mp hback
    by_cases hargs : ∃ args, v = .args args
    · obtain ⟨args, rfl⟩ := hargs
      exact .inl ⟨stack, args, hstack⟩
    · refine .inr ⟨.fault (.typeMismatch m.current.1 m.current.2.name "arguments"),
        { m with stack }, ?_, Setup.not_expects id rfl⟩
      simp only [popArgs, pop, bind_apply, get_apply, hstack, Array.back?_push, Array.pop_push,
        modify_apply, pure_apply, mismatch]
      cases v with
      | args args => exact absurd ⟨args, rfl⟩ hargs
      | _ => rfl

/-- Whatever there is to be called, it takes arguments. -/
theorem Exec.invokeYield_takes (setup : Setup) {stack : Array Value} {table v : Value}
    (hstack : m.stack = (stack.push table).push v) :
    (∃ (below : Array Value) (args : Arguments), stack = below.push (.args args)) ∨
      ∃ e m', invokeYield setup m = .error e m' ∧ ¬setup.Expects e := by
  refine (popArgs_ok_or_error setup { m with stack }).imp_right ?_
  rintro ⟨e, m', hargs, hunexpected⟩
  refine ⟨e, m', ?_, hunexpected⟩
  simp only [invokeYield, pop, bind_apply, get_apply, hstack, Array.back?_push, Array.pop_push,
    modify_apply, pure_apply, hargs]

/-- The scope that a block is called in. -/
theorem Scopes.get_entered (s : Scopes) (caller : Nat) (parameters : List UInt32)
    (values : List Reference) :
    Scopes.get
        (if parameters.isEmpty then s else
          ⟨s.entries.push (Exec.bindParameters (s.get caller) parameters values)⟩)
        (if parameters.isEmpty then caller else s.entries.size) =
      Exec.bindParameters (s.get caller) parameters values := by
  cases parameters with
  | nil => rfl
  | cons => exact Scopes.get_push_size _ _

theorem Exec.enterCallerScope_apply (setup : Setup) {caller : Nat}
    (hentered : m.scopeStack = number :: rest)
    (hcaller : (m.scopes.get number).caller = some caller) (parameters : List UInt32)
    (args : Arguments) : enterCallerScope parameters args setup m = .ok ()
      { m with
        stack := (m.stack.push (.address m.ra)).push (.address m.fp), fp := m.stack.size
        scopes := if parameters.isEmpty then m.scopes else
          ⟨m.scopes.entries.push (bindParameters (m.scopes.get caller) parameters args.positional)⟩
        scopeStack := (if parameters.isEmpty then caller else m.scopes.entries.size) ::
          m.scopeStack } := by
  simp only [enterCallerScope, bind_apply, currentScope_apply hentered, get_apply,
    hcaller, orFail_some]
  cases parameters <;> rfl

theorem Exec.call_apply (setup : Setup) (m : Machine) (handle : UInt32) :
    call handle setup m =
      match m.program.heap.address? handle with
      | some address => .ok () { m with ra := m.pc, pc := address }
      | none => .error (.fault (.invalidHandle handle)) m := by
  simp only [call, bind_apply, get_apply]
  cases m.program.heap.address? handle <;> rfl

theorem Exec.invokeYield_present {stack : Array Value} {args : Arguments}
    {t : SymbolTable} {v : Value} {handle : UInt32} {m₁ : Machine}
    (hstack : m.stack = ((stack.push (.args args)).push (.table t)).push v)
    (hentered : m.scopeStack = number :: rest) (hv : v.toHandle? = some handle)
    (henter : enterCallerScope t.parameters args setup { m with stack } = .ok () m₁) :
    invokeYield setup m = call handle setup m₁ := by
  have hcurrent : currentScope setup { m with stack } = .ok number { m with stack } :=
    currentScope_apply hentered
  simp only [invokeYield, popArgs, pop, bind_apply, get_apply, hstack, Array.back?_push,
    Array.pop_push, modify_apply, pure_apply, hcurrent, hv, henter]

theorem Exec.invokeYield_absent (setup : Setup) {stack : Array Value} {args : Arguments}
    {table v : Value} (hstack : m.stack = ((stack.push (.args args)).push table).push v)
    (hentered : m.scopeStack = number :: rest) (hv : v.toHandle? = none) :
    invokeYield setup m =
      .ok () { m with
        stack := (stack.push (.address m.ra)).push (.address m.fp), fp := stack.size
        scopeStack := number :: m.scopeStack } := by
  have hcurrent : currentScope setup { m with stack } = .ok number { m with stack } :=
    currentScope_apply hentered
  simp only [invokeYield, popArgs, pop, bind_apply, get_apply, hstack, Array.back?_push,
    Array.pop_push, modify_apply, pure_apply, hcurrent, hv]
  rfl

/-- A block that is there is called, in a scope that shows it the caller of the current one. -/
theorem Setup.calls_block {stack : Array Value} {args : Arguments} {t : SymbolTable} {v : Value}
    {handle : UInt32} {caller : Nat} (hi : m.next? = some ⟨.invokeYield, 0, 0, 0⟩)
    (hstack : m.stack = ((stack.push (.args args)).push (.table t)).push v)
    (hentered : m.scopeStack = number :: rest) (hv : v.toHandle? = some handle)
    (hcaller : (m.scopes.get number).caller = some caller)
    (hexpects : ∀ e m', Exec.step setup m = .error e m' → setup.Expects e) :
    setup.Limits 1 m ∨ ∃ entered inner, Exec.step setup m = .ok true entered ∧
      entered.program = m.program ∧ m.program.heap.address? handle = some entered.pc ∧
      entered.scopeStack = inner :: m.scopeStack ∧
      (entered.scopes.get inner).Closes (m.scopes.get caller) t.parameters args.positional := by
  let m₁ : Machine := { m.fetched ⟨.invokeYield, 0, 0, 0⟩ with stack }
  have henter := Exec.enterCallerScope_apply setup (m := m₁) hentered hcaller t.parameters args
  have hinvoke : Exec.perform m.pc ⟨.invokeYield, 0, 0, 0⟩ setup
      (m.fetched ⟨.invokeYield, 0, 0, 0⟩) = _ :=
    Exec.invokeYield_present (m := m.fetched ⟨.invokeYield, 0, 0, 0⟩) hstack hentered hv henter
  rw [Exec.call_apply] at hinvoke
  cases haddress : m.program.heap.address? handle with
  | none =>
    simp only [show m₁.program = m.program from rfl, haddress] at hinvoke
    exact absurd (hexpects _ _ (Exec.step_error hi hinvoke)) (Setup.not_expects id rfl)
  | some address =>
    simp only [show m₁.program = m.program from rfl, haddress] at hinvoke
    rcases Exec.step_or_limits hi nofun hinvoke with hlimits | hstep
    · exact .inl hlimits
    · refine .inr ⟨_, _, hstep, rfl, rfl, rfl, ?_⟩
      have hcloses := (m.scopes.get caller).closes_bindParameters t.parameters args.positional
      rw [← Scopes.get_entered m.scopes] at hcloses
      exact hcloses

theorem Exec.leaveScope_apply (setup : Setup) (hentered : m.scopeStack = number :: rest) :
    leaveScope setup m = .ok () { m with scopeStack := rest } := by
  simp only [leaveScope, bind_apply, get_apply, hentered, modify_apply]

theorem Exec.popFrame_apply (setup : Setup) {stack : Array Value} {ra fp : Nat}
    (hstack : m.stack = (stack.push (.address ra)).push (.address fp)) (hfp : m.fp = stack.size) :
    popFrame setup m = .ok () { m with stack, ra, fp } := by
  have hra : m.stack[m.fp]? = some (.address ra) := by
    rw [hstack, hfp, Array.getElem?_push, if_neg (by simp), Array.getElem?_push_size]
  have hfp' : m.stack[m.fp + 1]? = some (.address fp) := by
    rw [hstack, hfp, Array.getElem?_push, if_pos (by simp)]
  have hshrink : m.stack.shrink m.fp = stack := by simp [hstack, hfp]
  simp only [popFrame, bind_apply, get_apply, hra, hfp', modify_apply, hshrink]

/-- Without a block nothing is called. -/
theorem Setup.calls_nothing {stack : Array Value} {args : Arguments} {table v : Value}
    (hcode : m.program.heap.Holds m.pc Coding.callCode)
    (hstack : m.stack = ((stack.push (.args args)).push table).push v)
    (hentered : m.scopeStack = number :: rest) (hv : v.toHandle? = none) :
    setup.Limits 3 m ∨ ∃ left, Reaches setup 3 m left ∧
      left = { m with stack, pc := m.pc + 12, current := left.current } := by
  obtain ⟨-, -, -, -, hpopScope⟩ := id hcode
  obtain ⟨-, -, -, -, hpopFrame⟩ := id hpopScope
  rcases Exec.step_or_limits hcode.next? nofun
    (Exec.invokeYield_absent setup (m := m.fetched ⟨.invokeYield, 0, 0, 0⟩)
      hstack hentered hv) with hlimits | hinvoke
  · exact .inl (hlimits.mono (by decide))
  generalize hm₁ : Machine.mk .. = m₁ at hinvoke
  have hi₁ : m₁.next? = some ⟨.popScope, 0, 0, 0⟩ := hm₁ ▸ hpopScope.next?
  have hentered₁ : (m₁.fetched ⟨.popScope, 0, 0, 0⟩).scopeStack =
    number :: m.scopeStack := hm₁ ▸ rfl
  rcases Exec.step_or_limits hi₁ nofun (Exec.leaveScope_apply setup hentered₁) with hlimits | hleave
  · exact .inl ((hlimits.later (.step hinvoke (.refl _))).mono (by decide))
  generalize hm₂ : Machine.mk .. = m₂ at hleave
  have hi₂ : m₂.next? = some ⟨.popFrame, 0, 0, 0⟩ := by
    rw [← hm₂, ← hm₁]
    exact hpopFrame.next?
  have hstack₂ : (m₂.fetched ⟨.popFrame, 0, 0, 0⟩).stack =
      (stack.push (.address m.ra)).push (.address m.fp) := hm₂ ▸ hm₁ ▸ rfl
  have hfp₂ : (m₂.fetched ⟨.popFrame, 0, 0, 0⟩).fp = stack.size := hm₂ ▸ hm₁ ▸ rfl
  rcases Exec.step_or_limits hi₂ nofun (Exec.popFrame_apply setup hstack₂ hfp₂) with hlimits | hpop
  · exact .inl (hlimits.later (.step hinvoke (.step hleave (.refl _))))
  subst hm₂ hm₁
  exact .inr ⟨_, .step hinvoke (.step hleave (.step hpop (.refl _))), rfl⟩

end

/-! ### Yields -/

/-- What becomes of a yield.  A block is called that sees the place where it was written, with the
arguments for its parameters, and without a block nothing is done at all. -/
inductive Setup.Yields (setup : Setup) (start m : Machine) (slot : UInt32) (number : Nat) : Prop
  | called {j inner c : Nat} {entered : Machine} {place : Scope} {args : Arguments}
    {t : SymbolTable} {v : Value} {handle : UInt32}
    (hpresent : ((m.scopes.get number).found slot).isPresent = true)
    (htable : ((m.scopes.get number).found slot).table = .table t)
    (hargs : m.stack.back? = some (.args args)) (hreaches : Reaches setup j m entered)
    (hresolves : ((m.scopes.get number).found slot).Resolves setup.options m.program v
      entered.program)
    (hhandle : v.toHandle? = some handle)
    (haddress : entered.program.heap.address? handle = some entered.pc)
    (hentered : entered.scopeStack = inner :: m.scopeStack)
    (hinvoked : setup.Invoked start number c place)
    (hwritten : setup.Written start number slot ((m.scopes.get number).found slot) c place)
    (hcloses : (entered.scopes.get inner).Closes place t.parameters args.positional) :
    Yields setup start m slot number
  | absent {j : Nat} {left : Machine}
    (hpresent : ((m.scopes.get number).found slot).isPresent = false)
    (hreaches : Reaches setup j m left)
    (hleft : left = { m with
      stack := m.stack.pop, current := left.current
      pc := m.pc + 4 * (setup.options.strategy.yieldCode slot).length }) :
    Yields setup start m slot number
  | stopped (h : setup.Limits (setup.options.strategy.yieldCode slot).length m) :
    Yields setup start m slot number

section

variable {setup : Setup} {start m : Machine} {slot : UInt32} {number : Nat} {rest : List Nat}

theorem Strategy.length_yieldCode (strategy : Strategy) (slot : UInt32) :
    4 ≤ (strategy.yieldCode slot).length := by
  cases strategy with
  | lazy => exact Nat.le_succ 4
  | eager => exact Nat.le_refl 4

/-- A block that can be called is one that has a handle, once it is resolved. -/
theorem ScopeBlock.Resolves.handle {options : CompileOptions} {b : ScopeBlock}
    {p p' : Program} {v : Value} (h : b.Resolves options p v p')
    (hcan : b.CanBeCalled options.strategy) :
    ∃ t handle, b.table = .table t ∧ v.toHandle? = some handle := by
  obtain ⟨t, htable, hcan⟩ := hcan
  unfold Resolves at h
  cases hstrategy : options.strategy with
  | lazy =>
    rw [hstrategy] at h hcan
    obtain ⟨f, hf⟩ := hcan
    rw [hf] at h
    obtain ⟨handle, -, rfl⟩ := h
    exact ⟨t, handle, htable, rfl⟩
  | eager =>
    rw [hstrategy] at h hcan
    obtain ⟨handle, hhandle⟩ := Option.isSome_iff_exists.mp hcan
    obtain ⟨rfl, -⟩ := h
    exact ⟨t, handle, htable, hhandle⟩

theorem ScopeBlock.Resolves.absent {options : CompileOptions} {b : ScopeBlock}
    {p p' : Program} {v : Value} (h : b.Resolves options p v p') (habsent : b.isPresent = false) :
    v.toHandle? = none ∧ p' = p := by
  have hnull : b.block.isNull = true := by simpa [isPresent] using habsent
  unfold Resolves at h
  split at h
  · rename_i f _ hf
    rw [hf] at hnull
    cases hnull
  · obtain ⟨rfl, rfl⟩ := h
    refine ⟨?_, rfl⟩
    cases hblock : b.block with
    | primitive p =>
      rw [hblock] at hnull
      cases p <;> first | rfl | cases hnull
    | _ =>
      rw [hblock] at hnull
      cases hnull

/-- A yield in a scope with a known origin. -/
theorem Setup.Completes.yields (h : setup.Completes start m)
    (hclosed : m.program.constants.Closed) (hentered : m.scopeStack = number :: rest)
    (hcode : m.program.heap.Holds m.pc (setup.options.strategy.yieldCode slot))
    (hexpects : ∀ j m' e m'', Reaches setup j m m' → Exec.step setup m' = .error e m'' →
      setup.Expects e) : setup.Yields start m slot number := by
  have hnumber := h.tracks.entered number (hentered ▸ List.mem_cons_self)
  have hcan (hpresent : ((m.scopes.get number).found slot).isPresent = true) :=
    h.canYield number hnumber slot _ (Scope.get_of_found hpresent) hpresent
  have hfour := setup.options.strategy.length_yieldCode slot
  rcases Setup.comes_to_call hclosed hentered hcode fun hpresent => (hcan hpresent).2 with
    hlimits | ⟨j, v, m', hcomes⟩
  · exact .stopped (hlimits.mono (by omega))
  have hstack' : m'.stack = (m.stack.push ((m.scopes.get number).found slot).table).push v := by
    rw [hcomes.rest]
  have hscopes' : m'.scopes = m.scopes := by rw [hcomes.rest]
  have hentered' : m'.scopeStack = number :: rest := by rw [hcomes.rest, hentered]
  rcases Exec.invokeYield_takes setup (m := m'.fetched ⟨.invokeYield, 0, 0, 0⟩) hstack' with
    ⟨below, args, hbelow⟩ | ⟨e, m'', herror, hunexpected⟩
  · rw [hbelow] at hstack'
    cases hpresent : ((m.scopes.get number).found slot).isPresent with
    | true =>
      obtain ⟨hcaller, hcan⟩ := hcan hpresent
      obtain ⟨c, hcaller⟩ := Option.isSome_iff_exists.mp hcaller
      obtain ⟨-, hinvoked, hwritten⟩ := h.tracks.origin number hnumber c hcaller
      obtain ⟨t, handle, htable, hhandle⟩ := hcomes.resolves.handle hcan
      rw [htable] at hstack'
      rw [← hscopes'] at hcaller
      rcases Setup.calls_block hcomes.code.next? hstack' hentered' hhandle hcaller
        fun e m'' hs => hexpects j m' e m'' hcomes.reaches hs with
        hlimits | ⟨entered, inner, hstep, hprogram, haddress, hinner, hcloses⟩
      · exact .stopped ((hlimits.later hcomes.reaches).mono (by have := hcomes.length; omega))
      · rw [hscopes'] at hcloses
        refine .called hpresent htable ?_ (hcomes.reaches.trans (.step hstep (.refl entered)))
          (hprogram ▸ hcomes.resolves) hhandle (hprogram ▸ haddress) ?_ hinvoked
          (hwritten slot _ (Scope.get_of_found hpresent)) hcloses
        · rw [hbelow, Array.back?_push]
        · rw [hinner, hentered', hentered]
    | false =>
      obtain ⟨hv, hprogram⟩ := hcomes.resolves.absent hpresent
      rcases Setup.calls_nothing hcomes.code hstack' hentered' hv with hlimits |
        ⟨left, hreaches, hleft⟩
      · exact .stopped ((hlimits.later hcomes.reaches).mono (by have := hcomes.length; omega))
      · refine .absent hpresent (hcomes.reaches.trans hreaches) ?_
        rw [hleft, ← hcomes.length, show m.stack = below.push (.args args) from hbelow,
          Array.pop_push, show m.pc + 4 * (j + 3) = m'.pc + 12 by rw [hcomes.pc]; omega]
        generalize m'.pc + 12 = pc
        rw [hcomes.rest, hprogram]
  · exact absurd (hexpects j m' e m'' hcomes.reaches (Exec.step_error hcomes.code.next? herror))
      hunexpected

end

end TemplateMachine
