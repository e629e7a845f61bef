import TemplateMachine.Proofs.Run.Scope
import TemplateMachine.Proofs.Run.Ledger

/-! Where scopes come from.  A scope belongs to a layout whose component was invoked in another
scope, and the blocks in its slots were written there.  Copies of it belong to the same layout. -/

namespace TemplateMachine

/-! ### What a step does to scopes -/

/-- Operations that have something to do with scopes. -/
@[simp] def Opcode.isScoped : Opcode → Bool
  | .setVariable | .setBlock | .rootScope | .childScope | .popScope | .invokeYield
  | .invokeComponentLayout => true
  | _ => false

/-- What an instruction does to the scopes, and to the list of those that are entered. -/
inductive Scopes.Step (i : Instruction) (s : Scopes) (entered : List Nat) (s' : Scopes)
    (entered' : List Nat) : Prop
  | still (hop : i.op.isScoped = false) (h : (s', entered') = (s, entered))
  | bindValue {number : Nat} {rest : List Nat} {r : Reference} (hop : i.op = .setVariable)
    (hentered : entered = number :: rest)
    (h : (s', entered') = (s.bind number i.a (.value r), entered))
  | bindBlock {number : Nat} {rest : List Nat} {b : ScopeBlock} (hop : i.op = .setBlock)
    (hentered : entered = number :: rest)
    (h : (s', entered') = (s.bind number i.a (.block b), entered))
  | root {size : Nat} {caller : Option Nat} (hop : i.op = .rootScope)
    (hcaller : ∀ c, caller = some c → entered.head? = some c)
    (h : (s', entered') = (⟨s.entries.push (.root size caller)⟩, s.entries.size :: entered))
  | copy {number : Nat} {rest : List Nat} (hop : i.op = .childScope)
    (hentered : entered = number :: rest)
    (h : (s', entered') = (⟨s.entries.push (s.get number)⟩, s.entries.size :: entered))
  | leave {number : Nat} {rest : List Nat} (hop : i.op = .popScope)
    (hentered : entered = number :: rest) (h : (s', entered') = (s, rest))
  | stay {number : Nat} {rest : List Nat} (hop : i.op = .invokeYield)
    (hentered : entered = number :: rest) (h : (s', entered') = (s, number :: entered))
  | back {number caller : Nat} {rest : List Nat} (hop : i.op = .invokeYield)
    (hentered : entered = number :: rest) (hcaller : (s.get number).caller = some caller)
    (h : (s', entered') = (s, caller :: entered))
  | yield {number caller : Nat} {rest : List Nat} {parameters : List UInt32}
    {values : List Reference} (hop : i.op = .invokeYield) (hentered : entered = number :: rest)
    (hcaller : (s.get number).caller = some caller)
    (h : (s', entered') =
      (⟨s.entries.push (Exec.bindParameters (s.get caller) parameters values)⟩,
        s.entries.size :: entered))
  | layout {scope : Scope} (hop : i.op = .invokeComponentLayout)
    (hcaller : scope.caller = entered.head?)
    (h : (s', entered') = (⟨s.entries.push scope⟩, s.entries.size :: entered))

namespace Exec

variable {setup : Setup} {m m' m'' : Machine} {i : Instruction}

/-- Scopes are as they were, and so are those that are entered. -/
def Still (m m' : Machine) : Prop := (m'.scopes, m'.scopeStack) = (m.scopes, m.scopeStack)

/-- A part of an instruction that has nothing to do with scopes. -/
theorem IsQuiet.still {α : Type} {x : Exec α} {a : α} (hquiet : x.IsQuiet true false)
    (h : x setup m = .ok a m') : Still m m' := by
  have := hquiet.ends setup m
  rw [h] at this
  exact this.scopes rfl

theorem Still.trans (h : Still m m') (h' : Still m' m'') : Still m m'' := Eq.trans h' h

/-- What happens to scopes after a part that has nothing to do with them. -/
theorem Still.step {s' : Scopes} {entered' : List Nat} (h : Still m m')
    (hstep : Scopes.Step i m'.scopes m'.scopeStack s' entered') :
    Scopes.Step i m.scopes m.scopeStack s' entered' := by
  obtain ⟨hscopes, hentered⟩ := Prod.mk.inj h
  rwa [hscopes, hentered] at hstep

theorem currentScope_ok {number : Nat} (h : currentScope setup m = .ok number m') :
    m' = m ∧ ∃ rest, m.scopeStack = number :: rest := by
  simp only [currentScope, bind_apply, get_apply] at h
  cases hstack : m.scopeStack with
  | nil =>
    rw [hstack] at h
    cases h
  | cons first rest =>
    rw [hstack] at h
    cases h
    exact ⟨rfl, rest, rfl⟩

theorem bindSlot_ok {symbol : UInt32} {slot : Slot} (h : bindSlot symbol slot setup m = .ok () m') :
    ∃ number rest, m.scopeStack = number :: rest ∧
      (m'.scopes, m'.scopeStack) = (m.scopes.bind number symbol slot, m.scopeStack) := by
  unfold bindSlot at h
  obtain ⟨number, m₁, hnumber, hmodify⟩ := bind_ok h
  obtain ⟨rfl, rest, hstack⟩ := currentScope_ok hnumber
  cases hmodify
  exact ⟨number, rest, hstack, rfl⟩

theorem leaveScope_ok (h : leaveScope setup m = .ok () m') :
    ∃ number rest, m.scopeStack = number :: rest ∧
      (m'.scopes, m'.scopeStack) = (m.scopes, rest) := by
  simp only [leaveScope, bind_apply, get_apply] at h
  cases hstack : m.scopeStack with
  | nil =>
    rw [hstack] at h
    cases h
  | cons number rest =>
    rw [hstack] at h
    cases h
    exact ⟨number, rest, rfl, rfl⟩

/-- A block is called in the scope of its place, or in a copy of it. -/
theorem enterCallerScope_ok {parameters : List UInt32} {args : Arguments}
    (h : enterCallerScope parameters args setup m = .ok () m') :
    ∃ number caller rest, m.scopeStack = number :: rest ∧
      (m.scopes.get number).caller = some caller ∧
      (m'.scopes, m'.scopeStack) =
        if parameters.isEmpty then (m.scopes, caller :: m.scopeStack)
        else (⟨m.scopes.entries.push
          (bindParameters (m.scopes.get caller) parameters args.positional)⟩,
          m.scopes.entries.size :: m.scopeStack) := by
  unfold enterCallerScope at h
  obtain ⟨number, m₁, hnumber, hrest⟩ := bind_ok h
  obtain ⟨rfl, rest, hstack⟩ := currentScope_ok hnumber
  obtain ⟨_, m₂, hget, hrest⟩ := bind_ok hrest
  cases hget
  obtain ⟨caller, m₃, hcaller, hrest⟩ := bind_ok hrest
  obtain ⟨hcaller, rfl⟩ := orFail_ok hcaller
  refine ⟨number, caller, rest, hstack, hcaller, ?_⟩
  split at hrest
  · rename_i hempty
    rw [if_pos hempty]
    obtain ⟨_, m₄, hframe, henter⟩ := bind_ok hrest
    cases hframe
    cases henter
    rfl
  · rename_i hempty
    rw [if_neg hempty]
    obtain ⟨_, m₄, hframe, henter⟩ := bind_ok hrest
    cases hframe
    cases henter
    rfl

theorem scopes_invokeYield (hop : i.op = .invokeYield) (h : invokeYield setup m = .ok () m') :
    Scopes.Step i m.scopes m.scopeStack m'.scopes m'.scopeStack := by
  unfold invokeYield at h
  obtain ⟨block, m₁, hblock, htail⟩ := bind_ok h
  obtain ⟨table, m₂, htable, htail⟩ := bind_ok htail
  obtain ⟨args, m₃, hargs, htail⟩ := bind_ok htail
  obtain ⟨current, m₄, hcurrent, hrest⟩ := bind_ok htail
  obtain ⟨rfl, rest, hstack⟩ := currentScope_ok hcurrent
  refine (((quiet_pop.still hblock).trans (quiet_pop.still htable)).trans
    (quiet_popArgs.still hargs)).step ?_
  have hstays (h : (do pushFrame; enterScope current : Exec Unit) setup m₄ = .ok () m') :
      Scopes.Step i m₄.scopes m₄.scopeStack m'.scopes m'.scopeStack := by
    obtain ⟨_, m₅, hframe, henter⟩ := bind_ok h
    cases hframe
    cases henter
    exact .stay hop hstack rfl
  cases hhandle : block.toHandle? with
  | none =>
    rw [hhandle] at hrest
    exact hstays hrest
  | some handle =>
    rw [hhandle] at hrest
    cases table with
    | table t =>
      obtain ⟨_, m₅, henter, hcall⟩ := bind_ok hrest
      obtain ⟨number, caller, rest, hstack, hcaller, hscopes⟩ := enterCallerScope_ok henter
      have hcall : Still m₅ m' := (quiet_call _).still hcall
      split at hscopes
      · exact .back hop hstack hcaller (Eq.trans hcall hscopes)
      · exact .yield hop hstack hcaller (Eq.trans hcall hscopes)
    | _ => exact hstays hrest

theorem LayoutCall.caller_bind (c : LayoutCall) (scope : Scope) (slot : UInt32)
    (symbols : List String) :
    (c.bind scope slot symbols).caller = scope.caller := by
  induction symbols generalizing scope slot with
  | nil => rfl
  | cons symbol rest ih =>
    rw [LayoutCall.bind]
    split
    · exact ih _ _
    · exact ih _ _

theorem scopes_invokeLayout (hop : i.op = .invokeComponentLayout)
    (h : invokeLayout setup m = .ok () m') :
    Scopes.Step i m.scopes m.scopeStack m'.scopes m'.scopeStack := by
  unfold invokeLayout at h
  obtain ⟨handle, m₁, hhandle, hrest⟩ := bind_ok h
  cases htoHandle : handle.toHandle? with
  | none =>
    rw [htoHandle] at hrest
    cases hrest
  | some handle =>
    rw [htoHandle] at hrest
    obtain ⟨table, m₂, htable, hrest⟩ := bind_ok hrest
    cases table with
    | table table =>
      obtain ⟨self, m₃, hself, hrest⟩ := bind_ok hrest
      obtain ⟨args, m₄, hargs, hrest⟩ := bind_ok hrest
      obtain ⟨attrs, m₅, hattrs, hrest⟩ := bind_ok hrest
      obtain ⟨inverse, m₆, hinverse, hrest⟩ := bind_ok hrest
      obtain ⟨main, m₇, hmain, hrest⟩ := bind_ok hrest
      have hpops : Still m m₇ :=
        (quiet_pop.still hhandle).trans <| (quiet_pop.still htable).trans <|
        (quiet_popRef.still hself).trans <| (quiet_popArgs.still hargs).trans <|
        (quiet_popBlock.still hattrs).trans <| (quiet_popBlock.still hinverse).trans <|
        quiet_popBlock.still hmain
      refine hpops.step ?_
      cases hprogram : table.asProgram? with
      | none =>
        rw [hprogram] at hrest
        cases hrest
      | some program =>
        rw [hprogram] at hrest
        obtain ⟨_, m₈, hget, hrest⟩ := bind_ok hrest
        cases hget
        obtain ⟨_, m₉, hframe, hrest⟩ := bind_ok hrest
        cases hframe
        obtain ⟨_, m₁₀, henter, hcall⟩ := bind_ok hrest
        cases henter
        exact .layout hop (LayoutCall.caller_bind ..) ((quiet_call _).still hcall)
    | _ => cases hrest

theorem create_still {flags word : UInt32} (h : create flags word setup m = .ok () m') :
    Still m m' := by
  unfold create at h
  obtain ⟨number, m₁, hnumber, hrest⟩ := bind_ok h
  obtain ⟨c, m₂, hc, hrest⟩ := bind_ok hrest
  obtain ⟨_, m₃, hget, hrest⟩ := bind_ok hrest
  cases hget
  obtain ⟨_, m₄, hrecord, hrest⟩ := bind_ok hrest
  obtain ⟨_, m₅, hget, hrest⟩ := bind_ok hrest
  cases hget
  refine ((quiet_componentNumber _).still hnumber).trans <|
    ((quiet_componentState _).still hc).trans ?_
  cases hrecord
  generalize (c.manager _).create _ _ = created at hrest
  cases created with
  | ok inst =>
    cases hrest
    rfl
  | error message => cases hrest

theorem registerComponentDestructor_still {word : UInt32}
    (h : registerComponentDestructor word setup m = .ok () m') : Still m m' := by
  unfold registerComponentDestructor at h
  obtain ⟨c, m₁, hc, hrest⟩ := bind_ok h
  refine ((quiet_component _).still hc).trans ?_
  cases hcreated : c.created with
  | none =>
    rw [hcreated] at hrest
    cases hrest
    rfl
  | some inst =>
    rw [hcreated] at hrest
    obtain ⟨_, m₂, hrecord, hrest⟩ := bind_ok hrest
    cases hrecord
    obtain ⟨_, m₃, hget, hrest⟩ := bind_ok hrest
    cases hget
    split at hrest
    · unfold registerDestructor at hrest
      obtain ⟨_, m₄, hget, hrest⟩ := bind_ok hrest
      cases hget
      generalize htransactions : Machine.transactions _ = transactions at hrest
      cases transactions with
      | nil => cases hrest
      | cons innermost rest =>
        cases hrest
        rfl
    · cases hrest
      rfl

theorem scopes_perform {start : Nat} (h : perform start i setup m = .ok () m') :
    Scopes.Step i m.scopes m.scopeStack m'.scopes m'.scopeStack := by
  obtain ⟨op, a, b, c⟩ := i
  cases op
  case setVariable =>
    obtain ⟨r, m₁, hr, hbind⟩ := bind_ok h
    obtain ⟨number, rest, hstack, hscopes⟩ := bindSlot_ok hbind
    exact (quiet_popRef.still hr).step (.bindValue rfl hstack hscopes)
  case setBlock =>
    obtain ⟨block, m₁, hblock, hbind⟩ := bind_ok h
    obtain ⟨number, rest, hstack, hscopes⟩ := bindSlot_ok hbind
    exact (quiet_popBlock.still hblock).step (.bindBlock rfl hstack hscopes)
  case rootScope =>
    cases h
    refine .root rfl (fun c hc => ?_) rfl
    split at hc
    · exact hc
    · cases hc
  case childScope =>
    have h : enterChildScope setup m = .ok () m' := h
    unfold enterChildScope at h
    obtain ⟨number, m₁, hnumber, henter⟩ := bind_ok h
    obtain ⟨rfl, rest, hstack⟩ := currentScope_ok hnumber
    cases henter
    exact .copy rfl hstack rfl
  case popScope =>
    obtain ⟨number, rest, hstack, hscopes⟩ := leaveScope_ok h
    exact .leave rfl hstack hscopes
  case invokeYield => exact scopes_invokeYield rfl h
  case invokeComponentLayout => exact scopes_invokeLayout rfl h
  case beginComponentTransaction =>
    cases h
    exact .still rfl rfl
  case commitComponentTransaction =>
    obtain ⟨innermost, rest, -, rfl⟩ := commitTransaction_ok h
    exact .still rfl rfl
  case didRenderLayout =>
    obtain ⟨component, inst, rfl⟩ := layoutRendered_ok h
    exact .still rfl rfl
  case createComponent => exact .still rfl (create_still h)
  case registerComponentDestructor => exact .still rfl (registerComponentDestructor_still h)
  all_goals exact .still rfl (IsQuiet.still (quiet_perform start rfl) h)

end Exec

/-! ### Scopes by number -/

namespace Scopes

variable {s : Scopes} {number n : Nat}

theorem get_push_of_lt (h : n < s.entries.size) (scope : Scope) :
    Scopes.get ⟨s.entries.push scope⟩ n = s.get n := by
  simp [Scopes.get, Array.getD_eq_getD_getElem?, Array.getElem?_push, Nat.ne_of_lt h]

theorem get_push_size (s : Scopes) (scope : Scope) :
    Scopes.get ⟨s.entries.push scope⟩ s.entries.size = scope := by
  simp [Scopes.get, Array.getD_eq_getD_getElem?]

theorem size_bind (s : Scopes) (number : Nat) (symbol : UInt32) (slot : Slot) :
    (s.bind number symbol slot).entries.size = s.entries.size := Array.size_modify

theorem get_bind_of_ne (h : n ≠ number) (symbol : UInt32) (slot : Slot) :
    (s.bind number symbol slot).get n = s.get n := by
  simp [Scopes.get, Scopes.bind, Array.getD_eq_getD_getElem?, Array.getElem?_modify, Ne.symm h]

theorem get_bind_self (h : number < s.entries.size) (symbol : UInt32) (slot : Slot) :
    (s.bind number symbol slot).get number = (s.get number).bind symbol slot := by
  simp [Scopes.get, Scopes.bind, Array.getD_eq_getD_getElem?, Array.getElem_modify, h]

end Scopes

/-- Binding parameters brings no blocks into a scope. -/
theorem Exec.get_bindParameters_block {scope : Scope} {parameters : List UInt32}
    {values : List Reference} {symbol : UInt32} {b : ScopeBlock}
    (h : (bindParameters scope parameters values).get symbol = .block b) :
    scope.get symbol = .block b := by
  have hbind {scope : Scope} {parameter : UInt32} {r : Reference}
      (h : (scope.bind parameter (.value r)).get symbol = .block b) : scope.get symbol =
      .block b := by
    rw [Scope.get_bind] at h
    split at h
    · cases h
    · exact h
  induction parameters generalizing scope values with
  | nil => exact h
  | cons parameter rest ih => cases values <;> exact hbind (ih h)

theorem Exec.canYield_bindParameters {strategy : Strategy} {scope : Scope}
    (h : scope.CanYield strategy) (parameters : List UInt32) (values : List Reference) :
    (bindParameters scope parameters values).CanYield strategy := by
  intro symbol b hb hpresent
  rw [Store.caller_bindParameters]
  exact h symbol b (get_bindParameters_block hb) hpresent

/-! ### Origins -/

/-- In a run from a state, a scope belongs to a layout whose component was invoked in another scope,
its place, which was as given. -/
inductive Setup.Invoked (setup : Setup) (start : Machine) : Nat → Nat → Scope → Prop
  | enter {k c : Nat} {m m' : Machine} {i : Instruction} {rest : List Nat} :
    Reaches setup k start m → m.next? = some i → i.op = .rootScope ∨ i.op = .invokeComponentLayout →
    m.scopeStack = c :: rest → Exec.step setup m = .ok true m' →
    Invoked setup start m.scopes.entries.size c (m.scopes.get c)
  | copy {k s c : Nat} {m m' : Machine} {i : Instruction} {rest : List Nat} {place : Scope} :
    Reaches setup k start m → m.next? = some i → i.op = .childScope → m.scopeStack = s :: rest →
    Exec.step setup m = .ok true m' → Invoked setup start s c place →
    Invoked setup start m.scopes.entries.size c place
  | yield {k s c d : Nat} {m m' : Machine} {i : Instruction} {rest : List Nat}
    {place place' : Scope} : Reaches setup k start m → m.next? = some i → i.op = .invokeYield →
    m.scopeStack = s :: rest → Exec.step setup m = .ok true m' → m'.scopes.entries.size =
    m.scopes.entries.size + 1 → Invoked setup start s c place → Invoked setup start c d place' →
    Invoked setup start m.scopes.entries.size d place'

/-- A block came into a slot of a scope when the component to whose layout the scope belongs was
invoked in another scope, where the block was written. -/
inductive Setup.Written (setup : Setup) (start : Machine) :
    Nat → UInt32 → ScopeBlock → Nat → Scope → Prop
  | set {k s c : Nat} {m m' : Machine} {i : Instruction} {rest : List Nat} {b : ScopeBlock} :
    Reaches setup k start m → m.next? = some i → i.op = .setBlock → m.scopeStack = s :: c :: rest →
    Exec.step setup m = .ok true m' → (m'.scopes.get s).get i.a = .block b →
    Written setup start s i.a b c (m.scopes.get c)
  | bound {k c : Nat} {m m' : Machine} {i : Instruction} {rest : List Nat} {symbol : UInt32}
    {b : ScopeBlock} :
    Reaches setup k start m → m.next? = some i → i.op = .invokeComponentLayout →
    m.scopeStack = c :: rest → Exec.step setup m = .ok true m' →
    (m'.scopes.get m.scopes.entries.size).get symbol = .block b →
    Written setup start m.scopes.entries.size symbol b c (m.scopes.get c)
  | copy {k s c : Nat} {m m' : Machine} {i : Instruction} {rest : List Nat} {place : Scope}
    {symbol : UInt32} {b : ScopeBlock} :
    Reaches setup k start m → m.next? = some i → i.op = .childScope → m.scopeStack = s :: rest →
    Exec.step setup m = .ok true m' → Written setup start s symbol b c place →
    Written setup start m.scopes.entries.size symbol b c place
  | yield {k s c d : Nat} {m m' : Machine} {i : Instruction} {rest : List Nat}
    {place place' : Scope} {symbol : UInt32} {b : ScopeBlock} :
    Reaches setup k start m → m.next? = some i → i.op = .invokeYield → m.scopeStack = s :: rest →
    Exec.step setup m = .ok true m' → m'.scopes.entries.size = m.scopes.entries.size + 1 →
    Invoked setup start s c place → Written setup start c symbol b d place' →
    Written setup start m.scopes.entries.size symbol b d place'

/-- Every scope with a caller is one of a layout that was invoked there, and so are its blocks. -/
structure Setup.Tracks (setup : Setup) (start m : Machine) : Prop where
  reached : ∃ k, Reaches setup k start m
  entered : ∀ n ∈ m.scopeStack, n < m.scopes.entries.size
  origin : ∀ n, n < m.scopes.entries.size → ∀ c, (m.scopes.get n).caller = some c →
    c < n ∧ setup.Invoked start n c (m.scopes.get c) ∧
      ∀ symbol b, (m.scopes.get n).get symbol = .block b →
        setup.Written start n symbol b c (m.scopes.get c)

/-- All scopes are complete. -/
structure Setup.Completes (setup : Setup) (start m : Machine) : Prop where
  tracks : setup.Tracks start m
  canYield : ∀ n, n < m.scopes.entries.size → (m.scopes.get n).CanYield setup.options.strategy

/-- All scopes but the newest are complete.  That one is the current scope, and if it began without
anything in its slots then it has no place but the scope that was left for it. -/
structure Setup.Fills (setup : Setup) (start m : Machine) (s : Beginning) (number : Nat)
    (rest : List Nat) : Prop where
  tracks : setup.Tracks start m
  entered : m.scopeStack = number :: rest
  newest : m.scopes.entries.size = number + 1
  canYield : ∀ n, n < number → (m.scopes.get n).CanYield setup.options.strategy
  place : s = .empty → ∀ c, (m.scopes.get number).caller = some c → rest.head? = some c

section

variable {setup : Setup} {start m m' : Machine} {i : Instruction}

theorem Exec.scopes_of_step (hi : m.next? = some i) (hs : Exec.step setup m = .ok true m') :
    Scopes.Step i m.scopes m.scopeStack m'.scopes m'.scopeStack :=
  Exec.scopes_perform (m := m.fetched i) (perform_of_step hi hs)

namespace Setup.Tracks

theorem later (h : setup.Tracks start m) (hs : Exec.step setup m = .ok true m') :
    ∃ k, Reaches setup k start m' := by
  obtain ⟨k, hr⟩ := h.reached
  exact ⟨k + 1, hr.trans (.step hs (.refl m'))⟩

/-- Scopes that were there are entered. -/
theorem enters (h : setup.Tracks start m) (hs : Exec.step setup m = .ok true m')
    {entered : List Nat} (heq : (m'.scopes, m'.scopeStack) = (m.scopes, entered))
    (hentered : ∀ n ∈ entered, n < m.scopes.entries.size) : setup.Tracks start m' := by
  obtain ⟨hscopes, hstack⟩ := Prod.mk.inj heq
  refine ⟨h.later hs, ?_, ?_⟩
  · rw [hscopes, hstack]
    exact hentered
  · rw [hscopes]
    exact h.origin

/-- A new scope is entered. -/
theorem push (h : setup.Tracks start m) (hs : Exec.step setup m = .ok true m') {scope : Scope}
    (heq : (m'.scopes, m'.scopeStack) =
      (⟨m.scopes.entries.push scope⟩, m.scopes.entries.size :: m.scopeStack))
    (horigin : ∀ c, scope.caller = some c → c < m.scopes.entries.size ∧
      setup.Invoked start m.scopes.entries.size c (m.scopes.get c) ∧
        ∀ symbol b, scope.get symbol = .block b →
          setup.Written start m.scopes.entries.size symbol b c (m.scopes.get c)) :
    setup.Tracks start m' := by
  obtain ⟨hscopes, hstack⟩ := Prod.mk.inj heq
  refine ⟨h.later hs, ?_, ?_⟩
  · rw [hscopes, hstack, Array.size_push]
    intro n hn
    rcases List.mem_cons.mp hn with rfl | hn
    · exact Nat.lt_succ_self _
    · exact Nat.lt_succ_of_lt (h.entered n hn)
  · rw [hscopes, Array.size_push]
    intro n hn c hc
    rcases Nat.lt_succ_iff_lt_or_eq.mp hn with hn | rfl
    · rw [Scopes.get_push_of_lt hn] at hc ⊢
      obtain ⟨hlt, horigin⟩ := h.origin n hn c hc
      rw [Scopes.get_push_of_lt (Nat.lt_trans hlt hn)]
      exact ⟨hlt, horigin⟩
    · rw [Scopes.get_push_size] at hc ⊢
      obtain ⟨hlt, horigin⟩ := horigin c hc
      rw [Scopes.get_push_of_lt hlt]
      exact ⟨hlt, horigin⟩

/-- A slot of the newest scope is filled. -/
theorem bind (h : setup.Tracks start m) (hs : Exec.step setup m = .ok true m') {number : Nat}
    (hsize : m.scopes.entries.size = number + 1) {symbol : UInt32} {slot : Slot}
    (heq : (m'.scopes, m'.scopeStack) = (m.scopes.bind number symbol slot, m.scopeStack))
    (hwritten : ∀ b, slot = .block b → ∀ c, (m.scopes.get number).caller = some c →
      setup.Written start number symbol b c (m.scopes.get c)) : setup.Tracks start m' := by
  obtain ⟨hscopes, hstack⟩ := Prod.mk.inj heq
  refine ⟨h.later hs, ?_, ?_⟩
  · rw [hscopes, hstack, Scopes.size_bind]
    exact h.entered
  · rw [hscopes, Scopes.size_bind]
    intro n hn c hc
    have hcaller : (m.scopes.get n).caller = some c := by
      by_cases heq : n = number
      · subst heq
        rwa [Scopes.get_bind_self hn, Scope.caller_bind] at hc
      · rwa [Scopes.get_bind_of_ne heq] at hc
    obtain ⟨hlt, hinvoked, horigin⟩ := h.origin n hn c hcaller
    rw [Scopes.get_bind_of_ne (show c ≠ number by omega)]
    refine ⟨hlt, hinvoked, fun other b hb => ?_⟩
    by_cases heq : n = number
    · subst heq
      rw [Scopes.get_bind_self hn, Scope.get_bind] at hb
      split at hb
      · rename_i hother
        subst hother
        exact hwritten b hb c hcaller
      · exact horigin other b hb
    · rw [Scopes.get_bind_of_ne heq] at hb
      exact horigin other b hb

/-- A copy of the current scope is entered. -/
theorem copy (h : setup.Tracks start m) (hi : m.next? = some i) (hop : i.op = .childScope)
    {number : Nat} {rest : List Nat} (hstack : m.scopeStack = number :: rest)
    (hs : Exec.step setup m = .ok true m')
    (heq : (m'.scopes, m'.scopeStack) =
      (⟨m.scopes.entries.push (m.scopes.get number)⟩, m.scopes.entries.size :: m.scopeStack)) :
    setup.Tracks start m' := by
  obtain ⟨k, hr⟩ := h.reached
  have hnumber := h.entered number (hstack ▸ List.mem_cons_self)
  refine h.push hs heq fun c hc => ?_
  obtain ⟨hlt, hinvoked, horigin⟩ := h.origin number hnumber c hc
  exact ⟨Nat.lt_trans hlt hnumber, .copy hr hi hop hstack hs hinvoked, fun symbol b hb =>
    .copy hr hi hop hstack hs (horigin symbol b hb)⟩

/-- An empty scope is entered, which may have the current scope for its place. -/
theorem root (h : setup.Tracks start m) (hi : m.next? = some i) (hop : i.op = .rootScope)
    {size : Nat} {caller : Option Nat}
    (hcaller : ∀ c, caller = some c → m.scopeStack.head? = some c)
    (hs : Exec.step setup m = .ok true m') (heq : (m'.scopes, m'.scopeStack) =
      (⟨m.scopes.entries.push (.root size caller)⟩, m.scopes.entries.size :: m.scopeStack)) :
    setup.Tracks start m' := by
  obtain ⟨k, hr⟩ := h.reached
  refine h.push hs heq fun c hc => ?_
  obtain ⟨rest, hstack⟩ := List.head?_eq_some_iff.mp (hcaller c hc)
  refine ⟨h.entered c (hstack ▸ List.mem_cons_self), .enter hr hi (.inl hop) hstack hs,
    fun symbol b hb => ?_⟩
  rw [Scope.get_root] at hb
  cases hb

/-- The scope of a layout is entered, with what the layout is called with. -/
theorem layout (h : setup.Tracks start m) (hi : m.next? = some i)
    (hop : i.op = .invokeComponentLayout) {scope : Scope}
    (hcaller : scope.caller = m.scopeStack.head?) (hs : Exec.step setup m = .ok true m')
    (heq : (m'.scopes, m'.scopeStack) =
      (⟨m.scopes.entries.push scope⟩, m.scopes.entries.size :: m.scopeStack)) :
    setup.Tracks start m' := by
  obtain ⟨k, hr⟩ := h.reached
  refine h.push hs heq fun c hc => ?_
  obtain ⟨rest, hstack⟩ := List.head?_eq_some_iff.mp (hcaller.symm.trans hc)
  refine ⟨h.entered c (hstack ▸ List.mem_cons_self), .enter hr hi (.inr hop) hstack hs,
    fun symbol b hb => .bound hr hi hop hstack hs ?_⟩
  rwa [(Prod.mk.inj heq).1, Scopes.get_push_size]

/-- A copy of the place of a block is entered, with arguments for the block. -/
theorem yield (h : setup.Tracks start m) (hi : m.next? = some i) (hop : i.op = .invokeYield)
    {number caller : Nat} {rest : List Nat} {parameters : List UInt32} {values : List Reference}
    (hstack : m.scopeStack = number :: rest) (hcaller : (m.scopes.get number).caller = some caller)
    (hs : Exec.step setup m = .ok true m')
    (heq : (m'.scopes, m'.scopeStack) =
      (⟨m.scopes.entries.push (Exec.bindParameters (m.scopes.get caller) parameters values)⟩,
        m.scopes.entries.size :: m.scopeStack)) :
    setup.Tracks start m' := by
  obtain ⟨k, hr⟩ := h.reached
  have hnumber := h.entered number (hstack ▸ List.mem_cons_self)
  obtain ⟨hlt, hinvoked, -⟩ := h.origin number hnumber caller hcaller
  have hlt' := Nat.lt_trans hlt hnumber
  have hsize : m'.scopes.entries.size = m.scopes.entries.size + 1 := by
    rw [(Prod.mk.inj heq).1, Array.size_push]
  refine h.push hs heq fun c hc => ?_
  rw [Store.caller_bindParameters] at hc
  obtain ⟨hless, hinvoked', horigin⟩ := h.origin caller hlt' c hc
  exact ⟨Nat.lt_trans hless hlt', .yield hr hi hop hstack hs hsize hinvoked hinvoked',
    fun symbol b hb => .yield hr hi hop hstack hs hsize hinvoked
      (horigin symbol b (Exec.get_bindParameters_block hb))⟩

end Setup.Tracks

/-- A new scope that can yield is complete. -/
theorem Setup.Completes.push (h : setup.Completes start m) (htracks : setup.Tracks start m')
    {scope : Scope} (hscopes : m'.scopes = ⟨m.scopes.entries.push scope⟩)
    (hyield : scope.CanYield setup.options.strategy) : setup.Completes start m' := by
  refine ⟨htracks, ?_⟩
  rw [hscopes, Array.size_push]
  intro n hn
  rcases Nat.lt_succ_iff_lt_or_eq.mp hn with hn | rfl
  · rw [Scopes.get_push_of_lt hn]
    exact h.2 n hn
  · rwa [Scopes.get_push_size]

/-- Instructions that enter no scope to be filled leave all scopes complete. -/
theorem Setup.Completes.step (h : setup.Completes start m) (hi : m.next? = some i)
    (hs : Exec.step setup m = .ok true m')
    (hop : i.op.isPlain = true ∨ i.op.calls = true ∨ i.op.isScoped = false)
    (hlayout : i.op = .invokeComponentLayout → m'.CanYield setup.options.strategy) :
    setup.Completes start m' := by
  obtain ⟨htracks, hyield⟩ := id h
  have hsame {entered : List Nat} (heq : (m'.scopes, m'.scopeStack) = (m.scopes, entered))
      (hentered : ∀ n ∈ entered, n < m.scopes.entries.size) : setup.Completes start m' := by
    refine ⟨htracks.enters hs heq hentered, ?_⟩
    rw [(Prod.mk.inj heq).1]
    exact hyield
  cases Exec.scopes_of_step hi hs with
  | still _ heq => exact hsame heq htracks.entered
  | bindValue hop' | bindBlock hop' | root hop' | copy hop' =>
    exact absurd hop (by rw [hop']; decide)
  | leave _ hstack heq =>
    exact hsame heq fun n hn => htracks.entered n (hstack ▸ List.mem_cons_of_mem _ hn)
  | stay _ hstack heq =>
    refine hsame heq fun n hn => ?_
    rcases List.mem_cons.mp hn with rfl | hn
    · exact htracks.entered n (hstack ▸ List.mem_cons_self)
    · exact htracks.entered n hn
  | @back number caller rest _ hstack hcaller heq =>
    refine hsame heq fun n hn => ?_
    rcases List.mem_cons.mp hn with rfl | hn
    · have hnumber := htracks.entered number (hstack ▸ List.mem_cons_self)
      exact Nat.lt_trans (htracks.origin number hnumber n hcaller).1 hnumber
    · exact htracks.entered n hn
  | @yield number caller rest parameters values hop hstack hcaller heq =>
    have hnumber := htracks.entered number (hstack ▸ List.mem_cons_self)
    have hlt := Nat.lt_trans (htracks.origin number hnumber caller hcaller).1 hnumber
    exact h.push (htracks.yield hi hop hstack hcaller hs heq) (Prod.mk.inj heq).1
      (Exec.canYield_bindParameters (hyield caller hlt) _ _)
  | layout hop hcaller heq =>
    obtain ⟨hscopes, hstack⟩ := Prod.mk.inj heq
    have := hlayout hop _ _ hstack
    rw [hscopes, Scopes.get_push_size] at this
    exact h.push (htracks.layout hi hop hcaller hs heq) hscopes this

theorem Opcode.isScoped_of_beginning? {op : Opcode} {s : Beginning} (h : op.beginning? = some s) :
    op.isScoped = true := by
  cases op <;> first | rfl | cases h

/-- A scope is entered to be filled. -/
theorem Setup.Completes.enter (h : setup.Completes start m) {s : Beginning} (hi : m.next? = some i)
    (hbegins : i.op.beginning? = some s) (hs : Exec.step setup m = .ok true m') :
    ∃ number rest, setup.Fills start m' s number rest := by
  have hnew {scope : Scope} (htracks : setup.Tracks start m')
      (heq : (m'.scopes, m'.scopeStack) =
        (⟨m.scopes.entries.push scope⟩, m.scopes.entries.size :: m.scopeStack))
      (hplace : s = .empty → ∀ c, scope.caller = some c → m.scopeStack.head? = some c) :
      ∃ number rest, setup.Fills start m' s number rest := by
    obtain ⟨hscopes, hstack⟩ := Prod.mk.inj heq
    refine ⟨m.scopes.entries.size, m.scopeStack, htracks, hstack, ?_, fun n hn => ?_, ?_⟩
    · rw [hscopes, Array.size_push]
    · rw [hscopes, Scopes.get_push_of_lt hn]
      exact h.canYield n hn
    · rw [hscopes, Scopes.get_push_size]
      exact hplace
  cases Exec.scopes_of_step hi hs with
  | root hop hcaller heq =>
    exact hnew (h.tracks.root hi hop hcaller hs heq) heq fun _ => hcaller
  | copy hop hstack heq =>
    rw [hop] at hbegins
    cases hbegins
    exact hnew (h.tracks.copy hi hop hstack hs heq) heq nofun
  | still hop heq =>
    rw [Opcode.isScoped_of_beginning? hbegins] at hop
    cases hop
  | bindValue hop | bindBlock hop | leave hop | stay hop | back hop | yield hop | layout hop =>
    rw [hop] at hbegins
    cases hbegins

/-- The scope that is being filled gets something into a slot. -/
theorem Setup.Fills.fill {s : Beginning} {number : Nat} {rest : List Nat}
    (h : setup.Fills start m s number rest) (hi : m.next? = some i) (hfills : i.op.fills s = true)
    (hs : Exec.step setup m = .ok true m') : setup.Fills start m' s number rest := by
  have hbind {slot : Slot}
      (heq : (m'.scopes, m'.scopeStack) = (m.scopes.bind number i.a slot, m.scopeStack))
      (hwritten : ∀ b, slot = .block b → ∀ c, (m.scopes.get number).caller = some c →
        setup.Written start number i.a b c (m.scopes.get c)) :
        setup.Fills start m' s number rest := by
    obtain ⟨hscopes, hstack⟩ := Prod.mk.inj heq
    have hlt : number < m.scopes.entries.size := h.newest ▸ Nat.lt_succ_self number
    refine ⟨h.tracks.bind hs h.newest heq hwritten, hstack.trans h.entered, ?_, fun n hn => ?_, ?_⟩
    · rw [hscopes, Scopes.size_bind]
      exact h.newest
    · rw [hscopes, Scopes.get_bind_of_ne (Nat.ne_of_lt hn)]
      exact h.canYield n hn
    · rw [hscopes, Scopes.get_bind_self hlt, Scope.caller_bind]
      exact h.place
  cases Exec.scopes_of_step hi hs with
  | still hop heq =>
    obtain ⟨hscopes, hstack⟩ := Prod.mk.inj heq
    refine ⟨h.tracks.enters hs heq h.tracks.entered, hstack.trans h.entered, ?_, ?_, ?_⟩
    · rw [hscopes]
      exact h.newest
    · rw [hscopes]
      exact h.canYield
    · rw [hscopes]
      exact h.place
  | @bindValue current others r hop hstack heq =>
    obtain ⟨rfl, rfl⟩ := List.cons.inj (h.entered.symm.trans hstack)
    exact hbind heq fun _ hb => nomatch hb
  | @bindBlock current others b hop hstack heq =>
    obtain ⟨rfl, rfl⟩ := List.cons.inj (h.entered.symm.trans hstack)
    refine hbind heq fun b' hb c hc => ?_
    obtain rfl := Slot.block.inj hb
    have hempty : s = .empty := by
      rw [hop] at hfills
      cases s
      · rfl
      · cases hfills
    obtain ⟨others, rfl⟩ := List.head?_eq_some_iff.mp (h.place hempty c hc)
    obtain ⟨k, hr⟩ := h.tracks.reached
    refine .set hr hi hop hstack hs ?_
    rw [(Prod.mk.inj heq).1, Scopes.get_bind_self (h.newest ▸ Nat.lt_succ_self number),
      Scope.get_bind, if_pos rfl]
  | root hop | copy hop | leave hop | stay hop | back hop | yield hop | layout hop =>
    rw [hop] at hfills
    cases s <;> cases hfills

/-- Scopes are only ever added, one at a time. -/
theorem Exec.size_of_step (hi : m.next? = some i) (hs : Exec.step setup m = .ok true m') :
    m.scopes.entries.size ≤ m'.scopes.entries.size := by
  cases Exec.scopes_of_step hi hs with
  | still _ heq | leave _ _ heq | stay _ _ heq | back _ _ _ heq =>
    exact Nat.le_of_eq (congrArg (·.entries.size) (Prod.mk.inj heq).1.symm)
  | bindValue _ _ heq | bindBlock _ _ heq =>
    exact Nat.le_of_eq (by rw [(Prod.mk.inj heq).1, Scopes.size_bind])
  | root _ _ heq | copy _ _ heq | yield _ _ _ heq | layout _ _ heq =>
    rw [(Prod.mk.inj heq).1, Array.size_push]
    exact Nat.le_succ _

theorem Exec.size_of_enters (hi : m.next? = some i) (hs : Exec.step setup m = .ok true m')
    (hop : i.op = .rootScope ∨ i.op = .invokeComponentLayout ∨ i.op = .childScope) :
    m'.scopes.entries.size = m.scopes.entries.size + 1 := by
  cases Exec.scopes_of_step hi hs with
  | root _ _ heq | copy _ _ heq | yield _ _ _ heq | layout _ _ heq =>
    rw [(Prod.mk.inj heq).1, Array.size_push]
  | still hop' =>
    rcases hop with hop | hop | hop <;> rw [hop] at hop' <;> cases hop'
  | bindValue hop' | bindBlock hop' | leave hop' | stay hop' | back hop' =>
    rw [hop'] at hop
    rcases hop with hop | hop | hop <;> cases hop

theorem Exec.word_ok {address : Nat} {w : UInt32} (h : Exec.word address setup m = .ok w m') :
    m.program.heap.word? address = some w ∧ m' = m := by
  unfold Exec.word at h
  obtain ⟨_, m₁, hget, hw⟩ := Exec.bind_ok h
  cases hget
  exact Exec.orFail_ok hw

theorem Exec.instruction_ok {address : Nat} (h : Exec.instruction address setup m = .ok i m') :
    m.program.heap.instruction? address = some i := by
  unfold Exec.instruction at h
  obtain ⟨number, m₁, hnumber, hop⟩ := Exec.bind_ok h
  obtain ⟨op, m₂, hop, ha⟩ := Exec.bind_ok hop
  obtain ⟨a, m₃, ha, hb⟩ := Exec.bind_ok ha
  obtain ⟨b, m₄, hb, hc⟩ := Exec.bind_ok hb
  obtain ⟨c, m₅, hc, hlast⟩ := Exec.bind_ok hc
  obtain ⟨hnumber', rfl⟩ := Exec.word_ok hnumber
  obtain ⟨hop', rfl⟩ := Exec.orFail_ok hop
  obtain ⟨ha', rfl⟩ := Exec.word_ok ha
  obtain ⟨hb', rfl⟩ := Exec.word_ok hb
  obtain ⟨hc', rfl⟩ := Exec.word_ok hc
  cases hlast
  simp only [Heap.instruction?, hnumber', hop', ha', hb', hc', Option.bind_eq_bind,
    Option.bind_some]
  rfl

theorem Exec.next?_of_step {more : Bool} (hs : Exec.step setup m = .ok more m') :
    ∃ i, m.next? = some i := by
  unfold Exec.step at hs
  obtain ⟨_, m₁, hget, hrest⟩ := Exec.bind_ok hs
  cases hget
  obtain ⟨i, m₂, hi, -⟩ := Exec.bind_ok hrest
  exact ⟨i, Exec.instruction_ok hi⟩

theorem Reaches.size_le {k : Nat} (hr : Reaches setup k m m') :
    m.scopes.entries.size ≤ m'.scopes.entries.size := by
  induction hr with
  | refl m => exact Nat.le_refl _
  | step hs _ ih =>
    obtain ⟨i, hi⟩ := Exec.next?_of_step hs
    exact Nat.le_trans (Exec.size_of_step hi hs) ih

/-- A scope of a number is entered once. -/
theorem Reaches.enters_once {k k' : Nat} {m₁ m₁' m₂ m₂' : Machine} (hr₁ : Reaches setup k start m₁)
    (hs₁ : Exec.step setup m₁ = .ok true m₁')
    (hsize₁ : m₁'.scopes.entries.size = m₁.scopes.entries.size + 1)
    (hr₂ : Reaches setup k' start m₂) (hs₂ : Exec.step setup m₂ = .ok true m₂')
    (hsize₂ : m₂'.scopes.entries.size = m₂.scopes.entries.size + 1)
    (heq : m₁.scopes.entries.size = m₂.scopes.entries.size) : m₁ = m₂ := by
  have hnot {j j' : Nat} {m m' m'' : Machine} (hr : Reaches setup j start m)
      (hs : Exec.step setup m = .ok true m')
      (hsize : m'.scopes.entries.size = m.scopes.entries.size + 1)
      (hr' : Reaches setup j' start m'')
      (heq : m.scopes.entries.size = m''.scopes.entries.size) : ¬ j < j' := by
    intro hlt
    obtain ⟨l, rfl⟩ := Nat.exists_eq_add_of_lt hlt
    have := ((hr.trans (.step hs (.refl m'))).suffix (j := l)
      (by rwa [show j + 1 + l = j + l + 1 by omega])).size_le
    omega
  have hk : k = k' := by
    have := hnot hr₁ hs₁ hsize₁ hr₂ heq
    have := hnot hr₂ hs₂ hsize₂ hr₁ heq.symm
    omega
  exact hr₁.unique (hk ▸ hr₂)

/-- A scope belongs to one invocation. -/
theorem Setup.Invoked.unique {s c c' : Nat} {place place' : Scope}
    (h : setup.Invoked start s c place) (h' : setup.Invoked start s c' place') :
    c = c' ∧ place = place' := by
  generalize hs : s = s' at h'
  induction h generalizing c' place' s' with
  | enter hr₁ hi₁ hop₁ hstack₁ hs₁ =>
    have hsize₁ := Exec.size_of_enters hi₁ hs₁ (hop₁.imp_right .inl)
    cases h' with
    | enter hr hi hop hstack hs' =>
      obtain rfl := hr₁.enters_once hs₁ hsize₁ hr hs'
        (Exec.size_of_enters hi hs' (hop.imp_right .inl)) hs
      cases hstack₁.symm.trans hstack
      exact ⟨rfl, rfl⟩
    | copy hr hi hop hstack hs' =>
      obtain rfl :=
        hr₁.enters_once hs₁ hsize₁ hr hs' (Exec.size_of_enters hi hs' (.inr (.inr hop))) hs
      cases hi₁.symm.trans hi
      rw [hop] at hop₁
      rcases hop₁ with hop₁ | hop₁ <;> cases hop₁
    | yield hr hi hop hstack hs' hsize =>
      obtain rfl := hr₁.enters_once hs₁ hsize₁ hr hs' hsize hs
      cases hi₁.symm.trans hi
      rw [hop] at hop₁
      rcases hop₁ with hop₁ | hop₁ <;> cases hop₁
  | copy hr₁ hi₁ hop₁ hstack₁ hs₁ _ ih =>
    have hsize₁ := Exec.size_of_enters hi₁ hs₁ (.inr (.inr hop₁))
    cases h' with
    | enter hr hi hop hstack hs' =>
      obtain rfl := hr₁.enters_once hs₁ hsize₁ hr hs'
        (Exec.size_of_enters hi hs' (hop.imp_right .inl)) hs
      cases hi₁.symm.trans hi
      rw [hop₁] at hop
      rcases hop with hop | hop <;> cases hop
    | copy hr hi hop hstack hs' h' =>
      obtain rfl :=
        hr₁.enters_once hs₁ hsize₁ hr hs' (Exec.size_of_enters hi hs' (.inr (.inr hop))) hs
      cases hstack₁.symm.trans hstack
      exact ih _ rfl h'
    | yield hr hi hop hstack hs' hsize =>
      obtain rfl := hr₁.enters_once hs₁ hsize₁ hr hs' hsize hs
      cases hi₁.symm.trans hi
      cases hop₁.symm.trans hop
  | yield hr₁ hi₁ hop₁ hstack₁ hs₁ hsize₁ _ _ ih ih' =>
    cases h' with
    | enter hr hi hop hstack hs' =>
      obtain rfl := hr₁.enters_once hs₁ hsize₁ hr hs'
        (Exec.size_of_enters hi hs' (hop.imp_right .inl)) hs
      cases hi₁.symm.trans hi
      rw [hop₁] at hop
      rcases hop with hop | hop <;> cases hop
    | copy hr hi hop hstack hs' =>
      obtain rfl :=
        hr₁.enters_once hs₁ hsize₁ hr hs' (Exec.size_of_enters hi hs' (.inr (.inr hop))) hs
      cases hi₁.symm.trans hi
      cases hop₁.symm.trans hop
    | yield hr hi hop hstack hs' hsize h' h'' =>
      obtain rfl := hr₁.enters_once hs₁ hsize₁ hr hs' hsize hs
      cases hstack₁.symm.trans hstack
      obtain ⟨rfl, -⟩ := ih _ rfl h'
      exact ih' _ rfl h''

end

end TemplateMachine
