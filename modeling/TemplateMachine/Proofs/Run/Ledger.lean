import TemplateMachine.Proofs.Run.Invariant

/-! The instances that are to be destroyed, as the calls of a host tell of them.  An instance whose
creation succeeds opens an entry, and the end of its layout commits that entry. -/

namespace TemplateMachine

/-! ### What a host is owed -/

/-- What a call after others leaves to be destroyed: the instance that it creates, if that is to be
destroyed in the end. -/
def Host.offer (host : Host) (cells : Cells) (history : History) : Event → List Destructor
  | .create component asked =>
    let history := history.push (.create component asked)
    match host.created? cells history component asked with
    | some inst => if host.offers history ⟨component, inst⟩ then [⟨component, inst⟩] else []
    | none => []
  | _ => []

/-- All instances that calls after others leave to be destroyed, in the order of their creation. -/
def Host.offered (host : Host) (cells : Cells) : History → List Event → List Destructor
  | _, [] => []
  | history, e :: rest => host.offer cells history e ++ host.offered cells (history.push e) rest

/-- Instances to be destroyed. -/
structure Ledger where
  /-- Those of invocations in progress, the innermost first. -/
  opened : List (List Destructor) := []
  /-- Those of finished invocations, the one that was finished last first. -/
  committed : List Destructor := []

namespace Ledger

/-- In the order of their destruction. -/
def owed (l : Ledger) : List Destructor := l.opened.flatten ++ l.committed

/-- The ledger after a call that comes after others. -/
def after (host : Host) (cells : Cells) (history : History) (l : Ledger) : Event → Ledger
  | .create component asked =>
    match host.created? cells (history.push (.create component asked)) component asked with
    | some _ => { l with opened := host.offer cells history (.create component asked) :: l.opened }
    | none => l
  | .layoutRendered .. =>
    match l.opened with
    | innermost :: rest => ⟨rest, innermost ++ l.committed⟩
    | [] => l
  | _ => l

/-- The ledger after several calls that come after others. -/
def afterAll (host : Host) (cells : Cells) : History → Ledger → List Event → Ledger
  | _, l, [] => l
  | history, l, e :: rest =>
    afterAll host cells (history.push e) (l.after host cells history e) rest

variable {host : Host} {cells : Cells} {history : History} {l : Ledger}

theorem afterAll_append (first second : List Event) :
    l.afterAll host cells history (first ++ second) =
      (l.afterAll host cells history first).afterAll host cells
        (history ++ first.toArray) second := by
  induction first generalizing history l with
  | nil => simp [afterAll]
  | cons e rest ih =>
    rw [List.cons_append, afterAll, ih, afterAll]
    congr 1
    simp

theorem after_quiet {e : Event} (he : e.isQuiet = true) : l.after host cells history e = l := by
  cases e <;> first | rfl | cases he

theorem afterAll_quiet {calls : List Event} (hquiet : ∀ e ∈ calls, e.isQuiet = true) :
    l.afterAll host cells history calls = l := by
  induction calls generalizing history with
  | nil => rfl
  | cons e rest ih =>
    rw [afterAll, after_quiet (hquiet e (.head _))]
    exact ih fun e he => hquiet e (.tail _ he)

/-- A call adds what it leaves to be destroyed, and drops nothing. -/
theorem owed_after (l : Ledger) (history : History) (e : Event) :
    (l.after host cells history e).owed.Perm (host.offer cells history e ++ l.owed) := by
  cases e with
  | create component asked =>
    simp only [after]
    cases h : host.created? cells (history.push (.create component asked)) component asked with
    | none =>
      rw [Host.offer]
      simp only [h]
      exact .refl _
    | some inst => simp [owed]
  | layoutRendered component inst =>
    simp only [after]
    cases hopened : l.opened with
    | nil => exact .refl _
    | cons innermost rest =>
      simp only [owed, hopened, List.flatten_cons, Host.offer, List.nil_append, List.append_assoc]
      rw [← List.append_assoc, ← List.append_assoc]
      exact List.perm_append_comm.append_right _
  | _ => exact .refl _

theorem owed_afterAll (host : Host) (cells : Cells) (l : Ledger) (history : History)
    (calls : List Event) : (l.afterAll host cells history calls).owed.Perm
      (host.offered cells history calls ++ l.owed) := by
  induction calls generalizing history l with
  | nil => exact .refl _
  | cons e rest ih =>
    rw [afterAll, Host.offered, List.append_assoc]
    refine (ih _ _).trans ?_
    refine ((owed_after l history e).append_left _).trans ?_
    rw [← List.append_assoc, ← List.append_assoc]
    exact List.perm_append_comm.append_right _

end Ledger

/-- The ledger after all calls of a render. -/
def Host.ledger (host : Host) (cells : Cells) (calls : List Event) : Ledger :=
  Ledger.afterAll host cells #[] {} calls

/-- What a host is owed is what it has left to be destroyed. -/
theorem Host.owed_ledger (host : Host) (cells : Cells) (calls : List Event) :
    (host.ledger cells calls).owed.Perm (host.offered cells #[] calls) := by
  have := Ledger.owed_afterAll host cells {} #[] calls
  rwa [show Ledger.owed {} = [] from rfl, List.append_nil] at this

theorem Host.ledger_push (host : Host) (cells : Cells) (history : History) (e : Event) :
    host.ledger cells (history.push e).toList =
      (host.ledger cells history.toList).after host cells history e := by
  rw [Array.toList_push, Host.ledger, Ledger.afterAll_append]
  simp [Host.ledger, Ledger.afterAll]

/-! ### The machine's books -/

/-- What the transactions of a machine are, by the calls that it has made.  Where an instance is not
registered yet, or the end of a layout not committed, the books are one step ahead. -/
def Machine.Books (host : Host) (cells : Cells) (m : Machine) : Phase → Prop :=
  let l := host.ledger cells m.events.toList
  fun
  | .free | .filling _ => m.transactions = l.opened ∧ m.destructors = l.committed
  | .opening => m.transactions = [] :: l.opened ∧ m.destructors = l.committed
  | .registering => m.destructors = l.committed ∧
    ∃ number c inst rest, m.registers.s0 = .component number ∧ m.components[number]? = some c ∧
      c.created = some inst ∧ m.transactions = [] :: rest ∧
      l.opened = (if host.offers m.events ⟨c.definition, inst⟩ then
        [⟨c.definition, inst⟩] else []) :: rest
  | .closing => ∀ innermost rest, m.transactions = innermost :: rest →
    rest = l.opened ∧ innermost ++ m.destructors = l.committed

/-- A machine whose transactions are what its calls tell, and that has destroyed nothing. -/
structure Machine.Accounts (host : Host) (cells : Cells) (phase : Phase) (m : Machine) : Prop where
  data : m.cells = cells
  managed : m.Managed host
  spared : ∀ component inst, Event.destroy component inst ∉ m.events.toList
  books : m.Books host cells phase

section

variable {setup : Setup} {cells : Cells} {host : Host} {m m' : Machine} {phase phase' : Phase}
variable {still : Bool} {i : Instruction} {floor : Nat}

theorem Machine.Quiet.ledger (h : m.Quiet host still m') :
    host.ledger cells m'.events.toList = host.ledger cells m.events.toList := by
  obtain ⟨calls, hcalls, hquiet⟩ := h.events
  rw [hcalls, Array.toList_append, Host.ledger, Ledger.afterAll_append,
    Ledger.afterAll_quiet hquiet]
  rfl

theorem Machine.Quiet.spared (h : m.Quiet host still m')
    (hm : ∀ component inst, Event.destroy component inst ∉ m.events.toList) (component : UInt32)
    (inst : Instance) : Event.destroy component inst ∉ m'.events.toList := by
  obtain ⟨calls, hcalls, hquiet⟩ := h.events
  rw [hcalls, Array.toList_append]
  intro hmem
  rcases List.mem_append.mp hmem with hmem | hmem
  · exact hm component inst hmem
  · exact nomatch hquiet _ hmem

/-- Between phases in which the books are alike. -/
theorem Machine.Accounts.quiet (h : m.Accounts host cells phase) (hm : m.Quiet host still m')
    (hbooks : m'.transactions = m.transactions → m'.destructors = m.destructors →
      host.ledger cells m'.events.toList = host.ledger cells m.events.toList →
      m'.Books host cells phase') : m'.Accounts host cells phase' where
  data := hm.cells.trans h.data
  managed := hm.managed h.managed
  spared := hm.spared h.spared
  books := hbooks hm.transactions hm.destructors hm.ledger

/-- A quiet machine keeps its books in the phases that depend on nothing else. -/
theorem Machine.Accounts.quiet_free (h : m.Accounts host cells .free) (hm : m.Quiet host still m') :
    m'.Accounts host cells .free :=
  h.quiet hm fun ht hd hl => by
    obtain ⟨htransactions, hdestructors⟩ := h.books
    exact ⟨by rw [ht, htransactions, hl], by rw [hd, hdestructors, hl]⟩

/-- Filling a scope is nothing to the books. -/
theorem Machine.accounts_filling {s : Beginning} :
    m.Accounts host cells (.filling s) ↔ m.Accounts host cells .free :=
  ⟨fun h => ⟨h.data, h.managed, h.spared, h.books⟩, fun h => ⟨h.data, h.managed, h.spared, h.books⟩⟩

/-! ### Instructions about the life of instances -/

open Exec (bind_apply pure_apply get_apply read_apply modify_apply orFail_some)

theorem Exec.bind_ok {α β : Type} {x : Exec α} {f : α → Exec β} {b : β}
    (h : (x >>= f) setup m = .ok b m') :
    ∃ a m₁, x setup m = .ok a m₁ ∧ f a setup m₁ = .ok b m' := by
  rw [bind_apply] at h
  cases hx : x setup m with
  | ok a m₁ =>
    rw [hx] at h
    exact ⟨a, m₁, rfl, h⟩
  | error e m₁ =>
    rw [hx] at h
    cases h

theorem Exec.orFail_ok {α : Type} {o : Option α} {error : RuntimeError} {a : α}
    (h : Exec.orFail o error setup m = .ok a m') : o = some a ∧ m' = m := by
  cases o with
  | none => cases h
  | some b =>
    cases h
    exact ⟨rfl, rfl⟩

theorem Exec.componentNumber_apply (setup : Setup) {number : Nat}
    (hs0 : m.registers.s0 = .component number) :
    Exec.componentNumber Emit.current setup m = .ok number m := by
  simp only [Exec.componentNumber, Exec.register, Exec.savedValue,
    show Register.ofNumber? Emit.current = some .s0 from rfl, bind_apply, orFail_some, get_apply,
    SavedRegisters.get?, hs0]
  rfl

theorem Exec.componentState_apply (setup : Setup) {number : Nat} {c : ComponentState}
    (hc : m.components[number]? = some c) : Exec.componentState number setup m = .ok c m := by
  simp only [Exec.componentState, bind_apply, get_apply, hc]
  rfl

theorem Exec.componentState_ok {number : Nat} {c : ComponentState}
    (h : Exec.componentState number setup m = .ok c m') :
    m.components[number]? = some c ∧ m' = m := by
  simp only [Exec.componentState, bind_apply, get_apply] at h
  cases hfound : m.components[number]? <;> simp only [hfound] at h <;> cases h
  exact ⟨rfl, rfl⟩

/-- Finding a component changes nothing. -/
theorem Exec.component_ok {word : UInt32} {c : ComponentState}
    (h : Exec.component word setup m = .ok c m') : m' = m := by
  obtain ⟨number, m₁, hnumber, hstate⟩ := Exec.bind_ok h
  obtain ⟨r, m₂, hr, hv⟩ := Exec.bind_ok hnumber
  obtain ⟨v, m₃, hv, hmatch⟩ := Exec.bind_ok hv
  have hm₂ : m₂ = m := (Exec.orFail_ok hr).2
  have hm₃ : m₃ = m₂ := (Exec.orFail_ok (m := m₂) hv).2
  have hm₁ : m₁ = m₃ := by
    cases v <;> cases hmatch
    rfl
  rw [(Exec.componentState_ok hstate).2, hm₁, hm₃, hm₂]

/-- The creation of an instance of the current component. -/
theorem Exec.create_eq (setup : Setup) {number : Nat} {c : ComponentState} (flags : UInt32)
    (hs0 : m.registers.s0 = .component number) (hc : m.components[number]? = some c) :
    ∃ asked, Exec.create flags Emit.current setup m =
      match (c.manager (m.events.push (.create c.definition asked))).create m.cells asked with
      | .ok inst => .ok () { m with
          events := m.events.push (.create c.definition asked)
          components := m.components.set! number { c with created := some inst } }
      | .error message => .error (.fault (.managerFailed message))
          { m with events := m.events.push (.create c.definition asked) } := by
  have hnumber := Exec.componentNumber_apply setup hs0
  have hstate := Exec.componentState_apply setup hc
  obtain ⟨asked, hasked⟩ : ∃ asked, Exec.create flags Emit.current setup m =
      (do
        Exec.record (.create c.definition asked)
        match (c.manager (← get).events).create m.cells asked with
        | .ok inst => Exec.setComponent number { c with created := some inst }
        | .error message => Exec.fail (.managerFailed message) : Exec Unit) setup m := by
    simp only [Exec.create, bind_apply, hnumber, hstate, get_apply]
    exact ⟨_, rfl⟩
  refine ⟨asked, hasked.trans ?_⟩
  simp only [bind_apply, Exec.record, modify_apply, get_apply]
  cases (c.manager (m.events.push (.create c.definition asked))).create m.cells asked <;> rfl

/-- Unless there is no current component, of which the machine complains. -/
theorem Exec.current_of_create (setup : Setup) {flags : UInt32}
    (h : ∀ a op, Exec.create flags Emit.current setup m ≠
      .error (.fault (.typeMismatch a op "component")) m) :
    ∃ number c, m.registers.s0 = .component number ∧ m.components[number]? = some c := by
  cases hs0 : m.registers.s0 with
  | component number =>
    cases hc : m.components[number]? with
    | some c => exact ⟨number, c, rfl, hc⟩
    | none =>
      refine absurd ?_ (h m.current.1 m.current.2.name)
      simp only [Exec.create, bind_apply, Exec.componentNumber_apply setup hs0, Exec.componentState,
        get_apply, hc]
      rfl
  | _ =>
    refine absurd ?_ (h m.current.1 m.current.2.name)
    simp only [Exec.create, Exec.componentNumber, Exec.register, Exec.savedValue,
      show Register.ofNumber? Emit.current = some .s0 from rfl, bind_apply, orFail_some, get_apply,
      SavedRegisters.get?, hs0]
    rfl

/-- An instance is asked whether it is to be destroyed, and registered if it is. -/
theorem Exec.registerComponentDestructor_apply (setup : Setup) {number : Nat} {c : ComponentState}
    {inst : Instance} {innermost : List Destructor} {rest : List (List Destructor)}
    (hs0 : m.registers.s0 = .component number) (hc : m.components[number]? = some c)
    (hinst : c.created = some inst) (htransactions : m.transactions = innermost :: rest) :
    Exec.registerComponentDestructor Emit.current setup m =
      .ok () { m with
        events := m.events.push (.hasDestructor c.definition inst)
        transactions :=
          (if (c.manager (m.events.push (.hasDestructor c.definition inst))).hasDestructor inst then
            ⟨c.definition, inst⟩ :: innermost else innermost) :: rest } := by
  simp only [Exec.registerComponentDestructor, Exec.component, bind_apply,
    Exec.componentNumber_apply setup hs0, Exec.componentState_apply setup hc, hinst,
    Exec.record, modify_apply, get_apply]
  by_cases hoffers :
      (c.manager (m.events.push (.hasDestructor c.definition inst))).hasDestructor inst
  · rw [if_pos hoffers, if_pos hoffers]
    simp only [Exec.registerDestructor, bind_apply, get_apply, htransactions]
    rfl
  · rw [if_neg hoffers, if_neg hoffers, ← htransactions]
    rfl

theorem Exec.layoutRendered_ok {word : UInt32} (h : Exec.layoutRendered word setup m = .ok () m') :
    ∃ component inst, m' = { m with events := m.events.push (.layoutRendered component inst) } := by
  obtain ⟨c, m₁, hc, hrest⟩ := Exec.bind_ok h
  obtain ⟨inst, m₂, hinst, hrecord⟩ := Exec.bind_ok hrest
  have hm₂ : m₂ = m := (Exec.orFail_ok hinst).2.trans (Exec.component_ok hc)
  cases hrecord
  rw [hm₂]
  exact ⟨_, _, rfl⟩

theorem Exec.popFrame_ok (h : Exec.popFrame setup m = .ok () m') :
    m'.registers = m.registers ∧ m'.components = m.components ∧ m'.events = m.events := by
  simp only [Exec.popFrame, bind_apply, get_apply] at h
  generalize m.stack[m.fp]? = first, m.stack[m.fp + 1]? = second at h
  -- a frame begins with two addresses
  rcases first with _ | (_ | _ | _ | _ | _ | _ | _ | _ | ra) <;>
    rcases second with _ | (_ | _ | _ | _ | _ | _ | _ | _ | fp) <;>
      cases h
  exact ⟨rfl, rfl, rfl⟩

theorem Exec.commitTransaction_ok (h : Exec.commitTransaction setup m = .ok () m') :
    ∃ innermost rest, m.transactions = innermost :: rest ∧
      m' = { m with transactions := rest, destructors := innermost ++ m.destructors } := by
  simp only [Exec.commitTransaction, bind_apply, get_apply] at h
  cases htransactions : m.transactions with
  | nil =>
    rw [htransactions] at h
    cases h
  | cons innermost rest =>
    rw [htransactions] at h
    cases h
    exact ⟨innermost, rest, rfl, rfl⟩

/-! ### The books along a run -/

theorem Phase.Turn.isQuiet {s : Phase} (h : Phase.Turn floor m i .free s) (hs : s ≠ .opening)
    (hs' : s ≠ .closing) : i.op.isQuiet false false = true := by
  obtain ⟨op, a, b, c⟩ := i
  cases h with
  | stay h =>
    cases h with
    | plain hplain => cases op <;> first | rfl | cases hplain
    | leave hop => cases hop; rfl
    | absent hop => cases hop; rfl
  | enter h => cases op <;> first | rfl | cases h
  | begin => exact absurd rfl hs
  | rendered => exact absurd rfl hs'

theorem Opcode.isQuiet_of_fills {s : Beginning} {op : Opcode} (h : op.fills s = true) :
    op.isQuiet false false = true := by
  cases s <;> cases op <;> first | rfl | cases h

theorem Opcode.isQuiet_of_calls {op : Opcode} (h : op.calls = true) :
    op.isQuiet false false = true := by
  cases op <;> first | rfl | cases h

theorem Machine.next?_of_callee? {handle : UInt32} (h : m.callee? = some handle) :
    ∃ i, m.next? = some i := by
  unfold Machine.callee? at h
  cases hi : m.next? with
  | none =>
    rw [hi] at h
    cases h
  | some i => exact ⟨i, rfl⟩

/-- After a quiet step. -/
theorem Machine.Quiet.of_step (still : Bool) (hi : m.next? = some i)
    (hquiet : i.op.isQuiet still false = true) (hs : Exec.step setup m = .ok true m') :
    m.Quiet setup.host still m' := by
  have := Exec.quiet_step setup hi hquiet
  rwa [hs] at this

theorem Machine.Accounts.create (h : m.Accounts setup.host cells .opening) (hi : m.next? = some i)
    (hop : i.op = .createComponent) (hcurrent : i.b = Emit.current)
    (hs : Exec.step setup m = .ok true m') : m'.Accounts setup.host cells .registering := by
  have hperform := Exec.perform_of_step hi hs
  obtain ⟨op, a, b, c⟩ := i
  cases hop
  cases hcurrent
  have hperform : Exec.create a Emit.current setup
    (m.fetched ⟨.createComponent, a, Emit.current, c⟩) = .ok () m' := hperform
  obtain ⟨number, state, hs0, hstate⟩ := Exec.current_of_create setup fun _ _ herror =>
    nomatch herror.symm.trans hperform
  obtain ⟨asked, heq⟩ := Exec.create_eq setup a hs0 hstate
  rw [hperform] at heq
  obtain ⟨d, hd, hmanager⟩ := h.managed number state hstate
  cases hcreate : (state.manager (m.events.push (.create state.definition asked))).create
    m.cells asked with
  | error message =>
    rw [show Machine.events (m.fetched _) = m.events from rfl,
      show Machine.cells (m.fetched _) = m.cells from rfl, hcreate] at heq
    cases heq
  | ok inst =>
    rw [show Machine.events (m.fetched _) = m.events from rfl,
      show Machine.cells (m.fetched _) = m.cells from rfl, hcreate] at heq
    cases heq
    have hcreated : setup.host.created? cells (m.events.push (.create state.definition asked))
        state.definition asked = some inst := by
      rw [Host.created?, hd]
      simp only [← hmanager, ← h.data, hcreate]
    have hlt := (Array.getElem?_eq_some_iff.mp hstate).1
    obtain ⟨htransactions, hdestructors⟩ := h.books
    refine ⟨h.data, Exec.managed_set h.managed hstate rfl rfl, fun component inst' hmem => ?_, ?_⟩
    · rcases List.mem_append.mp (Array.toList_push ▸ hmem) with hmem | hmem
      · exact h.spared component inst' hmem
      · cases List.mem_singleton.mp hmem
    · simp only [Machine.Books, Host.ledger_push, Ledger.after, hcreated]
      refine ⟨hdestructors, number, { state with created := some inst }, inst, _, hs0, ?_, rfl,
        htransactions, ?_⟩
      · exact Array.getElem?_setIfInBounds_self_of_lt hlt
      · simp only [Host.offer, hcreated]

theorem Machine.Accounts.register (h : m.Accounts setup.host cells .registering)
    (hi : m.next? = some i) (hop : i.op = .registerComponentDestructor)
    (hcurrent : i.a = Emit.current) (hs : Exec.step setup m = .ok true m') :
    m'.Accounts setup.host cells .free := by
  have hperform := Exec.perform_of_step hi hs
  obtain ⟨op, a, b, c⟩ := i
  cases hop
  cases hcurrent
  obtain ⟨hdestructors, number, state, inst, rest, hs0, hstate, hinst,
    htransactions, hopened⟩ := h.books
  obtain ⟨d, hd, hmanager⟩ := h.managed number state hstate
  have heq := (Exec.registerComponentDestructor_apply setup
    (m := m.fetched ⟨.registerComponentDestructor, Emit.current, b, c⟩) hs0 hstate hinst
    htransactions).symm.trans hperform
  cases heq
  refine ⟨h.data, h.managed, fun component inst' hmem => ?_, ?_⟩
  · rcases List.mem_append.mp (Array.toList_push ▸ hmem) with hmem | hmem
    · exact h.spared component inst' hmem
    · cases List.mem_singleton.mp hmem
  · simp only [Machine.Books, Host.ledger_push, Ledger.after]
    refine ⟨?_, hdestructors⟩
    rw [show (m.fetched _).events = m.events from rfl, hopened, Host.offers, hd, hmanager]

theorem Machine.Accounts.rendered (h : m.Accounts setup.host cells .free) (hi : m.next? = some i)
    (hop : i.op = .didRenderLayout) (hs : Exec.step setup m = .ok true m') :
    m'.Accounts setup.host cells .closing := by
  have hperform := Exec.perform_of_step hi hs
  obtain ⟨op, a, b, c⟩ := i
  cases hop
  obtain ⟨component, inst, rfl⟩ := Exec.layoutRendered_ok hperform
  obtain ⟨htransactions, hdestructors⟩ := h.books
  refine ⟨h.data, h.managed, fun component inst' hmem => ?_, ?_⟩
  · rcases List.mem_append.mp (Array.toList_push ▸ hmem) with hmem | hmem
    · exact h.spared component inst' hmem
    · cases List.mem_singleton.mp hmem
  · simp only [Machine.Books, Host.ledger_push, Ledger.after]
    intro innermost rest hopen
    have hopened : (setup.host.ledger cells m.events.toList).opened = innermost :: rest :=
      htransactions.symm.trans hopen
    rw [show (m.fetched _).events = m.events from rfl, hopened]
    exact ⟨rfl, congrArg (innermost ++ ·) hdestructors⟩

theorem Machine.Accounts.commit (h : m.Accounts setup.host cells .closing) (hi : m.next? = some i)
    (hop : i.op = .commitComponentTransaction) (hs : Exec.step setup m = .ok true m') :
    m'.Accounts setup.host cells .free := by
  have hperform := Exec.perform_of_step hi hs
  obtain ⟨op, a, b, c⟩ := i
  cases hop
  obtain ⟨innermost, rest, htransactions, rfl⟩ := Exec.commitTransaction_ok hperform
  obtain ⟨hopened, hcommitted⟩ := h.books innermost rest htransactions
  exact ⟨h.data, h.managed, h.spared, hopened, hcommitted⟩

/-- Leaving the frame of its arguments is nothing to an instance. -/
theorem Machine.Accounts.unframe (h : m.Accounts setup.host cells .registering)
    (hi : m.next? = some i) (hop : i.op = .popFrame) (hs : Exec.step setup m = .ok true m') :
    m'.Accounts setup.host cells .registering := by
  have hquiet : m.Quiet setup.host true m' := .of_step true hi (by rw [hop]; rfl) hs
  have hperform := Exec.perform_of_step hi hs
  obtain ⟨op, a, b, c⟩ := i
  cases hop
  obtain ⟨hregisters, hcomponents, hevents⟩ := Exec.popFrame_ok hperform
  obtain ⟨hdestructors, number, state, inst, rest, hs0, hstate, hinst,
    htransactions, hopened⟩ := h.books
  refine h.quiet hquiet fun ht hd hl =>
    ⟨by rw [hd, hdestructors, hl], number, state, inst, rest, ?_, ?_,
    hinst, by rw [ht, htransactions], ?_⟩
  · rw [hregisters]
    exact hs0
  · rw [hcomponents]
    exact hstate
  · rw [hl, hevents]
    exact hopened

/-- The books are kept from step to step. -/
theorem Setup.keeps_accounts (setup : Setup) (cells : Cells) :
    setup.Keeps fun phase m => m.Accounts setup.host cells phase where
  turn {floor phase phase' m m' i} hi hturn hs h := by
    cases hturn with
    | stay hstay =>
      exact h.quiet_free (.of_step false hi (Phase.Turn.isQuiet (.stay hstay) nofun nofun) hs)
    | enter henter =>
      have hturn : Phase.Turn floor m i .free (.filling _) := .enter henter
      have hquiet := hturn.isQuiet nofun nofun
      exact Machine.accounts_filling.mpr (h.quiet_free (.of_step false hi hquiet hs))
    | fill hfill =>
      have hquiet := Opcode.isQuiet_of_fills hfill
      exact Machine.accounts_filling.mpr
        ((Machine.accounts_filling.mp h).quiet_free (.of_step false hi hquiet hs))
    | begin hop =>
      have hperform := Exec.perform_of_step hi hs
      obtain ⟨op, a, b, c⟩ := i
      cases hop
      cases hperform
      obtain ⟨htransactions, hdestructors⟩ := h.books
      exact ⟨h.data, h.managed, h.spared, congrArg ([] :: ·) htransactions, hdestructors⟩
    | «open» hop =>
      refine h.quiet (.of_step true hi (by rw [hop]; rfl) hs) fun ht hd hl => ?_
      obtain ⟨htransactions, hdestructors⟩ := h.books
      exact ⟨by rw [ht, htransactions, hl], by rw [hd, hdestructors, hl]⟩
    | create hop hcurrent => exact h.create hi hop hcurrent hs
    | unframe hop => exact h.unframe hi hop hs
    | register hop hcurrent => exact h.register hi hop hcurrent hs
    | rendered hop => exact h.rendered hi hop hs
    | leave hop =>
      have hquiet : i.op.isQuiet false false = true := by
        obtain ⟨op, a, b, c⟩ := i
        cases op <;> first | rfl | cases hop
      refine h.quiet (.of_step false hi hquiet hs) fun ht hd hl => ?_
      intro innermost rest htransactions
      rw [hd, hl]
      exact h.books innermost rest (ht ▸ htransactions)
    | commit hop => exact h.commit hi hop hs
  filled _ h := Machine.accounts_filling.mp h
  call hcallee hs _ h := by
    obtain ⟨i, hi⟩ := Machine.next?_of_callee? hcallee
    exact h.quiet_free
      (.of_step false hi (Opcode.isQuiet_of_calls (Machine.calls_of_callee? hcallee hi)) hs)
  ret hi hop hs h := h.quiet_free (.of_step true hi (by rw [hop]; rfl) hs)

end

end TemplateMachine
