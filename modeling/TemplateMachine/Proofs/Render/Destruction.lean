import TemplateMachine.Proofs.Render.Request
import TemplateMachine.Proofs.Run.Ledger

/-! Instances are destroyed exactly once.  A render that fails destroys at once whatever the host is
owed, and one that succeeds leaves that to its result. -/

namespace TemplateMachine

/-- What remains to be destroyed after some calls is what they left to be destroyed, invocations in
progress first, from the inside out, and then the finished ones, the newest first. -/
structure Host.Settles (host : Host) (cells : Cells) (calls destroyed : List Event) : Prop where
  spared : ∀ component inst, Event.destroy component inst ∉ calls
  ordered : destroyed = (host.ledger cells calls).owed.map Destructor.event
  once : destroyed.Perm ((host.offered cells #[] calls).map Destructor.event)

/-- The instances of a render are destroyed with its result if there is one, and otherwise at the
end of the render.  A render that is cut off has not come to that. -/
def Render.Settles (r : Render) (host : Host) (cells : Cells) : Prop :=
  match r.result with
  | .ok rendered => host.Settles cells r.events rendered.destroy
  | .error (.fault _) =>
    ∃ calls destroyed, r.events = calls ++ destroyed ∧ host.Settles cells calls destroyed
  | .error .outOfFuel => True

/-- A machine that holds all that its host is owed, in order. -/
structure Machine.Owes (host : Host) (cells : Cells) (m : Machine) : Prop where
  spared : ∀ component inst, Event.destroy component inst ∉ m.events.toList
  opened : m.transactions.flatten = (host.ledger cells m.events.toList).opened.flatten
  committed : m.destructors = (host.ledger cells m.events.toList).committed

section

variable {setup : Setup} {cells : Cells} {host : Host} {m m' : Machine} {phase : Phase}
variable {i : Instruction} {e : Stop RuntimeError}

theorem Machine.Owes.settles (h : m.Owes host cells) :
    host.Settles cells m.events.toList m.unwind := by
  have hordered : m.unwind =
      (host.ledger cells m.events.toList).owed.map Destructor.event := by
    rw [Machine.unwind, h.opened, h.committed]
    rfl
  exact ⟨h.spared, hordered, hordered ▸ (host.owed_ledger cells m.events.toList).map _⟩

/-- A transaction that nothing is registered in yet is nothing that is owed. -/
theorem Machine.Accounts.owes (h : m.Accounts host cells phase) (hsafe : phase.isSafe = true) :
    m.Owes host cells := by
  cases phase with
  | free | filling => exact ⟨h.spared, congrArg List.flatten h.books.1, h.books.2⟩
  | opening => exact ⟨h.spared, by rw [h.books.1]; rfl, h.books.2⟩
  | registering | closing => cases hsafe

theorem Machine.Owes.quiet {still : Bool} (h : m.Owes host cells) (hm : m.Quiet host still m') :
    m'.Owes host cells where
  spared := hm.spared h.spared
  opened := by rw [hm.transactions, hm.ledger, h.opened]
  committed := by rw [hm.destructors, hm.ledger, h.committed]

/-- An instruction that fails has failed by itself, or has left too much on the stack. -/
theorem Exec.error_of_step (hi : m.next? = some i) (h : Exec.step setup m = .error e m') :
    Exec.perform m.pc i setup (m.fetched i) = .error e m' ∨
      Exec.perform m.pc i setup (m.fetched i) = .ok () m' ∧
        ∃ size limit, e = .fault (.stackOverflow size limit) := by
  rw [Exec.step_of_next? setup hi] at h
  split at h
  · rename_i m₁ hm₁
    split at h
    · cases h
    · split at h
      · cases h
        exact .inr ⟨hm₁, _, _, rfl⟩
      · cases h
  · rename_i e₁ m₁ hm₁
    cases h
    exact .inl hm₁

/-- Nothing is owed for an instance whose creation was refused. -/
theorem Machine.Owes.create {message : String} (h : m.Owes setup.host cells)
    (hdata : m.cells = cells) (hmanaged : m.Managed setup.host) {flags : UInt32}
    (hcreate : Exec.create flags Emit.current setup m =
      .error (.fault (.managerFailed message)) m') :
    m'.Owes setup.host cells := by
  obtain ⟨number, state, hs0, hstate⟩ := Exec.current_of_create setup fun _ _ herror =>
    nomatch herror.symm.trans hcreate
  obtain ⟨asked, heq⟩ := Exec.create_eq setup flags hs0 hstate
  rw [hcreate] at heq
  obtain ⟨d, hd, hmanager⟩ := hmanaged number state hstate
  cases hrefused : (state.manager (m.events.push (.create state.definition asked))).create
    m.cells asked with
  | ok inst =>
    rw [hrefused] at heq
    cases heq
  | error refusal =>
    rw [hrefused] at heq
    cases heq
    have hcreated : setup.host.created? cells (m.events.push (.create state.definition asked))
        state.definition asked = none := by
      rw [Host.created?, hd]
      simp only [← hmanager, ← hdata, hrefused]
    have hledger : setup.host.ledger cells (m.events.push (.create state.definition asked)).toList =
        setup.host.ledger cells m.events.toList := by
      rw [Host.ledger_push]
      simp only [Ledger.after, hcreated]
    refine ⟨fun component inst hmem => ?_, by rw [hledger]; exact h.opened,
      by rw [hledger]; exact h.committed⟩
    rcases List.mem_append.mp (Array.toList_push ▸ hmem) with hmem | hmem
    · exact h.spared component inst hmem
    · cases List.mem_singleton.mp hmem

/-- Where a run is cut off by a failure, the machine holds all that is owed. -/
theorem Breaks.owes (hb : Breaks setup m e m') (h : m.Accounts setup.host cells phase)
    (hsafe : phase.isSafe = true) : m'.Owes setup.host cells := by
  obtain ⟨i, hi, hsettles, hrefused⟩ := hb.next
  by_cases hquiet : i.op.isQuiet false false = true
  · have := Exec.quiet_step setup hi hquiet
    rw [hb.step] at this
    exact (h.owes hsafe).quiet this
  · have howes := h.owes hsafe
    rcases Exec.error_of_step hi hb.step with hperform | ⟨hperform, size, limit, he⟩
    · obtain ⟨op, a, b, c⟩ := i
      cases op <;> first | exact absurd rfl hquiet | cases hsettles
      · obtain ⟨hcurrent, message, rfl⟩ := hrefused rfl
        cases hcurrent
        have howes' : (m.fetched ⟨.createComponent, a, Emit.current, c⟩).Owes setup.host cells :=
          ⟨howes.spared, howes.opened, howes.committed⟩
        exact howes'.create h.data h.managed hperform
      · cases hperform
    · obtain ⟨op, a, b, c⟩ := i
      cases op <;> first | exact absurd rfl hquiet | cases hsettles
      · obtain ⟨-, message, rfl⟩ := hrefused rfl
        cases he
      · cases hperform
        exact ⟨howes.spared, howes.opened, howes.committed⟩

/-- Nothing is owed at the beginning. -/
theorem Machine.accounts_begin (host : Host) (program : Program) (block : Block) (self : Json) :
    (Machine.begin program block self).Accounts host (.single self) .free where
  data := rfl
  managed number c h := by
    rw [show (Machine.begin program block self).components = #[] from rfl] at h
    cases h
  spared _ _ h := nomatch h
  books := ⟨rfl, rfl⟩

end

namespace Request

variable {q : Request} {strategy : Strategy} {maxStack : Nat} {f : Fragment} {handle : UInt32}
variable {program : Program}

/-- Every instance that is to be destroyed is destroyed exactly once, in order, wherever the render
of a compiled template ends. -/
theorem Compiled.render_settles (h : q.Compiled strategy maxStack f handle program) (fuel : Nat) :
    (q.render strategy maxStack fuel program handle).Settles q.host
      (.single q.self) := by
  obtain ⟨block, hblock, hrenders⟩ := h.renders
  have hkeeps := (q.setup strategy maxStack).keeps_accounts (.single q.self)
  have hbegin := Machine.accounts_begin q.host program block q.self
  have hfails {k : Nat} {m m' : Machine} {e : Stop RuntimeError}
      (hpath : Path (q.setup strategy maxStack) false .free 0 k (.begin program block q.self) m)
      (hb : Breaks (q.setup strategy maxStack) m e m')
      (hrun : Exec.run fuel (q.setup strategy maxStack) (.begin program block q.self) =
        .error e m') :
      (q.render strategy maxStack fuel program handle).Settles q.host (.single q.self) := by
    obtain ⟨phase, haccounts, hend⟩ := hpath.invariant hkeeps hbegin hpath.reaches (Nat.le_refl k)
    rw [render_eq hblock, hrun]
    cases e with
    | outOfFuel => trivial
    | fault e => exact ⟨_, _, rfl, (hb.owes haccounts (hend rfl).1).settles⟩
  cases hrenders fuel fuel (Nat.le_refl fuel) with
  | exhausted hpath hk =>
    obtain ⟨m, -, hrun⟩ := hpath.reaches.run_outOfFuel hk
    rw [render_eq hblock, hrun]
    trivial
  | escaped hpath hb _ hrun => exact hfails hpath hb hrun
  | failed hpath hb _ _ hrun => exact hfails hpath hb hrun
  | @finished k m i w t current hpath hi hop hs hrun hout =>
    obtain ⟨phase, haccounts, hend⟩ := hpath.invariant hkeeps hbegin hpath.reaches (Nat.le_refl k)
    obtain rfl := (hend rfl).2 rfl
    have hquiet : Exec.EndsQuiet q.host true m (Exec.step (q.setup strategy maxStack) m) :=
      Exec.quiet_step _ hi (by rw [hop]; rfl)
    rw [hs] at hquiet
    have hsettles := ((haccounts.quiet_free hquiet).owes rfl).settles
    have htransactions : w.transactions = [] := Walk.balanced_call _ _ _ _ _ _ _ _ hout
    rw [render_eq hblock, hrun]
    show q.host.Settles (.single q.self) w.events.toList (w.destructors.map Destructor.event)
    rwa [Machine.unwind,
      show (Machine.of _ _ _ w _ _).transactions = [] from htransactions] at hsettles

theorem boxed_settles : ∃ handle program, boxed.Compiled .eager 100 boxed.entry handle program ∧
    (boxed.render .eager 100 200 program handle).Settles boxed.host
      (.single boxed.self) := by
  obtain ⟨handle, program, -, h⟩ := boxed_compiled .eager
  exact ⟨handle, program, h, h.render_settles 200⟩

end Request

end TemplateMachine
