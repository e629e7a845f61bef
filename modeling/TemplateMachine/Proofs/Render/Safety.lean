import TemplateMachine.Proofs.Render.Request
import TemplateMachine.Proofs.Run.Calls

/-! Compiled programs do not go wrong.  Whatever a block does on its way, and through whichever of
its exits it comes to its end, it returns with everything as it was on entry; and whatever the
machine could find fault with in its code, it does not find in code that was compiled. -/

namespace TemplateMachine

/-! ### Calls are balanced -/

/-- The machine at the end of a render that succeeds. -/
structure Machine.Finished (m : Machine) : Prop where
  stack : m.stack = #[]
  fp : m.fp = 0
  scopeStack : m.scopeStack = [0]
  dynamicScopes : m.dynamicScopes = [{}]
  listMarks : m.listMarks = []
  blockDepth : m.blockDepth = 0
  transactions : m.transactions = []

namespace Request

variable {q : Request} {strategy : Strategy} {maxStack : Nat} {f : Fragment} {handle : UInt32}
variable {program : Program}

/-- Every render of a compiled template is balanced, however it ends: a block that is called leaves
things as it found them when it returns, and a render that succeeds leaves nothing. -/
theorem Compiled.calls_balanced (h : q.Compiled strategy maxStack f handle program) :
    ∃ block, program.heap.block? handle = some block ∧
      (q.setup strategy maxStack).Balanced (.begin program block q.self) ∧
      ∀ fuel m, Exec.run fuel (q.setup strategy maxStack) (.begin program block q.self) = .ok () m →
        m.Finished := by
  obtain ⟨block, hblock, hrenders⟩ := h.renders
  refine ⟨block, hblock, ?_, fun fuel m hrun => ?_⟩
  · rintro k j m entered left callee hr hcallee hs ⟨last, hwithin, hleaves, hret⟩
    obtain ⟨n, m', hpath, hend⟩ := (hrenders (k + j + 2) _ (Nat.le_refl _)).path
    have hreaches : Reaches (q.setup strategy maxStack) (k + (j + 2)) (.begin program block q.self)
        left := hr.trans (.step hs (hwithin.reaches.trans (.step hret (.refl left))))
    have hn : k + j + 2 ≤ n := hend.elim id fun hstop => hpath.reaches.le_of_stops hstop hreaches
    rcases hpath.returned hr (by omega) hcallee hs with
      ⟨j', left', -, ⟨last', hwithin', hleaves', hret'⟩, hreturned⟩ | ⟨-, j', hj, hwithin'⟩
    · obtain rfl : j = j' := by
        rcases Nat.lt_trichotomy j j' with hj | hj | hj
        · exact absurd hleaves (hwithin'.not_leaves hwithin hj)
        · exact hj
        · exact absurd hleaves' (hwithin.not_leaves hwithin' hj)
      cases hwithin.unique hwithin'
      cases hret.symm.trans hret'
      exact hreturned
    · exact absurd hleaves (hwithin'.not_leaves hwithin (by omega))
  · cases hrenders fuel fuel (Nat.le_refl fuel) with
    | exhausted hpath hk =>
      obtain ⟨m', -, hrun'⟩ := hpath.reaches.run_outOfFuel hk
      cases hrun.symm.trans hrun'
    | escaped _ _ _ hrun' => cases hrun.symm.trans hrun'
    | failed _ _ _ _ hrun' => cases hrun.symm.trans hrun'
    | finished _ _ _ _ hrun' hout =>
      cases hrun.symm.trans hrun'
      exact ⟨rfl, rfl, rfl, rfl, rfl, rfl, Walk.balanced_call _ _ _ _ _ _ _ _ hout⟩

theorem boxed_balanced : ∃ handle program, boxed.Compiled .lazy 100 boxed.entry handle program ∧
    ∃ block, program.heap.block? handle = some block ∧
      (boxed.setup .lazy 100).Balanced (.begin program block boxed.self) ∧
      ∀ fuel m, Exec.run fuel (boxed.setup .lazy 100) (.begin program block boxed.self) = .ok () m →
        m.Finished := by
  obtain ⟨handle, program, -, h⟩ := boxed_compiled .lazy
  exact ⟨handle, program, h, h.calls_balanced⟩

end Request

/-! ### Nothing goes wrong -/

/-- Errors of the code, and not of what it is run with. -/
def RuntimeError.goesWrong : RuntimeError → Bool
  | .unknownOpcode .. | .pcOutOfBounds _ | .invalidTarget .. | .invalidRegister _ | .invalidHandle _
  | .invalidConstant .. | .stackUnderflow .. | .typeMismatch .. | .scopeUnderflow _ | .noCallerScope
  | .unbalancedList .. | .noTransaction | .unknownHelper _ | .unknownModifier _ => true
  | .compile _ | .stackOverflow .. | .notAComponent _ | .unknownComponent _ | .helperFailed _
  | .managerFailed _ | .noOpenElement _ => false

/-- The render has failed because of its code. -/
def Render.goesWrong (r : Render) : Bool :=
  match r.result with
  | .error (.fault e) => e.goesWrong
  | _ => false

theorem RuntimeError.not_goesWrong_of_fault? {e : RuntimeError} {fault : Fault}
    (h : e.fault? = some fault) : e.goesWrong = false := by
  cases e <;> first | rfl | cases h

theorem Setup.Allows.not_goesWrong {setup : Setup} {e : RuntimeError}
    (h : setup.Allows (.fault e)) : e.goesWrong = false := by
  cases e <;> first | rfl | exact h.elim

namespace Request

variable {q : Request} {strategy : Strategy} {maxStack : Nat} {f : Fragment} {handle : UInt32}
variable {program : Program}

/-- The render of a compiled template does not fail because of its code, however long it is let run
and whatever the host does. -/
theorem Compiled.render_not_goesWrong (h : q.Compiled strategy maxStack f handle program)
    (fuel : Nat) :
    (q.render strategy maxStack fuel program handle).goesWrong = false := by
  obtain ⟨block, hblock, hrenders⟩ := h.renders
  rw [render_eq hblock]
  cases hrenders fuel fuel (Nat.le_refl fuel) with
  | exhausted hpath hk =>
    obtain ⟨m, -, hrun⟩ := hpath.reaches.run_outOfFuel hk
    rw [hrun]
    rfl
  | @escaped k m' m'' e _ _ hallows hrun =>
    rw [hrun]
    cases e with
    | fault e => exact hallows.not_goesWrong
    | outOfFuel => rfl
  | @failed k m' m'' e fault w _ _ hfault _ hrun =>
    rw [hrun]
    cases e with
    | fault e => exact RuntimeError.not_goesWrong_of_fault? hfault
    | outOfFuel => rfl
  | finished _ _ _ _ hrun _ =>
    rw [hrun]
    rfl

theorem boxed_not_goesWrong :
    ∃ handle program, boxed.Compiled .lazy 100 boxed.entry handle program ∧
    (boxed.render .lazy 100 200 program handle).goesWrong = false := by
  obtain ⟨handle, program, -, h⟩ := boxed_compiled .lazy
  exact ⟨handle, program, h, h.render_not_goesWrong 200⟩

end Request

end TemplateMachine
