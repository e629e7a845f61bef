import TemplateMachine.Proofs.Run.Calls
import TemplateMachine.Proofs.Run.Quiet

/-! Invariants of runs.  What every kind of step keeps holds all along a path, and at its end in a
phase in which the run may be cut off. -/

namespace TemplateMachine

/-- What a state is like in a phase is kept from step to step. -/
structure Setup.Keeps (setup : Setup) (P : Phase → Machine → Prop) : Prop where
  turn : ∀ {floor : Nat} {phase phase' : Phase} {m m' : Machine} {i : Instruction},
    m.next? = some i → Phase.Turn floor m i phase phase' → Exec.step setup m = .ok true m' →
    P phase m → P phase' m'
  filled : ∀ {s : Beginning} {m : Machine}, m.CanYield setup.options.strategy → P (.filling s) m →
    P .free m
  call : ∀ {m entered : Machine} {handle : UInt32}, m.callee? = some handle →
    Exec.step setup m = .ok true entered → entered.CanYield setup.options.strategy → P .free m →
    P .free entered
  ret : ∀ {m left : Machine} {i : Instruction}, m.next? = some i → i.op = .ret →
    Exec.step setup m = .ok true left → P .free m → P .free left

section

variable {setup : Setup} {complete : Bool} {phase : Phase} {floor k n : Nat}
variable {m m' m'' : Machine} {P : Phase → Machine → Prop}

/-- A state on a path, in some phase.  Before the end that is a phase which the next instruction may
come in.  At the end it is one in which the run may be cut off, and if the path is complete then
nothing is pending. -/
theorem Path.invariant_turn (hP : setup.Keeps P) (h : Path setup complete phase floor n m m')
    (hbegin : P phase m) (hr : Reaches setup k m m'') (hk : k ≤ n) :
    ∃ phase', P phase' m'' ∧
      (k < n → phase' = .free ∨
        ∃ floor next i, m''.next? = some i ∧ Phase.Turn floor m'' i phase' next) ∧
      (k = n → phase'.isSafe = true ∧ (complete = true → phase' = .free)) := by
  induction h generalizing k m'' with
  | refl m =>
    obtain rfl : k = 0 := by omega
    cases hr
    exact ⟨.free, hbegin, fun h => absurd h (by omega), fun _ => ⟨rfl, fun _ => rfl⟩⟩
  | @halfway phase floor hsafe m =>
    obtain rfl : k = 0 := by omega
    cases hr
    exact ⟨phase, hbegin, fun h => absurd h (by omega), fun _ => ⟨hsafe, nofun⟩⟩
  | filled hyield _ ih => exact ih (hP.filled hyield hbegin) hr hk
  | @step complete phase phase' floor n m m' m'' i hi hturn hs _ ih =>
    cases hr with
    | refl =>
      exact ⟨phase, hbegin, fun _ => .inr ⟨floor, phase', i, hi, hturn⟩,
        fun h => absurd h (by omega)⟩
    | step hs' hr =>
      cases hs.symm.trans hs'
      obtain ⟨phase', h, hnext, hend⟩ := ih (hP.turn hi hturn hs hbegin) hr (by omega)
      exact ⟨phase', h, fun h => hnext (by omega), fun h => hend (by omega)⟩
  | @call complete floor j l m entered last left m' handle i hcallee _ hs hyield hpath
    hi hop hret _ _
      ihcallee ih =>
    have hentered := hP.call hcallee hs hyield hbegin
    cases hr with
    | refl => exact ⟨.free, hbegin, fun _ => .inl rfl, fun h => absurd h (by omega)⟩
    | @step k _ _ _ hs' hr =>
      cases hs.symm.trans hs'
      by_cases hkj : k ≤ j
      · obtain ⟨phase', h, hnext, hend⟩ := ihcallee hentered hr hkj
        refine ⟨phase', h, fun _ => ?_, fun h => absurd h (by omega)⟩
        rcases Nat.lt_or_eq_of_le hkj with hlt | heq
        · exact hnext hlt
        · exact .inl ((hend heq).2 rfl)
      · obtain ⟨k, rfl⟩ : ∃ i, k = j + 1 + i := ⟨k - (j + 1), by omega⟩
        have hr' := (hpath.reaches.trans (.step hret (.refl left))).suffix hr
        obtain ⟨phase', hlast, -, hfree⟩ := ihcallee hentered hpath.reaches (Nat.le_refl j)
        obtain rfl := (hfree rfl).2 rfl
        obtain ⟨phase', h, hnext, hend⟩ := ih (hP.ret hi hop hret hlast) hr' (by omega)
        exact ⟨phase', h, fun h => hnext (by omega), fun h => hend (by omega)⟩
  | inside hcallee _ hs hyield _ ih =>
    cases hr with
    | refl => exact ⟨.free, hbegin, fun _ => .inl rfl, fun h => absurd h (by omega)⟩
    | step hs' hr =>
      cases hs.symm.trans hs'
      obtain ⟨phase', h, hnext, hend⟩ := ih (hP.call hcallee hs hyield hbegin) hr (by omega)
      exact ⟨phase', h, fun h => hnext (by omega), fun h => hend (by omega)⟩

theorem Path.invariant (hP : setup.Keeps P) (h : Path setup complete phase floor n m m')
    (hbegin : P phase m) (hr : Reaches setup k m m'') (hk : k ≤ n) :
    ∃ phase', P phase' m'' ∧
      (k = n → phase'.isSafe = true ∧ (complete = true → phase' = .free)) := by
  obtain ⟨phase', h, -, hend⟩ := h.invariant_turn hP hbegin hr hk
  exact ⟨phase', h, hend⟩

/-- A quiet instruction leaves the machine quiet, whether it fails or not. -/
theorem Exec.quiet_step (setup : Setup) {i : Instruction} {still : Bool} (hi : m.next? = some i)
    (hquiet : i.op.isQuiet still false = true) :
    EndsQuiet setup.host still m (Exec.step setup m) := by
  have hfetched : m.Quiet setup.host still (m.fetched i) :=
    ⟨rfl, fun _ => rfl, rfl, rfl, id, [], by simp [Machine.fetched], by simp⟩
  have hperform := ((Exec.quiet_perform m.pc hquiet).ends setup (m.fetched i)).prepend hfetched
  rw [Exec.step_of_next? setup hi]
  split
  · rename_i m' hm'
    rw [hm'] at hperform
    split
    · exact hperform
    · split <;> exact hperform
  · rename_i e m' hm'
    rw [hm'] at hperform
    exact hperform

end

end TemplateMachine
