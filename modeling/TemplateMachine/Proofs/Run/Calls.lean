import TemplateMachine.Proofs.Simulation.Render

/-! When a call is over.  A block returns to frames of its own before it returns to its caller, but
those lie on top of what was on the stack when the block was entered. -/

namespace TemplateMachine

/-- The next instruction returns below a floor. -/
def Machine.Leaves (floor : Nat) (m : Machine) : Prop :=
  ∃ i, m.next? = some i ∧ i.op = .ret ∧ m.stack.size ≤ floor

/-- The machine goes on for a number of steps without a return below a floor. -/
inductive Within (setup : Setup) (floor : Nat) : Nat → Machine → Machine → Prop
  | refl (m : Machine) : Within setup floor 0 m m
  | step {k : Nat} {m m' m'' : Machine} : ¬m.Leaves floor → Exec.step setup m = .ok true m' →
    Within setup floor k m' m'' → Within setup floor (k + 1) m m''

/-- A block that was just entered is left: the first return that finds no more on the stack than
there was on entry. -/
def Setup.Leaves (setup : Setup) (k : Nat) (entered left : Machine) : Prop :=
  ∃ last, Within setup entered.stack.size k entered last ∧ last.Leaves entered.stack.size ∧
    Exec.step setup last = .ok true left

/-- Every block that is called on the way from a state leaves things as it found them, if it is left
at all. -/
def Setup.Balanced (setup : Setup) (start : Machine) : Prop :=
  ∀ k j m entered left handle, Reaches setup k start m → m.callee? = some handle →
    Exec.step setup m = .ok true entered → setup.Leaves j entered left → entered.Returned left

section

variable {setup : Setup} {complete : Bool} {phase phase' : Phase} {floor floor' j k n : Nat}
variable {m m' m'' entered last left : Machine} {handle : UInt32} {i : Instruction}

theorem Machine.Leaves.not_calls (h : m.Leaves floor) : m.callee? ≠ some handle := by
  obtain ⟨i, hi, hop, -⟩ := h
  intro hcallee
  have := Machine.calls_of_callee? hcallee hi
  rw [hop] at this
  cases this

theorem Opcode.not_calls_of_isPlain {op : Opcode} (h : op.isPlain = true) : op.calls = false := by
  cases op <;> first | rfl | cases h

theorem Opcode.not_calls_of_fills {s : Beginning} {op : Opcode} (h : op.fills s = true) :
    op.calls = false := by
  cases s <;> cases op <;> first | rfl | cases h

theorem Phase.Turn.not_calls (h : Phase.Turn floor m i phase phase') (hi : m.next? = some i) :
    m.callee? ≠ some handle := by
  intro hcallee
  refine Bool.eq_false_iff.mp ?_ (Machine.calls_of_callee? hcallee hi)
  obtain ⟨op, a, b, c⟩ := i
  cases h with
  | stay h =>
    cases h with
    | plain hplain => exact Opcode.not_calls_of_isPlain hplain
    | leave hop => cases hop; rfl
    | absent _ habsent => exact nomatch habsent.symm.trans hcallee
  | enter h => cases op <;> first | rfl | cases h
  | fill h => exact Opcode.not_calls_of_fills h
  | leave h => cases op <;> first | rfl | cases h
  | begin h | «open» h | create h | unframe h | register h | rendered h | commit h => cases h; rfl

theorem Phase.Turn.not_leaves (h : Phase.Turn floor m i phase phase') (hi : m.next? = some i) :
    ¬m.Leaves floor := by
  rintro ⟨i', hi', hop, hstack⟩
  obtain rfl := Option.some.inj (hi.symm.trans hi')
  obtain ⟨op, a, b, c⟩ := i
  cases hop
  cases h with
  | stay h =>
    cases h with
    | plain hplain => cases hplain
    | leave _ hfloor => exact absurd hstack (Nat.not_le_of_lt hfloor)
    | absent hyield => cases hyield
  | @fill s h => cases s <;> cases h
  | enter h | begin h | «open» h | create h | unframe h | register h | rendered h | leave h
  | commit h => cases h

/-- A return leaves the stack as it is. -/
theorem Exec.stack_of_ret (hi : m.next? = some i) (hop : i.op = .ret)
    (hs : Exec.step setup m = .ok true m') : m'.stack = m.stack := by
  have hperform := Exec.perform_of_step hi hs
  obtain ⟨op, a, b, c⟩ := i
  cases hop
  cases hperform
  rfl

namespace Within

theorem reaches (h : Within setup floor k m m') : Reaches setup k m m' := by
  induction h with
  | refl m => exact .refl m
  | step _ hs _ ih => exact .step hs ih

theorem mono (h : Within setup floor' k m m') (hfloor : floor ≤ floor') :
    Within setup floor k m m' := by
  induction h with
  | refl m => exact .refl m
  | step hleaves hs _ ih =>
    refine .step (fun ⟨i, hi, hop, hstack⟩ => hleaves ⟨i, hi, hop, ?_⟩) hs ih
    exact Nat.le_trans hstack hfloor

theorem trans (h : Within setup floor k m m') (h' : Within setup floor j m' m'') :
    Within setup floor (k + j) m m'' := by
  induction h with
  | refl m => rwa [Nat.zero_add]
  | step hleaves hs _ ih =>
    rw [Nat.add_right_comm]
    exact .step hleaves hs (ih h')

/-- A state on the way is not one that leaves. -/
theorem not_leaves (h : Within setup floor k m m') (h' : Within setup floor j m m'') (hj : j < k) :
    ¬m''.Leaves floor := by
  induction h generalizing j with
  | refl m => exact absurd hj (Nat.not_lt_zero j)
  | step hleaves hs _ ih =>
    cases h' with
    | refl => exact hleaves
    | step _ hs' h' =>
      cases hs.symm.trans hs'
      exact ih h' (Nat.lt_of_succ_lt_succ hj)

theorem unique (h : Within setup floor k m m') (h' : Within setup floor k m m'') : m' = m'' := by
  induction h with
  | refl m =>
    cases h'
    rfl
  | step _ hs _ ih =>
    cases h' with
    | step _ hs' h' =>
      cases hs.symm.trans hs'
      exact ih h'

end Within

namespace Path

/-- A run of a block stays within the block. -/
theorem within (h : Path setup complete phase floor k m m') : Within setup floor k m m' := by
  induction h with
  | refl m => exact .refl m
  | halfway _ m => exact .refl m
  | filled _ _ ih => exact ih
  | step hi hturn hs _ ih => exact .step (hturn.not_leaves hi) hs ih
  | @call complete floor j k m entered last left m' handle i hcallee hfloor hs _ _ hi hop hret
      hreturned _ ihcallee ih =>
    have hlast : ¬last.Leaves floor := by
      rintro ⟨-, -, -, hstack⟩
      have : last.stack = entered.stack :=
        (Exec.stack_of_ret hi hop hret).symm.trans hreturned.stack
      rw [this] at hstack
      omega
    have := Within.step (fun h => h.not_calls hcallee) hs
      ((ihcallee.mono (Nat.le_of_lt hfloor)).trans (.step hlast hret ih))
    rwa [← Nat.add_assoc, Nat.add_right_comm _ _ 1] at this
  | inside hcallee hfloor hs _ _ ih =>
    exact .step (fun h => h.not_calls hcallee) hs (ih.mono (Nat.le_of_lt hfloor))

/-- A call on the way either has been left as it was entered, or goes on to the end of a run that is
not complete. -/
theorem returned (h : Path setup complete phase floor n m m') (hr : Reaches setup k m m'')
    (hk : k < n) (hcallee : m''.callee? = some handle)
    (hs : Exec.step setup m'' = .ok true entered) :
    (∃ j left, k + j + 2 ≤ n ∧ setup.Leaves j entered left ∧ entered.Returned left) ∨
      (complete = false ∧ ∃ j, n = k + j + 1 ∧ Within setup entered.stack.size j entered m') := by
  induction h generalizing k m'' entered with
  | refl m => exact absurd hk (Nat.not_lt_zero k)
  | halfway _ m => exact absurd hk (Nat.not_lt_zero k)
  | filled _ _ ih => exact ih hr hk hcallee hs
  | step hi hturn hs' _ ih =>
    cases hr with
    | refl => exact absurd hcallee (hturn.not_calls hi)
    | step hs'' hr =>
      cases hs'.symm.trans hs''
      rcases ih hr (Nat.lt_of_succ_lt_succ hk) hcallee hs with ⟨j, left, hj, h⟩ | ⟨hc, j, hj, h⟩
      · exact .inl ⟨j, left, by omega, h⟩
      · exact .inr ⟨hc, j, by omega, h⟩
  | @call complete floor j l m entered₀ last left m' handle' i hcallee' hfloor hs'
    _ hpath hi hop hret
      hreturned _ ihcallee ih =>
    cases hr with
    | refl =>
      cases hs'.symm.trans hs
      refine .inl ⟨j, left, by omega, ⟨last, hpath.within, ⟨i, hi, hop, ?_⟩, hret⟩, hreturned⟩
      exact Nat.le_of_eq (by rw [← Exec.stack_of_ret hi hop hret, hreturned.stack])
    | @step k _ _ _ hs'' hr =>
      cases hs'.symm.trans hs''
      rcases Nat.lt_trichotomy k j with hkj | rfl | hkj
      · rcases ihcallee hr hkj hcallee hs with ⟨j', left, hj, h⟩ | ⟨hc, -⟩
        · exact .inl ⟨j', left, by omega, h⟩
        · cases hc
      · -- the return of the callee calls nothing
        cases hr.unique hpath.reaches
        have hcalls := Machine.calls_of_callee? hcallee hi
        rw [hop] at hcalls
        cases hcalls
      · obtain ⟨k, rfl⟩ : ∃ l, k = j + 1 + l := ⟨k - (j + 1), by omega⟩
        have hr' := (hpath.reaches.trans (.step hret (.refl left))).suffix hr
        rcases ih hr' (by omega) hcallee hs with ⟨j', left, hj, h⟩ | ⟨hc, j', hj, h⟩
        · exact .inl ⟨j', left, by omega, h⟩
        · exact .inr ⟨hc, j', by omega, h⟩
  | inside hcallee' hfloor hs' _ hpath ih =>
    cases hr with
    | refl =>
      cases hs'.symm.trans hs
      exact .inr ⟨rfl, _, by omega, hpath.within⟩
    | step hs'' hr =>
      cases hs'.symm.trans hs''
      rcases ih hr (Nat.lt_of_succ_lt_succ hk) hcallee hs with ⟨j, left, hj, h⟩ | ⟨hc, j, hj, h⟩
      · exact .inl ⟨j, left, by omega, h⟩
      · exact .inr ⟨hc, j, by omega, h⟩

end Path

/-- A run that has been left cannot have been cut off before. -/
theorem Setup.Leaves.not_stopped (h : setup.Leaves j entered left)
    (hpath : Path setup complete .free entered.stack.size k entered m)
    (hstops : ∀ m', Exec.step setup m ≠ .ok true m') : False := by
  obtain ⟨last, hwithin, hlast, hstep⟩ := h
  have hk := hpath.reaches.le_of_stops hstops (hwithin.reaches.trans (.step hstep (.refl left)))
  exact hpath.within.not_leaves hwithin hk hlast

/-- A block that leads to an outcome with a return is left there, if it is left within the steps
that are known of. -/
theorem Leads.leaves {α : Type} {n : ENat} {out : EStateM.Result (Stop Fault) World α}
    {final : α → World → Machine → Prop}
    (h : Leads setup .free entered.stack.size n entered out final)
    (hbounded : Bounded setup entered) (hleaves : setup.Leaves j entered left) (hj : (j : ENat) < n)
    (hfinal : ∀ a w last, final a w last → last.Leaves entered.stack.size) :
    ∃ a w last, out = .ok a w ∧ final a w last ∧ Exec.step setup last = .ok true left := by
  rcases h hbounded with ⟨k, m, e, m', hpath, hbreaks, -⟩ | hmeets
  · exact (hleaves.not_stopped hpath fun _ hs => nomatch hbreaks.step.symm.trans hs).elim
  · cases out with
    | ok a w =>
      obtain ⟨k, last, hpath, ha⟩ := hmeets
      obtain ⟨last', hwithin, hlast, hstep⟩ := hleaves
      obtain rfl : j = k := by
        rcases Nat.lt_trichotomy j k with hlt | heq | hlt
        · exact absurd hlast (hpath.within.not_leaves hwithin hlt)
        · exact heq
        · exact absurd (hfinal a w last ha) (hwithin.not_leaves hpath.within hlt)
      cases hwithin.unique hpath.within
      exact ⟨a, w, _, rfl, ha, hstep⟩
    | error e w =>
      cases e with
      | fault e =>
        obtain ⟨k, m, e', m', hpath, hbreaks, -⟩ := hmeets
        exact (hleaves.not_stopped hpath fun _ hs => nomatch hbreaks.step.symm.trans hs).elim
      | outOfFuel =>
        obtain ⟨k, m, hk, hpath⟩ := hmeets
        obtain ⟨last, hwithin, hlast, -⟩ := hleaves
        have hjk : j < k := Nat.cast_lt.mp (hj.trans_le hk)
        exact absurd hlast (hpath.within.not_leaves hwithin hjk)

end

end TemplateMachine
