import TemplateMachine.Proofs.Emission.Lazy
import TemplateMachine.Proofs.Render.Request

/-! Renders and walks.  If a template has an outcome when it is walked, then a render comes to the
same outcome in the end, unless it stops for a reason that a walk does not know. -/

namespace TemplateMachine

/-- The render is as a walk tells.  A walk that was cut off tells nothing. -/
def Render.Matches (r : Render) : EStateM.Result (Stop Fault) World Unit → Prop
  | .ok _ w => r.result = .ok ⟨w.sink.output, w.destructors⟩ ∧ r.events = w.events.toList
  | .error (.fault fault) w =>
    (∃ e, r.result = .error e ∧ e.fault? = some fault) ∧
      r.events = w.events.toList ++ (w.transactions.flatten ++ w.destructors).map Destructor.event
  | .error .outOfFuel _ => True

/-- The stack was too small. -/
def Render.Overflows (r : Render) : Prop :=
  ∃ size limit, r.result = .error (.fault (.stackOverflow size limit))

/-- Renders with the same result and the same calls of the host. -/
structure Render.Agrees (r r' : Render) : Prop where
  result : r.result = r'.result
  events : r.events = r'.events

section

variable {setup : Setup} {m m' : Machine} {fuel fuel' : Nat}

/-- A run that has stopped is not changed by more fuel. -/
theorem Exec.run_mono (h : ∀ m', Exec.run fuel setup m ≠ .error .outOfFuel m')
    (hle : fuel ≤ fuel') :
    Exec.run fuel' setup m = Exec.run fuel setup m := by
  induction fuel generalizing m fuel' with
  | zero => exact absurd rfl (h m)
  | succ fuel ih =>
    obtain ⟨fuel', rfl⟩ : ∃ n, fuel' = n + 1 := ⟨fuel' - 1, by omega⟩
    simp only [Exec.run, Exec.bind_apply] at h ⊢
    cases hstep : Exec.step setup m with
    | error e m' => rfl
    | ok more m' =>
      rw [hstep] at h
      cases more with
      | false => rfl
      | true => exact ih h (by omega)

theorem Setup.renderWithin_mono {program : Program} {handle : UInt32} {self : Json}
    (h : (setup.renderWithin fuel program handle self).result ≠ .error .outOfFuel)
    (hle : fuel ≤ fuel') :
    setup.renderWithin fuel' program handle self = setup.renderWithin fuel program handle self := by
  unfold Setup.renderWithin at h ⊢
  cases hblock : program.heap.block? handle with
  | none => rfl
  | some block =>
    rw [hblock] at h
    simp only at h ⊢
    rw [Exec.run_mono _ hle]
    intro m' hrun
    rw [hrun] at h
    exact h rfl

end

namespace Request

variable {q : Request} {strategy : Strategy} {maxStack : Nat} {f : Fragment} {handle : UInt32}
variable {program : Program}

/-- With enough fuel a render comes to the outcome of the walk. -/
theorem Compiled.comes (h : q.Compiled strategy maxStack f handle program) (depth : Nat) :
    ∃ steps, ∀ fuel, steps ≤ fuel →
      let r := q.render strategy maxStack fuel program handle
      (∃ e, r.result = .error e ∧ (q.setup strategy maxStack).Allows e) ∨
        r.Matches (Walk.render q.scene depth f {}) := by
  obtain ⟨block, t, hblock, hbounded, hleads⟩ := h.leads
  rcases hleads depth _ (.inl le_rfl) hbounded with ⟨k, m, e, m', hpath, hb, hallows⟩ | hmeets
  · refine ⟨k + 1, fun fuel hfuel => .inl ⟨e, ?_, hallows⟩⟩
    rw [render_eq hblock, hpath.reaches.run_breaks hb.step hfuel]
  · cases hout : Walk.render q.scene depth f {} with
    | ok u w =>
      rw [hout] at hmeets
      obtain ⟨k, m, hpath, hends⟩ := hmeets
      obtain ⟨-, t', current, -, -, hstep⟩ := hends.halts
      refine ⟨k + 1, fun fuel hfuel => .inr ?_⟩
      rw [render_eq hblock, hpath.reaches.run_halts hstep hfuel]
      exact ⟨rfl, rfl⟩
    | error e w =>
      cases e with
      | outOfFuel => exact ⟨0, fun _ _ => .inr trivial⟩
      | fault fault =>
        rw [hout] at hmeets
        obtain ⟨k, m, e, m', hpath, hb, hfault, hunwinds⟩ := hmeets
        refine ⟨k + 1, fun fuel hfuel => .inr ?_⟩
        rw [render_eq hblock, hpath.reaches.run_breaks hb.step hfuel]
        refine ⟨⟨e, rfl, hfault⟩, ?_⟩
        show m'.events.toList ++ m'.unwind = _
        rw [Machine.unwind, hunwinds.events, hunwinds.transactions, hunwinds.destructors]

/-- A render with a result has the result of a walk. -/
theorem Compiled.walks (h : q.Compiled strategy maxStack f handle program) {fuel : Nat}
    {rendered : Rendered}
    (hr : (q.render strategy maxStack fuel program handle).result = .ok rendered) :
    ∃ w, Walk.render q.scene fuel f {} = .ok () w ∧ rendered = ⟨w.sink.output, w.destructors⟩ ∧
      (q.render strategy maxStack fuel program handle).events = w.events.toList := by
  obtain ⟨block, hblock, hrenders⟩ := h.renders
  rw [render_eq hblock] at hr ⊢
  cases hrenders fuel fuel (Nat.le_refl fuel) with
  | exhausted hpath hk =>
    obtain ⟨m, -, hrun⟩ := hpath.reaches.run_outOfFuel hk
    rw [hrun] at hr
    cases hr
  | escaped _ _ _ hrun =>
    rw [hrun] at hr
    cases hr
  | failed _ _ _ _ hrun =>
    rw [hrun] at hr
    cases hr
  | finished _ _ _ _ hrun hout =>
    rw [hrun] at hr ⊢
    exact ⟨_, hout, (Except.ok.inj hr).symm, rfl⟩

/-- A render that has a result with some fuel does not overflow with any other. -/
theorem not_overflows {fuel : Nat} {rendered : Rendered}
    (hr : (q.render strategy maxStack fuel program handle).result = .ok rendered) (fuel' : Nat) :
    ¬ (q.render strategy maxStack fuel' program handle).Overflows := by
  rintro ⟨size, limit, hoverflow⟩
  rcases Nat.le_total fuel fuel' with hle | hle
  · have hmono : q.render strategy maxStack fuel' program handle =
        q.render strategy maxStack fuel program handle :=
      Setup.renderWithin_mono (fun hcut => nomatch hr.symm.trans hcut) hle
    rw [hmono, hr] at hoverflow
    cases hoverflow
  · have hmono : q.render strategy maxStack fuel program handle =
        q.render strategy maxStack fuel' program handle :=
      Setup.renderWithin_mono (fun hcut => nomatch hoverflow.symm.trans hcut) hle
    rw [hmono, hoverflow] at hr
    cases hr

/-- A request that halts in a fresh program has a result there. -/
theorem renders_of_haltsSmall {steps : Nat} (h : q.haltsSmall strategy maxStack steps 0)
    (hcompile : (q.setup strategy maxStack).options.compile q.entry {} = .ok handle program) :
    ∃ rendered, (q.render strategy maxStack steps program handle).result = .ok rendered := by
  obtain ⟨handle', program', block, m, hcompile', -, hblock, hrun, -⟩ := exists_of_haltsSmall h
  cases hcompile.symm.trans hcompile'
  have hrun' : Exec.run steps (q.setup strategy maxStack) (.begin program block q.self) =
      .ok () m := hrun
  rw [render_eq hblock, hrun']
  exact ⟨_, rfl⟩

theorem boxed_renders (strategy : Strategy)
    (h : (boxed.setup strategy 100).options.compile boxed.entry {} = .ok handle program) :
    ∃ rendered, (boxed.render strategy 100 200 program handle).result = .ok rendered :=
  renders_of_haltsSmall (boxed_haltsSmall strategy) h

end Request

/-! ### Strategies.  A template that is compiled eagerly and rendered can be compiled lazily as
well, and then renders to the same, as both renders follow one walk. -/

namespace Request

variable {q : Request} {maxStack maxStack' : Nat} {f : Fragment} {handle : UInt32}
variable {program p : Program}

/-- What is compilable has a handle in any program, if the other fragments are linked later. -/
theorem compile_lazy (h : f.isCompilable q.registry.lookup) (maxStack : Nat) (p : Program) :
    ∃ handle program, (q.setup .lazy maxStack).options.compile f p = .ok handle program := by
  unfold CompileOptions.compile
  obtain ⟨fuel, hfuel⟩ : ∃ fuel, (q.setup .lazy maxStack).options.nesting +
      f.layout.template.fragmentCount = fuel + 1 :=
    Nat.exists_eq_succ_of_ne_zero (by rw [Template.fragmentCount]; omega)
  simp only [hfuel]
  exact Link.fragment_lazy h fuel p

/-- Nothing but the end of the stack keeps a lazy render from the outcome of a walk. -/
theorem overflows_of_allows {e : Stop RuntimeError} {r : Render} (hr : r.result = .error e)
    (h : (q.setup .lazy maxStack).Allows e) : r.Overflows := by
  have hnot : Strategy.lazy ≠ .eager := nofun
  cases e with
  | outOfFuel => exact absurd h.1 hnot
  | fault e =>
    cases e <;> first | exact ⟨_, _, hr⟩ | exact absurd h.1 hnot | exact h.elim

/-- What was compiled eagerly and rendered can be compiled lazily, into whatever program there is;
and unless its stack is too small, the lazy render comes to the same result through the same calls
of the host.  If both renders have results then these are the same. -/
theorem Compiled.lazy_agrees (h : q.Compiled .eager maxStack f handle program) {fuel : Nat}
    {rendered : Rendered}
    (hr : (q.render .eager maxStack fuel program handle).result = .ok rendered)
    (hp : (q.setup .lazy maxStack').options.Builds q.entry p) :
    ∃ handle' program', (q.setup .lazy maxStack').options.compile f p = .ok handle' program' ∧
      ((q.setup .lazy maxStack').StaysSmall program' handle' q.self →
        (∃ steps, ∀ fuel', steps ≤ fuel' →
          (q.render .lazy maxStack' fuel' program' handle').Agrees
              (q.render .eager maxStack fuel program handle) ∨
            (q.render .lazy maxStack' fuel' program' handle').Overflows) ∧
        ∀ fuel' rendered', (q.render .lazy maxStack' fuel' program' handle').result =
        .ok rendered' →
          (q.render .lazy maxStack' fuel' program' handle').Agrees
            (q.render .eager maxStack fuel program handle)) := by
  obtain ⟨w, hout, rfl, hevents⟩ := h.walks hr
  obtain ⟨l, rfl, -, hcompiled⟩ := h.sound
  obtain ⟨handle', program', hcompile⟩ := compile_lazy hcompiled.isCompilable maxStack' p
  refine ⟨handle', program', hcompile, fun hsmall => ?_⟩
  have h' : q.Compiled .lazy maxStack' f handle' program' :=
    ⟨h.wellFormed, h.offers, ⟨p, hp, hcompile⟩, hsmall⟩
  obtain ⟨steps, hsteps⟩ := h'.comes fuel
  have hagrees (fuel' : Nat) (hfuel : steps ≤ fuel') :
      (q.render .lazy maxStack' fuel' program' handle').Agrees
          (q.render .eager maxStack fuel l.program handle) ∨
        (q.render .lazy maxStack' fuel' program' handle').Overflows := by
    rcases hsteps fuel' hfuel with ⟨e, he, hallows⟩ | hmatches
    · exact .inr (overflows_of_allows he hallows)
    · rw [hout] at hmatches
      exact .inl ⟨hmatches.1.trans hr.symm, hmatches.2.trans hevents.symm⟩
  refine ⟨⟨steps, hagrees⟩, fun fuel' rendered' hr' => ?_⟩
  have hmono : q.render .lazy maxStack' (max fuel' steps) program' handle' =
      q.render .lazy maxStack' fuel' program' handle' :=
    Setup.renderWithin_mono (fun hcut => nomatch hr'.symm.trans hcut) (Nat.le_max_left _ _)
  exact hmono ▸ (hagrees (max fuel' steps) (Nat.le_max_right _ _)).resolve_right
    (not_overflows hr' _)

theorem boxed_lazy_agrees : ∃ handle program rendered,
    boxed.Compiled .eager 100 boxed.entry handle program ∧
    (boxed.render .eager 100 200 program handle).result = .ok rendered ∧
    ∃ handle' program', boxed.Compiled .lazy 100 boxed.entry handle' program' ∧
      (boxed.render .lazy 100 200 program' handle').result = .ok rendered ∧
      ∃ steps, ∀ fuel, steps ≤ fuel →
        (boxed.render .lazy 100 fuel program' handle').Agrees
          (boxed.render .eager 100 200 program handle) := by
  obtain ⟨handle, program, hcompile, h⟩ := boxed_compiled .eager
  obtain ⟨handle', program', hcompile', h'⟩ := boxed_compiled .lazy
  obtain ⟨rendered, hr⟩ := boxed_renders .eager hcompile
  obtain ⟨rendered', hr'⟩ := boxed_renders .lazy hcompile'
  have hfresh : (boxed.setup .lazy 100).options.Builds boxed.entry {} := .fresh
  obtain ⟨found, built, hfound, hagrees⟩ := h.lazy_agrees hr hfresh
  cases hfound.symm.trans hcompile'
  obtain ⟨⟨steps, hsteps⟩, hall⟩ := hagrees h'.small
  refine ⟨handle, program, rendered, h, hr, handle', program', h', ?_, steps, fun fuel hfuel => ?_⟩
  · exact (hall 200 rendered' hr').result.trans hr
  · exact (hsteps fuel hfuel).resolve_right (not_overflows hr' fuel)

end Request

end TemplateMachine
