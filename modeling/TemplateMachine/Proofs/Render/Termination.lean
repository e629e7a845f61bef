import TemplateMachine.Proofs.Render.Outcome

/-! Renders come to an end.  Every list is finite, and a fragment that is called keeps its frame on
the stack while it runs, so that the stack bounds how deeply fragments nest. -/

namespace TemplateMachine

/-- Linking comes to an end: lazily in any case, and eagerly if in no template of the registry a
block is nested in itself. -/
theorem Registry.not_hangs {r : Registry} {strategy : Strategy}
    (hacyclic : strategy = .eager → r.Acyclic) (host : Host) (maxStack : Nat) :
    ¬Setup.Hangs ⟨r.options strategy, host, maxStack⟩ := by
  rintro ⟨f, p, q, hclosed, hlayout, hcompile⟩
  refine r.compile_settles strategy hclosed (fun heager => ?_) q hcompile
  obtain ⟨handle, hf⟩ := hlayout heager
  have hordered := (hacyclic heager).ordered
  have hwhole := hordered.layouts handle f hf
  exact ⟨hacyclic heager, hordered.acyclic f hwhole, hordered.whole f hwhole⟩

namespace Request

variable {q : Request} {strategy : Strategy} {maxStack : Nat} {f : Fragment} {handle : UInt32}
variable {program : Program}

/-- Layouts, partials or blocks call one another without end: no depth is
enough to walk the template. -/
def Endless (q : Request) (f : Fragment) : Prop :=
  ∀ depth, ∃ w, Walk.render q.scene depth f {} = .error .outOfFuel w

/-- A render has come to its end, with HTML or with an error.  If fragments call one another without
end then the error is that the stack is too small, unless, eagerly, some layout that is only looked
up at run time turns out not to compile. -/
structure Stops (q : Request) (strategy : Strategy) (f : Fragment) (r : Render) : Prop where
  result : (∃ rendered, r.result = .ok rendered) ∨ ∃ e, r.result = .error (.fault e)
  endless : q.Endless f →
    r.Overflows ∨ strategy = .eager ∧ ∃ e, r.result = .error (.fault (.compile e))

/-- The render of a compiled template stops after finitely many
instructions, whatever the host does. -/
theorem Compiled.render_stops (h : q.Compiled strategy maxStack f handle program)
    (hacyclic : strategy = .eager → q.registry.Acyclic) :
    ∃ steps r, q.Stops strategy f r ∧
      ∀ fuel, steps ≤ fuel → q.render strategy maxStack fuel program handle = r := by
  have hlinks := q.registry.not_hangs hacyclic q.host maxStack
  obtain ⟨block, t, hblock, hbounded, hleads⟩ := h.leads
  -- deeper than the stack is high, no run of the machine is long enough for a walk that is cut off
  rcases hleads (maxStack + 1) ⊤ (.inr (Nat.lt_succ_self _)) hbounded with
    ⟨k, m, e, m', hpath, hbreaks, hallows⟩ | hmeets
  · refine ⟨k + 1, _, ⟨.inr ?_, fun _ => ?_⟩, fun fuel hfuel => by
      rw [render_eq hblock, hpath.reaches.run_breaks hbreaks.step hfuel]⟩
    · cases e with
      | fault e => exact ⟨e, rfl⟩
      | outOfFuel => exact absurd (hbreaks.fuel rfl) hlinks
    · cases e with
      | outOfFuel => exact absurd (hbreaks.fuel rfl) hlinks
      | fault e =>
        cases e with
        | stackOverflow size limit => exact .inl ⟨size, limit, rfl⟩
        | compile e => exact .inr ⟨hallows.1, e, rfl⟩
        | _ => exact hallows.elim
  · cases hout : Walk.render q.scene (maxStack + 1) f {} with
    | ok u w =>
      rw [hout] at hmeets
      obtain ⟨k, m, hpath, hends⟩ := hmeets
      obtain ⟨-, t', current, -, -, hstep⟩ := hends.halts
      refine ⟨k + 1, _, ⟨.inl ⟨_, rfl⟩, fun hendless => ?_⟩, fun fuel hfuel => by
        rw [render_eq hblock, hpath.reaches.run_halts hstep hfuel]⟩
      obtain ⟨w', hw'⟩ := hendless (maxStack + 1)
      cases hout.symm.trans hw'
    | error e w =>
      rw [hout] at hmeets
      cases e with
      | outOfFuel =>
        obtain ⟨k, m, hk, -⟩ := hmeets
        exact absurd hk (by simp)
      | fault fault =>
        obtain ⟨k, m, e, m', hpath, hbreaks, hfault, -⟩ := hmeets
        refine ⟨k + 1, _, ⟨.inr ?_, fun hendless => ?_⟩, fun fuel hfuel => by
          rw [render_eq hblock, hpath.reaches.run_breaks hbreaks.step hfuel]⟩
        · cases e with
          | fault e => exact ⟨e, rfl⟩
          | outOfFuel => exact absurd (hbreaks.fuel rfl) hlinks
        · obtain ⟨w', hw'⟩ := hendless (maxStack + 1)
          cases hout.symm.trans hw'

/-- The call of a partial. -/
def again : Expression := .helper "partial" (some [.value (.str "again")]) none

/-- A partial that calls itself. -/
def spiral : Request :=
  let template : Template :=
    { statements := [.append again false], symbols := [], hasEval := false, blocks := [] }
  let registry : Registry := { partials := #[("again", template)] }
  { registry, host := registry.host, template, referer := "main", self := .null }

theorem spiral_wellFormed : spiral.WellFormed where
  registry := by
    refine ⟨fun c hc => ?_, fun p hp => ?_⟩
    · exact absurd (Array.mem_toList_iff.mpr hc) List.not_mem_nil
    · obtain rfl := List.mem_singleton.mp (Array.mem_toList_iff.mpr hp)
      rfl
  template := rfl
  host := Registry.host_backs _

set_option maxRecDepth 100000 in
theorem spiral_staysSmall (strategy : Strategy) : spiral.staysSmall strategy 20 200 := by
  cases strategy <;> decide +kernel

theorem spiral_acyclic : spiral.registry.Acyclic := by
  refine ⟨fun c hc => absurd (Array.mem_toList_iff.mpr hc) List.not_mem_nil, fun p hp => ?_⟩
  obtain rfl := List.mem_singleton.mp (Array.mem_toList_iff.mpr hp)
  refine Template.acyclic_of_descends fun i j hij => ?_
  obtain ⟨b, hb, -⟩ := hij
  cases hb

/-- However deep the partial is followed, it goes deeper. -/
theorem spiral_endless : spiral.Endless spiral.entry := by
  have hcall (depth : Nat) (f : Fragment) (slots : Slots) (current : Option Current) (w : World)
      (hcompilable : f.isCompilable spiral.scene.lookup)
      (hf : f.statements = spiral.template.statements) :
      ∃ w', Walk.call spiral.scene depth f slots current w = .error .outOfFuel w' := by
    induction depth generalizing f slots w with
    | zero => exact ⟨w, rfl⟩
    | succ depth ih =>
      let target := Fragment.ofLayout (.part 0) ⟨spiral.template, "again"⟩
      obtain ⟨w', hagain⟩ := ih target.body (Slots.empty.bind 0 (.value (slots.value 0))) w
        (by decide +kernel) rfl
      refine ⟨w', ?_⟩
      unfold Walk.call
      rw [if_pos hcompilable, hf, show spiral.template.statements = [.append again false] from rfl]
      simp only [Walk.statements, Walk.statement, Walk.append]
      rw [show Compilable.inline? spiral.scene.lookup _ again =
        some (.part (some [.value (.str "again")])) from rfl]
      simp only [Walk.partialForm]
      have hnamed (referer : String) : spiral.scene.lookup.partialNamed? "again" referer = some 0 :=
        show Registry.handleOf Prod.fst spiral.registry.partials "again" = some 0 by decide +kernel
      obtain ⟨table, hpartial⟩ : ∃ table, ∀ referer,
          Compilable.partial? spiral.scene.lookup referer "again" = some (target, table) :=
        ⟨_, fun referer => by rw [Compilable.partial?, hnamed]; rfl⟩
      simp only [hpartial, Walk.orUndefined_some]
      rw [Walk.bind_apply, hagain]
  exact fun depth => hcall depth _ _ _ _ (by decide +kernel) rfl

/-- The partial overflows the stack, lazily; eagerly it is compiled to its end all the same. -/
theorem spiral_stops :
    (∃ handle program steps, spiral.Compiled .lazy 20 spiral.entry handle program ∧
      ∀ fuel, steps ≤ fuel → (spiral.render .lazy 20 fuel program handle).Overflows) ∧
    ∃ handle program steps r, spiral.Compiled .eager 20 spiral.entry handle program ∧
      spiral.registry.Acyclic ∧ spiral.Stops .eager spiral.entry r ∧
      ∀ fuel, steps ≤ fuel → spiral.render .eager 20 fuel program handle = r := by
  constructor
  · obtain ⟨handle, program, -, hcompiled⟩ := spiral_wellFormed.compiled (spiral_staysSmall .lazy)
    obtain ⟨steps, r, hstops, hrender⟩ := hcompiled.render_stops nofun
    refine ⟨handle, program, steps, hcompiled, fun fuel hfuel => ?_⟩
    rw [hrender fuel hfuel]
    exact (hstops.endless spiral_endless).resolve_right nofun
  · obtain ⟨handle, program, -, hcompiled⟩ := spiral_wellFormed.compiled (spiral_staysSmall .eager)
    obtain ⟨steps, r, hstops, hrender⟩ := hcompiled.render_stops fun _ => spiral_acyclic
    exact ⟨handle, program, steps, r, hcompiled, spiral_acyclic, hstops, hrender⟩

end Request

end TemplateMachine
