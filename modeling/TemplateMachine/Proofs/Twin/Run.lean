import TemplateMachine.Proofs.Verify.Reach
import TemplateMachine.Proofs.Twin.Step

/-! Runs and renders of two machines side by side. -/

namespace TemplateMachine

/-- Ends of two runs, the first one from a given program. -/
inductive Setup.RunsAlike (setup : Setup) (p : Program) :
    EStateM.Result (Stop RuntimeError) Machine Unit →
    EStateM.Result (Stop RuntimeError) Machine Unit → Prop
  | ok {m : Machine} {r : Private} : setup.options.Gathers p m.program →
    RunsAlike setup p (.ok () m) (.ok () (m.beside r))
  | fault {e e' : RuntimeError} {m m' : Machine} : e.name = e'.name →
    ((Stop.fault e).isUnlinked = false → setup.options.Gathers p m.program) →
    RunsAlike setup p (.error (.fault e) m) (.error (.fault e') m')
  | cut {m m' : Machine} : RunsAlike setup p (.error .outOfFuel m) (.error .outOfFuel m')
  | unlinked {e e' : Stop RuntimeError} {m m' : Machine} : e.Endless e' → setup.Hangs →
    RunsAlike setup p (.error e m) (.error e' m')

theorem Setup.RunsAlike.prepend {setup : Setup} {p p' : Program}
    {out out' : EStateM.Result (Stop RuntimeError) Machine Unit} (h : setup.RunsAlike p' out out')
    (hp : setup.options.Gathers p p') : setup.RunsAlike p out out' := by
  cases h with
  | ok hgathers => exact .ok (hp.trans hgathers)
  | fault h hgathers => exact .fault h fun hlinked => hp.trans (hgathers hlinked)
  | cut => exact .cut
  | unlinked h hhangs => exact .unlinked h hhangs

/-- As long as the machine runs its program is small enough for the words. -/
def Machine.StaysSmall (setup : Setup) (fuel : Nat) (m : Machine) : Prop :=
  ∀ n ≤ fuel, (stateAfter (Exec.run n setup m)).program.Fits

section

variable {setup : Setup} {fuel : Nat} {m m' : Machine} {q : Private}

theorem Exec.run_succ (setup : Setup) (fuel : Nat) (m : Machine) :
    Exec.run (fuel + 1) setup m =
      match Exec.step setup m with
      | .ok true m' => Exec.run fuel setup m'
      | .ok false m' => .ok () m'
      | .error e m' => .error e m' := by
  rw [Exec.run, Exec.bind_apply]
  cases Exec.step setup m with
  | error e m' => rfl
  | ok more m' => cases more <;> rfl

theorem Machine.StaysSmall.step (h : m.StaysSmall setup (fuel + 1)) :
    (stateAfter (Exec.step setup m)).program.Fits := by
  have hone := h 1 (by omega)
  rw [Exec.run_succ] at hone
  cases hstep : Exec.step setup m with
  | error e m' =>
    rw [hstep] at hone
    exact hone
  | ok more m' =>
    rw [hstep] at hone
    cases more <;> exact hone

theorem Machine.StaysSmall.next (h : m.StaysSmall setup (fuel + 1))
    (hstep : Exec.step setup m = .ok true m') : m'.StaysSmall setup fuel := by
  intro n hn
  have hmore := h (n + 1) (by omega)
  rwa [Exec.run_succ, hstep] at hmore

/-- Machines side by side run alike, as long as both programs stay small. -/
theorem Beside.run (henters : Exec.Enters setup) (h : Beside setup m.own q)
    (hsmall : m.StaysSmall setup fuel) (hsmall' : (m.beside q).StaysSmall setup fuel) :
    setup.RunsAlike m.program (Exec.run fuel setup m) (Exec.run fuel setup (m.beside q)) := by
  induction fuel generalizing m q with
  | zero => exact .cut
  | succ fuel ih =>
    obtain ⟨d, c, c', s, back, ls, hflows, hholds, hheld⟩ := h
    have hends := hflows.step henters hholds hheld
    rw [Exec.run_succ, Exec.run_succ]
    have hfits := hsmall.step
    have hfits' := hsmall'.step
    have hnext (m' : Machine) (hstep : Exec.step setup m = .ok true m') := hsmall.next hstep
    have hnext' (m' : Machine) (hstep : Exec.step setup (m.beside q) = .ok true m') :=
      hsmall'.next hstep
    generalize Exec.step setup m = out at hends hfits hnext
    generalize Exec.step setup (m.beside q) = out' at hends hfits' hnext'
    cases hends with
    | @ok more more' m₁ m₂ hgathers hpaired =>
      obtain ⟨r, rfl, rfl, hbeside⟩ := hpaired
      cases more with
      | false => exact .ok hgathers
      | true => exact (ih (hbeside rfl) (hnext m₁ rfl) (hnext' _ rfl)).prepend hgathers
    | fault h hgathers => exact .fault h hgathers
    | unlinked h hhangs => exact .unlinked h hhangs
    | fullLeft h => exact absurd hfits h
    | fullRight h => exact absurd hfits' h

end

/-! ### Renders -/

/-- Renders with the same result: the same HTML and instances to be destroyed, or the same kind of
error, or both are cut off.  So they are if both come to an end; a layout that the compiler finds no
end in may keep one of them from that, and the other one fails to link as well. -/
inductive Setup.SameResult (setup : Setup) : Render → Render → Prop
  | ok {rendered : Rendered} {p p' : Program} {events events' : List Event} :
    SameResult setup ⟨.ok rendered, p, events⟩ ⟨.ok rendered, p', events'⟩
  | fault {e e' : RuntimeError} {p p' : Program} {events events' : List Event} : e.name = e'.name →
    SameResult setup ⟨.error (.fault e), p, events⟩ ⟨.error (.fault e'), p', events'⟩
  | cut {p p' : Program} {events events' : List Event} :
    SameResult setup ⟨.error .outOfFuel, p, events⟩ ⟨.error .outOfFuel, p', events'⟩
  | unlinked {e e' : Stop RuntimeError} {p p' : Program} {events events' : List Event} :
    e.Endless e' → setup.Hangs → SameResult setup ⟨.error e, p, events⟩ ⟨.error e', p', events'⟩

/-- Renders that end alike: with the same HTML and instances to be destroyed, with the same kind of
error, or both cut off. -/
def Render.EndsAs (r r' : Render) : Prop :=
  match r.result, r'.result with
  | .ok rendered, .ok rendered' => rendered = rendered'
  | .error (.fault e), .error (.fault e') => e.name = e'.name
  | .error .outOfFuel, .error .outOfFuel => True
  | _, _ => False

/-- Where linking comes to an end, renders with the same result end alike. -/
theorem Setup.SameResult.endsAs {setup : Setup} {r r' : Render} (h : setup.SameResult r r')
    (hlinks : ¬setup.Hangs) : r.EndsAs r' := by
  cases h with
  | ok => exact rfl
  | fault he => exact he
  | cut => trivial
  | unlinked _ hhangs => exact absurd hhangs hlinks

/-- The program is small enough for the words at any time of a render. -/
def Setup.KeepsSmall (setup : Setup) (fuel : Nat) (p : Program) (entry : UInt32)
    (self : Json) : Prop :=
  ∀ n ≤ fuel, (setup.renderWithin n p entry self).program.Fits

section

variable {setup : Setup} {fuel : Nat} {p p' : Program} {entry entry' : UInt32} {self : Json}

/-- Machines that are about to run the same template. -/
theorem Beside.start (henters : Exec.Enters setup) (hready : setup.options.Ready p)
    (hready' : setup.options.Ready p') (hblocks : (Duo.mk p p').Blocks setup.options entry entry')
    (self : Json) : ∃ b b', p.heap.block? entry = some b ∧ p'.heap.block? entry' = some b' ∧
      Beside setup (Machine.start p b.offset.toNat b.scopeSize.toNat self).own
        (Machine.start p' b'.offset.toNat b'.scopeSize.toNat self).own := by
  obtain ⟨a, a', c, c', ha, ha', hholds, hflows⟩ := henters _ _ _ hblocks
  obtain ⟨b, hb, rfl⟩ := Option.map_eq_some_iff.mp ha
  obtain ⟨b', hb', rfl⟩ := Option.map_eq_some_iff.mp ha'
  refine ⟨b, b', hb, hb', ?_⟩
  have hscope : (Scope.root (b.scopeSize.toNat + 1) none).Twin setup.options ⟨p, p'⟩
      (.root (b'.scopeSize.toNat + 1) none) := .root _ _ none
  have hscopes : (Scopes.mk #[]).Twin setup.options ⟨p, p'⟩ ⟨#[]⟩ := Pointwise.empty
  exact Beside.of hflows hholds
    { pc := rfl
      pc' := rfl
      ra := rfl
      ra' := rfl
      fp := rfl
      fp' := rfl
      since := .refl _
      ready := hready
      ready' := hready'
      registers := ⟨.null, .null, .null, .null⟩
      scopes := hscopes.push (hscope.bind 0 (.value (.root 0)))
      stack := ⟨[], [], rfl, rfl, ⟨[], [], rfl, .nil, fun _ hc => absurd hc List.not_mem_nil,
        Nat.zero_le _⟩, .halt⟩ }

theorem Setup.renderWithin_of_block {b : Block} (hb : p.heap.block? entry = some b) :
    setup.renderWithin fuel p entry self =
      match Exec.run fuel setup (.start p b.offset.toNat b.scopeSize.toNat self) with
      | .ok _ m => ⟨.ok ⟨m.sink.output, m.destructors⟩, m.program, m.events.toList⟩
      | .error e m => ⟨.error e, m.program, m.events.toList ++ m.unwind⟩ := by
  unfold renderWithin
  generalize p.heap.block? entry = found at hb
  subst hb
  rfl

theorem Setup.KeepsSmall.start {b : Block} (h : setup.KeepsSmall fuel p entry self)
    (hb : p.heap.block? entry = some b) :
    (Machine.start p b.offset.toNat b.scopeSize.toNat self).StaysSmall setup fuel := by
  intro n hn
  have hfits := h n hn
  rw [Setup.renderWithin_of_block hb] at hfits
  generalize Exec.run n setup _ = out at hfits
  cases out <;> exact hfits

/-- The runs of a template over programs that it was linked into in different ways. -/
theorem Setup.runs_alike (henters : Exec.Enters setup) (hready : setup.options.Ready p)
    (hready' : setup.options.Ready p') (hblocks : (Duo.mk p p').Blocks setup.options entry entry')
    (hsmall : setup.KeepsSmall fuel p entry self) (hsmall' : setup.KeepsSmall fuel p' entry' self) :
    ∃ b b', p.heap.block? entry = some b ∧ p'.heap.block? entry' = some b' ∧
      setup.RunsAlike p (Exec.run fuel setup (.start p b.offset.toNat b.scopeSize.toNat self))
        (Exec.run fuel setup (.start p' b'.offset.toNat b'.scopeSize.toNat self)) := by
  obtain ⟨b, b', hb, hb', hbeside⟩ := Beside.start henters hready hready' hblocks self
  exact ⟨b, b', hb, hb', hbeside.run henters (hsmall.start hb) (hsmall'.start hb')⟩

/-- A template is rendered alike over programs that it was linked into in different ways. -/
theorem Setup.renders_alike (henters : Exec.Enters setup) (hready : setup.options.Ready p)
    (hready' : setup.options.Ready p') (hblocks : (Duo.mk p p').Blocks setup.options entry entry')
    (hsmall : setup.KeepsSmall fuel p entry self) (hsmall' : setup.KeepsSmall fuel p' entry' self) :
    setup.SameResult (setup.renderWithin fuel p entry self)
      (setup.renderWithin fuel p' entry' self) := by
  obtain ⟨b, b', hb, hb', hruns⟩ := Setup.runs_alike henters hready hready' hblocks hsmall hsmall'
  rw [Setup.renderWithin_of_block hb, Setup.renderWithin_of_block hb']
  generalize Exec.run fuel setup (.start p _ _ self) = out at hruns
  generalize Exec.run fuel setup (.start p' _ _ self) = out' at hruns
  cases hruns with
  | ok _ => exact .ok
  | fault h _ => exact .fault h
  | cut => exact .cut
  | unlinked h hhangs => exact .unlinked h hhangs

theorem Setup.RunsAlike.gathers {out out' : EStateM.Result (Stop RuntimeError) Machine Unit}
    (h : setup.RunsAlike p out out') (hlinked : ∀ e m, out = .error e m → e.isUnlinked = false) :
    setup.options.Gathers p (stateAfter out).program := by
  cases h with
  | ok hgathers => exact hgathers
  | fault _ hgathers => exact hgathers (hlinked _ _ rfl)
  | cut => cases hlinked _ _ rfl
  | unlinked h _ => cases h.left.symm.trans (hlinked _ _ rfl)

/-- A render in which nothing fails to compile links nothing but what it finds. -/
theorem Setup.gathers_renderWithin {body : Fragment} (henters : Exec.Enters setup)
    (hready : setup.options.Ready p) (hhouses : setup.options.Houses p entry body)
    (hsmall : setup.KeepsSmall fuel p entry self)
    (hlinked : (setup.renderWithin fuel p entry self).isLinked = true) :
    setup.options.Gathers p (setup.renderWithin fuel p entry self).program := by
  -- the machine runs beside itself
  obtain ⟨b, b', hb, hb', hruns⟩ :=
    Setup.runs_alike henters hready hready ⟨body, hhouses, hhouses⟩ hsmall hsmall
  obtain rfl := Option.some.inj (hb.symm.trans hb')
  rw [Setup.renderWithin_of_block hb] at hlinked ⊢
  generalize Exec.run fuel setup (.start p b.offset.toNat b.scopeSize.toNat self) =
    out at hruns hlinked
  cases out with
  | ok _ m =>
    refine hruns.gathers ?_
    rintro _ _ ⟨⟩
  | error e m =>
    refine hruns.gathers ?_
    rintro _ _ ⟨⟩
    simpa [Render.isLinked] using hlinked

end

end TemplateMachine
