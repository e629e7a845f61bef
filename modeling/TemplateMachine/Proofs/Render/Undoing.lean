import TemplateMachine.Proofs.Render.Outcome
import TemplateMachine.Proofs.Run.Ledger
import TemplateMachine.Proofs.Walk.Life

/-! The order of destruction.  A transaction is committed when the layout of its instance
has been rendered, so what is nested is committed before what it is nested in.  The result
of a render undoes the commitments, the latest first, and therefore an instance before those
that live within its life. -/

namespace TemplateMachine

section

variable {host : Host} {cells : Cells} {history : History} {calls more : List Event}
variable {lives : List Life}

theorem Host.offered_append (calls more : List Event) :
    host.offered cells history (calls ++ more) =
      host.offered cells history calls ++ host.offered cells (history ++ calls.toArray) more := by
  induction calls generalizing history with
  | nil => simp [offered]
  | cons e rest ih =>
    rw [List.cons_append, offered, ih, offered, List.append_assoc]
    simp

theorem Host.offer_quiet {e : Event} (he : e.isQuiet = true) : host.offer cells history e = [] := by
  cases e <;> first | rfl | cases he

theorem Host.offer_create {d : Destructor} {asked : Instance}
    (h : host.created? cells (history.push (.create d.definition asked)) d.definition asked =
      some d.inst) :
    host.offer cells history (.create d.definition asked) =
      if host.offers (history.push (.create d.definition asked)) d then [d] else [] := by
  simp only [offer, h]

/-- The instances that are registered are those that calls tell of, in that order. -/
theorem Host.Tells.offered (h : host.Tells cells history calls lives) :
    host.offered cells history calls = Life.allRegistered lives := by
  induction h with
  | nil => rfl
  | quiet hquiet _ ih => rw [Host.offered, Host.offer_quiet hquiet, ih, List.nil_append]
  | @life history _ _ d asked inside rest _ _ hcreation hcreated hbeginning _ _ ihinside ihrest =>
    subst hcreation hbeginning
    have hbegins (history : History) :
        host.offer cells history (.hasDestructor d.definition d.inst) = [] := rfl
    have hends (history : History) :
        host.offer cells history (.layoutRendered d.definition d.inst) = [] := rfl
    rw [Host.offered, Host.offer_create hcreated, Host.offered, hbegins, List.nil_append,
      Host.offered_append, ihinside, Host.offered, hends, List.nil_append, ihrest,
      Life.allRegistered, Life.registered, List.append_assoc]

/-- What the destruction of a render undoes: an instance before those that live within its life, and
otherwise the latest first. -/
structure Host.Undoes (host : Host) (cells : Cells) (calls destroyed : List Event)
    (lives : List Life) : Prop where
  tells : host.Tells cells #[] calls lives
  registers : host.offered cells #[] calls = Life.allRegistered lives
  destroys : destroyed = (Life.allDestroyed lives).map Destructor.event
  /-- The order of registration is reversed where no instance lives within the life of another. -/
  reversed : Life.allFlat lives →
    destroyed = (host.offered cells #[] calls).reverse.map Destructor.event

end

namespace Request

variable {q : Request} {strategy : Strategy} {maxStack : Nat} {f : Fragment} {handle : UInt32}
variable {program : Program}

/-- The result of a render that succeeds undoes the lives of its instances. -/
theorem Compiled.undoes (h : q.Compiled strategy maxStack f handle program) {fuel : Nat}
    {rendered : Rendered}
    (hr : (q.render strategy maxStack fuel program handle).result = .ok rendered) :
    ∃ lives, q.host.Undoes (.single q.self)
      (q.render strategy maxStack fuel program handle).events rendered.destroy lives := by
  obtain ⟨w, hw, rfl, hevents⟩ := h.walks hr
  obtain ⟨calls, lives, hcalls, htells, -, hdestructors⟩ := Walk.lives_call _ _ _ _ _ _ _ _ hw
  obtain rfl : w.events.toList = calls := by simp [hcalls]
  have hregisters : q.host.offered (.single q.self) #[] w.events.toList =
      Life.allRegistered lives :=
    htells.offered
  have hdestroyed : Rendered.destroy ⟨w.sink.output, w.destructors⟩ =
      (Life.allDestroyed lives).map Destructor.event := by
    rw [Rendered.destroy, hdestructors, List.append_nil]
  rw [hevents]
  refine ⟨lives, htells, hregisters, hdestroyed, fun hflat => ?_⟩
  rw [hdestroyed, hregisters, Life.allDestroyed_of_allFlat lives hflat]

/-- A template that renders a component with another component in its layout. -/
def nested : Request :=
  let layout (statements : List Statement) : Template :=
    { statements, symbols := [], hasEval := false, blocks := [] }
  let registry : Registry :=
    { components := #[⟨"Outer", layout [.component "Inner" [] none none], .args⟩,
        ⟨"Inner", layout [.text "in"], .args⟩] }
  { registry
    host := registry.host
    template := layout [.component "Outer" [] none none]
    referer := "main"
    self := .null }

theorem nested_wellFormed : nested.WellFormed where
  registry := by
    refine ⟨fun c hc => ?_, fun p hp => ?_⟩
    · rcases List.mem_cons.mp (Array.mem_toList_iff.mpr hc) with rfl | hc
      · rfl
      · obtain rfl := List.mem_singleton.mp hc
        rfl
    · exact absurd (Array.mem_toList_iff.mpr hp) List.not_mem_nil
  template := rfl
  host := Registry.host_backs _

set_option maxRecDepth 100000 in
theorem nested_halts : nested.haltsSmall .eager 100 200 0 := by
  decide +kernel

/-- The components of the instances that a render registers, in that order, and of those that its
result destroys, in that order. -/
def registeredDestroyed (q : Request) (r : Render) : Option (List UInt32 × List UInt32) :=
  match r.result with
  | .ok rendered =>
    some ((q.host.offered (.single q.self) #[] r.events).map Destructor.definition,
      rendered.destructors.map Destructor.definition)
  | .error _ => none

set_option maxRecDepth 100000 in
theorem nested_registeredDestroyed :
    (nested.renderFresh? .eager 100 200).bind nested.registeredDestroyed = some
      ([0, 1], [0, 1]) := by
  decide +kernel

/-- The outer instance is registered first, and destroyed first. -/
theorem nested_undoes : ∃ handle program rendered lives,
    nested.Compiled .eager 100 nested.entry handle program ∧
    let r := nested.render .eager 100 200 program handle
    r.result = .ok rendered ∧
    nested.host.Undoes (.single nested.self) r.events rendered.destroy lives ∧
    (nested.host.offered (.single nested.self) #[] r.events).map Destructor.definition = [0, 1] ∧
    rendered.destructors.map Destructor.definition = [0, 1] := by
  obtain ⟨handle, program, hcompile, h⟩ :=
    nested_wellFormed.compiled (staysSmall_of_haltsSmall nested_halts)
  have hdestroyed := nested_registeredDestroyed
  rw [renderFresh?_eq hcompile, Option.bind_some, registeredDestroyed] at hdestroyed
  cases hr : (nested.render .eager 100 200 program handle).result with
  | error e =>
    rw [hr] at hdestroyed
    cases hdestroyed
  | ok rendered =>
    rw [hr] at hdestroyed
    obtain ⟨lives, hlives⟩ := h.undoes hr
    obtain ⟨hoffered, hdestructors⟩ := Prod.mk.inj (Option.some.inj hdestroyed)
    exact ⟨handle, program, rendered, lives, h, hr, hlives, hoffered, hdestructors⟩

end Request

end TemplateMachine
