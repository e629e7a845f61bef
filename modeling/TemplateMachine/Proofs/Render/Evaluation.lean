import TemplateMachine.Proofs.Render.Currying
import TemplateMachine.Proofs.Render.Outcome
import TemplateMachine.Proofs.Walk.Places

/-! How often the arguments of an invocation are evaluated when a compiled template is rendered.  A
manager that asks for arguments gets them evaluated, and a layout whose slots are bound by code of
its own has those that its symbols stand for evaluated again.  Apart from that each argument is
evaluated once. -/

namespace TemplateMachine.Request

variable {q : Request} {strategy : Strategy} {maxStack : Nat} {f : Fragment} {handle : UInt32}
variable {program : Program}

/-- A render comes to the outcome of the walk, and there an invocation evaluates the
arguments of its plan, in this order, as often as each occurs in it.  So it evaluates none
twice, unless the manager of a known layout asks for arguments that symbols stand for, or two
symbols stand for one argument. -/
theorem Compiled.evaluates_planned (h : q.Compiled strategy maxStack f handle program)
    (depth : Nat) : (∃ steps, ∀ fuel, steps ≤ fuel →
      let r := q.render strategy maxStack fuel program handle
      (∃ e, r.result = .error e ∧ (q.setup strategy maxStack).Allows e) ∨
        r.Matches (Walk.render q.scene depth f {})) ∧
    ∀ (p : Site) (call : Call) (i : Invocation),
      (∀ definition : Reference,
        Walk.dynamicComponent q.scene p call definition i = (do
          let c ← Walk.dynamicState q.scene p.referer definition
          Walk.followPlan q.scene p call (.general none) c i) ∧
        ((InvocationPlan.general none).evaluated i).Nodup) ∧
      ∀ component, Compilable.component q.registry.lookup p.referer component i →
        let plan := q.registry.lookup.plan component i
        Walk.component q.scene p call component i = (do
          let c ← Walk.componentState q.scene component none
          Walk.followPlan q.scene p call plan c i) ∧
        (∀ place, (plan.evaluated i).count place =
          (if plan.gathers = true ∧ place ∈ i.places then 1 else 0) + plan.after.count place) ∧
        ((plan.gathers = true → plan.after = []) → plan.after.Nodup → (plan.evaluated i).Nodup) :=
  ⟨h.comes depth, fun p call i =>
    ⟨fun definition => ⟨Walk.dynamicComponent_follows q.scene p call definition i,
      InvocationPlan.nodup_general none i⟩,
    fun _ hi => ⟨Walk.component_follows call hi, InvocationPlan.count_evaluated _ i,
      InvocationPlan.nodup_evaluated i⟩⟩⟩

/-- The title of the box is evaluated for the manager, and again for the
symbol that stands for it. -/
theorem boxed_evaluates_planned :
    ∃ handle program, boxed.Compiled .eager 100 boxed.entry handle program ∧
    ∃ i : Invocation, i.hash = some ⟨["@title"], [.value (.str "x")]⟩ ∧
      let plan := boxed.registry.lookup.plan 0 i
      plan.evaluated i = [.named 0, .named 0] ∧
      ∀ call, Walk.component boxed.scene boxed.place call 0 i = (do
        let c ← Walk.componentState boxed.scene 0 none
        Walk.followPlan boxed.scene boxed.place call plan c i) := by
  obtain ⟨handle, program, -, h⟩ := boxed_compiled .eager
  refine ⟨handle, program, h, { hash := some ⟨["@title"], [.value (.str "x")]⟩ }, rfl,
    by decide +kernel,
    fun call => ?_⟩
  exact ((h.evaluates_planned 0).2 boxed.place call _).2 0 (by decide +kernel) |>.1

end TemplateMachine.Request
