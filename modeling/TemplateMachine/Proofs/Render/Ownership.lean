import TemplateMachine.Proofs.Render.Outcome
import TemplateMachine.Proofs.Walk.Owner

/-! Splats and their owners, when a compiled template is rendered.  The components whose layouts
pass no splats on are told about the elements that their own layouts splat on, on behalf of the
instance that is rendered, and about no others. -/

namespace TemplateMachine

/-- The component that the host tells about an element. -/
def Event.told? : Event → Option UInt32
  | .elementCreated component _ _ => some component
  | _ => none

/-- Renders a whole template, which nothing owns, so that splats tell their owners. -/
def Walk.renderOwned (s : Scene) (told : UInt32 → Bool) (depth : Nat)
    (entry : Fragment) : Walk Unit :=
  Walk.owned s told depth [] entry.body Slots.start none

theorem Walk.renderOwned_eq {s : Scene} {told : UInt32 → Bool} (hlookup : s.lookup.Coherent)
    (htold : s.lookup.KeepsSplats told) (depth : Nat) (entry : Fragment) :
    Walk.renderOwned s told depth entry = Walk.render s depth entry :=
  Walk.agree_owned hlookup htold depth [] entry.body Slots.start none (.inl rfl)
    (Slots.forall_bind (fun _ => trivial) trivial)

namespace Request

variable {q : Request} {strategy : Strategy} {maxStack : Nat} {f : Fragment} {handle : UInt32}
variable {program : Program} {told : UInt32 → Bool}

/-- A render comes to the outcome of the walk where splats tell their owners, and one that succeeds
has the result and the calls of the host of that walk. -/
theorem Compiled.tells_owners (h : q.Compiled strategy maxStack f handle program)
    (htold : q.registry.lookup.KeepsSplats told) :
    (∀ depth, ∃ steps, ∀ fuel, steps ≤ fuel →
      let r := q.render strategy maxStack fuel program handle
      (∃ e, r.result = .error e ∧ (q.setup strategy maxStack).Allows e) ∨
        r.Matches (Walk.renderOwned q.scene told depth f {})) ∧
    ∀ fuel rendered,
      let r := q.render strategy maxStack fuel program handle
      r.result = .ok rendered →
        ∃ w, Walk.renderOwned q.scene told fuel f {} = .ok () w ∧
          rendered = ⟨w.sink.output, w.destructors⟩ ∧ r.events = w.events.toList := by
  have howned (depth : Nat) : Walk.renderOwned q.scene told depth f = Walk.render q.scene depth f :=
    Walk.renderOwned_eq q.registry.coherent htold depth f
  refine ⟨fun depth => ?_, fun fuel rendered hr => ?_⟩
  · rw [howned]
    exact h.comes depth
  · rw [howned]
    exact h.walks hr

/-- A layout with a splat in a block that stays in its place, where it passes a block without splats
on to a component that has a splat of its own. -/
def lined : Request :=
  let registry : Registry :=
    { components := #[{
        name := "Outer"
        layout :=
          { statements := [.block "unless" (some [.undefined]) none (some 0) none]
            symbols := ["&attrs"]
            hasEval := false
            blocks := [
              ⟨[.openElement "p", .attrSplat 1, .flushElement, .component "Inner" [] none (some 1),
                .closeElement], []⟩,
              ⟨[.text "in"], []⟩] }
        manager := .args }, {
        name := "Inner"
        layout :=
          { statements := [.openElement "b", .attrSplat 1, .flushElement, .yield 2 none,
            .closeElement]
            symbols := ["&attrs", "&default"]
            hasEval := false
            blocks := [] }
        manager := .args }] }
  { registry
    host := registry.host
    template :=
      { statements := [.component "Outer" [.staticAttr "class" "wide" none] none none]
        symbols := []
        hasEval := false
        blocks := [] }
    referer := "main"
    self := .null }

theorem lined_wellFormed : lined.WellFormed where
  registry := by
    refine ⟨fun c hc => ?_, fun p hp => ?_⟩
    · rcases List.mem_cons.mp (Array.mem_toList_iff.mpr hc) with rfl | hc
      · rfl
      · obtain rfl := List.mem_singleton.mp hc
        rfl
    · exact absurd (Array.mem_toList_iff.mpr hp) List.not_mem_nil
  template := rfl
  host := Registry.host_backs _

/-- The block that is passed on is free of splats. -/
theorem lined_keepsSplats : lined.registry.lookup.KeepsSplats fun _ => true := by
  intro handle f _ hf
  obtain ⟨c, hc, rfl⟩ := Option.map_eq_some_iff.mp hf
  change (Fragment.ofLayout .entry ⟨c.layout, c.name⟩).KeepsSplats _
  rcases List.mem_cons.mp (Array.mem_toList_iff.mpr (Array.mem_of_getElem? hc)) with rfl | hc
  · refine ⟨(· == 1), fun i b hb => ?_, by decide +kernel⟩
    match i, hb with
    | 0, hb =>
      obtain rfl := Option.some.inj hb
      exact ⟨by decide +kernel, nofun⟩
    | 1, hb =>
      obtain rfl := Option.some.inj hb
      exact ⟨by decide +kernel, fun _ => by decide +kernel⟩
  · obtain rfl := List.mem_singleton.mp hc
    exact ⟨fun _ => false, nofun, by decide +kernel⟩

set_option maxRecDepth 100000 in
theorem lined_halts : lined.haltsSmall .lazy 100 300 0 := by decide +kernel

/-- The components that are told about elements in a walk, in this order. -/
def elementsCreated (out : EStateM.Result (Stop Fault) World Unit) : Option (List UInt32) :=
  match out with
  | .ok _ w => some (w.events.toList.filterMap Event.told?)
  | .error .. => none

theorem lined_elementsCreated :
    elementsCreated (Walk.renderOwned lined.scene (fun _ => true) 5 lined.entry {}) =
    some [0, 1] := by
  decide +kernel

theorem lined_tells_owners : ∃ handle program, lined.Compiled .lazy 100 lined.entry handle program ∧
    let out := Walk.renderOwned lined.scene (fun _ => true) 5 lined.entry {}
    elementsCreated out = some [0, 1] ∧ ∃ steps, ∀ fuel, steps ≤ fuel →
      let r := lined.render .lazy 100 fuel program handle
      (∃ e, r.result = .error e ∧ (lined.setup .lazy 100).Allows e) ∨ r.Matches out := by
  obtain ⟨handle, program, -, h⟩ := lined_wellFormed.compiled (staysSmall_of_haltsSmall lined_halts)
  exact ⟨handle, program, h, lined_elementsCreated, (h.tells_owners lined_keepsSplats).1 5⟩

end Request

end TemplateMachine
