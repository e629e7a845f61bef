import TemplateMachine.Proofs.Render.Destruction
import TemplateMachine.Proofs.Render.Outcome
import TemplateMachine.Proofs.Run.Trace
import TemplateMachine.Proofs.Walk.Bracket

/-! Markup is well nested.  If all templates of a request are content, and its host does no more to
an element than set attributes, then no render misses an element, and one that succeeds leaves none
open: each opening tag that it has written has its closing tag, however blocks and attributes are
passed around. -/

namespace TemplateMachine

theorem Registry.host_decorates {r : Registry}
    (h : ∀ c ∈ r.components, ∀ inst sink, Sink.Decorates sink
      (c.manager.elementCreated inst sink)) :
    r.host.Decorates := by
  intro handle d hd history inst sink
  obtain ⟨c, hc, rfl⟩ := Option.map_eq_some_iff.mp hd
  exact h c (Array.mem_of_getElem? hc) inst sink

namespace Request

/-- All templates of the request are content. -/
structure Bracketed (q : Request) : Prop where
  registry : q.registry.Bracketed
  template : q.template.Bracketed .empty

variable {q : Request} {strategy : Strategy} {maxStack : Nat} {f : Fragment} {handle : UInt32}
variable {program : Program}

/-- What is compiled by itself is content. -/
theorem Bracketed.offers (h : q.Bracketed) (hf : q.registry.lookup.Offers q.entry f) :
    f.attrMode = .element ∧ ∃ σ : Signature, f.Bracketed σ := by
  cases hf with
  | entry => exact ⟨rfl, _, Template.Bracketed.fragment h.template _⟩
  | layout hf =>
    obtain ⟨-, -, htable⟩ := q.registry.coherent.layout _ _ hf
    obtain ⟨table, htable⟩ := Option.isSome_iff_exists.mp htable
    obtain ⟨hmode, hlayout⟩ := h.registry.lookup.layout _ _ hf
    exact ⟨hmode, _, hlayout table htable⟩
  | part hf =>
    obtain ⟨hmode, hpart⟩ := h.registry.lookup.part _ _ hf
    exact ⟨hmode, _, hpart⟩

/-- The walk of a template begins and ends between elements. -/
theorem Bracketed.turns (h : q.Bracketed) (hhost : q.host.Decorates)
    (hf : q.registry.lookup.Offers q.entry f) (depth : Nat) :
    Walk.Turns (Sink.At false []) (Walk.render q.scene depth f) (Sink.At false []) := by
  obtain ⟨hmode, σ, hbody⟩ := h.offers hf
  have hslots : Slots.start.Fits σ := (Slots.fits_empty σ).bindValue 0 _
  exact Walk.Places.content (Walk.places_call hhost h.registry.lookup depth) hmode
    ⟨hbody.content, hbody.attributes, hbody.blocks⟩ hslots nofun

/-- No render of a template misses an element.  One that succeeds ends with no element pending and
none open, and the tags that it has written, of which the result is made, are properly nested. -/
theorem Compiled.nests (h : q.Compiled strategy maxStack f handle program) (hq : q.Bracketed)
    (hhost : q.host.Decorates) (fuel : Nat) :
    let r := q.render strategy maxStack fuel program handle
    (∀ operation, r.result ≠ .error (.fault (.noOpenElement operation))) ∧
      ∀ rendered, r.result = .ok rendered → ∃ block m, program.heap.block? handle = some block ∧
        let start := Machine.begin program block q.self
        let tags := Exec.tags (q.setup strategy maxStack) fuel start
        Exec.run fuel (q.setup strategy maxStack) start = .ok () m ∧
        m.sink = ⟨rendered.html, none, []⟩ ∧
          Nested tags ∧ Spells tags rendered.html := by
  obtain ⟨block, hblock, hrenders⟩ := h.renders
  have hturns := hq.turns hhost h.offers fuel {} ⟨rfl, rfl⟩
  rw [render_eq hblock]
  cases hrenders fuel fuel (Nat.le_refl fuel) with
  | exhausted hpath hk =>
    obtain ⟨m, -, hrun⟩ := hpath.reaches.run_outOfFuel hk
    rw [hrun]
    exact ⟨nofun, nofun⟩
  | escaped _ _ hallows hrun =>
    rw [hrun]
    refine ⟨?_, nofun⟩
    rintro operation ⟨⟩
    exact hallows
  | failed _ _ hfault _ hrun hout =>
    rw [hrun]
    refine ⟨?_, nofun⟩
    rintro operation ⟨⟩
    obtain rfl := Option.some.inj hfault
    rw [hout] at hturns
    cases hturns
  | @finished k last i w t current hpath hi hop hs hrun hout =>
    rw [hrun]
    refine ⟨nofun, ?_⟩
    rintro _ ⟨⟩
    rw [hout] at hturns
    have hstack := hturns.2
    have hk : k < fuel := by
      by_contra hk
      obtain ⟨m, -, hcut⟩ := hpath.reaches.run_outOfFuel (Nat.le_of_not_lt hk)
      cases hrun.symm.trans hcut
    have hmanaged (j : Nat) (m : Machine)
        (hr : Reaches (q.setup strategy maxStack) j (.begin program block q.self) m) (hj : j ≤ k) :
        m.Managed q.host := by
      obtain ⟨phase, haccounts, -⟩ := hpath.invariant
        ((q.setup strategy maxStack).keeps_accounts (.single q.self))
        (Machine.accounts_begin q.host program block q.self) hr hj
      exact haccounts.managed
    obtain ⟨hcloses, written, hwritten, hspells⟩ :=
      hpath.reaches.closes hhost hmanaged hs hstack hk
    refine ⟨block, _, hblock, hrun, Sink.eq_of_at hturns, ?_, ?_⟩
    · cases hcloses with
      | done hnested => exact hnested
    · have houtput : w.sink.output = "" ++ written := hwritten
      rw [String.empty_append] at houtput
      exact houtput ▸ hspells

/-- A template that renders a frame around a block.  The frame is an element that is given the
attributes of its invocation, with another one in it. -/
def framed : Request :=
  let registry : Registry :=
    { components := #[{
        name := "Frame"
        layout :=
          { statements := [.openElement "div", .staticAttr "class" "frame" none, .attrSplat 1,
            .flushElement,
              .yield 2 none, .openElement "br", .flushElement, .closeElement, .closeElement]
            symbols := ["&attrs", "&default"]
            hasEval := false
            blocks := [] }
        manager := .args }] }
  { registry
    host := registry.host
    template :=
      { statements := [.component "Frame" [.staticAttr "class" "wide" none] none (some 0)]
        symbols := []
        hasEval := false
        blocks := [⟨[.openElement "b", .flushElement, .text "in", .closeElement], []⟩] }
    referer := "main"
    self := .null }

theorem framed_wellFormed : framed.WellFormed where
  registry := by
    refine ⟨fun c hc => ?_, fun p hp => ?_⟩
    · obtain rfl := List.mem_singleton.mp (Array.mem_toList_iff.mpr hc)
      rfl
    · exact absurd (Array.mem_toList_iff.mpr hp) List.not_mem_nil
  template := rfl
  host := Registry.host_backs _

theorem framed_bracketed : framed.Bracketed where
  registry := by
    refine ⟨fun c hc => ?_, fun p hp => absurd (Array.mem_toList_iff.mpr hp) List.not_mem_nil⟩
    obtain rfl := List.mem_singleton.mp (Array.mem_toList_iff.mpr hc)
    refine ⟨?_, nofun⟩
    have hbreak : Content (.ofLayout ["&attrs", "&default"])
        [.yield 2 none, .openElement "br", .flushElement, .closeElement] :=
      .cons rfl (@Content.element _ "br" [] [] [] rfl .nil .nil)
    exact @Content.element _ "div" [.staticAttr "class" "frame" none, .attrSplat 1] _ []
      rfl hbreak .nil
  template := by
    refine ⟨.cons rfl .nil, fun b hb => ?_⟩
    obtain rfl := List.mem_singleton.mp hb
    exact @Content.element _ "b" [] [.text "in"] [] rfl (.cons rfl .nil) .nil

theorem framed_decorates : framed.host.Decorates :=
  Registry.host_decorates fun c hc inst sink => by
    obtain rfl := List.mem_singleton.mp (Array.mem_toList_iff.mpr hc)
    exact .refl sink

set_option maxRecDepth 100000 in
theorem framed_halts : framed.haltsSmall .lazy 100 200 0 := by
  decide +kernel

set_option maxRecDepth 100000 in
theorem framed_html :
    (framed.renderFresh? .lazy 100 200).bind (·.result.toOption.map Rendered.html) =
    some "<div class=\"frame wide\"><b>in</b><br></div>" := by
  decide +kernel

theorem framed_nests : ∃ handle program, framed.Compiled .lazy 100 framed.entry handle program ∧
    let r := framed.render .lazy 100 200 program handle
    (∀ operation, r.result ≠ .error (.fault (.noOpenElement operation))) ∧
      ∃ rendered block m, r.result = .ok rendered ∧ program.heap.block? handle = some block ∧
        let start := Machine.begin program block framed.self
        let tags := Exec.tags (framed.setup .lazy 100) 200 start
        Exec.run 200 (framed.setup .lazy 100) start = .ok () m ∧
          m.sink = ⟨"<div class=\"frame wide\"><b>in</b><br></div>", none, []⟩ ∧ Nested tags ∧
          Spells tags "<div class=\"frame wide\"><b>in</b><br></div>" := by
  obtain ⟨handle, program, hcompile, h⟩ :=
    framed_wellFormed.compiled (staysSmall_of_haltsSmall framed_halts)
  obtain ⟨hplaced, hnests⟩ := h.nests framed_bracketed framed_decorates 200
  have hhtml := framed_html
  rw [renderFresh?_eq hcompile, Option.bind_some] at hhtml
  cases hr : (framed.render .lazy 100 200 program handle).result with
  | error e =>
    rw [hr] at hhtml
    cases hhtml
  | ok rendered =>
    rw [hr] at hhtml
    obtain ⟨block, m, hblock, hrun, hsink, hnested, hspells⟩ := hnests rendered hr
    have hrendered : rendered.html = _ := Option.some.inj hhtml
    rw [hrendered] at hsink hspells
    exact ⟨handle, program, h, hr ▸ hplaced, rendered, block, m, hr, hblock, hrun, hsink,
      hnested, hspells⟩

end Request

end TemplateMachine
