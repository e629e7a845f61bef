import TemplateMachine.Proofs.Render.Stance
import TemplateMachine.Proofs.Walk.Alike

/-! Trust at run time.  Code that appends a trusted value always looks for a component; code that
appends another value does so only if it is a path or a name.  Where both look, or there is no
component, trust decides about escaping and nothing else.  A call of a helper that comes to a
component is where they differ. -/

namespace TemplateMachine

section

variable {setup : Setup} {cells : Cells} {site : Site} {w : World} {e : Expression}
variable {mode : AttrMode} {trusted : Bool} {code code' : List Instruction}

namespace Setup.Stance

/-- The machine comes to what appending comes to. -/
theorem HoldsStatement.append_comesTo {b : setup.Stance cells site}
    (h : b.HoldsStatement mode (.append e trusted) code) (hserves : setup.Serves)
    (hroom : setup.Suffices (b.machine w)) :
    setup.ComesTo (b.machine w)
      (Walk.append (setup.scene cells) site
        (Walk.call (setup.scene cells) setup.maxStack) e trusted w)
      fun _ => b.Past code :=
  h.comesTo hserves hroom

end Setup.Stance

/-- What appending the same expression with trust and without it comes to.  An inline form, an
expression without a value, and a component in a path or a name are treated alike.  What is no
component is written, and escaped if it is not trusted.  A component that another expression comes
to is invoked if it is trusted, and passed over if it is not. -/
theorem Setup.append_by_trust (hserves : setup.Serves) (b b' : setup.Stance cells site)
    (h : b.HoldsStatement mode (.append e true) code)
    (h' : b'.HoldsStatement mode (.append e false) code') (hroom : setup.Suffices (b.machine w))
    (hroom' : setup.Suffices (b'.machine w)) : let scene := setup.scene cells
    let inline := Compilable.inline? scene.lookup site.referer e
    let invoked (r : Reference) (w' : World) :=
      Walk.dynamicComponent scene site (Walk.call scene setup.maxStack) r {} w'
    (inline.isSome → ∃ out : EStateM.Result (Stop Fault) World Unit,
      setup.ComesTo (b.machine w) out (fun _ => b.Past code) ∧
      setup.ComesTo (b'.machine w) out fun _ => b'.Past code') ∧
    (inline = none → ∀ fault w', Walk.expression scene site e w = .error fault w' →
      setup.ComesTo (b.machine w) (.error fault w') (fun _ : Unit => b.Past code) ∧
      setup.ComesTo (b'.machine w) (.error fault w') fun _ : Unit => b'.Past code') ∧
    (inline = none → ∀ r w', Walk.expression scene site e w = .ok r w' →
      ((r.value cells).isComponent = false →
        setup.ComesTo (b.machine w) (.ok () (w'.write (Walk.contentOf cells r)))
        (fun _ => b.Past code) ∧ setup.ComesTo (b'.machine w)
          (.ok () (w'.write (Text.escapeText (Walk.contentOf cells r))))
          fun _ => b'.Past code') ∧
      ((r.value cells).isComponent = true → e.isGet = true →
        setup.ComesTo (b.machine w) (invoked r w') (fun _ => b.Past code) ∧
        setup.ComesTo (b'.machine w) (invoked r w') fun _ => b'.Past code') ∧
      ((r.value cells).isComponent = true → e.isGet = false →
        setup.ComesTo (b.machine w) (invoked r w') (fun _ => b.Past code) ∧
        setup.ComesTo (b'.machine w) (.ok () w') fun _ => b'.Past code')) := by
  intro scene inline invoked
  have htrusted := h.append_comesTo hserves hroom
  have huntrusted := h'.append_comesTo hserves hroom'
  refine ⟨fun hinline => ?_, fun hinline fault w' hvalue => ?_,
    fun hinline r w' hvalue => ⟨?_, ?_, ?_⟩⟩
  · rw [← Walk.append_inline hinline] at huntrusted
    exact ⟨_, htrusted, huntrusted⟩
  · rw [Walk.append_error hinline hvalue] at htrusted huntrusted
    exact ⟨htrusted, huntrusted⟩
  all_goals rw [Walk.append_apply hinline hvalue] at htrusted huntrusted
  · intro hdata
    rw [show (r.value scene.cells).isComponent = false from hdata, Bool.false_and,
      if_neg Bool.false_ne_true, Walk.content_apply] at htrusted huntrusted
    exact ⟨htrusted, huntrusted⟩
  all_goals
    intro hcomponent hget
    rw [show (r.value scene.cells).isComponent = true from hcomponent, hget] at htrusted huntrusted
    refine ⟨htrusted, ?_⟩
  · exact huntrusted
  · rwa [Bool.or_self, Bool.and_false, if_neg Bool.false_ne_true,
      Walk.content_component hcomponent] at huntrusted

end

/-- A call of a helper that gives its first argument back, which is a component. -/
def pickCard : Expression :=
  .helper "pick" (some [.helper "component" (some [.value (.str "Card")]) none]) none

/-- A template that appends a picked component, once without trust and once with it. -/
def Request.picked : Request :=
  let registry : Registry :=
    { components := #[{
        name := "Card"
        layout :=
          { statements := [.text "x"]
            symbols := []
            hasEval := false
            blocks := [] }
        manager := .args }]
      helpers := #[("pick", fun cells args => .ok (args.datumAt cells 0))] }
  { registry
    host := registry.host
    template :=
      { statements := [.append pickCard false, .append pickCard true]
        symbols := []
        hasEval := false
        blocks := [] }
    referer := "main"
    self := .null }

theorem Request.picked_wellFormed : Request.picked.WellFormed where
  registry := by
    refine ⟨fun c hc => ?_, fun p hp => ?_⟩
    · obtain rfl := List.mem_singleton.mp (Array.mem_toList_iff.mpr hc)
      rfl
    · exact absurd (Array.mem_toList_iff.mpr hp) List.not_mem_nil
  template := rfl
  host := Registry.host_backs _

set_option maxRecDepth 100000 in
theorem Request.picked_halts :
    Request.picked.haltsSmall .lazy 100 300 0 = true ∧
    Request.picked.haltsSmall .lazy 100 300 7 = true := by
  decide +kernel

theorem length_pickCard {k : Coding} {push : List Instruction} (h : k.expression pickCard push) :
    push.length = 6 := by
  unfold pickCard at h
  unfold Coding.expression at h
  rw [if_neg (by decide)] at h
  obtain ⟨_, _, _, _, _, -, ⟨_, _, h, rfl, rfl⟩, rfl, ⟨_, _, -, -, -, rfl⟩, ⟨_, -, rfl⟩, rfl⟩ := h
  unfold Coding.expression at h
  rw [if_pos rfl] at h
  obtain ⟨_, _, _, _, _, ⟨_, -, _, ⟨_, -, rfl⟩, rfl⟩, rfl, rfl, ⟨_, _, -, -, -, rfl⟩,
      ⟨_, -, rfl⟩, rfl⟩ := h
  rfl

/-- The output of a walk that comes to an end. -/
def outputOf? : EStateM.Result (Stop Fault) World Unit → Option String
  | .ok _ w => some w.sink.output
  | .error .. => none

/-- The picked component is rendered with trust, and leaves nothing without it. -/
theorem Request.picked_by_trust :
    let setup := picked.setup .lazy 100
    let scene := setup.scene (.single picked.self)
    let site : Site := ⟨picked.entry.layout, .start, none⟩
    ∃ (b b' : setup.Stance (.single picked.self) site) (code code' : List Instruction)
      (r : Reference) (w : World)
      (out : EStateM.Result (Stop Fault) World Unit),
      b.HoldsStatement .element (.append pickCard true) code ∧
      b'.HoldsStatement .element (.append pickCard false) code' ∧
      Walk.expression scene site pickCard {} = .ok r w ∧ outputOf? out = some "x" ∧
      w.sink.output = "" ∧ setup.ComesTo (b.machine {}) out (fun _ => b.Past code) ∧
      setup.ComesTo (b'.machine {}) (.ok () w) fun _ => b'.Past code' := by
  intro setup scene site
  obtain ⟨hhalts', hhalts⟩ := picked_halts
  obtain ⟨handle, program, hcompile, h⟩ :=
    picked_wellFormed.compiled (staysSmall_of_haltsSmall hhalts')
  obtain ⟨block, hblock, -⟩ := h.renders
  obtain ⟨b', passed', code', hpassed', hcode', hb'⟩ :=
    h.stance hblock (show picked.template.statements = [] ++ _ :: _ from rfl)
  obtain ⟨b, passed, code, hpassed, hcode, hb⟩ :=
    h.stance hblock (show picked.template.statements = [_] ++ _ :: _ from rfl)
  have hinline : Compilable.inline? scene.lookup site.referer pickCard = none := by
    have hcomponent : scene.lookup.component? "pick" site.referer = none := by decide +kernel
    rw [pickCard, Compilable.inline?, Compilable.inlineCall?, if_neg (by decide),
      if_neg (by decide), hcomponent]
    rfl
  obtain rfl : passed' = [] := hpassed'
  have hlength : passed.length = 7 := by
    obtain ⟨first, _, hfirst, rfl, rfl⟩ := hpassed
    obtain ⟨push, hpush, rfl⟩ := Setup.Stance.append_plain hfirst hinline rfl
    simp [length_pickCard hpush]
  have hroom' : setup.Suffices (b'.machine {}) := by
    rw [hb']
    exact suffices_of_haltsSmall hcompile hblock hhalts'
  have hroom : setup.Suffices (b.machine {}) := by
    rw [hb, hlength]
    exact suffices_of_haltsSmall hcompile hblock hhalts
  obtain ⟨-, -, hvalues⟩ := Setup.append_by_trust (picked_wellFormed.serves .lazy 100) b b' hcode
    hcode' hroom hroom'
  have hchecked : (match Walk.expression scene site pickCard {} with
      | .ok r w => (r.value (.single picked.self)).isComponent && decide (w.sink.output = "") &&
        decide
          (outputOf? (Walk.dynamicComponent scene site (Walk.call scene 100) r {} w) = some "x")
      | .error .. => false) = true := by
    decide +kernel
  cases hvalue : Walk.expression scene site pickCard {} with
  | error => simp [hvalue] at hchecked
  | ok r w =>
    simp only [hvalue, Bool.and_eq_true, decide_eq_true_eq] at hchecked
    obtain ⟨⟨hcomponent, hempty⟩, hout⟩ := hchecked
    obtain ⟨-, -, hpassedOver⟩ := hvalues hinline r w hvalue
    obtain ⟨hinvoked, huntouched⟩ := hpassedOver hcomponent rfl
    exact ⟨b, b', code, code', r, w, _, hcode, hcode', rfl, hout, hempty, hinvoked, huntouched⟩

end TemplateMachine
