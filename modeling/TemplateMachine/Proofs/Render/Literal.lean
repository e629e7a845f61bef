import TemplateMachine.Machine.Builtin
import TemplateMachine.Proofs.Render.Stance
import TemplateMachine.Proofs.Walk.Alike

/-! Literals at run time.  The code of a literal goes through the words and pools of the program and
comes to another reference than the code of a path to the same datum, but what is written and tested
afterwards is the same.  Equality is where the difference shows: a number literal equals the integer
it was written as only below the bound for integers. -/

namespace TemplateMachine

section

variable {setup : Setup} {cells : Cells} {site : Site} {w : World} {head : UInt32}
variable {path : List String} {code code' : List Instruction}

/-- A literal renders like the same datum.  The machine pushes references to data with the same
content, the same attribute text and the same truth, and comes to the same outcome at statements
that append the value, set an attribute to it or depend on it. -/
theorem Setup.literal_renders_alike (hserves : setup.Serves) {v : Json} (hv : v.IsScalar)
    (hdatum : (path.foldl Reference.property (site.slots.value head)).value cells = .data v)
    (b b' : setup.Stance cells site) (hroom : setup.Suffices (b.machine w))
    (hroom' : setup.Suffices (b'.machine w)) :
    (∀ e e', e.Replaces v head path e' → b.HoldsExpression e code → b'.HoldsExpression e' code' →
      ∃ out out', Outcome.Alike (Reference.Alike cells) out out' ∧
        setup.ComesTo (b.machine w) out (b.Pushed code) ∧
        setup.ComesTo (b'.machine w) out' (b'.Pushed code')) ∧
    (∀ mode s s', s.Replaces v head path s' →
      b.HoldsStatement mode s code → b'.HoldsStatement mode s' code' →
      ∃ out : EStateM.Result (Stop Fault) World Unit,
        setup.ComesTo (b.machine w) out (fun _ => b.Past code) ∧
        setup.ComesTo (b'.machine w) out fun _ => b'.Past code') := by
  constructor
  · intro e e' hreplaces h h'
    exact ⟨_, _, Walk.alike_of_replaces (s := setup.scene cells) hv hdatum hreplaces w,
      h.comesTo hserves hroom, h'.comesTo hserves hroom'⟩
  · intro mode s s' hreplaces h h'
    refine ⟨_, h.comesTo hserves hroom, ?_⟩
    rw [Walk.statement_of_replaces (s := setup.scene cells) hv hdatum hreplaces]
    exact h'.comesTo hserves hroom'

/-- A template that appends a number literal, and the same number in data. -/
def Request.counted : Request where
  registry := {}
  host := Registry.host {}
  template :=
    { statements := [.append (.value (.int 3)) false, .append (.get 0 ["n"]) false]
      symbols := []
      hasEval := false
      blocks := [] }
  referer := "main"
  self := .obj [("n", .int 3)]

theorem Request.counted_wellFormed : Request.counted.WellFormed where
  registry := ⟨fun _ hc => absurd (Array.mem_toList_iff.mpr hc) List.not_mem_nil,
    fun _ hp => absurd (Array.mem_toList_iff.mpr hp) List.not_mem_nil⟩
  template := rfl
  host := Registry.host_backs _

/-- The literal and the number in data are written alike. -/
theorem Request.counted_renders_alike :
    ∃ (b b' : (Request.counted.setup .lazy 100).Stance (.single Request.counted.self)
        ⟨Request.counted.entry.layout, .start, none⟩)
      (code code' : List Instruction) (out : EStateM.Result (Stop Fault) World Unit),
      b.HoldsStatement .element (.append (.value (.int 3)) false) code ∧
      b'.HoldsStatement .element (.append (.get 0 ["n"]) false) code' ∧
      (Request.counted.setup .lazy 100).ComesTo (b.machine {}) out (fun _ => b.Past code) ∧
      (Request.counted.setup .lazy 100).ComesTo (b'.machine {}) out fun _ => b'.Past code' := by
  have hcomputed : counted.haltsSmall .lazy 100 200 0 = true ∧
      counted.haltsSmall .lazy 100 200 3 = true := by
    decide +kernel
  obtain ⟨hhalts, hhalts'⟩ := hcomputed
  obtain ⟨handle, program, hcompile, h⟩ :=
    counted_wellFormed.compiled (staysSmall_of_haltsSmall hhalts)
  obtain ⟨block, hblock, -⟩ := h.renders
  obtain ⟨b, passed, code, hpassed, hcode, hb⟩ :=
    h.stance hblock (show counted.template.statements = [] ++ _ :: _ from rfl)
  obtain ⟨b', passed', code', hpassed', hcode', hb'⟩ :=
    h.stance hblock (show counted.template.statements = [_] ++ _ :: _ from rfl)
  obtain rfl : passed = [] := hpassed
  have hlength : passed'.length = 3 := by
    obtain ⟨_, _, ⟨_, ⟨_, -, _, ⟨_, -, rfl⟩, rfl⟩, rfl⟩, rfl, rfl⟩ := hpassed'
    rfl
  have hroom : (counted.setup .lazy 100).Suffices (b.machine {}) := by
    rw [hb]
    exact suffices_of_haltsSmall hcompile hblock hhalts
  have hroom' : (counted.setup .lazy 100).Suffices (b'.machine {}) := by
    rw [hb', hlength]
    exact suffices_of_haltsSmall hcompile hblock hhalts'
  have hdatum : ((["n"] : List String).foldl Reference.property (Slots.start.value 0)).value
      (.single counted.self) = .data (.int 3) := rfl
  obtain ⟨-, hstatements⟩ := Setup.literal_renders_alike (counted_wellFormed.serves .lazy 100)
    (v := .int 3) ⟨by decide, by decide⟩ hdatum b b' hroom hroom'
  obtain ⟨out, hout, hout'⟩ := hstatements .element _ _ (.append false .here) hcode hcode'
  exact ⟨b, b', code, code', out, hcode, hcode', hout, hout'⟩

/-- What equality is applied to: an integer literal, as it is given back, and a path. -/
def literalAndPath (n : Int) (r : Reference) : Arguments :=
  { positional := [.ofJson (.ofBinary64 (.ofInt n)), r] }

theorem Helper.equal_literalAndPath {n : Int} {r : Reference}
    (hr : r.value cells = .data (.int n)) : Helper.equal cells (literalAndPath n r) =
      .ok (.data (.bool (decide (n.natAbs < Binary64.integerBound)))) := by
  have hliteral : jsonAt cells (literalAndPath n r) 0 = .ofBinary64 (.ofInt n) := rfl
  have hpath : jsonAt cells (literalAndPath n r) 1 = .int n := by
    show ((r.value cells).toJson?).getD .null = _
    rw [hr]
    rfl
  rw [Helper.equal, hliteral, hpath, Json.eq_ofInt]

/-- An integer literal equals the same integer in data exactly if it lies
below the bound for integers. -/
theorem Setup.equal_literal (hserves : setup.Serves) {handle : UInt32}
    (hname : setup.options.lookup.helper? "eq" site.referer = some handle)
    (hhelper : setup.host.helper? handle = some fun _ => Helper.equal) (n : Int)
    (hdatum : (path.foldl Reference.property (site.slots.value head)).value cells = .data (.int n))
    (b : setup.Stance cells site)
    (hcode : b.HoldsExpression (.helper "eq" (some [.value (.int n), .get head path]) none) code)
    (hroom : setup.Suffices (b.machine w)) :
    let args := literalAndPath n (path.foldl .property (site.slots.value head))
    ∃ k m, Reaches setup k (b.machine w) m ∧
      b.Pushed code (.ofJson (.bool (decide (n.natAbs < Binary64.integerBound))))
        { w with events := w.events.push (.helper handle args) } m := by
  intro args
  have hwalk : Walk.expression (setup.scene cells) site
    (.helper "eq" (some [.value (.int n), .get head path]) none) w =
      Walk.callHelper (setup.scene cells) handle args w := by
    unfold Walk.expression
    rw [if_neg (by decide), show (setup.scene cells).lookup.helper? "eq" site.referer =
      some handle from hname]
    rfl
  have hcall : Walk.callHelper (setup.scene cells) handle args w =
      .ok (.ofJson (.bool (decide (n.natAbs < Binary64.integerBound))))
        { w with events := w.events.push (.helper handle args) } := by
    rw [Walk.callHelper_of hhelper, Helper.equal_literalAndPath hdatum]
    rfl
  have hcomes := hcode.comesTo hserves hroom
  rw [hwalk, hcall] at hcomes
  exact hcomes

end

/-- A template that compares a number literal with the same number in data. -/
def Request.compared (n : Int) : Request :=
  let registry : Registry := { helpers := #[("eq", Helper.equal)] }
  { registry
    host := registry.host
    template :=
      { statements := [.append (.helper "eq" (some [.value (.int n), .get 0 ["n"]]) none) false]
        symbols := []
        hasEval := false
        blocks := [] }
    referer := "main"
    self := .obj [("n", .int n)] }

theorem Request.compared_wellFormed (n : Int) : (Request.compared n).WellFormed where
  registry := ⟨fun _ hc => absurd (Array.mem_toList_iff.mpr hc) List.not_mem_nil,
    fun _ hp => absurd (Array.mem_toList_iff.mpr hp) List.not_mem_nil⟩
  template := rfl
  host := Registry.host_backs _

/-- The bound is the first integer that its literal does not equal. -/
theorem Request.compared_at_bound :
    let q := Request.compared Binary64.integerBound
    ∃ (b : (q.setup .lazy 100).Stance (.single q.self) ⟨q.entry.layout, .start, none⟩)
      (code : List Instruction) (k : Nat) (m : Machine) (w : World),
      b.HoldsExpression (.helper "eq"
        (some [.value (.int Binary64.integerBound), .get 0 ["n"]]) none) code ∧
      Reaches (q.setup .lazy 100) k (b.machine {}) m ∧
      b.Pushed code (.ofJson (.bool false)) w m := by
  intro q
  have hhalts : q.haltsSmall .lazy 100 200 0 = true := by decide +kernel
  obtain ⟨handle, program, hcompile, h⟩ :=
    (compared_wellFormed Binary64.integerBound).compiled (staysSmall_of_haltsSmall hhalts)
  obtain ⟨block, hblock, -⟩ := h.renders
  obtain ⟨b, passed, code, hpassed, hcode, hb⟩ :=
    h.stance hblock (show q.template.statements = [] ++ _ :: _ from rfl)
  obtain rfl : passed = [] := hpassed
  have hroom : (q.setup .lazy 100).Suffices (b.machine {}) := by
    rw [hb]
    exact suffices_of_haltsSmall hcompile hblock hhalts
  have hinline : Compilable.inline? (q.setup .lazy 100).options.lookup q.referer
      (.helper "eq" (some [.value (.int Binary64.integerBound), .get 0 ["n"]]) none) = none := by
    have hcomponent : (q.setup .lazy 100).options.lookup.component? "eq" q.referer = none := by
      decide +kernel
    rw [Compilable.inline?, Compilable.inlineCall?, if_neg (by decide),
      if_neg (by decide), hcomponent]
    rfl
  obtain ⟨push, hpush⟩ := hcode.expression hinline rfl
  have hdatum : ((["n"] : List String).foldl Reference.property (Slots.start.value 0)).value
      (.single q.self) = .data (.int Binary64.integerBound) := rfl
  have hname : (q.setup .lazy 100).options.lookup.helper? "eq" q.referer = some 0 := by
    decide +kernel
  obtain ⟨k, m, hreaches, hpushed⟩ := Setup.equal_literal (h.wellFormed.serves .lazy 100) hname rfl
    Binary64.integerBound hdatum b hpush hroom
  exact ⟨b, push, k, m, _, hpush, hreaches, hpushed⟩

end TemplateMachine
