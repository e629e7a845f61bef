import TemplateMachine.Proofs.Emission.Await

/-! Blocks that are nested in themselves.  Each time a statement names a block, a fragment of its
own is made of it.  So eager compilation never comes back to a block that it is at: where blocks
name one another in a cycle it makes ever new fragments, and none of them gets a handle. -/

namespace TemplateMachine

/-! ### What eager compilation nests -/

/-- The statements of a block, if there is one. -/
def Template.bodies (t : Template) (index : Option Nat) : List (List Statement) :=
  ((index.bind fun i => t.blocks[i]?).map InlineBlock.statements).toList

/-- The code that invokes a component passes the block that a symbol stands for.  It does not if the
layout is known and has no such symbol. -/
def Lookup.passes (l : Lookup) (handle : UInt32) (symbol : String) : Bool :=
  match if (l.capabilities handle).dynamicLayout then none else l.layout? handle with
  | none => true
  | some f =>
    match f.table.asProgram? with
    | none => true
    | some table =>
      table.hasEval || (l.capabilities handle).prepareArgs || table.symbols.contains symbol

/-- The component that a literal names. -/
def Expression.component? (l : Lookup) (referer : String) : Expression → Option UInt32
  | .value (.str name) => l.component? name referer
  | _ => none

/-- The block that a symbol stands for is compiled with a block statement: by the forms in any case,
and by components if they are passed it.  Which component it is may be known at run time only. -/
def Lookup.takes (l : Lookup) (referer name : String) (params : Option (List Expression))
    (symbol : String) : Bool :=
  if name ∈ ["if", "unless", "with", "each"] then true
  else if name = "component" then
    match params with
    | some (definition :: _) => (definition.component? l referer).all (l.passes · symbol)
    | _ => false
  else (l.component? name referer).any (l.passes · symbol)

mutual

/-- The statements of the fragments that are made and compiled when the code of a statement is
emitted eagerly: blocks and attributes, but not layouts and partials. -/
def Statement.embedded (l : Lookup) (layout : Layout) : Statement → List (List Statement)
  | .block name params _ template inverse =>
    (if l.takes layout.referer name params "&default" then
      layout.template.bodies template else []) ++
        (if l.takes layout.referer name params "&inverse" then
          layout.template.bodies inverse else [])
  | .component tag attrs _ body =>
    match l.component? tag layout.referer with
    | some handle =>
      (if l.passes handle "&default" then layout.template.bodies body else []) ++
        (if l.passes handle "&attrs" then [attrs] else [])
    | none => Statement.allEmbedded l layout attrs ++ layout.template.bodies body
  | _ => []

def Statement.allEmbedded (l : Lookup) (layout : Layout) : List Statement → List (List Statement)
  | [] => []
  | s :: rest => s.embedded l layout ++ Statement.allEmbedded l layout rest

end

/-- Some statements are compiled with others, as a fragment of their own. -/
def Lookup.Nests (l : Lookup) (layout : Layout) (outer inner : List Statement) : Prop :=
  inner ∈ Statement.allEmbedded l layout outer

/-- Fragments are nested in a fragment without end. -/
def Lookup.Hopeless (l : Lookup) (f : Fragment) : Prop :=
  ¬Acc (fun inner outer => l.Nests f.layout outer inner) f.statements

/-- Where there is no end, there is none in something that is nested. -/
theorem Lookup.Hopeless.exists_nested {l : Lookup} {f : Fragment} (h : l.Hopeless f) :
    ∃ inner, l.Nests f.layout f.statements inner ∧
      ∀ g : Fragment, g.layout = f.layout → g.statements = inner → l.Hopeless g := by
  refine Classical.byContradiction fun hnone => h (.intro _ fun inner hinner => ?_)
  refine Classical.byContradiction fun hinnerEndless => hnone ⟨inner, hinner, ?_⟩
  rintro g hlayout rfl
  rw [Lookup.Hopeless, hlayout]
  exact hinnerEndless

theorem SymbolRole.ofSymbol_default : SymbolRole.ofSymbol "&default" = .block "&default" := rfl

theorem SymbolRole.ofSymbol_inverse : SymbolRole.ofSymbol "&inverse" = .block "&inverse" := rfl

theorem SymbolRole.ofSymbol_attrs : SymbolRole.ofSymbol "&attrs" = .block "&attrs" := rfl

theorem Emit.literalComponent?_apply (definition : Expression) (c : BuildContext) (b : Builder) :
    Emit.literalComponent? definition c b =
      .ok (definition.component? c.lookup c.layout.referer) b := by
  cases definition with
  | value json => cases json <;> rfl
  | _ => rfl

/-! ### Emission that fails -/

section

variable {α β : Type} {c : BuildContext} {u : Upkeep} {labels mid after : List (List String)}

/-- The step fails. -/
def Emit.Refuses (c : BuildContext) (u : Upkeep) (labels : List (List String))
    (x : Emit α) : Prop :=
  Emit.Meets c u.broken (u.At labels Constants.Any) x fun _ _ => False

/-- A fragment gets no handle. -/
def Upkeep.Withholds (u : Upkeep) (c : BuildContext) (f : Fragment) : Prop :=
  ∀ labels, Emit.Refuses c u labels (Emit.linked f)

namespace Emit.Refuses

/-- What follows a step that fails is of no importance. -/
theorem first {x : Emit α} {f : α → Emit β} (hx : Refuses c u labels x) :
    Refuses c u labels (x >>= f) :=
  Emit.Meets.bind hx fun _ _ => False.elim

theorem next {x : Emit α} {f : α → Emit β} (hx : Emit.Keeps c u labels mid x)
    (hf : ∀ a, Refuses c u mid (f a)) : Refuses c u labels (x >>= f) :=
  Emit.Meets.bind hx hf

theorem read {x : BuildContext → Emit α} (hx : Refuses c u labels (x c)) :
    Refuses c u labels (do x (← MonadReader.read)) := hx

end Emit.Refuses

/-- A name is resolved by the context alone. -/
theorem Emit.Meets.resolve {broken : Stop CompileError → Builder → Prop} {pre : Builder → Prop}
    {post : β → Builder → Prop} {find : Lookup → String → String → Option UInt32} {name : String}
    {f : Option UInt32 → Emit β}
    (hf : Emit.Meets c broken pre (f (find c.lookup name c.layout.referer)) post) :
    Emit.Meets c broken pre (Emit.resolve find name >>= f) post := hf

namespace BuildContext.Maintains

open Emit (Refuses)

section

variable (h : c.Maintains u)

include h

theorem refuses_op {o : Opcode} {i j k : UInt32} {f : Unit → Emit β}
    (hfree : Instruction.isFree ⟨o, i, j, k⟩ = true) (hf : Refuses c u labels (f ())) :
    Refuses c u labels (Emit.op o i j k >>= f) :=
  .next (h.op hfree) fun _ => hf

theorem refuses_orFail {v : Option α} {e : CompileError} {f : α → Emit β}
    (hf : ∀ a, v = some a → Refuses c u labels (f a)) :
    Refuses c u labels (Emit.orFail v e >>= f) := by
  cases v with
  | some a => exact hf a rfl
  | none => exact .first fun b hb => h.fails e hb.holds

section

variable (heager : c.strategy = .eager) {f : Fragment} (hf : u.Withholds c f)

include heager hf

omit h in
theorem refuses_pushBlock : Refuses c u labels (Emit.pushBlock (some f)) := by
  refine .read ?_
  rw [heager]
  exact .first (hf labels)

theorem refuses_pushYieldable {block : Option Fragment} (hblock : block = some f) :
    Refuses c u labels (Emit.pushYieldable block) := by
  subst hblock
  exact .next (h.symbolTable _) fun _ => refuses_pushBlock heager hf

theorem refuses_invokeStaticBlock (supplied : UInt32) :
    Refuses c u labels (Emit.invokeStaticBlock f supplied) := by
  refine h.refuses_op rfl ?_
  cases hbound : (f.table.parameters.take supplied.toNat).isEmpty with
  | true =>
    rw [if_pos rfl]
    exact .first (refuses_pushBlock heager hf)
  | false =>
    exact h.refuses_op rfl (.next (h.bindParameters _ _) fun _ =>
      .first (refuses_pushBlock heager hf))

/-! ### Invocations -/

theorem refuses_invokeComponent {i : Invocation} (hi : ∀ g ∈ i.passed, u.admits g)
    (hmem : f ∈ i.passed) (layout : Option Fragment) :
    Refuses c u labels (Emit.invokeComponent i layout) := by
  simp only [Invocation.passed, List.mem_append, Option.mem_toList] at hi hmem
  refine .next h.enterComponent fun _ => ?_
  have hblock : Emit.Keeps c u labels labels (Emit.pushYieldable i.block) :=
    h.pushYieldable fun g hg => hi g (.inl (.inl hg))
  have hinverse : Emit.Keeps c u labels labels (Emit.pushYieldable i.inverse) :=
    h.pushYieldable fun g hg => hi g (.inl (.inr hg))
  rcases hmem with (hmem | hmem) | hmem
  · exact .first (h.refuses_pushYieldable heager hf hmem)
  · exact .next hblock fun _ => .first (h.refuses_pushYieldable heager hf hmem)
  · exact .next hblock fun _ => .next hinverse fun _ =>
      .first (h.refuses_pushYieldable heager hf hmem)

/-- What a symbol of the layout stands for is pushed with the others. -/
theorem refuses_pushSymbols {i : Invocation} (hi : ∀ g ∈ i.passed, u.admits g) {symbol : String}
    (hrole : SymbolRole.ofSymbol symbol = .block symbol)
    (hblock : i.blockOf? symbol = some (some f)) {symbols : List String} (hmem : symbol ∈ symbols)
    (bound : List (UInt32 × Opcode)) (slot : UInt32) :
    Refuses c u labels (Emit.pushSymbols i bound slot symbols) := by
  induction symbols generalizing bound slot with
  | nil => cases hmem
  | cons first rest ih =>
    unfold Emit.pushSymbols
    by_cases heq : symbol = first
    · subst heq
      refine .first ?_
      unfold Emit.pushSymbol
      rw [hrole]
      refine h.refuses_orFail fun block hfound => .first ?_
      exact h.refuses_pushYieldable heager hf (Option.some.inj (hfound.symm.trans hblock))
    · have hrest := (List.mem_cons.mp hmem).resolve_left heq
      have hkeeps : Emit.Keeps c u labels labels (Emit.pushSymbol i first >>= pure) :=
        h.pushSymbol_seq hi first fun binder _ => .pure binder
      rw [bind_pure] at hkeeps
      refine .next hkeeps fun binder => ?_
      cases binder with
      | some o => exact ih hrest _ _
      | none => exact ih hrest _ _

theorem refuses_component (i : Invocation) (hi : ∀ g ∈ i.passed, u.admits g) {symbol : String}
    (hrole : SymbolRole.ofSymbol symbol = .block symbol)
    (hblock : i.blockOf? symbol = some (some f)) {handle : UInt32}
    (hpasses : c.lookup.passes handle symbol = true) :
    Refuses c u labels (Emit.component handle i) := by
  have hmem : f ∈ i.passed := Invocation.mem_passed_of_blockOf? hblock rfl
  refine .read (.next (h.onHandle handle rfl) fun _ => ?_)
  unfold Lookup.passes at hpasses
  split
  · rename_i layout hlayout
    rw [hlayout] at hpasses
    refine .first (h.refuses_orFail fun table htable => ?_)
    dsimp only at hpasses
    rw [htable] at hpasses
    split
    · exact h.refuses_invokeComponent heager hf hi hmem _
    · rename_i hgeneric
      have hsymbol : symbol ∈ table.symbols := by
        simpa [eq_false_of_ne_true hgeneric, List.contains_iff_mem] using hpasses
      refine .next h.enterComponent fun _ => ?_
      cases (c.lookup.capabilities handle).createArgs with
      | true =>
        refine h.refuses_op rfl (.next (h.args _ _ _) fun _ =>
          .next (h.createComponent i) fun _ => ?_)
        refine h.refuses_op rfl (h.refuses_op rfl (h.refuses_op rfl (.first ?_)))
        exact h.refuses_pushSymbols heager hf hi hrole hblock hsymbol _ _
      | false =>
        refine .next (h.createComponent i) fun _ => h.refuses_op rfl (h.refuses_op rfl (.first ?_))
        exact h.refuses_pushSymbols heager hf hi hrole hblock hsymbol _ _
  · exact .first (h.refuses_invokeComponent heager hf hi hmem none)

omit heager hf in
theorem refuses_frameWithLabels (inner : List String) {body : Emit Unit}
    (hbody : Refuses c u ((inner ++ ["END"]) :: labels) body) :
    Refuses c u labels (Emit.frameWithLabels body) :=
  .next (h.openLabels _) fun _ => h.refuses_op rfl <| .next (h.jump rfl "END" (by simp)) fun _ =>
    .first hbody

theorem refuses_dynamicComponent (definition : Expression) {i : Invocation}
    (hi : ∀ g ∈ i.passed, u.admits g) (hmem : f ∈ i.passed) :
    Refuses c u labels (Emit.dynamicComponent definition i) := by
  refine h.refuses_frameWithLabels ["ELSE"] (.next (h.expression definition) fun _ => ?_)
  refine h.refuses_op rfl (h.refuses_op rfl (.next (h.jump rfl "ELSE" (by simp)) fun _ => ?_))
  exact .next (h.onReferer rfl) fun _ => .first (h.refuses_invokeComponent heager hf hi hmem none)

/-! ### Block forms -/

theorem refuses_elseBranch {rest : List String} :
    Refuses c u ((elseLabels (some f) ++ rest) :: labels) (Emit.elseBranch (some f)) :=
  .next (h.jump rfl "EXIT" (by simp [elseLabels])) fun _ => .next (h.label "ELSE") fun _ =>
    .first (h.refuses_invokeStaticBlock heager hf 0)

omit h heager hf in
/-- A block of a block form is its main one or its inverse. -/
theorem main_or_inverse {call : BlockCall} (hmem : f ∈ call.blocks) {main : Fragment}
    (hmain : call.template = some main) : main = f ∨ call.inverse = some f := by
  rcases List.mem_append.mp hmem with hmem | hmem
  · exact .inl (Option.some.inj (hmain.symm.trans (Option.mem_toList.mp hmem)))
  · exact .inr (Option.mem_toList.mp hmem)

variable (call : BlockCall) (hcall : ∀ g ∈ call.blocks, u.admits g) (hmem : f ∈ call.blocks)

include hcall hmem

theorem refuses_conditional {skip : Opcode} (hskip : skip.isJump = true) :
    Refuses c u labels (Emit.conditional skip call) := by
  refine .next (h.onlyParam call) fun condition => h.refuses_orFail fun main hmain => ?_
  refine h.refuses_frameWithLabels (elseLabels call.inverse)
    (.next (h.expression condition) fun _ => ?_)
  refine h.refuses_op rfl
    (h.refuses_op rfl (.next (h.jump hskip "ELSE" (by simp [elseLabels])) fun _ => ?_))
  rcases main_or_inverse hmem hmain with rfl | hinverse
  · exact .first (h.refuses_invokeStaticBlock heager hf 0)
  · refine .next (h.invokeStaticBlock
      (hcall main (by simp [BlockCall.blocks, hmain])) 0) fun _ => ?_
    rw [hinverse]
    exact h.refuses_elseBranch heager hf

theorem refuses_withBlock : Refuses c u labels (Emit.withBlock call) := by
  refine .next (h.onlyParam call) fun value => h.refuses_orFail fun main hmain => ?_
  refine h.refuses_frameWithLabels (elseLabels call.inverse)
    (.next (h.expression value) fun _ => ?_)
  refine h.refuses_op rfl (h.refuses_op rfl (h.refuses_op rfl ?_))
  refine .next (h.jump rfl "ELSE" (by simp [elseLabels])) fun _ => ?_
  rcases main_or_inverse hmem hmain with rfl | hinverse
  · exact .first (h.refuses_invokeStaticBlock heager hf 1)
  · refine .next (h.invokeStaticBlock
      (hcall main (by simp [BlockCall.blocks, hmain])) 1) fun _ => ?_
    rw [hinverse]
    exact h.refuses_elseBranch heager hf

theorem refuses_iteration (list : Expression) {main : Fragment}
    (hmain : call.template = some main) :
    Refuses c u (("ITER" :: "BODY" :: "BREAK" :: elseLabels call.inverse ++ ["END"]) :: labels)
      (Emit.iteration list main call.inverse) := by
  refine .next (h.expression list) fun _ => h.refuses_op rfl (h.refuses_op rfl ?_)
  refine .next (h.jump rfl "ELSE" (by simp [elseLabels])) fun _ => h.refuses_op rfl ?_
  refine .next (h.jump rfl "ITER" (by simp)) fun _ => h.refuses_op rfl ?_
  refine .next (h.jump rfl "BODY" (by simp)) fun _ => .next (h.label "ITER") fun _ => ?_
  refine .next (h.jump rfl "BREAK" (by simp)) fun _ => .next (h.label "BODY") fun _ => ?_
  rcases main_or_inverse hmem hmain with rfl | hinverse
  · exact .first (h.refuses_invokeStaticBlock heager hf 2)
  · refine .next (h.invokeStaticBlock
      (hcall main (by simp [BlockCall.blocks, hmain])) 2) fun _ => ?_
    refine h.refuses_op rfl (.next h.exitFrame fun _ => .next (h.label "BREAK") fun _ => ?_)
    refine h.refuses_op rfl (h.refuses_op rfl ?_)
    rw [hinverse]
    exact h.refuses_elseBranch heager hf

theorem refuses_eachBlock : Refuses c u labels (Emit.eachBlock call) := by
  rw [Emit.eachBlock_eq]
  refine .next (h.onlyParam call) fun list => h.refuses_orFail fun main hmain => ?_
  refine h.refuses_frameWithLabels ("ITER" :: "BODY" :: "BREAK" :: elseLabels call.inverse) ?_
  split
  · exact .next (h.expression _) fun _ => h.refuses_iteration heager hf call hcall hmem list hmain
  · exact .next (h.reference _) fun _ => h.refuses_iteration heager hf call hcall hmem list hmain

variable {symbol : String} (hrole : SymbolRole.ofSymbol symbol = .block symbol)

include hrole

omit hcall hmem in
theorem refuses_componentForm {name : String} {params : Option (List Expression)}
    {invocation : List Expression → Invocation}
    (hi : ∀ rest, ∀ g ∈ (invocation rest).passed, u.admits g)
    (hblock : ∀ rest, (invocation rest).blockOf? symbol = some (some f))
    (htakes : ∀ definition rest handle, params = some (definition :: rest) →
      definition.component? c.lookup c.layout.referer = some handle →
        c.lookup.passes handle symbol = true) :
    Refuses c u labels (Emit.componentForm name params invocation) := by
  unfold Emit.componentForm
  split
  · rename_i definition rest
    intro b hb
    rw [Emit.bind_apply, Emit.literalComponent?_apply]
    dsimp only
    cases hfound : definition.component? c.lookup c.layout.referer with
    | some handle =>
      exact h.refuses_component heager hf _ (hi rest) hrole (hblock rest)
        (htakes _ rest handle rfl hfound) b hb
    | none =>
      exact h.refuses_dynamicComponent heager hf definition (hi rest)
        (Invocation.mem_passed_of_blockOf? (hblock rest) rfl) b hb
  · exact fun b hb => h.fails _ hb.holds

theorem refuses_blockCall
    (hblock : ∀ rest, (call.invocation rest).blockOf? symbol = some (some f))
    (htakes : c.lookup.takes c.layout.referer call.name call.params symbol = true) :
    Refuses c u labels (Emit.blockCall call) := by
  have hinvocation (rest : List Expression) : ∀ g ∈ (call.invocation rest).passed, u.admits g :=
    fun g hg => hcall g (by simpa [Invocation.passed, BlockCall.invocation,
      BlockCall.blocks] using hg)
  unfold Lookup.takes at htakes
  unfold Emit.blockCall
  split
  · exact h.refuses_conditional heager hf call hcall hmem rfl
  · exact h.refuses_conditional heager hf call hcall hmem rfl
  · exact h.refuses_withBlock heager hf call hcall hmem
  · exact h.refuses_eachBlock heager hf call hcall hmem
  · rename_i hname
    rw [hname] at htakes
    refine h.refuses_componentForm heager hf hrole hinvocation hblock
      fun definition rest handle hp hd => ?_
    rw [hp] at htakes
    simpa [hd] using htakes
  · rename_i hif hunless hwith heach hcomponent
    have hforms : call.name ∉ ["if", "unless", "with", "each"] := by
      simp only [List.mem_cons, List.not_mem_nil, or_false]
      rintro (heq | heq | heq | heq)
      exacts [hif heq, hunless heq, hwith heq, heach heq]
    rw [if_neg hforms, if_neg hcomponent] at htakes
    show Refuses c u labels (Emit.orFail (c.lookup.component? call.name c.layout.referer)
      (.unknownBlock call.name) >>= fun handle => Emit.component handle _)
    refine h.refuses_orFail fun handle hfound => ?_
    rw [hfound] at htakes
    exact h.refuses_component heager hf _ (hinvocation _) hrole (hblock _) htakes

end

end

end BuildContext.Maintains

/-! ### Statements -/

theorem Template.mem_bodies {t : Template} {index : Option Nat} {ss : List Statement} :
    ss ∈ t.bodies index ↔ ∃ i b, index = some i ∧ t.blocks[i]? = some b ∧ b.statements = ss := by
  cases index with
  | none => simp [Template.bodies]
  | some i => cases hb : t.blocks[i]? <;> simp [Template.bodies, hb, eq_comm]

namespace BuildContext.Tracks

open Emit (Refuses)
open Upkeep (admits_made)

variable {hopeless : Fragment → Prop}

/-- A hopeless fragment that is waited for gets no handle. -/
theorem withholds (h : c.Tracks hopeless) {n k : Nat} {f : Fragment} (hid : f.id = .nested k)
    (hf : hopeless f) : (Upkeep.awaiting hopeless (· = .nested k) n).Withholds c f := by
  rintro labels ⟨program, code, scopes⟩ hb
  have hawaits : Program.Awaits (· = .nested k) n program := hb.holds
  have hbelow : f.Below program.fresh := by
    intro j hj
    rw [FragmentId.nested.inj (hj.symm.trans hid)]
    exact Nat.lt_of_lt_of_le (hawaits.made k rfl) hawaits.numbered
  have hrefuses := h.refuses f program hb.closed hawaits.tracked hbelow
    (hid ▸ hawaits.waiting _ rfl) hf
  obtain ⟨e, he⟩ := eq_error_of_hasResult hrefuses
  show EndsIn _ _ (Emit.onProgram (c.link f) c ⟨program, code, scopes⟩)
  unfold Emit.onProgram
  dsimp only
  rw [he]
  trivial

/-- A fragment that was just made and is waited for may be linked if it is hopeless. -/
theorem admits_awaited {m k : Nat} {f : Fragment} (hid : f.id = .nested k) (hlt : k < m)
    (hf : hopeless f) : (Upkeep.awaiting hopeless (· = .nested k) m).admits f :=
  ⟨fun _ hj => FragmentId.nested.inj (hj.symm.trans hid) ▸ hlt, fun _ => hf⟩

/-- A fragment that was made before the one that is waited for may be linked. -/
theorem admits_before {m k : Nat} {f : Fragment} (hf : f.Below m) (hle : m ≤ k) :
    (Upkeep.awaiting hopeless (· = .nested k) (k + 1)).admits f :=
  ⟨hf.mono (Nat.le_succ_of_le hle), fun hid => absurd (hf k hid) (Nat.not_lt_of_le hle)⟩

/-- A numbered fragment that is waited for is no whole template. -/
theorem spares_numbered (h : c.Tracks hopeless) (k : Nat) :
    c.lookup.Spares hopeless (· = .nested k) :=
  h.coherent.spares fun _ hid => ⟨k, hid⟩

theorem spares_none (h : c.Tracks hopeless) : c.lookup.Spares hopeless fun _ => False :=
  h.coherent.spares fun _ => False.elim

/-- A hopeless block is made, and from then on waited for. -/
theorem refuses_block {n : Nat} {index : Option Nat}
    {inner : List Statement} (hinner : inner ∈ c.layout.template.bodies index)
    (hopelessInner : ∀ f : Fragment, f.layout = c.layout → f.statements = inner → hopeless f)
    (next : Option Fragment → Emit β)
    (hnext : ∀ k f, n ≤ k → f.id = .nested k → hopeless f →
      Refuses c (.awaiting hopeless (· = .nested k) (k + 1)) labels (next (some f))) :
    Refuses c (.awaiting hopeless (fun _ => False) n) labels
      (Emit.optionalBlock index >>= next) := by
  obtain ⟨i, b, rfl, hb, rfl⟩ := Template.mem_bodies.mp hinner
  refine Emit.optionalBlock_awaits (fun k id => id = .nested k) (fun _ _ => trivial)
    (fun _ _ => .inr) nofun fun i' b' k hi' hb' hk => ?_
  obtain rfl := Option.some.inj hi'
  obtain rfl := Option.some.inj (hb.symm.trans hb')
  exact hnext k _ hk rfl (hopelessInner _ rfl rfl)

mutual

theorem refuses_statement {n : Nat} {labels : List (List String)} (h : c.Tracks hopeless)
    (mode : AttrMode) (s : Statement) {inner : List Statement}
    (hinner : inner ∈ s.embedded c.lookup c.layout)
    (hopelessInner : ∀ f : Fragment, f.layout = c.layout → f.statements = inner → hopeless f) :
    Refuses c (.awaiting hopeless (fun _ => False) n) labels (Emit.statement mode s) := by
  cases s with
  | block name params hash template inverse =>
    rcases List.mem_append.mp hinner with hinner | hinner
    · obtain ⟨htakes, hinner⟩ := List.mem_ite_nil_right.mp hinner
      refine refuses_block hinner hopelessInner _ fun k main hk hid hmain => ?_
      refine Emit.optionalBlock_made (fun _ _ => trivial) fun m other hm hother => ?_
      refine (h.maintains (h.spares_numbered k)).refuses_blockCall h.eager (h.withholds hid hmain)
        { name, params, hash, template := some main, inverse := other } (fun g hg => ?_)
        (List.mem_append_left _ (Option.mem_toList.mpr rfl)) SymbolRole.ofSymbol_default
        (fun _ => rfl) htakes
      rcases List.mem_append.mp hg with hg | hg
      · obtain rfl := Option.some.inj (Option.mem_toList.mp hg)
        exact admits_awaited hid hm hmain
      · exact admits_made (fun _ hj => FragmentId.nested.inj hj ▸ Nat.lt_succ_self k) hother g
          (Option.mem_toList.mp hg)
    · obtain ⟨htakes, hinner⟩ := List.mem_ite_nil_right.mp hinner
      refine Emit.optionalBlock_made (fun _ _ => trivial) fun m main hm hmain => ?_
      refine refuses_block hinner hopelessInner _ fun k other hk hid hother => ?_
      refine (h.maintains (h.spares_numbered k)).refuses_blockCall h.eager (h.withholds hid hother)
        { name, params, hash, template := main, inverse := some other } (fun g hg => ?_)
        (List.mem_append_right _ (Option.mem_toList.mpr rfl)) SymbolRole.ofSymbol_inverse
        (fun _ => rfl) htakes
      rcases List.mem_append.mp hg with hg | hg
      · exact admits_before (hmain g (Option.mem_toList.mp hg)).1 hk
      · obtain rfl := Option.some.inj (Option.mem_toList.mp hg)
        exact admits_awaited hid (Nat.lt_succ_self k) hother
  | component tag attrs hash body =>
    unfold Statement.embedded at hinner
    cases hfound : c.lookup.component? tag c.layout.referer with
    | some handle =>
      rw [hfound] at hinner
      rcases List.mem_append.mp hinner with hinner | hinner
      · obtain ⟨hpasses, hinner⟩ := List.mem_ite_nil_right.mp hinner
        refine refuses_block hinner hopelessInner _ fun k main hk hid hmain => .resolve ?_
        rw [hfound]
        refine Emit.newFragment_awaits _ (fun g => Emit.component handle
          { attrs := some g, hash, block := some main })
          (fun _ id => id = .nested k) (fun _ _ => .inl) fun m hm => ?_
        refine (h.maintains (h.spares_numbered k)).refuses_component h.eager (h.withholds hid hmain)
          _ (fun g hg => ?_) SymbolRole.ofSymbol_default rfl hpasses
        simp only [Invocation.passed, List.mem_append, Option.mem_toList] at hg
        rcases hg with (hg | hg) | hg
        · obtain rfl := Option.some.inj hg
          exact admits_awaited hid (Nat.le_succ_of_le hm) hmain
        · cases hg
        · obtain rfl := Option.some.inj hg
          refine ⟨fun j hj => FragmentId.nested.inj hj ▸ Nat.lt_succ_self j, fun hmk => ?_⟩
          obtain rfl := FragmentId.nested.inj hmk
          omega
      · obtain ⟨hpasses, hinner⟩ := List.mem_ite_nil_right.mp hinner
        obtain rfl := List.mem_singleton.mp hinner
        refine Emit.optionalBlock_made (fun _ _ => trivial) fun m block hm hblock => .resolve ?_
        rw [hfound]
        refine Emit.newFragment_awaits _
          (fun g => Emit.component handle { attrs := some g, hash, block })
          (fun k id => id = .nested k) (fun _ _ => .inr) fun k hk => ?_
        have hattrs : hopeless (.ofAttrs (.nested k) c.layout inner) := hopelessInner _ rfl rfl
        refine (h.maintains (h.spares_numbered k)).refuses_component h.eager
          (h.withholds rfl hattrs) _ (fun g hg => ?_) SymbolRole.ofSymbol_attrs rfl hpasses
        simp only [Invocation.passed, List.mem_append, Option.mem_toList] at hg
        rcases hg with (hg | hg) | hg
        · exact admits_before (hblock g hg).1 hk
        · cases hg
        · obtain rfl := Option.some.inj hg
          exact admits_awaited rfl (Nat.lt_succ_self k) hattrs
    | none =>
      rw [hfound] at hinner
      rcases List.mem_append.mp hinner with hinner | hinner
      · refine Emit.optionalBlock_made (fun _ _ => trivial) fun m block hm hblock => .resolve ?_
        rw [hfound]
        exact Refuses.next ((h.maintains h.spares_none).onString tag rfl) fun _ =>
          .first (h.refuses_statements .element attrs hinner hopelessInner)
      · refine refuses_block hinner hopelessInner _ fun k main hk hid hmain => .resolve ?_
        rw [hfound]
        have hkeeps := h.maintains (n := k + 1) (h.spares_numbered k)
        refine Refuses.next (hkeeps.onString tag rfl) fun _ =>
          .next (h.statements (h.spares_numbered k) ?_ .element attrs)
          fun _ => hkeeps.refuses_op rfl (.first ?_)
        · exact fun _ hj => FragmentId.nested.inj hj ▸ Nat.lt_succ_self k
        · exact hkeeps.refuses_invokeStaticBlock h.eager (h.withholds hid hmain) 0
  | _ => cases hinner
termination_by structural s

theorem refuses_statements {n : Nat} {labels : List (List String)} (h : c.Tracks hopeless)
    (mode : AttrMode) (ss : List Statement) {inner : List Statement}
    (hinner : inner ∈ Statement.allEmbedded c.lookup c.layout ss)
    (hopelessInner : ∀ f : Fragment, f.layout = c.layout → f.statements = inner → hopeless f) :
    Refuses c (.awaiting hopeless (fun _ => False) n) labels (Emit.statements mode ss) := by
  cases ss with
  | nil => cases hinner
  | cons s rest =>
    rcases List.mem_append.mp hinner with hinner | hinner
    · exact .first (h.refuses_statement mode s hinner hopelessInner)
    · exact .next (h.statement h.spares_none nofun mode s) fun _ =>
        h.refuses_statements mode rest hinner hopelessInner
termination_by structural ss

end

end BuildContext.Tracks

end

/-! ### Linking -/

section

variable {lookup : Lookup} {p q : Program}

/-- While an eager fragment is linked nothing is linked that is waited for, and a hopeless one is
not linked at all, whatever the fuel. -/
theorem Link.tracks (hlookup : lookup.Coherent) (fuel : Nat) (layout : Layout) :
    (⟨lookup, .eager, layout, Link.fragment lookup .eager fuel⟩ : BuildContext).Tracks
      lookup.Hopeless := by
  induction fuel generalizing layout with
  | zero =>
    refine ⟨rfl, hlookup, fun waits n f p _ hclosed hp _ _ => ?_, fun f p _ _ _ hnone _ => ?_⟩
    · show EndsIn _ _ (Link.fragment lookup .eager 0 f p)
      have hends := Link.fragment_ends lookup .eager 0 f p
      generalize Link.fragment lookup .eager 0 f p = r at hends
      cases hends with
      | known => exact ⟨hp, hclosed⟩
      | exhausted => trivial
    · show hasResult (Link.fragment lookup .eager 0 f p) = false
      have hends := Link.fragment_ends lookup .eager 0 f p
      generalize Link.fragment lookup .eager 0 f p = r at hends
      cases hends with
      | known hsome => cases hnone.symm.trans hsome
      | exhausted => rfl
  | succ fuel ih =>
    refine ⟨rfl, hlookup, fun waits n f p hspares hclosed hp hbelow hwaits => ?_,
      fun f p hclosed hp hbelow hnone hf => ?_⟩
    · show EndsIn _ _ (Link.fragment lookup .eager (fuel + 1) f p)
      have hends := Link.fragment_ends lookup .eager (fuel + 1) f p
      generalize Link.fragment lookup .eager (fuel + 1) f p = r at hends
      cases hends with
      | known => exact ⟨hp, hclosed⟩
      | abandoned => trivial
      | @written _ b _ hbody =>
        have htracks : (f.context lookup .eager fuel).Tracks lookup.Hopeless := ih f.layout
        have hkeeps : Emit.Keeps _ (.awaiting lookup.Hopeless waits n) [] [] _ :=
          htracks.statements hspares hp.made f.attrMode f.statements
        have hend := hkeeps { program := p.reserve f.id }
          ⟨hp.reserve hbelow hwaits, rfl, hclosed, trivial⟩
        rw [hbody] at hend
        have hawaits : Program.Awaits waits n b.program := hend.holds
        exact ⟨⟨hawaits.numbered, hawaits.made, hawaits.waiting, hawaits.unlinked⟩, hend.closed⟩
    · show hasResult (Link.fragment lookup .eager (fuel + 1) f p) = false
      have hends := Link.fragment_ends lookup .eager (fuel + 1) f p
      generalize Link.fragment lookup .eager (fuel + 1) f p = r at hends
      cases hends with
      | known hsome => cases hnone.symm.trans hsome
      | abandoned => rfl
      | @written _ b _ hbody =>
        have htracks : (f.context lookup .eager fuel).Tracks lookup.Hopeless := ih f.layout
        obtain ⟨inner, hinner, hendless⟩ := hf.exists_nested
        have hrefuses : Emit.Refuses _ (.awaiting lookup.Hopeless (fun _ => False) p.fresh) [] _ :=
          htracks.refuses_statements f.attrMode f.statements hinner hendless
        have hstart := hp.awaits.reserve hbelow id
        have hend := hrefuses { program := p.reserve f.id } ⟨hstart, rfl, hclosed, trivial⟩
        rw [hbody] at hend
        exact hend.elim

/-- A template that is hopeless gets no handle, whatever is linked. -/
theorem Link.spares_hopeless (hlookup : lookup.Coherent) {fuel : Nat} {f g : Fragment}
    {handle : UInt32} (hclosed : p.constants.Closed) (hp : p.Tracked) (hbelow : f.Below p.fresh)
    (h : Link.fragment lookup .eager fuel f p = .ok handle q) (hid : ∀ k, g.id ≠ .nested k)
    (hwhole : lookup.Spares lookup.Hopeless (· = g.id)) (hf : f.id = g.id → lookup.Hopeless f)
    (hnone : p.linked? g.id = none) : q.linked? g.id = none := by
  have htracks := Link.tracks hlookup fuel f.layout
  by_cases hfg : f.id = g.id
  · have hrefuses := htracks.refuses f p hclosed hp hbelow (hfg ▸ hnone) (hf hfg)
    dsimp only at hrefuses
    rw [h] at hrefuses
    cases hrefuses
  · have hawaits : p.Awaits (· = g.id) p.fresh :=
      ⟨Nat.le_refl _, fun k hk => absurd hk.symm (hid k), fun id hid => hid ▸ hnone, hp⟩
    have hlinks := htracks.links _ _ f p hwhole hclosed hawaits hbelow hfg
    dsimp only at hlinks
    rw [h] at hlinks
    exact hlinks.1.waiting _ rfl

/-- Some statements that are compiled with a fragment are nested in themselves. -/
def Lookup.Cyclic (l : Lookup) (f : Fragment) : Prop :=
  ∃ ss, Relation.ReflTransGen (l.Nests f.layout) f.statements ss ∧
    Relation.TransGen (l.Nests f.layout) ss ss

theorem Lookup.Cyclic.hopeless {f : Fragment} (h : lookup.Cyclic f) : lookup.Hopeless f := by
  obtain ⟨ss, hreach, hcycle⟩ := h
  intro hacc
  have hss : Acc (fun inner outer => lookup.Nests f.layout outer inner) ss := by
    clear hcycle
    induction hreach with
    | refl => exact hacc
    | tail _ hstep ih => exact ih.inv hstep
  have hwalk : ∀ outer, Acc (fun inner outer => lookup.Nests f.layout outer inner) outer →
      ¬Relation.TransGen (lookup.Nests f.layout) outer outer := by
    intro outer houter
    induction houter with
    | intro outer _ ih =>
      intro hcycle
      obtain ⟨next, hstep, hback⟩ := Relation.TransGen.head'_iff.mp hcycle
      exact ih next hstep (Relation.TransGen.tail' hback hstep)
  exact hwalk ss hss hcycle

/-- A template that is compiled by itself has no number. -/
theorem Lookup.Offers.below (hlookup : lookup.Coherent) {entry f : Fragment}
    (hentry : ∀ k, entry.id ≠ .nested k) (h : lookup.Offers entry f) (n : Nat) : f.Below n := by
  intro k hk
  cases h with
  | entry => exact absurd hk (hentry k)
  | layout h => cases (hlookup.layout _ f h).1.symm.trans hk
  | part h => cases (hlookup.part _ f h).1.symm.trans hk

/-- Eager compilation out of a fresh program gives handles to what was made, and to nothing else. -/
theorem CompileOptions.Builds.tracked {options : CompileOptions}
    (heager : options.strategy = .eager) (hlookup : options.lookup.Coherent) {entry : Fragment}
    (hentry : ∀ k, entry.id ≠ .nested k) (h : options.Builds entry p) : p.Tracked := by
  induction h with
  | fresh => exact Program.tracked_new
  | @compile p q f handle hbuilds hf hcompile ih =>
    unfold CompileOptions.compile at hcompile
    rw [heager] at hcompile
    have hbelow := hf.below hlookup hentry p.fresh
    have hlinks := (Link.tracks hlookup (options.nesting + f.layout.template.fragmentCount)
      f.layout).links _ _ f p (hlookup.spares fun _ => False.elim) hbuilds.closed ih.awaits hbelow
      id
    dsimp only at hlinks
    rw [hcompile] at hlinks
    exact hlinks.1.tracked

end

/-- Eager compilation of a template in which a block, or attributes, are nested in themselves by way
of what is compiled with them never comes to a handle: however much fuel it is given, it fails or
asks for more.  Lazily the same template is compiled block by block, and each time to an end. -/
theorem Registry.cycle_gets_no_handle (r : Registry) {layout : Layout} {f : Fragment} {p : Program}
    (hp : (r.options .eager).Builds (.ofLayout .entry layout) p)
    (hf : r.lookup.Offers (.ofLayout .entry layout) f) (hnone : p.linked? f.id = none)
    (hcyclic : r.lookup.Cyclic f) :
    (∀ fuel handle q, Link.fragment r.lookup .eager fuel f p ≠ .ok handle q) ∧
      ∀ g q, (r.options .lazy).compile g p ≠ .error .outOfFuel q := by
  have hentry (k : Nat) : (Fragment.ofLayout .entry layout).id ≠ .nested k := nofun
  constructor
  · intro fuel handle q hlinked
    have htracked : p.Tracked := hp.tracked rfl r.coherent hentry
    have hbelow := hf.below r.coherent hentry p.fresh
    have hrefuses := (Link.tracks r.coherent fuel f.layout).refuses f p hp.closed
      htracked hbelow hnone hcyclic.hopeless
    dsimp only at hrefuses
    rw [hlinked] at hrefuses
    cases hrefuses
  · intro g q
    exact r.compile_settles .lazy hp.closed nofun q

/-- A template whose only block is the branch of a conditional in it, and
of one in the block itself. -/
def Template.regress : Template :=
  let again : Statement := .block "if" (some [.value (.bool true)]) none (some 0) none
  { statements := [again], symbols := [], hasEval := false, blocks := [⟨[again], []⟩] }

/-- The step asks for more fuel. -/
def Emit.RunsOut {α : Type} (c : BuildContext) (b : Builder) (x : Emit α) : Prop :=
  ∃ b', x c b = .error .outOfFuel b'

namespace Emit.RunsOut

variable {α β : Type} {c : BuildContext} {b b' : Builder} {x : Emit α} {f : α → Emit β}

theorem first (h : RunsOut c b x) : RunsOut c b (x >>= f) := by
  obtain ⟨b', hx⟩ := h
  refine ⟨b', ?_⟩
  rw [bind_apply, hx]

theorem step {a : α} (hx : x c b = .ok a b') (h : RunsOut c b' (f a)) : RunsOut c b (x >>= f) := by
  obtain ⟨b'', hf⟩ := h
  refine ⟨b'', ?_⟩
  rw [bind_apply, hx]
  exact hf

theorem linked {g : Fragment} {q : Program} (hlink : c.link g b.program = .error .outOfFuel q) :
    RunsOut c b (Emit.linked g) := by
  refine ⟨⟨q, b.code, b.scopes⟩, ?_⟩
  show onProgram (c.link g) c b = _
  unfold onProgram
  dsimp only
  rw [hlink]

theorem pushBlock {g : Fragment} {q : Program} (heager : c.strategy = .eager)
    (hlink : c.link g b.program = .error .outOfFuel q) : RunsOut c b (Emit.pushBlock (some g)) := by
  refine step (show (MonadReader.read : Emit BuildContext) c b = .ok c b from rfl) ?_
  rw [heager]
  exact first (linked hlink)

end Emit.RunsOut

/-- The conditional makes a fragment of the block and links it before anything can fail. -/
theorem Template.regress_emits {lookup : Lookup} {referer : String} {link : Fragment → Link UInt32}
    {p : Program} (mode : AttrMode)
    (hlink : ∀ f : Fragment, f.id = .nested p.fresh → f.layout = ⟨regress, referer⟩ →
      f.statements = regress.statements →
      ∃ q, link f { p with fresh := p.fresh + 1 } = .error .outOfFuel q) :
    Emit.RunsOut ⟨lookup, .eager, ⟨regress, referer⟩, link⟩ { program := p }
      (Emit.statements mode regress.statements) := by
  obtain ⟨heap, constants, linked, fresh⟩ := p
  obtain ⟨q, hq⟩ :=
    hlink (.ofBlock (.nested fresh) ⟨regress, referer⟩ ⟨regress.statements, []⟩) rfl rfl rfl
  refine .first (.step rfl (.step rfl ?_))
  show Emit.RunsOut _ _ (Emit.conditional .jumpUnless _)
  refine .step rfl (.step rfl (.step rfl (.step rfl (.step rfl ?_))))
  refine .first (.step rfl (.step rfl (.step rfl (.step rfl ?_))))
  exact .first (.step rfl (.first (.pushBlock rfl hq)))

/-- Whatever the fuel, it is not enough. -/
theorem Template.regress_runs_out {lookup : Lookup} {referer : String} (fuel : Nat) (f : Fragment)
    (p : Program) (hlayout : f.layout = ⟨regress, referer⟩)
    (hstatements : f.statements = regress.statements) (hp : p.Tracked) (hbelow : f.Below p.fresh)
    (hnone : p.linked? f.id = none) :
    ∃ q, Link.fragment lookup .eager fuel f p = .error .outOfFuel q := by
  induction fuel generalizing f p with
  | zero =>
    have hends := Link.fragment_ends lookup .eager 0 f p
    generalize Link.fragment lookup .eager 0 f p = r at hends
    cases hends with
    | known hsome => cases hnone.symm.trans hsome
    | exhausted => exact ⟨p, rfl⟩
  | succ fuel ih =>
    have hreserved : (p.reserve f.id).Tracked :=
      (hp.awaits.reserve hbelow id).tracked
    obtain ⟨b, hb⟩ : Emit.RunsOut (f.context lookup .eager fuel) { program := p.reserve f.id }
        (Emit.statements f.attrMode f.statements) := by
      unfold Fragment.context
      rw [hlayout, hstatements]
      refine regress_emits f.attrMode fun g hid hlayout hstatements => ?_
      refine ih g _ hlayout hstatements (fun k hk => hreserved k (Nat.le_of_succ_le hk))
        (fun k hk => ?_) ?_
      · exact FragmentId.nested.inj (hid.symm.trans hk) ▸ Nat.lt_succ_self _
      · rw [hid]
        exact hreserved _ (Nat.le_refl _)
    exact ⟨_, Link.fragment_of_error hnone hb⟩

/-- The cycle gets no handle, since there is never enough fuel for it; lazily
the template is compiled. -/
theorem regress_gets_no_handle :
    let lookup := ({} : Registry).lookup
    let entry := Fragment.ofLayout .entry ⟨Template.regress, "main"⟩
    lookup.Cyclic entry ∧
      (∀ fuel handle q, Link.fragment lookup .eager fuel entry {} ≠ .ok handle q) ∧
      (∀ fuel, ∃ q, Link.fragment lookup .eager fuel entry {} = .error .outOfFuel q) ∧
      hasResult ((({} : Registry).options .lazy).compile entry {}) = true := by
  have hnests : ({} : Registry).lookup.Nests ⟨Template.regress, "main"⟩ Template.regress.statements
      Template.regress.statements := List.mem_singleton.mpr rfl
  have hcyclic : ({} : Registry).lookup.Cyclic (.ofLayout .entry ⟨Template.regress, "main"⟩) :=
    ⟨Template.regress.statements, .refl, .single hnests⟩
  refine ⟨hcyclic, ?_, fun fuel => ?_, by decide +kernel⟩
  · exact (Registry.cycle_gets_no_handle {} .fresh .entry rfl hcyclic).1
  · exact Template.regress_runs_out fuel _ {} rfl rfl Program.tracked_new nofun rfl

end TemplateMachine
