import TemplateMachine.Proofs.Emission.Once

/-! Numbered fragments before they are linked.  A fragment gets a number when it is made and a
handle when it is linked.  Between the two other fragments may be linked, but this one has no
handle, for the numbers of the others are different ones.  What has no number may be waited for as
well, if it is known that linking it must fail. -/

namespace TemplateMachine

/-- At least `n` fragments were numbered.  Those that are waited for have no handle, and neither has
what was not numbered. -/
structure Program.Awaits (waits : FragmentId → Prop) (n : Nat) (p : Program) : Prop where
  numbered : n ≤ p.fresh
  made : ∀ k, waits (.nested k) → k < n
  waiting : ∀ id, waits id → p.linked? id = none
  unlinked : ∀ k, p.fresh ≤ k → p.linked? (.nested k) = none

/-- Every numbered fragment that has a handle was made before. -/
def Program.Tracked (p : Program) : Prop := ∀ k, p.fresh ≤ k → p.linked? (.nested k) = none

/-- A fragment was numbered below `n`, if it has a number at all. -/
def Fragment.Below (n : Nat) (f : Fragment) : Prop := ∀ k, f.id = .nested k → k < n

section

variable {waits waits' : FragmentId → Prop} {m n : Nat} {p q : Program}

theorem Program.Tracked.awaits (h : p.Tracked) : p.Awaits (fun _ => False) p.fresh :=
  ⟨Nat.le_refl _, nofun, nofun, h⟩

theorem Program.tracked_new : Program.Tracked {} := fun _ _ => rfl

theorem Program.Awaits.tracked (h : p.Awaits waits n) : p.Tracked := h.unlinked

theorem Program.Awaits.mono (h : p.Awaits waits n) (hle : m ≤ n)
    (hmade : ∀ k, waits' (.nested k) → k < m) (hwaits : ∀ id, waits' id → waits id) :
    p.Awaits waits' m :=
  ⟨Nat.le_trans hle h.numbered, hmade, fun id hid => h.waiting id (hwaits id hid), h.unlinked⟩

theorem Fragment.Below.mono {f : Fragment} (h : f.Below m) (hle : m ≤ n) : f.Below n :=
  fun k hk => Nat.lt_of_lt_of_le (h k hk) hle

/-- A handle that is reserved for a fragment which nothing waits for. -/
theorem Program.Awaits.reserve (h : p.Awaits waits n) {f : Fragment} (hbelow : f.Below n)
    (hwaits : ¬waits f.id) : (p.reserve f.id).Awaits waits n where
  numbered := h.numbered
  made := h.made
  waiting id hid := by
    rw [Linkage.linked?_reserve, if_neg fun heq : id = f.id => hwaits (heq ▸ hid)]
    exact h.waiting id hid
  unlinked k hk := by
    have hle : n ≤ k := Nat.le_trans h.numbered hk
    rw [Linkage.linked?_reserve, if_neg fun heq => Nat.not_lt_of_le hle (hbelow k heq.symm)]
    exact h.unlinked k hk

end

/-! ### Emission -/

/-- The condition that nothing is linked which is waited for, where hopeless fragments may be tried:
these get no handle. -/
def Upkeep.awaiting (hopeless : Fragment → Prop) (waits : FragmentId → Prop) (n : Nat) : Upkeep :=
  .ofProgram (fun f => f.Below n ∧ (waits f.id → hopeless f))
    (Program.Awaits waits n) fun _ _ => True

/-- The fragment is a layout or a partial. -/
def Lookup.Whole (l : Lookup) (f : Fragment) : Prop :=
  (∃ handle, l.layout? handle = some f) ∨ ∃ handle, l.partial? handle = some f

theorem Lookup.Listed.mem {l : Lookup} {wholes : List Fragment} (h : l.Listed wholes) {f : Fragment}
    (hf : l.Whole f) : f ∈ wholes := by
  rcases hf with ⟨handle, hf⟩ | ⟨handle, hf⟩
  · exact h.layouts handle f hf
  · exact h.partials handle f hf

/-- A layout or a partial that is waited for is hopeless. -/
def Lookup.Spares (l : Lookup) (hopeless : Fragment → Prop) (waits : FragmentId → Prop) : Prop :=
  ∀ f, l.Whole f → waits f.id → hopeless f

theorem Lookup.Whole.below {l : Lookup} (hlookup : l.Coherent) {f : Fragment}
    (h : l.Whole f) (n : Nat) : f.Below n := by
  intro k hk
  rcases h with ⟨handle, h⟩ | ⟨handle, h⟩
  · cases (hlookup.layout handle f h).1.symm.trans hk
  · cases (hlookup.part handle f h).1.symm.trans hk

/-- What has a number is neither a layout nor a partial. -/
theorem Lookup.Coherent.spares {l : Lookup} (hlookup : l.Coherent) {hopeless : Fragment → Prop}
    {waits : FragmentId → Prop} (h : ∀ id, waits id → ∃ k, id = .nested k) :
    l.Spares hopeless waits := by
  intro f hf hwaits
  obtain ⟨k, hk⟩ := h f.id hwaits
  exact absurd (hf.below hlookup 0 k hk) (Nat.not_lt_zero k)

/-- The eager context links no fragment but the one that it is asked for and those that are made on
the way, and hopeless ones get no handle. -/
structure BuildContext.Tracks (c : BuildContext) (hopeless : Fragment → Prop) : Prop where
  eager : c.strategy = .eager
  coherent : c.lookup.Coherent
  links : ∀ waits n f p, c.lookup.Spares hopeless waits → p.constants.Closed → p.Awaits waits n →
    f.Below n → ¬waits f.id →
    EndsIn (fun _ _ => True) (fun _ q => q.Awaits waits n ∧ q.constants.Closed) (c.link f p)
  refuses : ∀ f p, p.constants.Closed → p.Tracked → f.Below p.fresh → p.linked? f.id = none →
    hopeless f → hasResult (c.link f p) = false

section

variable {α β : Type} {c : BuildContext} {hopeless : Fragment → Prop} {waits : FragmentId → Prop}
variable {labels after : List (List String)} {n : Nat}

theorem BuildContext.Tracks.maintains (h : c.Tracks hopeless)
    (hspares : c.lookup.Spares hopeless waits) :
    c.Maintains (.awaiting hopeless waits n) := by
  have hwhole {f : Fragment} (hf : c.lookup.Whole f) : f.Below n ∧ (waits f.id → hopeless f) :=
    ⟨hf.below h.coherent n, hspares f hf⟩
  refine maintains_program (fun handle f hf => hwhole (.inl ⟨handle, hf⟩))
    (fun handle f hf => hwhole (.inr ⟨handle, hf⟩)) (fun _ _ _ => trivial)
    (fun p pools _ hp => ⟨hp.numbered, hp.made, hp.waiting, hp.unlinked⟩)
    (fun p hp => ⟨Nat.le_succ_of_le hp.numbered, hp.made, hp.waiting,
      fun k hk => hp.unlinked k (Nat.le_of_succ_le hk)⟩) fun _ f p hf hclosed hp => ?_
  by_cases hwaits : waits f.id
  · have hrefuses := h.refuses f p hclosed hp.tracked (hf.1.mono hp.numbered) (hp.waiting _ hwaits)
      (hf.2 hwaits)
    obtain ⟨e, he⟩ := eq_error_of_hasResult hrefuses
    rw [he]
    trivial
  · exact h.links waits n f p hspares hclosed hp hf.1 hwaits

/-- The builders in which emission waits for fragments. -/
abbrev Upkeep.Awaiting (hopeless : Fragment → Prop) (waits : FragmentId → Prop) (n : Nat)
    (labels : List (List String)) : Builder → Prop :=
  (Upkeep.awaiting hopeless waits n).At labels Constants.Any

theorem Upkeep.Awaiting.mono {waits' : FragmentId → Prop} {m : Nat} {b : Builder}
    (h : Awaiting hopeless waits n labels b) (hle : m ≤ n) (hmade : ∀ k, waits' (.nested k) → k < m)
    (hwaits : ∀ id, waits' id → waits id) : Awaiting hopeless waits' m labels b :=
  { h with holds := Program.Awaits.mono h.holds hle hmade hwaits }

namespace Emit

variable {broken : Stop CompileError → Builder → Prop} {post : β → Builder → Prop}

/-- A fragment is made, and from then on may be waited for. -/
theorem newFragment_awaits (make : FragmentId → Layout → Fragment) (next : Fragment → Emit β)
    (waits' : Nat → FragmentId → Prop) (hwaits : ∀ k id, waits' k id → waits id ∨ id = .nested k)
    (hnext : ∀ k, n ≤ k → Meets c broken (Upkeep.Awaiting hopeless (waits' k) (k + 1) labels)
      (next (make (.nested k) c.layout)) post) :
    Meets c broken (Upkeep.Awaiting hopeless waits n labels) (newFragment make >>= next) post := by
  rintro ⟨⟨heap, constants, linked, fresh⟩, code, scopes⟩ hb
  have hawaits : Program.Awaits waits n ⟨heap, constants, linked, fresh⟩ := hb.holds
  refine hnext fresh hawaits.numbered ⟨⟨heap, constants, linked, fresh + 1⟩, code, scopes⟩
    ⟨⟨Nat.le_refl _, fun j hj => ?_, fun id hid => ?_, fun j hj => ?_⟩, hb.scopes,
    hb.closed, trivial⟩
  · rcases hwaits fresh _ hj with hj | hj
    · exact Nat.lt_succ_of_lt (Nat.lt_of_lt_of_le (hawaits.made j hj) hawaits.numbered)
    · exact FragmentId.nested.inj hj ▸ Nat.lt_succ_self j
  · rcases hwaits fresh id hid with hid | rfl
    · exact hawaits.waiting id hid
    · exact hawaits.unlinked fresh (Nat.le_refl _)
  · exact hawaits.unlinked j (Nat.le_of_succ_le hj)

/-- A block is made, if there is one, and from then on may be waited for. -/
theorem optionalBlock_awaits {index : Option Nat} {next : Option Fragment → Emit β}
    (waits' : Nat → FragmentId → Prop) (hfails : ∀ (e : CompileError) b, broken (.fault e) b)
    (hwaits : ∀ k id, waits' k id → waits id ∨ id = .nested k)
    (hnone : index = none → Meets c broken (Upkeep.Awaiting hopeless waits n labels)
      (next none) post)
    (hsome : ∀ i b k, index = some i → c.layout.template.blocks[i]? = some b → n ≤ k →
      Meets c broken (Upkeep.Awaiting hopeless (waits' k) (k + 1) labels)
        (next (some (.ofBlock (.nested k) c.layout b))) post) :
    Meets c broken (Upkeep.Awaiting hopeless waits n labels)
      (optionalBlock index >>= next) post := by
  cases index with
  | none => exact hnone rfl
  | some i =>
    simp only [optionalBlock, inlineBlock, bind_assoc, pure_bind]
    refine .read (x := fun context => do
      let block ← orFail context.layout.template.blocks[i]? (.unknownBlockIndex i)
      let f ← newFragment fun id layout => .ofBlock id layout block
      next (some f)) ?_
    cases hb : c.layout.template.blocks[i]? with
    | none => exact fun b _ => hfails _ b
    | some b =>
      exact newFragment_awaits (.ofBlock · · b) (fun f => next (some f)) waits' hwaits fun k hk =>
        hsome i b k rfl hb hk

/-- A block that nothing waits for is made, if there is one. -/
theorem optionalBlock_made {index : Option Nat} {next : Option Fragment → Emit β}
    (hfails : ∀ (e : CompileError) b, broken (.fault e) b)
    (hnext : ∀ m block, n ≤ m → (∀ f ∈ block, f.Below m ∧ ∃ k, f.id = .nested k ∧ n ≤ k) →
      Meets c broken (Upkeep.Awaiting hopeless waits m labels) (next block) post) :
    Meets c broken (Upkeep.Awaiting hopeless waits n labels)
      (optionalBlock index >>= next) post := by
  refine optionalBlock_awaits (fun _ => waits) hfails (fun _ _ => .inl)
    (fun _ => hnext n none (Nat.le_refl n) nofun) fun i b k _ _ hk =>
      hnext (k + 1) _ (Nat.le_succ_of_le hk) ?_
  rintro _ ⟨⟩
  exact ⟨fun j hj => FragmentId.nested.inj hj ▸ Nat.lt_succ_self j, k, rfl, hk⟩

end Emit

/-- A block that was made later than all that is waited for may be linked. -/
theorem Upkeep.admits_made (hmade : ∀ k, waits (.nested k) → k < n) {m : Nat}
    {block : Option Fragment} (h : ∀ f ∈ block, f.Below m ∧ ∃ k, f.id = .nested k ∧ n ≤ k) :
    ∀ f ∈ block, (Upkeep.awaiting hopeless waits m).admits f := fun f hf => by
  obtain ⟨hbelow, k, hk, hle⟩ := h f hf
  exact ⟨hbelow, fun hwait => absurd (hmade k (hk ▸ hwait)) (Nat.not_lt_of_le hle)⟩

namespace BuildContext.Tracks

open Upkeep (admits_made)

variable {m : Nat}

/-- What was numbered further on is back to where it was. -/
theorem back {x : Emit Unit} (hmade : ∀ k, waits (.nested k) → k < n) (hle : n ≤ m)
    (hx : Emit.Keeps c (.awaiting hopeless waits m) labels after x) :
    Emit.Meets c (Upkeep.awaiting hopeless waits n).broken
      (Upkeep.Awaiting hopeless waits m labels) x
      fun _ => Upkeep.Awaiting hopeless waits n after :=
  Emit.Meets.weaken hx (fun _ hb => hb) fun _ _ hb =>
    Upkeep.Awaiting.mono hb hle hmade fun _ hk => hk

mutual

theorem statement {waits : FragmentId → Prop} {n : Nat} {labels : List (List String)}
    (h : c.Tracks hopeless) (hspares : c.lookup.Spares hopeless waits)
    (hmade : ∀ k, waits (.nested k) → k < n) (mode : AttrMode) (s : Statement) :
    Emit.Keeps c (.awaiting hopeless waits n) labels labels (Emit.statement mode s) := by
  have hkeeps : c.Maintains (.awaiting hopeless waits n) := h.maintains hspares
  cases s with
  | text s | comment s | openElement s => exact hkeeps.onString s rfl
  | append value trusted => exact hkeeps.append value trusted
  | flushElement | closeElement => exact hkeeps.op rfl
  | staticAttr name value space => exact hkeeps.staticAttr mode name value space
  | dynamicAttr name value space trusting =>
    exact (hkeeps.expression value).seq fun _ => hkeeps.dynamicAttr mode name space trusting
  | modifier name params hash =>
    exact (Emit.Keeps.resolve _ _).seq fun _ => (hkeeps.orFail _ _).seq fun handle =>
      (hkeeps.args _ _ _).seq fun _ => hkeeps.onHandle handle rfl
  | yield slot params => exact hkeeps.yield slot _
  | attrSplat slot => exact (hkeeps.yield slot []).seq fun _ => hkeeps.op rfl
  | block name params hash template inverse =>
    refine Emit.optionalBlock_made (fun _ _ => trivial) fun i main hi hmain => ?_
    refine Emit.optionalBlock_made (fun _ _ => trivial) fun j other hj hother => ?_
    refine back hmade (Nat.le_trans hi hj) ((h.maintains hspares).blockCall fun f hf => ?_)
    rcases List.mem_append.mp hf with hf | hf
    · exact admits_made hmade (fun f hf => ⟨(hmain f hf).1.mono hj, (hmain f hf).2⟩) f
        (Option.mem_toList.mp hf)
    · refine admits_made hmade (fun f hf => ?_) f (Option.mem_toList.mp hf)
      obtain ⟨hbelow, k, hk, hle⟩ := hother f hf
      exact ⟨hbelow, k, hk, Nat.le_trans hi hle⟩
  | component tag attrs hash body =>
    refine Emit.optionalBlock_made (fun _ _ => trivial) fun i block hi hblock => ?_
    have hmadeI : ∀ k, waits (.nested k) → k < i := fun k hk => Nat.lt_of_lt_of_le (hmade k hk) hi
    refine Emit.Meets.bind (Emit.Keeps.resolve _ _) fun found => ?_
    cases found with
    | some handle =>
      refine Emit.newFragment_awaits _
        (fun f => Emit.component handle { attrs := some f, hash, block })
        (fun _ => waits) (fun _ _ => .inl) fun k hk => ?_
      refine back hmade (Nat.le_succ_of_le (Nat.le_trans hi hk))
        ((h.maintains hspares).component handle ?_)
      intro f hf
      simp only [Invocation.passed, List.mem_append, Option.mem_toList] at hf
      rcases hf with (hf | hf) | hf
      · exact admits_made hmade (fun f hf =>
          ⟨(hblock f hf).1.mono (Nat.le_succ_of_le hk), (hblock f hf).2⟩) f hf
      · cases hf
      · cases hf
        exact ⟨fun j hj => FragmentId.nested.inj hj ▸ Nat.lt_succ_self j, fun hwait =>
          absurd (hmadeI k hwait) (Nat.not_lt_of_le hk)⟩
    | none =>
      have hkeepsI : c.Maintains (.awaiting hopeless waits i) := h.maintains hspares
      refine back hmade hi ((hkeepsI.onString tag rfl).seq fun _ =>
        (h.statements hspares hmadeI .element attrs).seq fun _ => hkeepsI.op_seq rfl ?_)
      cases block with
      | some f =>
        exact (hkeepsI.invokeStaticBlock (admits_made hmade hblock f rfl) 0).seq fun _ =>
          hkeepsI.op rfl
      | none => exact hkeepsI.op rfl
termination_by structural s

theorem statements {waits : FragmentId → Prop} {n : Nat} {labels : List (List String)}
    (h : c.Tracks hopeless) (hspares : c.lookup.Spares hopeless waits)
    (hmade : ∀ k, waits (.nested k) → k < n) (mode : AttrMode) (ss : List Statement) :
    Emit.Keeps c (.awaiting hopeless waits n) labels labels (Emit.statements mode ss) := by
  cases ss with
  | nil => exact .pure ()
  | cons s rest =>
    exact (h.statement hspares hmade mode s).seq fun _ => h.statements hspares hmade mode rest
termination_by structural ss

end

end BuildContext.Tracks

end

end TemplateMachine
