import TemplateMachine.Proofs.Emission.Draft
import TemplateMachine.Proofs.Emission.Nesting
import TemplateMachine.Proofs.Program.Operand

/-! What builders keep while code is emitted.  The steps that change a builder are few: a constant
is added, an instruction is appended, a label scope is opened or closed, a label is put or jumped
to, a fragment is linked.  A condition that these keep is kept by all emission.  It may depend on
the labels that are still to be put in the open scopes, so that no jump is left without its label,
and it may ask which fragments are linked. -/

namespace TemplateMachine

/-- The state in which a step ends or fails. -/
def stateAfter {ε σ α : Type} : EStateM.Result ε σ α → σ
  | .ok _ s | .error _ s => s

/-- The step did not fail. -/
def hasResult {ε σ α : Type} : EStateM.Result ε σ α → Bool
  | .ok .. => true
  | .error .. => false

theorem eq_ok_of_hasResult {ε σ α : Type} {r : EStateM.Result ε σ α} (h : hasResult r = true) :
    ∃ a, r = .ok a (stateAfter r) := by
  cases r with
  | ok a s => exact ⟨a, rfl⟩
  | error e s => cases h

theorem eq_error_of_hasResult {ε σ α : Type} {r : EStateM.Result ε σ α} (h : hasResult r = false) :
    ∃ e, r = .error e (stateAfter r) := by
  cases r with
  | ok a s => cases h
  | error e s => exact ⟨e, rfl⟩

/-- A step ends in one condition, or fails in another. -/
def EndsIn {ε σ α : Type} (broken : ε → σ → Prop) (post : α → σ → Prop) :
    EStateM.Result ε σ α → Prop
  | .ok a s => post a s
  | .error e s => broken e s

/-! ### Steps -/

namespace Emit

variable {α β : Type} {c : BuildContext} {broken : Stop CompileError → Builder → Prop}
variable {pre mid : Builder → Prop} {post : α → Builder → Prop}

/-- From a state that satisfies `pre` the step ends in one that satisfies `post`, or fails in a way
and in a state that are no worse than `broken`. -/
def Meets (c : BuildContext) (broken : Stop CompileError → Builder → Prop) (pre : Builder → Prop)
    (x : Emit α) (post : α → Builder → Prop) : Prop :=
  ∀ b, pre b → EndsIn broken post (x c b)

namespace Meets

theorem pure {a : α} (h : ∀ b, pre b → post a b) : Meets c broken pre (Pure.pure a) post := h

theorem bind {x : Emit α} {f : α → Emit β} {final : β → Builder → Prop}
    (hx : Meets c broken pre x post) (hf : ∀ a, Meets c broken (post a) (f a) final) :
    Meets c broken pre (x >>= f) final := by
  intro b hb
  have hmid := hx b hb
  rw [Emit.bind_apply]
  cases h : x c b with
  | ok a b' =>
    rw [h] at hmid
    exact hf a b' hmid
  | error e b' =>
    rw [h] at hmid
    exact hmid

theorem weaken {pre' : Builder → Prop} {post' : α → Builder → Prop} {x : Emit α}
    (h : Meets c broken pre x post) (hpre : ∀ b, pre' b → pre b)
    (hpost : ∀ a b, post a b → post' a b) : Meets c broken pre' x post' := by
  intro b hb
  have hx := h b (hpre b hb)
  cases hxb : x c b with
  | ok a b' =>
    rw [hxb] at hx
    exact hpost a b' hx
  | error e b' =>
    rw [hxb] at hx
    exact hx

/-- What a condition on the state does not depend on may be looked up. -/
theorem read {x : BuildContext → Emit α} (h : Meets c broken pre (x c) post) :
    Meets c broken pre (do x (← MonadReader.read)) post := h

end Meets

/-- Giving jumps their distances fails only for want of a label. -/
theorem setDistances_error {places : List (String × Nat)} {uses : List LabelUse} {b b' : Builder}
    {e : Stop CompileError} (h : setDistances places uses c b = .error e b') :
    ∃ found : CompileError, e = .fault found := by
  induction uses generalizing b with
  | nil => cases h
  | cons use rest ih =>
    unfold setDistances at h
    rw [bind_apply] at h
    cases hplace : places.lookup use.label with
    | none =>
      rw [hplace] at h
      cases h
      exact ⟨_, rfl⟩
    | some place =>
      rw [hplace] at h
      exact ih h

end Emit

/-! ### Constants -/

/-- What the addition of a constant does, in a strategy. -/
structure Constants.Adds (strategy : Strategy) (c d : Constants) : Prop where
  grows : c.Extends d
  interned : c.Interned → d.Interned
  closed : c.Closed → d.Closed
  fragments : strategy = .eager → d.fragments = c.fragments

namespace Constants

variable {strategy : Strategy}

theorem adds_string (c : Constants) (s : String) : c.Adds strategy (c.string s).2 :=
  ⟨c.extends_string s, fun h => h.string s, fun h => h.mono (c.extends_string s).strings rfl,
    fun _ => rfl⟩

theorem adds_stringArray (c : Constants) (values : List String) :
    c.Adds strategy (c.stringArray values).2 :=
  ⟨c.extends_stringArray values, fun h => h.stringArray values,
    fun h => h.stringArray values, fun _ => c.fragments_stringList values⟩

theorem adds_table (c : Constants) (t : SymbolTable) : c.Adds strategy (c.table t).2 :=
  ⟨c.extends_table t, fun h => h.table t, fun h => h.mono (.refl _) rfl, fun _ => rfl⟩

theorem adds_handle (c : Constants) (handle : UInt32) : c.Adds strategy (c.handle handle).2 :=
  ⟨c.extends_handle handle, fun h => h.handle handle, fun h => h.mono (.refl _) rfl, fun _ => rfl⟩

theorem adds_referer (c : Constants) (s : String) : c.Adds strategy (c.referer s).2 :=
  ⟨c.extends_referer s, fun h => h.referer s, fun h => h.mono (.refl _) rfl, fun _ => rfl⟩

/-- A fragment waits to be compiled, which the eager strategy does not let it do. -/
theorem adds_fragment (c : Constants) (f : Fragment) (hlazy : strategy = .lazy) :
    c.Adds strategy (c.fragment f).2 :=
  ⟨c.extends_fragment f, fun h => h.fragment f, fun h => h.mono (.refl _) rfl, fun heager => by
    rw [hlazy] at heager
    cases heager⟩

theorem adds_encode (p : Primitive) (c : Constants) : c.Adds strategy (p.encode c).2 := by
  have hrefl : c.Adds strategy c := ⟨.refl c, id, id, fun _ => rfl⟩
  cases p with
  | number x =>
    unfold Primitive.encode
    dsimp only
    split
    · exact hrefl
    · exact ⟨c.extends_float x, fun h => h.float x, fun h => h.mono (.refl _) rfl, fun _ => rfl⟩
  | string s => exact c.adds_string s
  | boolean b => cases b <;> exact hrefl
  | null => exact hrefl
  | undefined => exact hrefl

end Constants

/-! ### Conditions -/

/-- A condition on builders and what goes with it. -/
structure Upkeep where
  /-- The condition, given the labels that are still to be put in each scope, the next one first. -/
  holds : List (List String) → Builder → Prop
  /-- The fragments that may be linked. -/
  admits : Fragment → Prop
  /-- What linking tells of the handles it gives. -/
  reaches : Program → UInt32 → Prop
  /-- What is left of the condition when emission has failed. -/
  broken : Stop CompileError → Builder → Prop

/-- The condition with one on the constants.  There is a scope for each list of labels. -/
structure Upkeep.At (u : Upkeep) (labels : List (List String)) (named : Constants → Prop)
    (b : Builder) : Prop where
  holds : u.holds labels b
  scopes : b.scopes.length = labels.length
  closed : b.program.constants.Closed
  named : named b.program.constants

/-- No condition on the constants. -/
def Constants.Any (_ : Constants) : Prop := True

/-- What is named stays named. -/
def Constants.Persists (named : Constants → Prop) : Prop :=
  ∀ c d : Constants, c.Extends d → named c → named d

theorem Constants.Persists.any : Persists Any := fun _ _ _ _ => trivial

/-- The elementary steps of emission keep the condition, and whole templates may be linked. -/
structure BuildContext.Maintains (c : BuildContext) (u : Upkeep) : Prop where
  layouts : ∀ handle f, c.lookup.layout? handle = some f → u.admits f
  partials : ∀ handle f, c.lookup.partial? handle = some f → u.admits f
  fails : ∀ {labels b} (e : CompileError), u.holds labels b → u.broken (.fault e) b
  constants : ∀ {labels b pools}, u.holds labels b → b.program.constants.Adds c.strategy pools →
    u.holds labels { b with program := { b.program with constants := pools } }
  fresh : ∀ {labels b}, u.holds labels b →
    u.holds labels { b with program := { b.program with fresh := b.program.fresh + 1 } }
  pushed : ∀ {labels b i}, u.holds labels b → i.op.isJump = false →
    b.program.constants.Supplies i → (i.op = .invokeStatic → u.reaches b.program i.a) →
    u.holds labels { b with code := b.code.push i }
  opened : ∀ {labels b} (inner : List String), u.holds labels b →
    u.holds (inner :: labels) { b with scopes := {} :: b.scopes }
  jumped : ∀ {inner labels b scope scopes o target}, u.holds (inner :: labels) b →
    b.scopes = scope :: scopes → o.isJump = true → target ∈ inner →
    u.holds (inner :: labels) { b with
      code := b.code.push ⟨o, 0, 0, 0⟩,
      scopes := { scope with uses := ⟨b.code.size, target⟩ :: scope.uses } :: scopes }
  labelled : ∀ {name inner labels b scope scopes}, u.holds ((name :: inner) :: labels) b →
    b.scopes = scope :: scopes →
    u.holds (inner :: labels) { b with
      scopes := { scope with places := (name, b.code.size) :: scope.places } :: scopes }
  closed : ∀ {labels b scope scopes}, u.holds ([] :: labels) b → b.scopes = scope :: scopes →
    EndsIn u.broken (fun _ => u.holds labels)
      (Emit.setDistances scope.places scope.uses.reverse c { b with scopes })
  linked : c.strategy = .eager → ∀ {labels b} (f : Fragment), u.admits f → u.holds labels b →
    b.program.constants.Closed →
    EndsIn (fun e q => u.broken e { b with program := q })
      (fun handle q => u.holds labels { b with program := q } ∧ u.reaches q handle ∧
        q.constants.Closed) (c.link f b.program)

namespace Emit

/-- The step keeps the condition, with one on the constants before and one after. -/
def Upholds {α : Type} (c : BuildContext) (u : Upkeep) (before after : List (List String))
    (named : Constants → Prop) (x : Emit α) (named' : α → Constants → Prop) : Prop :=
  Meets c u.broken (u.At before named) x fun a => u.At after (named' a)

/-- The step keeps the condition. -/
def Keeps {α : Type} (c : BuildContext) (u : Upkeep) (before after : List (List String))
    (x : Emit α) : Prop :=
  Upholds c u before after Constants.Any x fun _ => Constants.Any

end Emit

theorem Upkeep.At.weaken {u : Upkeep} {labels : List (List String)}
    {named named' : Constants → Prop} {b : Builder} (h : u.At labels named b)
    (hnamed : ∀ pools, named pools → named' pools) : u.At labels named' b :=
  { h with named := hnamed _ h.named }

namespace BuildContext.Maintains

open Emit (Upholds)

variable {α β : Type} {c : BuildContext} {u : Upkeep} {labels before mid after : List (List String)}
variable (h : c.Maintains u)

include h

theorem fail (e : CompileError) : Emit.Keeps c u before after (Emit.fail e : Emit α) :=
  fun _ hb => h.fails e hb.holds

theorem orFail (v : Option α) (e : CompileError) :
    Emit.Keeps c u labels labels (Emit.orFail v e) := by
  cases v with
  | some a => exact fun _ hb => hb
  | none => exact h.fail e

/-- The addition of a constant, whose index names what it should. -/
theorem addConstant {γ : Type} {add : Constants → γ × Constants} {named : Constants → Prop}
    (named' : γ → Constants → Prop)
    (hadds : ∀ pools : Constants, pools.Adds c.strategy (add pools).2)
    (hnamed : ∀ pools, pools.Closed → named pools → named' (add pools).1 (add pools).2) :
    Upholds c u labels labels named (Emit.onConstants add) named' := by
  rintro ⟨⟨heap, constants, linked, fresh⟩, code, scopes⟩ hb
  exact ⟨h.constants hb.holds (hadds constants), hb.scopes, (hadds constants).closed hb.closed,
    hnamed constants hb.closed hb.named⟩

theorem newFragment (make : FragmentId → Layout → Fragment) :
    Emit.Keeps c u labels labels (Emit.newFragment make) := by
  intro b hb
  exact ⟨h.fresh hb.holds, hb.scopes, hb.closed, trivial⟩

/-- An instruction whose operands are named; what else is named stays so. -/
theorem pushNamed {named : Constants → Prop} {o : Opcode} {i j k : UInt32}
    (ho : o.isOrdinary = true) (hnamed : ∀ pools, named pools → pools.Supplies ⟨o, i, j, k⟩) :
    Upholds c u labels labels named (Emit.op o i j k) fun _ => named := by
  intro b hb
  obtain ⟨hjump, hcall⟩ := Opcode.isOrdinary_iff.mp ho
  exact ⟨h.pushed hb.holds hjump (hnamed _ hb.named) fun heq => absurd heq hcall, hb.scopes,
    hb.closed, hb.named⟩

/-- An instruction without operands that could be missing. -/
theorem op {o : Opcode} {i j k : UInt32} (hfree : Instruction.isFree ⟨o, i, j, k⟩ = true) :
    Emit.Keeps c u labels labels (Emit.op o i j k) :=
  h.pushNamed (Bool.and_eq_true_iff.mp hfree).1 fun _ _ => Constants.supplies_of_isFree hfree

theorem openLabels (inner : List String) :
    Emit.Keeps c u labels (inner :: labels) Emit.openLabels := by
  intro b hb
  exact ⟨h.opened inner hb.holds, congrArg (· + 1) hb.scopes, hb.closed, trivial⟩

theorem jump {o : Opcode} {inner : List String} (ho : o.isJump = true) (target : String)
    (htarget : target ∈ inner) :
    Emit.Keeps c u (inner :: labels) (inner :: labels) (Emit.jump o target) := by
  rintro ⟨program, code, scopes⟩ hb
  cases scopes with
  | nil => cases hb.scopes
  | cons scope rest => exact ⟨h.jumped hb.holds rfl ho htarget, hb.scopes, hb.closed, trivial⟩

theorem label (name : String) {inner : List String} :
    Emit.Keeps c u ((name :: inner) :: labels) (inner :: labels) (Emit.label name) := by
  rintro ⟨program, code, scopes⟩ hb
  cases scopes with
  | nil => cases hb.scopes
  | cons scope rest => exact ⟨h.labelled hb.holds rfl, hb.scopes, hb.closed, trivial⟩

omit h in
/-- Giving jumps their distances touches the code and nothing else. -/
theorem setDistances_frame (places : List (String × Nat)) (uses : List LabelUse) (b : Builder) :
    (stateAfter (Emit.setDistances places uses c b)).program = b.program ∧
      (stateAfter (Emit.setDistances places uses c b)).scopes = b.scopes := by
  induction uses generalizing b with
  | nil => exact ⟨rfl, rfl⟩
  | cons use rest ih =>
    unfold Emit.setDistances
    rw [Emit.bind_apply]
    cases places.lookup use.label with
    | none => exact ⟨rfl, rfl⟩
    | some place =>
      show (stateAfter (Emit.setDistances places rest c _)).program = b.program ∧ _
      exact ih _

theorem closeLabels : Emit.Keeps c u ([] :: labels) labels Emit.closeLabels := by
  rintro ⟨program, code, scopes⟩ hb
  cases scopes with
  | nil => cases hb.scopes
  | cons scope rest =>
    have hclose := h.closed hb.holds rfl
    have hframe := setDistances_frame (c := c) scope.places scope.uses.reverse ⟨program, code, rest⟩
    show EndsIn u.broken (fun _ => u.At labels Constants.Any)
      (Emit.setDistances scope.places scope.uses.reverse c ⟨program, code, rest⟩)
    cases hr : Emit.setDistances scope.places scope.uses.reverse c ⟨program, code, rest⟩ with
    | error e b' =>
      rw [hr] at hclose
      exact hclose
    | ok r b' =>
      rw [hr] at hclose hframe
      refine ⟨hclose, ?_, ?_, trivial⟩
      · rw [show b'.scopes = rest from hframe.2]
        exact Nat.succ.inj hb.scopes
      · rw [show b'.program = program from hframe.1]
        exact hb.closed

/-- Linking a fragment gives a handle that can be called, until the program changes. -/
theorem link {f : Fragment} (hf : u.admits f) (heager : c.strategy = .eager) :
    Emit.Meets c u.broken (u.At labels Constants.Any) (Emit.linked f) fun handle b =>
      u.At labels Constants.Any b ∧ u.reaches b.program handle := by
  rintro ⟨program, code, scopes⟩ hb
  have hlink := h.linked heager f hf hb.holds hb.closed
  show EndsIn u.broken (fun handle b => u.At labels Constants.Any b ∧ u.reaches b.program handle)
    (Emit.onProgram (c.link f) c ⟨program, code, scopes⟩)
  unfold Emit.onProgram
  dsimp only at hlink ⊢
  cases hr : c.link f program with
  | error e q =>
    rw [hr] at hlink
    exact hlink
  | ok handle q =>
    rw [hr] at hlink
    obtain ⟨hholds, hreaches, hclosed⟩ := hlink
    exact ⟨⟨hholds, hb.scopes, hclosed, trivial⟩, hreaches⟩

end BuildContext.Maintains

/-! ### Sequences -/

namespace Emit

variable {α β : Type} {c : BuildContext} {u : Upkeep} {labels before mid after : List (List String)}

theorem Keeps.seq {x : Emit α} {f : α → Emit β} (hx : Emit.Keeps c u before mid x)
    (hf : ∀ a, Emit.Keeps c u mid after (f a)) : Emit.Keeps c u before after (x >>= f) :=
    Meets.bind hx hf

/-- What the results of the first step have in common may be used in the second. -/
theorem Keeps.seq_of {x : Emit α} {f : α → Emit β} {result : α → Prop}
    (hx : Emit.Keeps c u before mid x) (hresult : ∀ b a b', x c b = .ok a b' → result a)
    (hf : ∀ a, result a → Emit.Keeps c u mid after (f a)) :
    Emit.Keeps c u before after (x >>= f) := by
  intro b hb
  have hmid := hx b hb
  rw [Emit.bind_apply]
  cases h : x c b with
  | ok a b' =>
    rw [h] at hmid
    exact hf a (hresult b a b' h) b' hmid
  | error e b' =>
    rw [h] at hmid
    exact hmid

theorem Upholds.seq {x : Emit α} {f : α → Emit β} {named : Constants → Prop}
    {named' : α → Constants → Prop} {named'' : β → Constants → Prop}
    (hx : Upholds c u before mid named x named')
    (hf : ∀ a, Upholds c u mid after (named' a) (f a) named'') :
    Upholds c u before after named (x >>= f) named'' := Meets.bind hx hf

theorem Upholds.mono {x : Emit α} {named : Constants → Prop} {named' named'' : α → Constants → Prop}
    (hx : Upholds c u before after named x named')
    (h : ∀ a pools, named' a pools → named'' a pools) :
    Upholds c u before after named x named'' :=
  hx.weaken (fun _ hb => hb) fun a _ hb => hb.weaken (h a)

/-- What is named is of no importance any more. -/
theorem Upholds.forget {x : Emit α} {named : Constants → Prop} {named' : α → Constants → Prop}
    (hx : Upholds c u before after named x named') :
    Upholds c u before after named x fun _ => Constants.Any :=
  hx.mono fun _ _ _ => trivial

theorem Keeps.pure (a : α) : Emit.Keeps c u labels labels (Pure.pure a : Emit α) := fun _ hb => hb

/-- What is done depends on the context alone. -/
theorem Keeps.read {x : BuildContext → Emit α} (hx : Emit.Keeps c u before after (x c)) :
    Emit.Keeps c u before after (do x (← MonadReader.read)) := hx

theorem Keeps.resolve (find : Lookup → String → String → Option UInt32) (name : String) :
    Emit.Keeps c u labels labels (Emit.resolve find name) := fun _ hb => hb

end Emit

end TemplateMachine
