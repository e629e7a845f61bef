import TemplateMachine.Proofs.Emission.Draft
import TemplateMachine.Proofs.Program.Sound

/-! What emission does.  A step of emission lets the program grow and appends a draft.  If the
program still fits in the end, then the linkage stays sound, and the draft is what it should be in
every linkage that grows out of the one at the end. -/

namespace TemplateMachine

/-- The code of the context under a linkage. -/
def BuildContext.coding (c : BuildContext) (l : Linkage) : Coding :=
  ⟨c.lookup, c.strategy, l, c.layout⟩

/-- The template that is being compiled is well-formed. -/
abbrev BuildContext.wellFormed (c : BuildContext) : Bool := c.layout.template.wellFormed

/-- A way of linking a regular fragment gives it a handle. -/
def Links (lookup : Lookup) (strategy : Strategy) (f : Fragment) (link : Link UInt32) : Prop :=
  f.Regular → ∀ p handle p', link p = .ok handle p' →
    p.Grows p' ∧
      (p'.Fits → ∀ l pending, l.program = p → l.Sound lookup strategy pending →
        l.known f.id = some f →
        ∃ m : Linkage, m.program = p' ∧ l ≤ m ∧ m.Sound lookup strategy pending ∧
          p'.linked? f.id = some handle)

/-- The context of a template, in which fragments can be linked. -/
structure BuildContext.Faithful (c : BuildContext) : Prop where
  link : ∀ f, Links c.lookup c.strategy f (c.link f)
  coherent : c.lookup.Coherent

/-- What a step of emission that gives `a` does to a builder, if a condition on the linkage is
met. -/
structure Emitted {α : Type} (c : BuildContext) (pre : Linkage → Prop)
    (spec : Linkage → α → Draft → Prop) (b : Builder) (a : α) (b' : Builder) : Prop where
  grows : b.program.Grows b'.program
  draft : b'.program.Fits → ∀ l pending, l.program = b.program →
    l.Sound c.lookup c.strategy pending → l.templates c.layout → pre l →
    ∃ (m : Linkage) (d : Draft), m.program = b'.program ∧ l ≤ m ∧
      m.Sound c.lookup c.strategy pending ∧ b'.code.toList = b.code.toList ++ d.raw ∧
      b'.scopes = d.extend b.code.size b.scopes ∧ ∀ n, m ≤ n → spec n a d

/-- Emission of drafts that meet a specification. -/
def Drafts {α : Type} (c : BuildContext) (pre : Linkage → Prop) (x : Emit α)
    (spec : Linkage → α → Draft → Prop) : Prop :=
  ∀ b a b', x c b = .ok a b' → Emitted c pre spec b a b'

/-- Emission of code that meets a specification. -/
def Emits {α : Type} (c : BuildContext) (pre : Linkage → Prop) (x : Emit α)
    (spec : Linkage → α → List Instruction → Prop) : Prop :=
  Drafts c pre x fun l a d => ∃ code, d = .plain code ∧ spec l a code

/-- What stays true as linkages grow. -/
def Persistent (pre : Linkage → Prop) : Prop := ∀ l m, l ≤ m → pre l → pre m

theorem Persistent.known (f : Fragment) : Persistent fun l => l.known f.id = some f :=
  fun _ _ h hf => Linkage.Grows.known h _ _ hf

theorem Persistent.and {p q : Linkage → Prop} (hp : Persistent p) (hq : Persistent q) :
    Persistent fun l => p l ∧ q l :=
  fun l m h hl => ⟨hp l m h hl.1, hq l m h hl.2⟩

theorem Persistent.true : Persistent fun _ => True := fun _ _ _ _ => trivial

section

variable {α β : Type} {c : BuildContext} {pre : Linkage → Prop} {x : Emit α} {f : α → Emit β}

namespace Drafts

theorem mono {spec spec' : Linkage → α → Draft → Prop} (h : Drafts c pre x spec)
    (hspec : ∀ n a d, spec n a d → spec' n a d) : Drafts c pre x spec' := by
  intro b a b' hx
  obtain ⟨hgrows, hdraft⟩ := h b a b' hx
  refine ⟨hgrows, fun hfits l pending hl hsound hlayout hpre => ?_⟩
  obtain ⟨m, d, hm, hle, hsound', hcode, hscopes, hd⟩ :=
    hdraft hfits l pending hl hsound hlayout hpre
  exact ⟨m, d, hm, hle, hsound', hcode, hscopes, fun n hn => hspec n a d (hd n hn)⟩

theorem strengthen {pre' : Linkage → Prop} {spec : Linkage → α → Draft → Prop}
    (h : Drafts c pre x spec) (hpre : ∀ l, pre' l → pre l) : Drafts c pre' x spec := by
  intro b a b' hx
  obtain ⟨hgrows, hdraft⟩ := h b a b' hx
  exact ⟨hgrows, fun hfits l pending hl hsound hlayout hp =>
    hdraft hfits l pending hl hsound hlayout (hpre l hp)⟩

theorem pure (a : α) {spec : Linkage → α → Draft → Prop} (h : ∀ l, spec l a []) :
    Drafts c pre (Pure.pure a) spec := by
  intro b r b' hr
  obtain ⟨rfl, rfl⟩ := Emit.pure_ok hr
  refine ⟨.refl _, fun _ l pending hl hsound _ _ => ⟨l, [], hl, l.le_refl, hsound, ?_, ?_, ?_⟩⟩
  · simp [Draft.raw]
  · cases b.scopes <;> rfl
  · exact fun n _ => h n

/-- The second step may need what the first one makes true, and what all its results have in
common. -/
theorem bind {result : α → Prop} {next : α → Linkage → Prop} {first : Linkage → α → Draft → Prop}
    {spec : Linkage → β → Draft → Prop} (hx : Drafts c pre x first)
    (hresult : ∀ b a b', x c b = .ok a b' → result a)
    (hnext : ∀ l m a d, pre l → l ≤ m → first m a d → next a m)
    (hf : ∀ a d, result a → Drafts c (next a) (f a) fun l r e => first l a d → spec l r (d ++ e)) :
    Drafts c pre (x >>= f) spec := by
  intro b r b' h
  obtain ⟨a, b₁, h₁, h₂⟩ := Emit.bind_ok h
  obtain ⟨hgrows₁, hfirst⟩ := hx b a b₁ h₁
  have ha := hresult b a b₁ h₁
  have hgrows₂ := (hf a [] ha b₁ r b' h₂).grows
  refine ⟨hgrows₁.trans hgrows₂, fun hfits l pending hl hsound hlayout hpre => ?_⟩
  obtain ⟨m, d, hm, hle, hsound', hcode, hscopes, hd⟩ :=
    hfirst (hgrows₂.fits hfits) l pending hl hsound hlayout hpre
  obtain ⟨m', e, hm', hle', hsound'', hcode', hscopes', he⟩ := (hf a d ha b₁ r b' h₂).draft hfits
    m pending hm hsound' (Linkage.Grows.templates hle ▸ hlayout)
      (hnext l m a d hpre hle (hd m m.le_refl))
  have hsize : b₁.code.size = b.code.size + d.raw.length := by
    rw [← Array.length_toList, hcode, List.length_append, Array.length_toList]
  refine ⟨m', d ++ e, hm', Linkage.le_trans hle hle', hsound'', ?_, ?_, fun n hn => ?_⟩
  · rw [hcode', hcode, Draft.raw_append, List.append_assoc]
  · rw [hscopes', hscopes, hsize, Draft.extend_append]
  · exact he n hn (hd n (Linkage.le_trans hle' hn))

theorem seq {first : Linkage → α → Draft → Prop} {spec : Linkage → β → Draft → Prop}
    (hpre : Persistent pre) (hx : Drafts c pre x first)
    (hf : ∀ a d, Drafts c pre (f a) fun l r e => first l a d → spec l r (d ++ e)) :
    Drafts c pre (x >>= f) spec :=
  hx.bind (fun _ _ _ _ => trivial) (fun l m _ _ hl hle _ => hpre l m hle hl) fun a d _ => hf a d

end Drafts

namespace Emits

variable {spec : Linkage → α → List Instruction → Prop}

theorem mono {spec' : Linkage → α → List Instruction → Prop} (h : Emits c pre x spec)
    (hspec : ∀ n a code, spec n a code → spec' n a code) : Emits c pre x spec' :=
  Drafts.mono h fun n a _ ⟨code, hd, hcode⟩ => ⟨code, hd, hspec n a code hcode⟩

/-- What follows at the sound linkage at the end, and for all that grow out of it. -/
theorem of_sound {spec' : Linkage → α → List Instruction → Prop} (hpre : Persistent pre)
    (h : Emits c pre x spec)
    (hspec : ∀ m pending n a code, m.Sound c.lookup c.strategy pending → pre m → m ≤ n →
      spec m a code → spec' n a code) : Emits c pre x spec' := by
  intro b a b' hx
  obtain ⟨hgrows, hdraft⟩ := h b a b' hx
  refine ⟨hgrows, fun hfits l pending hl hsound hlayout hp => ?_⟩
  obtain ⟨m, d, hm, hle, hsound', hcode, hscopes, hd⟩ := hdraft hfits l pending hl hsound hlayout hp
  obtain ⟨code, rfl, hm'⟩ := hd m m.le_refl
  exact ⟨m, _, hm, hle, hsound', hcode, hscopes, fun n hn =>
    ⟨code, rfl, hspec m pending n a code hsound' (hpre l m hle hp) hn hm'⟩⟩

theorem strengthen {pre' : Linkage → Prop} (h : Emits c pre x spec) (hpre : ∀ l, pre' l → pre l) :
    Emits c pre' x spec :=
  Drafts.strengthen h hpre

/-- What a step does that goes by the context. -/
theorem reads {f : BuildContext → Emit α} (h : Emits c pre (f c) spec) :
    Emits c pre (read >>= f) spec := h

theorem pure (a : α) (h : ∀ l, spec l a []) : Emits c pre (Pure.pure a) spec :=
  Drafts.pure a fun l => ⟨[], rfl, h l⟩

theorem bind {result : α → Prop} (next : α → Linkage → Prop)
    {first : Linkage → α → List Instruction → Prop}
    {spec : Linkage → β → List Instruction → Prop} (hx : Emits c pre x first)
    (hresult : ∀ b a b', x c b = .ok a b' → result a)
    (hnext : ∀ l m a code, pre l → l ≤ m → first m a code → next a m)
    (hf : ∀ a code, result a → Emits c (next a) (f a) fun l r more =>
      first l a code → spec l r (code ++ more)) :
    Emits c pre (x >>= f) spec := by
  refine Drafts.bind hx hresult
    (fun l m a _ hl hle ⟨code, _, hcode⟩ => hnext l m a code hl hle hcode) fun a d ha b r b' h => ?_
  by_cases hplain : ∃ code, d = Draft.plain code
  · obtain ⟨code, rfl⟩ := hplain
    refine Drafts.mono (hf a code ha) ?_ b r b' h
    rintro n r _ ⟨more, rfl, hmore⟩ ⟨code', heq, hcode⟩
    have hraw := congrArg Draft.raw heq
    rw [Draft.raw_plain, Draft.raw_plain] at hraw
    subst hraw
    exact ⟨code ++ more, (Draft.plain_append code more).symm, hmore hcode⟩
  · refine Drafts.mono (hf a [] ha) ?_ b r b' h
    rintro n r _ _ ⟨code, rfl, -⟩
    exact absurd ⟨code, rfl⟩ hplain

theorem seq {first : Linkage → α → List Instruction → Prop}
    {spec : Linkage → β → List Instruction → Prop} (hpre : Persistent pre)
    (hx : Emits c pre x first)
    (hf : ∀ a code, Emits c pre (f a) fun l r more => first l a code → spec l r (code ++ more)) :
    Emits c pre (x >>= f) spec :=
  hx.bind (fun _ => pre) (fun _ _ _ _ => trivial) (fun l m _ _ hl hle _ => hpre l m hle hl)
    fun a code _ => hf a code

/-- A step that only looks something up, and the code that depends on it. -/
theorem orFail {v : Option α} {error : CompileError} {spec : Linkage → β → List Instruction → Prop}
    (hf : ∀ a, v = some a → Emits c pre (f a) spec) :
    Emits c pre (Emit.orFail v error >>= f) spec := by
  intro b r b' h
  obtain ⟨a, b₁, h₁, h₂⟩ := Emit.bind_ok h
  obtain ⟨hv, rfl⟩ := Emit.orFail_ok h₁
  exact hf a hv b r b' h₂

theorem fail {error : CompileError} : Emits c pre (Emit.fail error) spec := by
  intro b a b' h
  cases h

/-- Code that depends on what a name is resolved to. -/
theorem resolve {find : Lookup → String → String → Option UInt32} {name : String}
    {g : Option UInt32 → Emit β} {spec : Linkage → β → List Instruction → Prop}
    (hg : Emits c pre (g (find c.lookup name c.layout.referer)) spec) :
    Emits c pre (Emit.resolve find name >>= g) spec := hg

/-- Code that depends on the strategy. -/
theorem byStrategy {x y : Emit α} (hx : c.strategy = .lazy → Emits c pre x spec)
    (hy : c.strategy = .eager → Emits c pre y spec) :
    Emits c pre (do match (← read).strategy with | .lazy => x | .eager => y) spec := by
  obtain ⟨lookup, strategy, layout, link⟩ := c
  cases strategy with
  | lazy => exact hx rfl
  | eager => exact hy rfl

theorem op {o : Opcode} {i j k : UInt32} {spec : Linkage → Unit → List Instruction → Prop}
    (h : ∀ l, spec l () [⟨o, i, j, k⟩]) : Emits c pre (Emit.op o i j k) spec := by
  intro b a b' hb
  obtain rfl := Emit.modify_ok hb
  refine ⟨.refl _, fun _ l pending hl hsound _ _ =>
    ⟨l, .plain [⟨o, i, j, k⟩], hl, l.le_refl, hsound, ?_, ?_, ?_⟩⟩
  · simp [Draft.raw]
  · rw [Draft.extend_plain]
  · exact fun n _ => ⟨_, rfl, h n⟩

/-- An instruction and the code after it. -/
theorem op_seq {o : Opcode} {i j k : UInt32} {f : Unit → Emit β}
    {spec : Linkage → β → List Instruction → Prop}
    (h : Emits c pre (f ()) fun l r more => spec l r (⟨o, i, j, k⟩ :: more)) :
    Emits c pre (Emit.op o i j k >>= f) spec := by
  intro b r b' hb
  obtain ⟨_, b₁, h₁, h₂⟩ := Emit.bind_ok hb
  obtain rfl := Emit.modify_ok h₁
  obtain ⟨hgrows, hdraft⟩ := h _ r b' h₂
  refine ⟨hgrows, fun hfits l pending hl hsound hlayout hpre => ?_⟩
  obtain ⟨m, d, hm, hle, hsound', hcode, hscopes, hd⟩ :=
    hdraft hfits l pending hl hsound hlayout hpre
  refine ⟨m, .instruction ⟨o, i, j, k⟩ :: d, hm, hle, hsound', ?_, ?_, fun n hn => ?_⟩
  · rw [hcode, Array.toList_push, List.append_assoc]
    rfl
  · rw [hscopes, Array.size_push]
    cases b.scopes <;> rfl
  · obtain ⟨code, rfl, hspec⟩ := hd n hn
    exact ⟨⟨o, i, j, k⟩ :: code, rfl, hspec⟩

/-- Adding a constant, which may be a fragment that is known. -/
theorem onConstants {γ : Type} {add : Constants → γ × Constants}
    (stands : Constants → γ → Prop) (hextends : ∀ c : Constants, c.Extends (add c).2)
    (hnew : ∀ l c index f, pre l → (add c).2.fragments.get? index = some f →
      c.fragments.get? index = some f ∨ l.known f.id = some f)
    (hvalue : ∀ c, (add c).2.Fits → stands (add c).2 (add c).1)
    (hmono : ∀ (c d : Constants) i, c.Extends d → stands c i → stands d i) :
    Emits c pre (Emit.onConstants add) fun l i code =>
      code = [] ∧ stands l.program.constants i := by
  rintro ⟨⟨heap, constants, linked, fresh⟩, code, scopes⟩ i b' h
  obtain ⟨rfl, rfl⟩ : (add constants).1 = i ∧
      (⟨⟨heap, (add constants).2, linked, fresh⟩, code, scopes⟩ : Builder) = b' := by
    simpa [Emit.onConstants, Emit.onProgram] using h
  have hgrows : Program.Grows ⟨heap, constants, linked, fresh⟩
      ⟨heap, (add constants).2, linked, fresh⟩ :=
    Program.grows_constants (hextends constants)
  refine ⟨hgrows, fun hfits l pending hl hsound hlayout hpre => ?_⟩
  obtain ⟨program, known, templates⟩ := l
  obtain rfl : program = ⟨heap, constants, linked, fresh⟩ := hl
  refine ⟨⟨⟨heap, (add constants).2, linked, fresh⟩, known, templates⟩, [], rfl, ⟨hgrows,
    fun _ _ hb => hb, fun _ _ hk => hk, rfl⟩,
    hsound.constants (hextends constants) fun index f hf => ?_,
    by simp [Draft.raw], ?_, fun n hn => ⟨[], rfl, rfl, ?_⟩⟩
  · exact (hnew _ constants index f hpre hf).elim (hsound.fragments index f) id
  · cases scopes <;> rfl
  · exact hmono _ _ _ (Linkage.Grows.constants hn) (hvalue constants hfits.constants)

/-- Adding a constant that is not a fragment. -/
theorem onPool {γ : Type} {add : Constants → γ × Constants} (stands : Constants → γ → Prop)
    (hextends : ∀ c : Constants, c.Extends (add c).2)
    (hsame : ∀ c, (add c).2.fragments = c.fragments)
    (hvalue : ∀ c, (add c).2.Fits → stands (add c).2 (add c).1)
    (hmono : ∀ (c d : Constants) i, c.Extends d → stands c i → stands d i) :
    Emits c pre (Emit.onConstants add) fun l i code =>
      code = [] ∧ stands l.program.constants i :=
  onConstants stands hextends (fun _ c _ _ _ hf => .inl (hsame c ▸ hf)) hvalue hmono

end Emits

end

end TemplateMachine
