import TemplateMachine.Proofs.Emission.Basic

/-! Emission of constants and blocks. -/

namespace TemplateMachine

section

variable {c : BuildContext} {pre : Linkage → Prop}

/-! ### Constants -/

theorem fragments_encode (p : Primitive) (d : Constants) :
    (p.encode d).2.fragments = d.fragments := by
  cases p with
  | number x =>
    simp only [Primitive.encode]
    cases Primitive.immediate? x <;> rfl
  | string s => rfl
  | boolean b => cases b <;> rfl
  | null => rfl
  | undefined => rfl

theorem emits_string (s : String) :
    Emits c pre (Emit.string s) fun l i code =>
      code = [] ∧ l.program.constants.strings.get? i = some s :=
  Emits.onPool (fun d i => d.strings.get? i = some s)
    (fun d => d.extends_string s) (fun _ => rfl)
      (fun _ hfits => IndexedPool.get?_intern_eq hfits.strings.numbered)
    fun _ _ _ h hi => h.strings.get? hi

theorem emits_stringArray (names : List String) :
    Emits c pre (Emit.onConstants fun d => d.stringArray names) fun l i code =>
      code = [] ∧ l.program.constants.getStringArray? i = some names :=
  Emits.onPool (fun d i => d.getStringArray? i = some names)
    (fun d => d.extends_stringArray names) (fun d => d.fragments_stringList names)
    (fun _ hfits => Constants.getStringArray?_stringArray (.refl _) hfits.numbered)
    fun _ _ _ h hi => Constants.getStringArray?_mono h hi

theorem emits_onString (hpre : Persistent pre) (op : Opcode) (s : String) :
    Emits c pre (Emit.onString op s) fun l _ code => (c.coding l).onString op s code := by
  refine (emits_string s).seq hpre fun i code => Emits.op ?_
  rintro l ⟨rfl, hi⟩
  exact ⟨i, hi, rfl⟩

theorem emits_onHandle (hpre : Persistent pre) (op : Opcode) (handle : UInt32) :
    Emits c pre (Emit.onHandle op handle) fun l _ code =>
      (c.coding l).onHandle op handle code := by
  refine Emits.seq hpre (Emits.onPool (fun d i => d.handles.get? i = some handle)
    (fun d => d.extends_handle handle) (fun _ => rfl)
    (fun _ hfits => IndexedPool.get?_intern_eq hfits.handles.numbered) fun _ _ _ h hi =>
    h.handles.get? hi) fun i code => Emits.op ?_
  rintro l ⟨rfl, hi⟩
  exact ⟨i, hi, rfl⟩

theorem emits_onReferer (hpre : Persistent pre) (op : Opcode) :
    Emits c pre (Emit.onReferer op) fun l _ code => (c.coding l).onReferer op code := by
  show Emits c pre (do Emit.op op (← Emit.onConstants fun d => d.referer c.layout.referer)) _
  refine Emits.seq hpre (Emits.onPool
    (fun d i => d.referers.get? i = some c.layout.referer)
    (fun d => d.extends_referer _) (fun _ => rfl)
    (fun _ hfits => IndexedPool.get?_intern_eq hfits.referers.numbered) fun _ _ _ h hi =>
    h.referers.get? hi) fun i code => Emits.op ?_
  rintro l ⟨rfl, hi⟩
  exact ⟨i, hi, rfl⟩

theorem emits_primitive (hpre : Persistent pre) (p : Primitive) :
    Emits c pre (Emit.primitive p) fun l _ code => (c.coding l).primitive p code := by
  refine Emits.seq hpre (Emits.onPool (fun d w => Primitive.decode? w d = some p)
    (fun d => p.extends_encode d) (fragments_encode p)
    (fun _ hfits => Primitive.decode?_encode (.refl _) hfits.encodable)
    fun _ _ _ h hw => Primitive.decode?_mono h hw) fun w code => Emits.op ?_
  rintro l ⟨rfl, hw⟩
  exact ⟨w, hw, rfl⟩

theorem emits_reference (hpre : Persistent pre) (p : Primitive) :
    Emits c pre (Emit.primitiveReference p) fun l _ code => (c.coding l).reference p code :=
  (emits_primitive hpre p).seq hpre fun _ push => Emits.op fun _ hpush => ⟨push, hpush, rfl⟩

theorem emits_symbolTable (hpre : Persistent pre) (table : Option SymbolTable) :
    Emits c pre (Emit.symbolTable table) fun l _ code => (c.coding l).symbolTable table code := by
  cases table with
  | none => exact emits_primitive hpre .null
  | some t =>
    refine Emits.seq hpre (Emits.onPool (fun d i => d.tables.get? i = some t)
      (fun d => d.extends_table t) (fun _ => rfl)
      (fun _ hfits => IndexedPool.get?_intern_eq hfits.tables.numbered) fun _ _ _ h hi =>
      h.tables.get? hi) fun i code => Emits.op ?_
    rintro l ⟨rfl, hi⟩
    exact ⟨i, hi, rfl⟩

theorem emits_namespaceString (space : Option String) :
    Emits c pre (Emit.namespaceString space) fun l i code =>
      code = [] ∧ (c.coding l).space space i := by
  cases space with
  | none => exact Emits.pure 0 fun _ => ⟨rfl, rfl⟩
  | some s =>
    intro b i b' h
    have hstring : Emits c pre (Emit.string s) _ := emits_string s
    obtain ⟨grows, draft⟩ := hstring b i b' h
    refine ⟨grows, fun hfits l pending hl hsound hlayout hpre => ?_⟩
    obtain ⟨m, d, hm, hle, hm', hcode, hscopes, hspec⟩ :=
      draft hfits l pending hl hsound hlayout hpre
    refine ⟨m, d, hm, hle, hm', hcode, hscopes, fun n hn => ?_⟩
    obtain ⟨code, hd, hempty, hindex⟩ := hspec n hn
    refine ⟨code, hd, hempty, hindex, ?_⟩
    rintro rfl
    -- the empty string is the first one of a sound linkage
    have hi : (b.program.constants.strings.intern "").1 = i := by
      cases h
      rfl
    rw [← hi, IndexedPool.intern_first (hl ▸ hsound.empty)]

/-! ### Fragments -/

/-- The fragment is regular, if there is one. -/
def Fragment.AllRegular (f : Option Fragment) : Prop := ∀ g, f = some g → g.Regular

/-- The fragment is known, if there is one. -/
def Linkage.knows (l : Linkage) (f : Option Fragment) : Prop :=
  ∀ g, f = some g → l.known g.id = some g

theorem Persistent.knows (f : Option Fragment) : Persistent fun l => l.knows f :=
  fun _ _ h hf g hg => Linkage.Grows.known h _ _ (hf g hg)

theorem Linkage.knows_some {l : Linkage} {f : Fragment} (h : l.knows (some f)) :
    l.known f.id = some f := h f rfl

theorem emits_newFragment {make : FragmentId → Layout → Fragment}
    (hid : ∀ id, (make id c.layout).id = id) (hlayout : ∀ id, (make id c.layout).layout = c.layout)
    (hregular : ∀ id, (make id c.layout).Regular) :
    Emits c pre (Emit.newFragment make) fun l f code =>
      code = [] ∧ l.known f.id = some f ∧ ∃ id, f = make id c.layout := by
  rintro ⟨program, code, scopes⟩ f b' h
  obtain ⟨rfl, rfl⟩ : make (.nested program.fresh) c.layout = f ∧
      (⟨{ program with fresh := program.fresh + 1 }, code, scopes⟩ : Builder) = b' := by
    cases h
    exact ⟨rfl, rfl⟩
  refine ⟨⟨fun _ _ hw => hw, Nat.le_refl _, .refl _, fun _ _ hl => hl, Nat.le_succ _⟩,
    fun hfits l pending hl hsound htemplate _ => ?_⟩
  obtain rfl : l.program = program := hl
  refine ⟨l.name _, [], rfl, hsound.le_name _,
    hsound.name (hid _) ((hlayout _).symm ▸ htemplate) (hregular _), by simp [Draft.raw], ?_,
    fun n hn => ?_⟩
  · cases scopes <;> rfl
  · exact ⟨[], rfl, rfl, Linkage.Grows.known hn _ _ (l.known_name (hid _)), _, rfl⟩

theorem body_ofBlock (id : FragmentId) (l : Layout) (b : InlineBlock) :
    (Fragment.ofBlock id l b).body = .ofBlock .entry l b := rfl

theorem body_ofAttrs (id : FragmentId) (l : Layout) (attrs : List Statement) :
    (Fragment.ofAttrs id l attrs).body = .ofAttrs .entry l attrs := rfl

theorem emits_inlineBlock (index : Nat) :
    Emits c pre (Emit.inlineBlock index) fun l f code =>
      code = [] ∧ l.known f.id = some f ∧ c.layout.block? index = some f.body := by
  refine Emits.orFail (f := fun block => Emit.newFragment fun id layout => .ofBlock id layout block)
    fun block hblock => ?_
  refine (emits_newFragment (fun _ => rfl) (fun _ => rfl)
    fun id => .block id _ (List.mem_of_getElem? hblock)).mono ?_
  rintro l f _ ⟨hcode, hknown, id, rfl⟩
  refine ⟨hcode, hknown, ?_⟩
  rw [Layout.block?, hblock, body_ofBlock]
  rfl

theorem regular_of_inlineBlock {index : Nat} {b b' : Builder} {f : Fragment}
    (h : Emit.inlineBlock index c b = .ok f b') : f.Regular := by
  obtain ⟨block, b₁, h₁, h₂⟩ := Emit.bind_ok (f := fun block =>
    Emit.newFragment fun id layout => .ofBlock id layout block) h
  obtain ⟨hblock, -⟩ := Emit.orFail_ok h₁
  cases h₂
  exact .block _ _ (List.mem_of_getElem? hblock)

theorem regular_of_optionalBlock {index : Option Nat} {b b' : Builder} {f : Option Fragment}
    (h : Emit.optionalBlock index c b = .ok f b') : Fragment.AllRegular f := by
  cases index with
  | none =>
    cases h
    exact nofun
  | some index =>
    obtain ⟨g, b₁, h₁, h₂⟩ := Emit.bind_ok (x := Emit.inlineBlock index) h
    obtain ⟨rfl, -⟩ := Emit.pure_ok h₂
    exact fun _ hg => Option.some.inj hg ▸ regular_of_inlineBlock h₁

theorem emits_optionalBlock (index : Option Nat) :
    Emits c pre (Emit.optionalBlock index) fun l f code =>
      code = [] ∧ l.knows f ∧ c.layout.optionalBlock? index = some (f.map Fragment.body) := by
  cases index with
  | none => exact Emits.pure none fun _ => ⟨rfl, nofun, rfl⟩
  | some index =>
    refine Emits.strengthen (?_ : Emits c (fun _ => True) _ _) fun _ _ => trivial
    refine (emits_inlineBlock index).seq .true fun f code => Emits.pure (some f) ?_
    rintro l ⟨rfl, hknown, hblock⟩
    refine ⟨rfl, ?_, ?_⟩
    · rintro g ⟨⟩
      exact hknown
    · rw [Layout.optionalBlock?, hblock]
      rfl

theorem emits_attrsBlock {attrs : List Statement}
    (hattrs : attrs ∈ c.layout.template.attributes) :
    Emits c pre (Emit.attrsBlock attrs) fun l f code =>
      code = [] ∧ l.known f.id = some f ∧ f.body = .ofAttrs .entry c.layout attrs := by
  refine (emits_newFragment (fun _ => rfl) (fun _ => rfl) fun id => .attrs id _ hattrs).mono ?_
  rintro l f _ ⟨hcode, hknown, id, rfl⟩
  exact ⟨hcode, hknown, body_ofAttrs id _ _⟩

theorem regular_of_attrsBlock {attrs : List Statement}
    (hattrs : attrs ∈ c.layout.template.attributes) {b b' : Builder} {f : Fragment}
    (h : Emit.attrsBlock attrs c b = .ok f b') : f.Regular := by
  cases h
  exact .attrs _ _ hattrs

/-- The constant of a known fragment is that fragment: no other one has its identity. -/
theorem emits_fragment (f : Fragment) :
    Emits c (fun l => l.known f.id = some f) (Emit.onConstants fun d => d.fragment f)
      fun l i code =>
        code = [] ∧ l.known f.id = some f ∧ l.program.constants.fragments.get? i = some f := by
  refine Emits.of_sound (.known f) (Emits.onConstants
    (fun d i => ∃ g, d.fragments.get? i = some g ∧ (g == f) = true)
    (fun d => d.extends_fragment f) (fun l d i g hl hg => ?_)
    (fun _ hfits => Pool.get?_intern_self hfits.fragments.numbered)
    fun _ _ _ h ⟨g, hg, heq⟩ => ⟨g, h.fragments.get? hg, heq⟩) ?_
  · rcases Pool.get?_intern hg with hold | rfl
    · exact .inl hold
    · exact .inr hl
  · rintro m _ n i _ hsound hf hn ⟨rfl, g, hg, heq⟩
    have hid : g.id = f.id := eq_of_beq heq
    have hknown := hsound.fragments i g hg
    rw [hid, hf] at hknown
    obtain rfl := Option.some.inj hknown
    exact ⟨rfl, Linkage.Grows.known hn _ _ hf, (Linkage.Grows.constants hn).fragments.get? hg⟩

theorem emits_linked (hc : c.Faithful) {f : Fragment} (hregular : f.Regular) :
    Emits c (fun l => l.known f.id = some f) (Emit.linked f) fun l handle code =>
      code = [] ∧ l.known f.id = some f ∧ l.program.linked? f.id = some handle := by
  rintro ⟨program, code, scopes⟩ handle b' h
  obtain ⟨program', hlink, rfl⟩ : ∃ program', c.link f program = .ok handle program' ∧
      (⟨program', code, scopes⟩ : Builder) = b' := by
    have h' : Emit.onProgram (c.link f) c ⟨program, code, scopes⟩ = .ok handle b' := h
    simp only [Emit.onProgram] at h'
    split at h'
    · cases h'
      exact ⟨_, ‹_›, rfl⟩
    · cases h'
  obtain ⟨hgrows, hsound⟩ := hc.link f hregular program handle program' hlink
  refine ⟨hgrows, fun hfits l pending hl hs _ hf => ?_⟩
  obtain ⟨m, hm, hle, hs', hlinked⟩ := hsound hfits l pending hl hs hf
  refine ⟨m, [], hm, hle, hs', by simp [Draft.raw], ?_, fun n hn => ⟨[], rfl, rfl, ?_, ?_⟩⟩
  · cases scopes <;> rfl
  · exact Linkage.Grows.known (Linkage.le_trans hle hn) _ _ hf
  · obtain rfl := hm
    exact Linkage.Grows.linked hn hlinked

theorem emits_fragmentConstant (f : Fragment) :
    Emits c (fun l => l.known f.id = some f) (Emit.fragmentConstant f) fun l _ code =>
      ∃ i, l.known f.id = some f ∧ l.program.constants.fragments.get? i = some f ∧
        code = [⟨.constant, i, 0, 0⟩] := by
  refine (emits_fragment f).seq (.known f) fun i code => Emits.op ?_
  rintro l ⟨rfl, hknown, hi⟩
  exact ⟨i, hknown, hi, rfl⟩

/-! ### Blocks -/

theorem emits_pushBlock (hc : c.Faithful) {f : Option Fragment}
    (hregular : Fragment.AllRegular f) :
    Emits c (fun l => l.knows f) (Emit.pushBlock f) fun l _ code =>
      (c.coding l).block f code := by
  cases f with
  | none => exact emits_primitive (.knows none) .null
  | some f =>
    have hknows : ∀ l : Linkage, l.knows (some f) → l.known f.id = some f :=
      fun _ h => Linkage.knows_some h
    refine Emits.byStrategy (fun hs => ?_) fun hs => ?_
    · refine ((emits_fragmentConstant f).strengthen hknows).mono fun l _ code hcode => ?_
      simp only [Coding.block, BuildContext.coding, hs]
      exact hcode
    · refine Emits.seq (.knows (some f)) ((emits_linked hc (hregular f rfl)).strengthen hknows)
        fun handle code => (emits_primitive (.knows (some f)) _).mono ?_
      rintro l _ push hpush ⟨rfl, hknown, hlinked⟩
      simp only [Coding.block, BuildContext.coding, hs]
      exact ⟨handle, hknown, hlinked, hpush⟩

theorem emits_resolveBlock :
    Emits c pre Emit.resolveBlock fun l _ code => code = (c.coding l).resolve := by
  refine Emits.byStrategy (fun hs => Emits.op fun l => ?_) fun hs => Emits.pure () fun l => ?_
  · simp only [Coding.resolve, BuildContext.coding, hs]
  · simp only [Coding.resolve, BuildContext.coding, hs]

theorem emits_pushYieldable (hc : c.Faithful) {f : Option Fragment}
    (hregular : Fragment.AllRegular f) :
    Emits c (fun l => l.knows f) (Emit.pushYieldable f) fun l _ code =>
      (c.coding l).yieldable f code :=
  (emits_symbolTable (.knows f) _).seq (.knows f) fun _ table => (emits_pushBlock hc hregular).mono
    fun _ _ push hpush htable => ⟨table, push, htable, hpush, rfl⟩

theorem emits_invokeStatic (hc : c.Faithful) {f : Fragment} (hregular : f.Regular) :
    Emits c (fun l => l.known f.id = some f) (Emit.invokeStatic f) fun l _ code =>
      (c.coding l).staticCall f code := by
  refine Emits.byStrategy (fun hs => ?_) fun hs => ?_
  · refine (emits_fragmentConstant f).seq (.known f) fun _ code => Emits.op_seq (Emits.op ?_)
    rintro l ⟨i, hknown, hi, rfl⟩
    simp only [Coding.staticCall, BuildContext.coding, hs]
    exact ⟨i, hknown, hi, rfl⟩
  · refine (emits_linked hc hregular).seq (.known f) fun handle code => Emits.op ?_
    rintro l ⟨rfl, hknown, hlinked⟩
    simp only [Coding.staticCall, BuildContext.coding, hs]
    exact ⟨handle, hknown, hlinked, rfl⟩

theorem emits_bindParameters (depth : UInt32) (symbols : List UInt32) :
    Emits c pre (Emit.bindParameters depth symbols) fun _ _ code =>
      code = Coding.bindParameters depth symbols := by
  induction symbols generalizing depth with
  | nil => exact Emits.pure () fun _ => rfl
  | cons symbol rest ih =>
    refine Emits.op_seq (Emits.op_seq ((ih (depth - 1)).mono ?_))
    rintro l _ _ rfl
    rfl

theorem emits_invokeStaticBlock (hc : c.Faithful) {f : Fragment} (hregular : f.Regular)
    (supplied : UInt32) :
    Emits c (fun l => l.known f.id = some f) (Emit.invokeStaticBlock f supplied) fun l _ code =>
      (c.coding l).staticBlock f supplied code := by
  have hknown := Persistent.known f
  have hpush : Emits c (fun l => l.known f.id = some f) (Emit.pushBlock (some f)) fun l _ code =>
      (c.coding l).block (some f) code :=
    (emits_pushBlock hc fun _ hg => Option.some.inj hg ▸ hregular).strengthen fun _ hf _ hg =>
      Option.some.inj hg ▸ hf
  rcases hbound : f.table.parameters.take supplied.toNat with _ | ⟨symbol, rest⟩
  · simp only [Emit.invokeStaticBlock, hbound, List.isEmpty_nil, if_true]
    refine Emits.op_seq (hpush.seq hknown fun _ push => ?_)
    refine emits_resolveBlock.seq hknown fun _ resolve => Emits.op_seq (Emits.op ?_)
    rintro l rfl hblock
    refine ⟨push, hblock, ?_⟩
    simp [hbound, Coding.enterParameters, Coding.leaveParameters]
  · simp only [Emit.invokeStaticBlock, hbound, List.isEmpty_cons, if_false, Bool.false_eq_true]
    refine Emits.op_seq (Emits.op_seq
      ((emits_bindParameters supplied _).seq hknown fun _ bind => ?_))
    refine hpush.seq hknown fun _ push => emits_resolveBlock.seq hknown fun _ resolve => ?_
    refine Emits.op_seq (Emits.op_seq (Emits.op ?_))
    rintro l rfl hblock rfl
    refine ⟨push, hblock, ?_⟩
    simp [hbound, Coding.enterParameters, Coding.leaveParameters]

end

end TemplateMachine
