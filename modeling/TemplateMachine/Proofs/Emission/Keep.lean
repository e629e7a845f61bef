import TemplateMachine.Proofs.Emission.Upkeep

/-! What emission keeps, whether it succeeds or fails: what its elementary steps keep. -/

namespace TemplateMachine

/-- The fragments that an invocation passes. -/
def Invocation.passed (i : Invocation) : List Fragment :=
  i.block.toList ++ i.inverse.toList ++ i.attrs.toList

theorem Invocation.mem_passed_of_blockOf? {i : Invocation} {symbol : String}
    {block : Option Fragment} {f : Fragment} (h : i.blockOf? symbol = some block)
    (hf : f ∈ block) : f ∈ i.passed := by
  have hpassed : f ∈ i.block ∨ f ∈ i.inverse ∨ f ∈ i.attrs := by
    unfold Invocation.blockOf? at h
    split at h
    · exact .inl (Option.some.inj h ▸ hf)
    · split at h
      · exact .inr (.inl (Option.some.inj h ▸ hf))
      · split at h
        · exact .inr (.inr (Option.some.inj h ▸ hf))
        · cases h
  simpa [Invocation.passed, or_assoc] using hpassed

/-- The blocks of a block statement. -/
def BlockCall.blocks (call : BlockCall) : List Fragment :=
  call.template.toList ++ call.inverse.toList

/-- The fragments that are made for blocks and attributes of a template may be linked. -/
structure Upkeep.Covers (u : Upkeep) (layout : Layout) (blocks : List Nat)
    (attributes : List (List Statement)) : Prop where
  blocks : ∀ i ∈ blocks, ∀ b, layout.template.blocks[i]? = some b →
    ∀ id, u.admits (.ofBlock id layout b)
  attributes : ∀ attrs ∈ attributes, ∀ id, u.admits (.ofAttrs id layout attrs)

theorem Upkeep.Covers.mono {u : Upkeep} {layout : Layout} {blocks blocks' : List Nat}
    {attributes attributes' : List (List Statement)} (h : u.Covers layout blocks attributes)
    (hblocks : blocks' ⊆ blocks) (hattributes : attributes' ⊆ attributes) :
    u.Covers layout blocks' attributes' :=
  ⟨fun i hi => h.blocks i (hblocks hi), fun attrs hattrs => h.attributes attrs (hattributes hattrs)⟩

section

variable {α β γ : Type} {c : BuildContext} {u : Upkeep} {labels before after : List (List String)}

namespace BuildContext.Maintains

open Emit (Upholds)

section

variable (h : c.Maintains u)

include h

theorem onlyParam (call : BlockCall) : Emit.Keeps c u labels labels (Emit.onlyParam call) := by
  unfold Emit.onlyParam
  split
  · exact .pure _
  · exact h.fail _

omit h in
theorem literalComponent? (definition : Expression) :
    Emit.Keeps c u labels labels (Emit.literalComponent? definition) := by
  unfold Emit.literalComponent?
  split
  · exact fun _ hb => hb
  · exact .pure none

/-- An instruction without operands that could be missing, and what follows. -/
theorem op_seq {o : Opcode} {i j k : UInt32} {f : Unit → Emit β}
    (hfree : Instruction.isFree ⟨o, i, j, k⟩ = true) (hf : Emit.Keeps c u labels after (f ())) :
    Emit.Keeps c u labels after (Emit.op o i j k >>= f) :=
  (h.op hfree).seq fun _ => hf

/-! ### Markup and blocks -/

/-- The index of a string, beside what is named already. -/
theorem string {named : Constants → Prop} (hnamed : Constants.Persists named) (s : String) :
    Upholds c u labels labels named (Emit.string s) fun i pools => named pools ∧
    pools.strings.Names i :=
  h.addConstant _ (fun pools => pools.adds_string s) fun pools _ hpools =>
    ⟨hnamed _ _ (pools.extends_string s) hpools, IndexedPool.names_intern _ _⟩

theorem onString {o : Opcode} (s : String) (ho : o.takesString = true) :
    Emit.Keeps c u labels labels (Emit.onString o s) :=
  (h.string .any s).seq fun _ => (h.pushNamed (Opcode.isOrdinary_of_takesString ho)
    fun _ hpools => Constants.supplies_of_takesString ho hpools.2).forget

theorem onHandle {o : Opcode} (handle : UInt32) (ho : o.takesHandle = true) :
    Emit.Keeps c u labels labels (Emit.onHandle o handle) :=
  Upholds.seq (h.addConstant (fun i pools => pools.handles.Names i)
    (fun pools => pools.adds_handle handle) fun _ _ _ => IndexedPool.names_intern _ _) fun _ =>
    (h.pushNamed (Opcode.isOrdinary_of_takesHandle ho)
      fun _ hpools => Constants.supplies_of_takesHandle ho hpools).forget

theorem onReferer {o : Opcode} (ho : o.takesReferer = true) :
    Emit.Keeps c u labels labels (Emit.onReferer o) :=
  Emit.Keeps.seq (x := Emit.referer) (fun _ hb => hb) fun name =>
    Upholds.seq (h.addConstant (fun i pools => pools.referers.Names i)
      (fun pools => pools.adds_referer name) fun _ _ _ => IndexedPool.names_intern _ _) fun _ =>
      (h.pushNamed (Opcode.isOrdinary_of_takesReferer ho)
        fun _ hpools => Constants.supplies_of_takesReferer ho hpools).forget

/-- A primitive, beside what is named already. -/
theorem primitive {named : Constants → Prop} (hnamed : Constants.Persists named) (p : Primitive) :
    Upholds c u labels labels named (Emit.primitive p) fun _ => named :=
  Upholds.seq (h.addConstant (fun w pools => named pools ∧ Primitive.decode? w pools ≠ none)
    (fun pools => pools.adds_encode p) fun pools _ hpools =>
      ⟨hnamed _ _ (pools.adds_encode p : pools.Adds .lazy _).grows hpools,
        p.decode?_encode_ne_none pools⟩)
    fun _ => (h.pushNamed rfl fun _ hpools => Constants.supplies_primitive hpools.2).mono
      fun _ _ hpools => hpools.1

theorem primitiveReference {named : Constants → Prop} (hnamed : Constants.Persists named)
    (p : Primitive) : Upholds c u labels labels named (Emit.primitiveReference p) fun _ => named :=
  (h.primitive hnamed p).seq fun _ =>
    h.pushNamed rfl fun _ _ _ => rfl

theorem null : Emit.Keeps c u labels labels (Emit.primitive .null) := h.primitive .any .null

theorem reference (p : Primitive) : Emit.Keeps c u labels labels (Emit.primitiveReference p) :=
  h.primitiveReference .any p

theorem symbolTable : (t : Option SymbolTable) → Emit.Keeps c u labels labels (Emit.symbolTable t)
  | some t =>
    Upholds.seq (h.addConstant (fun i pools => pools.tables.Names i)
      (fun pools => pools.adds_table t) fun _ _ _ => IndexedPool.names_intern _ _) fun _ =>
      (h.pushNamed rfl fun _ hpools => Constants.supplies_pushSymbolTable hpools).forget
  | none => h.null

/-- The index of a namespace.  It is zero if there is none, and there is a string at zero if there
is one at all. -/
theorem namespaceString {named : Constants → Prop} (hnamed : Constants.Persists named)
    (hstrings : ∀ pools, named pools → pools.strings.Names 0) :
    (space : Option String) → Upholds c u labels labels named (Emit.namespaceString space)
      fun i pools => named pools ∧ pools.strings.Names i
  | some s => h.string hnamed s
  | none =>
    Emit.Meets.pure fun _ hb => hb.weaken fun pools hpools => ⟨hpools, hstrings pools hpools⟩

/-- The indices of a name and of its namespace. -/
theorem attributeName {β : Type} {f : UInt32 → UInt32 → Emit β} (name : String)
    (space : Option String)
    (hf : ∀ i k, Upholds c u labels after
      (fun pools => pools.strings.Names i ∧ pools.strings.Names k)
      (f i k) fun _ => Constants.Any) :
    Emit.Keeps c u labels after (do
      let i ← Emit.string name
      let k ← Emit.namespaceString space
      f i k) := by
  refine Upholds.seq (h.string .any name) fun i => ?_
  have hnamed : Constants.Persists fun pools => Constants.Any pools ∧ pools.strings.Names i :=
    fun _ _ hgrows hpools => ⟨trivial, hgrows.strings.names _ hpools.2⟩
  refine Upholds.seq (h.namespaceString hnamed (fun pools hpools => ?_) space) fun k => ?_
  · have hlt := Pool.names_iff_lt.mp hpools.2
    exact Pool.names_iff_lt.mpr (Nat.lt_of_le_of_lt (Nat.zero_le _) hlt)
  · exact (hf i k).weaken (fun _ hb => hb.weaken fun _ hpools => ⟨hpools.1.2, hpools.2⟩)
      fun _ _ hb => hb

theorem staticAttr (mode : AttrMode) (name value : String) (space : Option String) :
    Emit.Keeps c u labels labels (Emit.staticAttr mode name value space) := by
  refine h.attributeName name space fun i k => ?_
  have hnamed : Constants.Persists fun pools => pools.strings.Names i ∧ pools.strings.Names k :=
    fun _ _ hgrows hpools => ⟨hgrows.strings.names _ hpools.1, hgrows.strings.names _ hpools.2⟩
  cases mode with
  | component =>
    exact (h.primitiveReference hnamed _).seq fun _ =>
      (h.pushNamed rfl fun _ hpools => Constants.supplies_attr (.inr rfl) hpools.1 hpools.2).forget
  | element =>
    exact (h.string hnamed value).seq fun j =>
      (h.pushNamed rfl fun _ hpools =>
        Constants.supplies_staticAttr hpools.1.1 hpools.2 hpools.1.2).forget

theorem dynamicAttr (mode : AttrMode) (name : String) (space : Option String) (trusting : Bool) :
    Emit.Keeps c u labels labels (Emit.dynamicAttr mode name space trusting) := by
  refine h.attributeName name space fun i k => ?_
  cases mode with
  | component =>
    exact (h.pushNamed rfl fun _ hpools =>
      Constants.supplies_attr (.inr rfl) hpools.1 hpools.2).forget
  | element =>
    exact (h.pushNamed rfl fun _ hpools =>
      Constants.supplies_attr (.inl rfl) hpools.1 hpools.2).forget

theorem fragmentConstant (f : Fragment) (hlazy : c.strategy = .lazy) :
    Emit.Keeps c u labels labels (Emit.fragmentConstant f) :=
  Upholds.seq (h.addConstant (fun i pools => pools.fragments.Names i)
    (fun pools => pools.adds_fragment f hlazy) fun _ _ _ => Pool.names_intern _ _) fun _ =>
    (h.pushNamed rfl fun _ hpools => Constants.supplies_constant hpools).forget

theorem block {f : Fragment} (hf : u.admits f) :
    Emit.Keeps c u labels labels (Emit.pushBlock (some f)) := by
  refine .read ?_
  cases hstrategy : c.strategy with
  | lazy => exact h.fragmentConstant f hstrategy
  | eager =>
    exact (h.link hf hstrategy).bind fun handle =>
      Emit.Meets.weaken (h.primitive .any _) (fun _ hb => hb.1) fun _ _ hb => hb

theorem call {f : Fragment} (hf : u.admits f) :
    Emit.Keeps c u labels labels (Emit.invokeStatic f) := by
  refine .read ?_
  cases hstrategy : c.strategy with
  | lazy => exact (h.fragmentConstant f hstrategy).seq fun _ => h.op_seq rfl (h.op rfl)
  | eager =>
    refine (h.link hf hstrategy).bind fun handle b hb => ?_
    exact ⟨h.pushed hb.1.holds rfl (fun hne => absurd rfl hne) fun _ => hb.2, hb.1.scopes,
      hb.1.closed, trivial⟩

theorem inlineBlock (index : Nat) : Emit.Keeps c u labels labels (Emit.inlineBlock index) :=
  (h.orFail _ _).seq fun _ => h.newFragment _

theorem optionalBlock :
    (index : Option Nat) → Emit.Keeps c u labels labels (Emit.optionalBlock index)
  | some index => (h.inlineBlock index).seq fun _ => .pure _
  | none => .pure none

/-- A block that may be linked is made, and used. -/
theorem optionalBlock_seq {next : Option Fragment → Emit β} {index : Option Nat}
    (hcovers : u.Covers c.layout index.toList [])
    (hnext : ∀ f : Option Fragment, (∀ g ∈ f, u.admits g) → Emit.Keeps c u labels after (next f)) :
    Emit.Keeps c u labels after (Emit.optionalBlock index >>= next) := by
  refine (h.optionalBlock index).seq_of (fun b f b' hf => ?_) hnext
  cases index with
  | none =>
    obtain ⟨rfl, -⟩ := Emit.pure_ok hf
    exact nofun
  | some i =>
    obtain ⟨g, b₁, hg, hrest⟩ := Emit.bind_ok hf
    obtain ⟨rfl, -⟩ := Emit.pure_ok hrest
    obtain ⟨block, b₂, hblock, hmake⟩ := Emit.bind_ok
      (show (do
          let block ← Emit.orFail c.layout.template.blocks[i]? (.unknownBlockIndex i)
          Emit.newFragment fun id layout => .ofBlock id layout block : Emit Fragment) c b =
          .ok g b₁ from hg)
    obtain ⟨hblock, -⟩ := Emit.orFail_ok hblock
    rintro _ ⟨⟩
    cases hmake
    exact hcovers.blocks i (by simp) block hblock _

theorem pushBlock : (f : Option Fragment) → (∀ g ∈ f, u.admits g) →
    Emit.Keeps c u labels labels (Emit.pushBlock f)
  | some _, hf => h.block (hf _ rfl)
  | none, _ => h.null

theorem resolveBlock : Emit.Keeps c u labels labels Emit.resolveBlock := by
  refine .read ?_
  cases c.strategy with
  | lazy => exact h.op rfl
  | eager => exact .pure ()

theorem pushYieldable {block : Option Fragment} (hblock : ∀ f ∈ block, u.admits f) :
    Emit.Keeps c u labels labels (Emit.pushYieldable block) :=
  (h.symbolTable _).seq fun _ => h.pushBlock block hblock

theorem bindParameters (depth : UInt32) (symbols : List UInt32) :
    Emit.Keeps c u labels labels (Emit.bindParameters depth symbols) := by
  induction symbols generalizing depth with
  | nil => exact .pure ()
  | cons symbol rest ih => exact h.op_seq rfl (h.op_seq rfl (ih _))

theorem invokeStaticBlock {f : Fragment} (hf : u.admits f) (supplied : UInt32) :
    Emit.Keeps c u labels labels (Emit.invokeStaticBlock f supplied) := by
  have hcall (x : Emit Unit) (hx : Emit.Keeps c u labels labels x) :
    Emit.Keeps c u labels labels (do
      Emit.pushBlock f
      Emit.resolveBlock
      Emit.op .invokeVirtual
      x) :=
    (h.block hf).seq fun _ => h.resolveBlock.seq fun _ => h.op_seq rfl hx
  refine h.op_seq rfl ?_
  cases hbound : (f.table.parameters.take supplied.toNat).isEmpty with
  | true =>
    rw [if_pos rfl]
    exact hcall _ (h.op rfl)
  | false =>
    exact h.op_seq rfl ((h.bindParameters _ _).seq fun _ => hcall _ (h.op_seq rfl (h.op rfl)))

/-! ### Expressions -/

theorem pushArgs (count : Nat) (names : List String) (synthetic : Bool) :
    Emit.Keeps c u labels labels (Emit.pushArgs count names synthetic) :=
  Upholds.seq (h.addConstant (fun i pools => pools.getStringArray? i ≠ none)
    (fun pools => pools.adds_stringArray names) fun _ hclosed _ =>
      hclosed.getStringArray?_stringArray names) fun _ =>
    (h.pushNamed rfl fun _ hpools => Constants.supplies_pushArgs hpools).forget

theorem properties : (path : List String) → Emit.Keeps c u labels labels (Emit.properties path)
  | [] => .pure ()
  | key :: rest => (h.onString key rfl).seq fun _ => properties rest

theorem hasBlockParams (symbol : UInt32) :
    Emit.Keeps c u labels labels (Emit.hasBlockParams symbol) :=
  h.op_seq rfl (h.resolveBlock.seq fun _ => (h.op rfl))

end

mutual

theorem expression (h : c.Maintains u) :
    (e : Expression) → Emit.Keeps c u labels labels (Emit.expression e)
  | .value json => by
    unfold Emit.expression
    split
    · exact h.reference _
    · exact h.fail _
  | .undefined => h.reference _
  | .get _ path => h.op_seq rfl (h.properties path)
  | .unknown name => by
    refine (Emit.Keeps.resolve Lookup.helper? name).seq fun found => ?_
    cases found with
    | some handle => exact (h.pushArgs _ _ _).seq fun _ => h.onHandle handle rfl
    | none => exact h.op_seq rfl (h.onString name rfl)
  | .helper name params hash => by
    unfold Emit.expression
    split
    · split
      · rename_i definition rest
        exact (h.expression definition).seq fun _ => (h.expressions rest).seq fun _ =>
          (h.namedValues hash).seq fun _ => (h.pushArgs _ _ _).seq fun _ => h.onReferer rfl
      · exact h.fail _
    · exact (Emit.Keeps.resolve Lookup.helper? name).seq fun _ => (h.orFail _ _).seq fun handle =>
        (h.params? params).seq fun _ => (h.namedValues hash).seq fun _ =>
          (h.pushArgs _ _ _).seq fun _ => h.onHandle handle rfl
  | .concat parts => (h.expressions parts).seq fun _ => h.op rfl
  | .hasBlock _ => h.op rfl
  | .hasBlockParams symbol => h.hasBlockParams symbol

theorem expressions (h : c.Maintains u) :
    (es : List Expression) → Emit.Keeps c u labels labels (Emit.expressions es)
  | [] => .pure ()
  | e :: rest => (h.expression e).seq fun _ => h.expressions rest

theorem params? (h : c.Maintains u) : (params : Option (List Expression)) →
    Emit.Keeps c u labels labels (Emit.params? params)
  | none => .pure 0
  | some es => (h.expressions es).seq fun _ => .pure _

theorem namedValues (h : c.Maintains u) : (hash : Option (HashOf Expression)) →
    Emit.Keeps c u labels labels (Emit.namedValues hash)
  | none => .pure []
  | some ⟨_, values⟩ => (h.expressions values).seq fun _ => .pure _

end

section

variable (h : c.Maintains u)

include h

theorem args (params : List Expression) (hash : Option Hash) (synthetic : Bool) :
    Emit.Keeps c u labels labels (Emit.args params hash synthetic) :=
  (h.expressions params).seq fun _ => (h.namedValues hash).seq fun _ => h.pushArgs _ _ _

theorem yield (slot : UInt32) (params : List Expression) :
    Emit.Keeps c u labels labels (Emit.yield slot params) :=
  (h.args params none false).seq fun _ => h.op_seq rfl (h.resolveBlock.seq fun _ =>
    h.op_seq rfl (h.op_seq rfl (h.op rfl)))

/-! ### Invocations -/

theorem enterComponent : Emit.Keeps c u labels labels Emit.enterComponent :=
  h.op_seq rfl (h.op_seq rfl (h.op rfl))

theorem createComponent (i : Invocation) : Emit.Keeps c u labels labels (Emit.createComponent i) :=
  h.op_seq rfl (h.op_seq rfl (h.op rfl))

theorem leaveComponent : Emit.Keeps c u labels labels Emit.leaveComponent :=
  h.op_seq rfl (h.op_seq rfl (h.op_seq rfl (h.op_seq rfl (h.op_seq rfl (h.op rfl)))))

theorem invokeComponent {i : Invocation} (hi : ∀ f ∈ i.passed, u.admits f)
    {layout : Option Fragment} (hlayout : ∀ f ∈ layout, u.admits f) :
    Emit.Keeps c u labels labels (Emit.invokeComponent i layout) := by
  simp only [Invocation.passed, List.mem_append, Option.mem_toList] at hi
  refine h.enterComponent.seq fun _ =>
    (h.pushYieldable fun f hf => hi f (.inl (.inl hf))).seq fun _ =>
    (h.pushYieldable fun f hf => hi f (.inl (.inr hf))).seq fun _ =>
    (h.pushYieldable fun f hf => hi f (.inr hf)).seq fun _ =>
    (h.args i.params i.hash i.synthetic).seq fun _ => h.op_seq rfl ?_
  refine (h.createComponent i).seq fun _ => h.op_seq rfl (h.op_seq rfl ?_)
  cases layout with
  | some f =>
    exact (h.symbolTable _).seq fun _ => (h.block (hlayout f rfl)).seq fun _ =>
      h.resolveBlock.seq fun _ => h.op_seq rfl h.leaveComponent
  | none => exact h.op_seq rfl (h.op_seq rfl h.leaveComponent)

omit h in
/-- The operations that bind symbols. -/
def Binds (o : Opcode) : Prop := o = .setVariable ∨ o = .setBlock

/-- What is bound with these operations may be bound later on. -/
theorem pushSymbol_seq {next : Option Opcode → Emit β} {i : Invocation}
    (hi : ∀ f ∈ i.passed, u.admits f) (symbol : String)
    (hnext : ∀ binder : Option Opcode, (∀ o, binder = some o → Binds o) →
      Emit.Keeps c u labels after (next binder)) :
    Emit.Keeps c u labels after (Emit.pushSymbol i symbol >>= next) := by
  have hbinder (o : Opcode) (ho : Binds o) : Emit.Keeps c u labels after (next (some o)) :=
    hnext (some o) fun _ heq => Option.some.inj heq ▸ ho
  unfold Emit.pushSymbol
  split
  · simp only [bind_assoc, pure_bind]
    refine (h.orFail _ _).seq_of (fun b block b' hb => (Emit.orFail_ok hb).1) fun block hblock => ?_
    exact (h.pushYieldable fun f hf => hi f (Invocation.mem_passed_of_blockOf? hblock hf)).seq
      fun _ => hbinder .setBlock (.inr rfl)
  · split
    · simp only [bind_assoc, pure_bind]
      exact (h.expression _).seq fun _ => hbinder .setVariable (.inl rfl)
    · exact hnext none nofun
  · exact hnext none nofun

theorem pushSymbols_seq {next : List (UInt32 × Opcode) → Emit β} {i : Invocation}
    (hi : ∀ f ∈ i.passed, u.admits f) (symbols : List String) {bound : List (UInt32 × Opcode)}
    (slot : UInt32) (hbound : ∀ entry ∈ bound, Binds entry.2)
    (hnext : ∀ bound : List (UInt32 × Opcode), (∀ entry ∈ bound, Binds entry.2) →
      Emit.Keeps c u labels after (next bound)) :
    Emit.Keeps c u labels after (Emit.pushSymbols i bound slot symbols >>= next) := by
  induction symbols generalizing bound slot with
  | nil => exact hnext bound hbound
  | cons symbol rest ih =>
    simp only [Emit.pushSymbols, bind_assoc]
    refine h.pushSymbol_seq hi symbol fun binder hbinder => ?_
    cases binder with
    | some o => exact ih _ (List.forall_mem_cons.mpr ⟨hbinder o rfl, hbound⟩)
    | none => exact ih _ hbound

theorem bindSymbols (bound : List (UInt32 × Opcode)) (hbound : ∀ entry ∈ bound, Binds entry.2) :
    Emit.Keeps c u labels labels (Emit.bindSymbols bound) := by
  induction bound with
  | nil => exact .pure ()
  | cons entry rest ih =>
    obtain ⟨⟨slot, binder⟩, hrest⟩ := entry, List.forall_mem_cons.mp hbound
    obtain ⟨rfl | rfl, hrest⟩ := hrest <;> exact h.op_seq rfl (ih hrest)

theorem invokeStaticComponent (capabilities : Capabilities) {layout : Fragment}
    (hlayout : u.admits layout) {i : Invocation} (hi : ∀ f ∈ i.passed, u.admits f) :
    Emit.Keeps c u labels labels (Emit.invokeStaticComponent capabilities layout i) := by
  refine (h.orFail _ _).seq fun table => ?_
  have hbody : Emit.Keeps c u labels labels (do
      Emit.op .registerComponentDestructor Emit.current
      Emit.op .getComponentSelf Emit.current
      let bound ← Emit.pushSymbols i [(0, .setVariable)] 1 table.symbols
      Emit.op .rootScope (UInt32.ofNat table.symbols.length + 1) i.hasBlocks.toUInt32
      Emit.bindSymbols bound
      Emit.op .pushFrame
      Emit.invokeStatic layout
      Emit.leaveComponent) := by
    refine h.op_seq rfl (h.op_seq rfl
      (h.pushSymbols_seq hi table.symbols 1 ?_ fun bound hbound => ?_))
    · exact List.forall_mem_singleton.mpr (.inl rfl)
    · exact h.op_seq rfl ((h.bindSymbols bound hbound).seq fun _ =>
        h.op_seq rfl ((h.call hlayout).seq fun _ => h.leaveComponent))
  split
  · exact h.invokeComponent hi fun f hf => Option.some.inj hf ▸ hlayout
  · refine h.enterComponent.seq fun _ => ?_
    cases capabilities.createArgs with
    | true =>
      exact h.op_seq rfl ((h.args _ _ _).seq fun _ => (h.createComponent i).seq fun _ =>
        h.op_seq rfl hbody)
    | false => exact (h.createComponent i).seq fun _ => hbody

omit h in
theorem nothing : ∀ f ∈ (none : Option Fragment), u.admits f :=
  fun _ hf => (Option.not_mem_none _ hf).elim

theorem component (handle : UInt32) {i : Invocation} (hi : ∀ f ∈ i.passed, u.admits f) :
    Emit.Keeps c u labels labels (Emit.component handle i) := by
  refine .read ((h.onHandle handle rfl).seq fun _ => ?_)
  split
  · rename_i layout hlayout
    have hadmits : u.admits layout := by
      split at hlayout
      · cases hlayout
      · exact h.layouts _ _ hlayout
    exact (h.invokeStaticComponent _ hadmits hi).seq fun _ => h.op rfl
  · exact (h.invokeComponent hi nothing).seq fun _ => h.op rfl

/-- A frame whose body puts the labels it needs, except for the last. -/
theorem frameWithLabels (inner : List String) {body : Emit Unit}
    (hbody : Emit.Keeps c u ((inner ++ ["END"]) :: labels) (["END"] :: labels) body) :
    Emit.Keeps c u labels labels (Emit.frameWithLabels body) :=
  (h.openLabels _).seq fun _ => h.op_seq rfl ((h.jump rfl "END" (by simp)).seq fun _ =>
    hbody.seq fun _ =>
    (h.label "END").seq fun _ => h.op_seq rfl h.closeLabels)

theorem exitFrame : Emit.Keeps c u labels labels Emit.exitFrame := h.op_seq rfl (h.op rfl)

theorem guardedAppend (value : Expression) (trusting : Bool) :
    Emit.Keeps c u labels labels (Emit.guardedAppend value trusting) :=
  h.frameWithLabels ["ELSE"] <| (h.expression value).seq fun _ => h.op_seq rfl <| h.op_seq rfl <|
    h.op_seq rfl <| (h.jump rfl "ELSE" (by simp)).seq fun _ => (h.onReferer rfl).seq fun _ =>
    (h.invokeComponent (i := {}) (List.forall_mem_nil _) nothing).seq fun _ =>
    h.exitFrame.seq fun _ =>
    (h.label "ELSE").seq fun _ => h.op_seq rfl h.exitFrame

theorem dynamicComponent (definition : Expression) {i : Invocation}
    (hi : ∀ f ∈ i.passed, u.admits f) :
    Emit.Keeps c u labels labels (Emit.dynamicComponent definition i) :=
  h.frameWithLabels ["ELSE"] <| (h.expression definition).seq fun _ => h.op_seq rfl <|
    h.op_seq rfl <| (h.jump rfl "ELSE" (by simp)).seq fun _ => (h.onReferer rfl).seq fun _ =>
    (h.invokeComponent hi nothing).seq fun _ => (h.label "ELSE").seq fun _ => h.exitFrame

/-! ### Statements -/

omit h in
/-- The labels that the end of a conditional form puts. -/
def elseLabels (inverse : Option Fragment) : List String :=
  "ELSE" :: if inverse.isSome then ["EXIT"] else []

theorem elseBranch {inverse : Option Fragment} (hinverse : ∀ f ∈ inverse, u.admits f)
    {rest : List String} :
    Emit.Keeps c u ((elseLabels inverse ++ rest) :: labels) (rest :: labels)
      (Emit.elseBranch inverse) := by
  cases inverse with
  | some f =>
    exact (h.jump rfl "EXIT" (by simp [elseLabels])).seq fun _ => (h.label "ELSE").seq fun _ =>
      (h.invokeStaticBlock (hinverse f rfl) 0).seq fun _ =>
        (h.label "EXIT").seq fun _ => h.exitFrame
  | none => exact (h.label "ELSE").seq fun _ => h.exitFrame

theorem mainBlock_seq {next : Fragment → Emit β} {call : BlockCall}
    (hcall : ∀ f ∈ call.blocks, u.admits f)
    (hnext : ∀ f, u.admits f → Emit.Keeps c u labels after (next f)) :
    Emit.Keeps c u labels after (Emit.mainBlock call >>= next) :=
  (h.orFail _ _).seq_of (fun _ _ _ hb => (Emit.orFail_ok hb).1) fun f hf =>
    hnext f (hcall f (by simp [BlockCall.blocks, hf]))

omit h in
theorem of_mem_inverse {call : BlockCall} (hcall : ∀ f ∈ call.blocks, u.admits f) :
    ∀ f ∈ call.inverse, u.admits f :=
  fun f hf => hcall f (List.mem_append_right _ (Option.mem_toList.mpr hf))

theorem conditional {skip : Opcode} (hskip : skip.isJump = true) {call : BlockCall}
    (hcall : ∀ f ∈ call.blocks, u.admits f) :
    Emit.Keeps c u labels labels (Emit.conditional skip call) :=
  (h.onlyParam call).seq fun condition => h.mainBlock_seq hcall fun template htemplate =>
    h.frameWithLabels (elseLabels call.inverse) <| (h.expression condition).seq fun _ =>
      h.op_seq rfl <| h.op_seq rfl <| (h.jump hskip "ELSE" (by simp [elseLabels])).seq fun _ =>
      (h.invokeStaticBlock htemplate 0).seq fun _ => h.elseBranch (of_mem_inverse hcall)

theorem withBlock {call : BlockCall} (hcall : ∀ f ∈ call.blocks, u.admits f) :
    Emit.Keeps c u labels labels (Emit.withBlock call) :=
  (h.onlyParam call).seq fun value => h.mainBlock_seq hcall fun template htemplate =>
    h.frameWithLabels (elseLabels call.inverse) <| (h.expression value).seq fun _ =>
      h.op_seq rfl <| h.op_seq rfl <| h.op_seq rfl <|
        (h.jump rfl "ELSE" (by simp [elseLabels])).seq fun _ =>
      (h.invokeStaticBlock htemplate 1).seq fun _ => h.elseBranch (of_mem_inverse hcall)

/-- The labels of a loop in the order in which they are put. -/
theorem iteration (list : Expression) {main : Fragment} (hmain : u.admits main)
    {inverse : Option Fragment} (hinverse : ∀ f ∈ inverse, u.admits f) :
    Emit.Keeps c u (("ITER" :: "BODY" :: "BREAK" :: elseLabels inverse ++ ["END"]) :: labels)
      (["END"] :: labels) (Emit.iteration list main inverse) :=
  (h.expression list).seq fun _ => h.op_seq rfl <| h.op_seq rfl <|
    (h.jump rfl "ELSE" (by simp [elseLabels])).seq fun _ => h.op_seq rfl <|
    (h.jump rfl "ITER" (by simp)).seq fun _ => h.op_seq rfl <|
    (h.jump rfl "BODY" (by simp)).seq fun _ =>
    (h.label "ITER").seq fun _ => (h.jump rfl "BREAK" (by simp)).seq fun _ =>
    (h.label "BODY").seq fun _ =>
    (h.invokeStaticBlock hmain 2).seq fun _ => h.op_seq rfl <| h.exitFrame.seq fun _ =>
    (h.label "BREAK").seq fun _ => h.op_seq rfl <| h.op_seq rfl <| h.elseBranch hinverse

theorem eachBlock {call : BlockCall} (hcall : ∀ f ∈ call.blocks, u.admits f) :
    Emit.Keeps c u labels labels (Emit.eachBlock call) := by
  rw [Emit.eachBlock_eq]
  refine (h.onlyParam call).seq fun list => h.mainBlock_seq hcall fun main hmain =>
    h.frameWithLabels ("ITER" :: "BODY" :: "BREAK" :: elseLabels call.inverse) ?_
  split
  · exact (h.expression _).seq fun _ => h.iteration list hmain (of_mem_inverse hcall)
  · exact (h.reference _).seq fun _ => h.iteration list hmain (of_mem_inverse hcall)

theorem componentForm (name : String) (params : Option (List Expression))
    {invocation : List Expression → Invocation}
    (hinvocation : ∀ rest, ∀ f ∈ (invocation rest).passed, u.admits f) :
    Emit.Keeps c u labels labels (Emit.componentForm name params invocation) := by
  unfold Emit.componentForm
  split
  · rename_i definition rest
    refine (literalComponent? definition).seq fun found => ?_
    cases found with
    | some handle => exact h.component handle (hinvocation rest)
    | none => exact h.dynamicComponent definition (hinvocation rest)
  · exact h.fail _

theorem blockCall {call : BlockCall} (hcall : ∀ f ∈ call.blocks, u.admits f) :
    Emit.Keeps c u labels labels (Emit.blockCall call) := by
  have hinvocation (rest : List Expression) : ∀ f ∈ (call.invocation rest).passed, u.admits f :=
    fun f hf => hcall f (by simpa [Invocation.passed, BlockCall.invocation,
      BlockCall.blocks] using hf)
  unfold Emit.blockCall
  split
  · exact h.conditional rfl hcall
  · exact h.conditional rfl hcall
  · exact h.withBlock hcall
  · exact h.eachBlock hcall
  · exact h.componentForm _ _ hinvocation
  · exact (Emit.Keeps.resolve _ _).seq fun _ => (h.orFail _ _).seq fun handle =>
      h.component handle (hinvocation _)

theorem partialForm (name : String) (params : Option (List Expression)) :
    Emit.Keeps c u labels labels (Emit.partialForm name params) := by
  unfold Emit.partialForm
  split
  · refine (Emit.Keeps.resolve _ _).seq fun found => .read ?_
    refine (h.orFail _ _).seq_of (fun _ _ _ hb => (Emit.orFail_ok hb).1) fun f hf => ?_
    obtain ⟨handle, -, hf⟩ := Option.bind_eq_some_iff.mp hf
    exact (h.orFail _ _).seq fun _ => h.op_seq rfl <| h.op_seq rfl <| h.op_seq rfl <|
      h.op_seq rfl <| (h.call (h.partials handle f hf)).seq fun _ => h.op_seq rfl (h.op rfl)
  · exact h.fail _

theorem inlineCall (name : String) (params : Option (List Expression)) (hash : Option Hash) :
    Emit.Keeps c u labels labels (Emit.inlineCall name params hash) := by
  unfold Emit.inlineCall
  split
  · exact (h.componentForm _ _ fun _ => List.forall_mem_nil _).seq fun _ => .pure true
  · exact (h.partialForm _ _).seq fun _ => .pure true
  · refine (Emit.Keeps.resolve _ _).seq fun found => ?_
    cases found with
    | some handle => exact (h.component handle (List.forall_mem_nil _)).seq fun _ => .pure true
    | none => exact .pure false

theorem inlineForm (value : Expression) : Emit.Keeps c u labels labels (Emit.inlineForm value) := by
  unfold Emit.inlineForm
  split
  · exact h.inlineCall _ _ _
  · exact h.inlineCall _ _ _
  · exact .pure false

theorem append (value : Expression) (trusted : Bool) :
    Emit.Keeps c u labels labels (Emit.append value trusted) := by
  refine (h.inlineForm value).seq fun done => ?_
  cases done with
  | true => exact .pure ()
  | false =>
    show Emit.Keeps c u labels labels (if trusted || value.isGet then _ else _)
    split
    · exact h.guardedAppend value trusted
    · exact (h.expression value).seq fun _ => h.op rfl

end

mutual

theorem statement (h : c.Maintains u) (mode : AttrMode) (s : Statement)
    (hs : u.Covers c.layout s.blocks s.attributes) :
    Emit.Keeps c u labels labels (Emit.statement mode s) := by
  cases s with
  | text s | comment s | openElement s => exact h.onString s rfl
  | append value trusted => exact h.append value trusted
  | flushElement | closeElement => exact h.op rfl
  | staticAttr name value space => exact h.staticAttr mode name value space
  | dynamicAttr name value space trusting =>
    exact (h.expression value).seq fun _ => h.dynamicAttr mode name space trusting
  | modifier name params hash =>
    exact (Emit.Keeps.resolve _ _).seq fun _ => (h.orFail _ _).seq fun handle =>
      (h.args _ _ _).seq fun _ => h.onHandle handle rfl
  | block name params hash template inverse =>
    refine h.optionalBlock_seq
      (hs.mono (List.subset_append_left _ _) (List.nil_subset _)) fun f hf => ?_
    refine h.optionalBlock_seq
      (hs.mono (List.subset_append_right _ _) (List.nil_subset _)) fun g hg => ?_
    refine h.blockCall fun b hb => ?_
    rcases List.mem_append.mp hb with hb | hb
    · exact hf b (Option.mem_toList.mp hb)
    · exact hg b (Option.mem_toList.mp hb)
  | component tag attrs hash body =>
    refine h.optionalBlock_seq (hs.mono (List.subset_append_left _ _) (List.nil_subset _))
      fun block hblock => ?_
    refine (Emit.Keeps.resolve _ _).seq fun found => ?_
    cases found with
    | some handle =>
      have hnew (b : Builder) (f : Fragment) (b' : Builder)
          (hb : Emit.newFragment (Fragment.ofAttrs · · attrs) c b = .ok f b') :
          ∃ id, f = .ofAttrs id c.layout attrs := by
        cases hb
        exact ⟨_, rfl⟩
      refine (h.newFragment _).seq_of hnew ?_
      rintro _ ⟨id, rfl⟩
      refine h.component handle fun f hf => ?_
      simp only [Invocation.passed, List.mem_append, Option.mem_toList] at hf
      rcases hf with (hf | hf) | hf
      · exact hblock f hf
      · cases hf
      · cases hf
        exact hs.attributes attrs (List.mem_cons_self ..) id
    | none =>
      have hattrs : u.Covers c.layout (Statement.allBlocks attrs) (Statement.allAttributes attrs) :=
        hs.mono (List.subset_append_right _ _) (List.subset_cons_self _ _)
      refine (h.onString tag rfl).seq fun _ => (h.statements .element attrs hattrs).seq fun _ =>
        h.op_seq rfl ?_
      cases block with
      | some f => exact (h.invokeStaticBlock (hblock f rfl) 0).seq fun _ => h.op rfl
      | none => exact h.op rfl
  | yield slot params => exact h.yield slot _
  | attrSplat slot => exact (h.yield slot []).seq fun _ => h.op rfl
termination_by structural s

theorem statements (h : c.Maintains u) (mode : AttrMode) (ss : List Statement)
    (hss : u.Covers c.layout (Statement.allBlocks ss) (Statement.allAttributes ss)) :
    Emit.Keeps c u labels labels (Emit.statements mode ss) := by
  cases ss with
  | nil => exact .pure ()
  | cons s rest =>
    refine (h.statement mode s
      (hss.mono (List.subset_append_left _ _) (List.subset_append_left _ _))).seq
      fun _ => ?_
    exact h.statements mode rest
      (hss.mono (List.subset_append_right _ _) (List.subset_append_right _ _))
termination_by structural ss

end

end BuildContext.Maintains

end

end TemplateMachine
