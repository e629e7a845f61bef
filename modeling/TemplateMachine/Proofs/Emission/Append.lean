import TemplateMachine.Proofs.Emission.Draft

/-! Emission that only appends.  Apart from the steps that deal with labels, the steps of a builder
append instructions: those before them and the open label scopes stay as they are.  What they do to
the program is of no concern here; it may be that they compile other fragments. -/

namespace TemplateMachine.Emit

variable {α β : Type}

/-- Where the step succeeds, it has appended code and left the label scopes alone. -/
def Appends (x : Emit α) : Prop :=
  ∀ c b a b', x c b = .ok a b' →
    ∃ code, b'.code.toList = b.code.toList ++ code ∧ b'.scopes = b.scopes

namespace Appends

theorem bind {x : Emit α} {f : α → Emit β} (hx : x.Appends) (hf : ∀ a, (f a).Appends) :
    (x >>= f).Appends := by
  intro c b r b' h
  obtain ⟨a, b₁, h₁, h₂⟩ := Emit.bind_ok h
  obtain ⟨first, hfirst, hscopes₁⟩ := hx c b a b₁ h₁
  obtain ⟨second, hsecond, hscopes₂⟩ := hf a c b₁ r b' h₂
  exact ⟨first ++ second, by rw [hsecond, hfirst, List.append_assoc], hscopes₂.trans hscopes₁⟩

/-- A step that leaves code and label scopes alone. -/
theorem of_frame {x : Emit α}
    (h : ∀ c b a b', x c b = .ok a b' → b'.code = b.code ∧ b'.scopes = b.scopes) : x.Appends := by
  intro c b a b' hx
  obtain ⟨hcode, hscopes⟩ := h c b a b' hx
  exact ⟨[], by rw [hcode, List.append_nil], hscopes⟩

theorem pure (a : α) : (Pure.pure a : Emit α).Appends :=
  of_frame fun c b r b' h => by
    obtain ⟨-, rfl⟩ := Emit.pure_ok h
    exact ⟨rfl, rfl⟩

theorem fail (e : CompileError) : (Emit.fail e : Emit α).Appends := fun _ _ _ _ h => by cases h

theorem read {f : BuildContext → Emit α} (h : ∀ c, (f c).Appends) :
    (MonadReader.read >>= f).Appends :=
  fun c b a b' hx => h c c b a b' hx

theorem orFail (v : Option α) (e : CompileError) : (Emit.orFail v e).Appends := by
  cases v with
  | none => exact fail e
  | some a => exact pure a

theorem op {o : Opcode} {i j k : UInt32} : (Emit.op o i j k).Appends := by
  intro c b u b' h
  obtain rfl := Emit.modify_ok h
  exact ⟨[⟨o, i, j, k⟩], Array.toList_push, rfl⟩

theorem onProgram (change : Link α) : (Emit.onProgram change).Appends :=
  of_frame fun c b a b' h => by
    unfold Emit.onProgram at h
    split at h
    split at h
    · cases h
      exact ⟨rfl, rfl⟩
    · cases h

theorem onConstants (add : Constants → α × Constants) :
    (Emit.onConstants add).Appends := onProgram _

/-! ### Constants and markup -/

theorem string (s : String) : (Emit.string s).Appends := onConstants _

theorem referer : Emit.referer.Appends := read fun _ => pure _

theorem resolve (find : Lookup → String → String → Option UInt32) (name : String) :
    (Emit.resolve find name).Appends := read fun _ => referer.bind fun _ => pure _

theorem onString {o : Opcode} {s : String} : (Emit.onString o s).Appends :=
  (string s).bind fun _ => op

theorem onHandle {o : Opcode} {handle : UInt32} : (Emit.onHandle o handle).Appends :=
  (onConstants _).bind fun _ => op

theorem onReferer {o : Opcode} : (Emit.onReferer o).Appends :=
  referer.bind fun _ => (onConstants _).bind fun _ => op

theorem primitive (p : Primitive) : (Emit.primitive p).Appends := (onConstants _).bind fun _ => op

theorem primitiveReference (p : Primitive) : (Emit.primitiveReference p).Appends :=
  (primitive p).bind fun _ => op

theorem symbolTable (t : Option SymbolTable) : (Emit.symbolTable t).Appends := by
  cases t with
  | none => exact primitive .null
  | some t => exact (onConstants _).bind fun _ => op

theorem namespaceString (space : Option String) : (Emit.namespaceString space).Appends := by
  cases space with
  | none => exact pure 0
  | some s => exact string s

theorem staticAttr (mode : AttrMode) (name value : String) (space : Option String) :
    (Emit.staticAttr mode name value space).Appends :=
  (string name).bind fun _ => (namespaceString space).bind fun _ => by
    cases mode with
    | component => exact (primitiveReference _).bind fun _ => op
    | element => exact (string value).bind fun _ => op

theorem dynamicAttr (mode : AttrMode) (name : String) (space : Option String) (trusting : Bool) :
    (Emit.dynamicAttr mode name space trusting).Appends :=
  (string name).bind fun _ => (namespaceString space).bind fun _ => op

/-! ### Blocks -/

theorem linked (f : Fragment) : (Emit.linked f).Appends := read fun _ => onProgram _

theorem newFragment (make : FragmentId → Layout → Fragment) : (Emit.newFragment make).Appends :=
  read fun _ => (onProgram _).bind fun _ => pure _

theorem inlineBlock (index : Nat) : (Emit.inlineBlock index).Appends :=
  read fun _ => (orFail _ _).bind fun _ => newFragment _

theorem optionalBlock (index : Option Nat) : (Emit.optionalBlock index).Appends := by
  cases index with
  | none => exact pure none
  | some index => exact (inlineBlock index).bind fun _ => pure _

theorem attrsBlock (attrs : List Statement) : (Emit.attrsBlock attrs).Appends := newFragment _

theorem fragmentConstant (f : Fragment) : (Emit.fragmentConstant f).Appends :=
  (onConstants _).bind fun _ => op

theorem pushBlock (f : Option Fragment) : (Emit.pushBlock f).Appends := by
  cases f with
  | none => exact primitive .null
  | some f =>
    refine read fun c => ?_
    cases c.strategy with
    | lazy => exact fragmentConstant f
    | eager => exact (linked f).bind fun _ => primitive _

theorem resolveBlock : Emit.resolveBlock.Appends := by
  refine read fun c => ?_
  cases c.strategy with
  | lazy => exact op
  | eager => exact pure ()

theorem pushYieldable (f : Option Fragment) : (Emit.pushYieldable f).Appends :=
  (symbolTable _).bind fun _ => pushBlock f

theorem invokeStatic (f : Fragment) : (Emit.invokeStatic f).Appends := by
  refine read fun c => ?_
  cases c.strategy with
  | lazy => exact (fragmentConstant f).bind fun _ => op.bind fun _ => op
  | eager => exact (linked f).bind fun _ => op

theorem bindParameters (depth : UInt32) (symbols : List UInt32) :
    (Emit.bindParameters depth symbols).Appends := by
  induction symbols generalizing depth with
  | nil => exact pure ()
  | cons symbol rest ih => exact op.bind fun _ => op.bind fun _ => ih _

/-- A step that is left out under a condition, and what follows. -/
theorem optional {skipped : Bool} {x : Emit Unit} {next : Unit → Emit Unit} (hx : x.Appends)
    (hnext : ∀ u, (next u).Appends) : (if skipped then next () else x >>= next).Appends := by
  cases skipped with
  | true => exact hnext ()
  | false => exact hx.bind hnext

theorem invokeStaticBlock (f : Fragment) (supplied : UInt32) :
    (Emit.invokeStaticBlock f supplied).Appends := by
  unfold Emit.invokeStaticBlock
  simp only [← bind_assoc (Emit.op .childScope)]
  refine op.bind fun _ => optional (op.bind fun _ => bindParameters _ _) fun _ => ?_
  exact (pushBlock _).bind fun _ => resolveBlock.bind fun _ => op.bind fun _ =>
    optional op fun _ => op

/-! ### Expressions and arguments -/

theorem pushArgs {count : Nat} {names : List String} {synthetic : Bool} :
    (Emit.pushArgs count names synthetic).Appends := (onConstants _).bind fun _ => op

theorem properties (path : List String) : (Emit.properties path).Appends := by
  induction path with
  | nil => exact pure ()
  | cons key rest ih => exact onString.bind fun _ => ih

theorem hasBlockParams (symbol : UInt32) : (Emit.hasBlockParams symbol).Appends :=
  op.bind fun _ => resolveBlock.bind fun _ => op

mutual

theorem expression : (e : Expression) → (Emit.expression e).Appends
  | .value json => by
    unfold Emit.expression
    split
    · exact primitiveReference _
    · exact fail _
  | .undefined => primitiveReference .undefined
  | .get head path => op.bind fun _ => properties path
  | .unknown name => (resolve _ name).bind fun found => by
    cases found with
    | some handle => exact pushArgs.bind fun _ => onHandle
    | none => exact op.bind fun _ => onString
  | .helper name params hash => by
    unfold Emit.expression
    split
    · cases params with
      | none => exact fail _
      | some params =>
        cases params with
        | nil => exact fail _
        | cons definition rest =>
          exact (expression definition).bind fun _ => (expressions rest).bind fun _ =>
            (namedValues hash).bind fun _ => pushArgs.bind fun _ => onReferer
    · exact (resolve _ name).bind fun _ => (orFail _ _).bind fun _ => (params? params).bind fun _ =>
        (namedValues hash).bind fun _ => pushArgs.bind fun _ => onHandle
  | .concat parts => (expressions parts).bind fun _ => op
  | .hasBlock symbol => op
  | .hasBlockParams symbol => hasBlockParams symbol

theorem expressions : (es : List Expression) → (Emit.expressions es).Appends
  | [] => pure ()
  | e :: rest => (expression e).bind fun _ => expressions rest

theorem params? : (es : Option (List Expression)) → (Emit.params? es).Appends
  | none => pure 0
  | some es => (expressions es).bind fun _ => pure _

theorem namedValues : (hash : Option (HashOf Expression)) → (Emit.namedValues hash).Appends
  | none => pure []
  | some ⟨_, values⟩ => (expressions values).bind fun _ => pure _

end

theorem args (params : List Expression) (hash : Option Hash) (synthetic : Bool) :
    (Emit.args params hash synthetic).Appends :=
  (expressions params).bind fun _ => (namedValues hash).bind fun _ => pushArgs

theorem curry (definition : Expression) (params : List Expression) (hash : Option Hash)
    (synthetic : Bool) : (Emit.curry definition params hash synthetic).Appends :=
  (expression definition).bind fun _ => (args params hash synthetic).bind fun _ => onReferer

theorem yield (slot : UInt32) (params : List Expression) : (Emit.yield slot params).Appends :=
  (args params none false).bind fun _ => op.bind fun _ => resolveBlock.bind fun _ =>
    op.bind fun _ => op.bind fun _ => op

/-! ### Invocations -/

theorem enterComponent : Emit.enterComponent.Appends := op.bind fun _ => op.bind fun _ => op

theorem createComponent (i : Invocation) : (Emit.createComponent i).Appends :=
  op.bind fun _ => op.bind fun _ => op

theorem leaveComponent : Emit.leaveComponent.Appends :=
  op.bind fun _ => op.bind fun _ => op.bind fun _ => op.bind fun _ => op.bind fun _ => op

theorem invokeComponent (i : Invocation) (layout : Option Fragment) :
    (Emit.invokeComponent i layout).Appends := by
  have hcall : (do Emit.op .invokeComponentLayout current; Emit.leaveComponent).Appends :=
    op.bind fun _ => leaveComponent
  refine enterComponent.bind fun _ => (pushYieldable _).bind fun _ =>
    (pushYieldable _).bind fun _ =>
    (pushYieldable _).bind fun _ => (args _ _ _).bind fun _ => op.bind fun _ =>
      (createComponent i).bind fun _ => op.bind fun _ => op.bind fun _ => ?_
  cases layout with
  | some f =>
    exact (symbolTable _).bind fun _ => (pushBlock _).bind fun _ => resolveBlock.bind fun _ => hcall
  | none => exact op.bind fun _ => hcall

theorem pushSymbol (i : Invocation) (symbol : String) : (Emit.pushSymbol i symbol).Appends := by
  unfold Emit.pushSymbol
  split
  · exact (orFail _ _).bind fun _ => (pushYieldable _).bind fun _ => pure _
  · split
    · exact (expression _).bind fun _ => pure _
    · exact pure none
  · exact pure none

theorem pushSymbols (i : Invocation) (bound : List (UInt32 × Opcode)) (slot : UInt32)
    (symbols : List String) : (Emit.pushSymbols i bound slot symbols).Appends := by
  induction symbols generalizing bound slot with
  | nil => exact pure bound
  | cons symbol rest ih =>
    refine (pushSymbol i symbol).bind fun binder => ?_
    cases binder with
    | some binder => exact ih _ _
    | none => exact ih _ _

theorem bindSymbols (bound : List (UInt32 × Opcode)) : (Emit.bindSymbols bound).Appends := by
  induction bound with
  | nil => exact pure ()
  | cons _ _ ih => exact op.bind fun _ => ih

theorem invokeStaticComponent (capabilities : Capabilities) (layout : Fragment) (i : Invocation) :
    (Emit.invokeStaticComponent capabilities layout i).Appends := by
  have hlayout (table : ProgramTable) : (do
      Emit.op .registerComponentDestructor current
      Emit.op .getComponentSelf current
      let bound ← Emit.pushSymbols i [(0, .setVariable)] 1 table.symbols
      Emit.op .rootScope (UInt32.ofNat table.symbols.length + 1) i.hasBlocks.toUInt32
      Emit.bindSymbols bound
      Emit.op .pushFrame
      Emit.invokeStatic layout
      Emit.leaveComponent).Appends :=
    op.bind fun _ => op.bind fun _ => (pushSymbols _ _ _ _).bind fun bound => op.bind fun _ =>
      (bindSymbols bound).bind fun _ => op.bind fun _ => (invokeStatic _).bind fun _ =>
        leaveComponent
  refine (orFail _ _).bind fun table => ?_
  split
  · exact invokeComponent i _
  · refine enterComponent.bind fun _ => ?_
    cases capabilities.createArgs with
    | true =>
      exact op.bind fun _ => (args _ _ _).bind fun _ => (createComponent i).bind fun _ =>
        op.bind fun _ => hlayout table
    | false => exact (createComponent i).bind fun _ => hlayout table

theorem component (handle : UInt32) (i : Invocation) : (Emit.component handle i).Appends := by
  refine read fun c => onHandle.bind fun _ => ?_
  simp only
  split
  · exact (invokeStaticComponent _ _ _).bind fun _ => op
  · exact (invokeComponent _ _).bind fun _ => op

end Appends

end TemplateMachine.Emit
