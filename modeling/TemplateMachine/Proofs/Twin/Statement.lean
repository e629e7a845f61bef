import TemplateMachine.Proofs.Twin.Code

/-! Invocations, statements and whole fragments run alike in the two programs. -/

namespace TemplateMachine

/-! ### Invocations with the same blocks -/

namespace Invocation.Same

variable {i j : Invocation}

theorem refl (i : Invocation) : i.Same i := ⟨rfl, rfl, rfl, rfl, rfl, rfl⟩

theorem isSome_block (h : i.Same j) : i.block.isSome = j.block.isSome := by
  simpa using congrArg Option.isSome h.block

theorem isSome_inverse (h : i.Same j) : i.inverse.isSome = j.inverse.isSome := by
  simpa using congrArg Option.isSome h.inverse

theorem isSome_attrs (h : i.Same j) : i.attrs.isSome = j.attrs.isSome := by
  simpa using congrArg Option.isSome h.attrs

theorem hasBlocks (h : i.Same j) : i.hasBlocks = j.hasBlocks := by
  rw [Invocation.hasBlocks, Invocation.hasBlocks, h.isSome_block, h.isSome_inverse, h.isSome_attrs]

theorem blockFlags (h : i.Same j) : i.blockFlags = j.blockFlags := by
  rw [Invocation.blockFlags, Invocation.blockFlags, h.isSome_block, h.isSome_inverse]

end Invocation.Same

/-- How many values that are no references an operation takes that binds a symbol. -/
def Opcode.bindWeight : Opcode → Nat
  | .setBlock => 2
  | _ => 0

/-- How many values that are no references are taken to bind symbols. -/
def bindWeight (binders : List (UInt32 × Opcode)) : Nat := (binders.map fun b => b.2.bindWeight).sum

theorem bindWeight_nil : bindWeight [] = 0 := rfl

theorem bindWeight_cons (b : UInt32 × Opcode) (rest : List (UInt32 × Opcode)) :
    bindWeight (b :: rest) = b.2.bindWeight + bindWeight rest := by
  rw [bindWeight, List.map_cons, List.sum_cons, bindWeight]

/-- The operation binds a symbol. -/
def Opcode.Binds (op : Opcode) : Prop := op = .setVariable ∨ op = .setBlock

namespace Coding.Twin

open Exec

variable {setup : Setup} {d : Duo} {k k' : Coding} {code code' : List Instruction} {s : Shape}
variable {i j : Invocation}

/-! ### Invocations -/

/-- The component of the enclosing invocation is kept below the new one. -/
theorem moves_enterComponent (n : Nat) :
    Moves setup d enterComponent enterComponent ((Shape.loose n).push .solid) (.loose (n + 1)) :=
  (Moves.cons (acts_fetch setup d _ 0 0) rfl rfl <|
    .cons (acts_dup_next setup d _ 0 .solid .any) rfl rfl <|
    .one (acts_load setup d _ 0 0) rfl rfl).yields
      (Shape.Yields.push (Shape.yields_solid n) .any) |>.yields
      (Shape.yields_any (n + 1))

theorem moves_createComponent (h : i.Same j) :
    Moves setup d (createComponent i) (createComponent j) s s := by
  unfold createComponent
  rw [h.blockFlags]
  exact .cons (acts_beginTransaction setup d s 0 0 0) rfl rfl <|
    .cons (acts_pushDynamicScope setup d s 0 0 0) rfl rfl <|
    .one (acts_createComponent setup d s j.blockFlags 0) rfl rfl

theorem moves_registerComponent :
    Moves setup d registerComponent registerComponent s (s.push .ref) :=
  .cons (acts_registerComponentDestructor setup d s 0 0) rfl rfl <|
    .one (acts_getComponentSelf setup d s 0 0) rfl rfl

/-- What comes when a layout is done: its frame is left, and the enclosing component is back. -/
theorem flows_leaveComponent {n : Nat} {back : Option (List Instruction × List Instruction)}
    {ls : List Level} {c c' : List Instruction} (h : Flows setup d c c' (⟨.loose n, back⟩ :: ls)) :
    Flows setup d (leaveComponent ++ c) (leaveComponent ++ c')
      (⟨.loose 0, none⟩ :: ⟨.loose (n + 1), back⟩ :: ls) :=
  .act rfl rfl (acts_didRenderLayout setup d _ 0 0) <| .popFrame <|
    .act rfl rfl (acts_popScope setup d _ 0 0 0) <|
    .act rfl rfl (acts_popDynamicScope setup d _ 0 0 0) <|
    .act rfl rfl (acts_commitTransaction setup d _ 0 0 0) <|
    .act rfl rfl (acts_load_loose setup d 0 0 n) h

theorem passes (h : k.Twin setup d k') (hij : i.Same j) (hcode : k.passes i code)
    (hcode' : k'.passes j code') (n : Nat) :
    Moves setup d code code' (.loose n) ((Shape.loose (n + 6)).push .solid) := by
  obtain ⟨main, inverse, attrs, given, hmain, hinverse, hattrs, hgiven, rfl⟩ := hcode
  obtain ⟨main', inverse', attrs', given', hmain', hinverse', hattrs', hgiven', rfl⟩ := hcode'
  rw [← hij.params, ← hij.hash] at hgiven'
  have hsolid (m : Nat) : (((Shape.loose m).push .solid).push .solid).Yields (.loose (m + 2)) := by
    have hinner : (((Shape.loose m).push .solid).push .solid).Yields
        ((Shape.loose (m + 1)).push .solid) :=
      Shape.Yields.push (Shape.yields_solid m) .solid
    intro o d top h
    exact Shape.yields_solid (m + 1) (hinner h)
  exact ((((h.yieldable hij.block hmain hmain').yields (hsolid n)).append
    ((h.yieldable hij.inverse hinverse hinverse').yields (hsolid (n + 2)))).append
    ((h.yieldable hij.attrs hattrs hattrs').yields (hsolid (n + 4)))).append
      (h.args hgiven hgiven' (n + 6))

theorem layoutCode (h : k.Twin setup d k') {layout : Option Fragment}
    (hcode : k.layoutCode layout code) (hcode' : k'.layoutCode layout code') :
    Moves setup d code code' s ((s.push .any).push .any) := by
  cases layout with
  | none =>
    obtain rfl : code = _ := hcode
    obtain rfl : code' = _ := hcode'
    exact .one (acts_getComponentLayout h.ample s 0 0) rfl rfl
  | some f =>
    obtain ⟨table, push, htable, hpush, rfl⟩ := hcode
    obtain ⟨table', push', htable', hpush', rfl⟩ := hcode'
    exact (((h.symbolTable htable htable').yields (Shape.yields_any_of _ (.inr rfl))).append
      ((h.block rfl hpush hpush').yields (Shape.yields_any_of _ (.inr rfl)))).append h.resolved

theorem genericComponent (h : k.Twin setup d k') (hij : i.Same j) {layout : Option Fragment}
    (hcode : k.genericComponent i layout code)
    (hcode' : k'.genericComponent j layout code') (n : Nat) :
    Moves setup d code code' ((Shape.loose n).push .solid) (.loose n) := by
  obtain ⟨passed, found, hpassed, hfound, rfl⟩ := hcode
  obtain ⟨passed', found', hpassed', hfound', rfl⟩ := hcode'
  have hbefore := (((((moves_enterComponent n).append
    (h.passes hij hpassed hpassed' (n + 1))).append
    (.cons (acts_prepareArgs setup d _ 0 0) rfl rfl (moves_createComponent hij))).append
    moves_registerComponent).append (h.layoutCode hfound hfound'))
  intro back ls c c' hk
  have := hbefore back ls _ _ (.invokeLayout (flows_leaveComponent hk))
  simpa only [List.append_assoc, List.cons_append, List.nil_append] using this

/-! ### Layouts whose symbols are bound by code -/

theorem symbolCode (h : k.Twin setup d k') (hij : i.Same j) {symbol : String}
    {binder binder' : Option Opcode} (hcode : k.symbolCode i symbol code binder)
    (hcode' : k'.symbolCode j symbol code' binder') :
    binder' = binder ∧ (∀ op, binder = some op → op.Binds) ∧
      ∀ m, Moves setup d code code' (.loose m) (.loose (binder.elim 0 Opcode.bindWeight + m)) := by
  unfold Coding.symbolCode at hcode hcode'
  cases hrole : SymbolRole.ofSymbol symbol with
  | block block =>
    simp only [hrole] at hcode hcode'
    obtain ⟨f, hf, hpush, rfl⟩ := hcode
    obtain ⟨g, hg, hpush', rfl⟩ := hcode'
    have hsame := hij.blockOf? block
    rw [hf, hg] at hsame
    refine ⟨rfl, ?_, fun m => ?_⟩
    · rintro _ ⟨⟩
      exact .inr rfl
    · refine ((h.yieldable (Option.some.inj hsame) hpush hpush').yields
        (Shape.Yields.push (Shape.yields_solid m) .solid)).yields ?_
      rw [show (some Opcode.setBlock).elim 0 Opcode.bindWeight + m = m + 1 + 1 from
        Nat.add_comm 2 m]
      exact Shape.yields_solid (m + 1)
  | argument symbol bare =>
    simp only [hrole] at hcode hcode'
    rw [← hij.hash, ← hij.synthetic] at hcode'
    cases hvalue : (i.hash.bind fun hash => hash.get? (if i.synthetic then bare else symbol)) with
    | none =>
      simp only [hvalue] at hcode hcode'
      obtain ⟨rfl, rfl⟩ := hcode
      obtain ⟨rfl, rfl⟩ := hcode'
      refine ⟨rfl, nofun, fun m => ?_⟩
      rw [Option.elim_none, Nat.zero_add]
      exact .nil
    | some value =>
      simp only [hvalue] at hcode hcode'
      obtain ⟨hpush, rfl⟩ := hcode
      obtain ⟨hpush', rfl⟩ := hcode'
      refine ⟨rfl, ?_, fun m => ?_⟩
      · rintro _ ⟨⟩
        exact .inl rfl
      · rw [show (some Opcode.setVariable).elim 0 Opcode.bindWeight + m = m from Nat.zero_add m]
        exact (h.expression value hpush hpush' m).yields (Shape.yields_ref m)
  | inner =>
    simp only [hrole] at hcode hcode'
    obtain ⟨rfl, rfl⟩ := hcode
    obtain ⟨rfl, rfl⟩ := hcode'
    refine ⟨rfl, nofun, fun m => ?_⟩
    rw [Option.elim_none, Nat.zero_add]
    exact .nil

theorem symbolsCode (h : k.Twin setup d k') (hij : i.Same j) {symbols : List String} {slot : UInt32}
    {bound binders binders' : List (UInt32 × Opcode)} (hbound : ∀ b ∈ bound, b.2.Binds)
    (hcode : k.symbolsCode i bound slot symbols code binders)
    (hcode' : k'.symbolsCode j bound slot symbols code' binders') (m : Nat) :
    binders' = binders ∧ (∀ b ∈ binders, b.2.Binds) ∧
      Moves setup d code code' (.loose (bindWeight bound + m))
        (.loose (bindWeight binders + m)) := by
  induction symbols generalizing code code' bound slot with
  | nil =>
    obtain ⟨rfl, rfl⟩ := hcode
    obtain ⟨rfl, rfl⟩ := hcode'
    exact ⟨rfl, hbound, .nil⟩
  | cons symbol rest ih =>
    obtain ⟨first, more, binder, hfirst, rfl, hmore⟩ := hcode
    obtain ⟨first', more', binder', hfirst', rfl, hmore'⟩ := hcode'
    obtain ⟨rfl, hbinds, hpush⟩ := h.symbolCode hij hfirst hfirst'
    cases binder' with
    | none =>
      obtain ⟨rfl, hall, hmoves⟩ := ih hbound hmore hmore'
      refine ⟨rfl, hall, .append (hpush _) ?_⟩
      rwa [Option.elim_none, Nat.zero_add]
    | some op =>
      obtain ⟨rfl, hall, hmoves⟩ :=
        ih (List.forall_mem_cons.mpr ⟨hbinds op rfl, hbound⟩) hmore hmore'
      refine ⟨rfl, hall, .append (hpush _) ?_⟩
      rwa [bindWeight_cons, Nat.add_assoc] at hmoves

theorem moves_bindSymbols {binders : List (UInt32 × Opcode)}
    (h : ∀ b ∈ binders, b.2.Binds) (m : Nat) :
    Moves setup d (bindSymbols binders) (bindSymbols binders) (.loose (bindWeight binders + m))
      (.loose m) := by
  induction binders with
  | nil =>
    rw [bindWeight_nil, Nat.zero_add]
    exact .nil
  | cons b rest ih =>
    obtain ⟨slot, op⟩ := b
    obtain ⟨hop, hrest⟩ := List.forall_mem_cons.mp h
    have hbind : Acts setup d ⟨op, slot, 0, 0⟩ ⟨op, slot, 0, 0⟩
      (.loose (bindWeight ((slot, op) :: rest) + m))
        (.loose (bindWeight rest + m)) := by
      rw [bindWeight_cons, Nat.add_assoc]
      generalize bindWeight rest + m = n
      rcases hop with rfl | rfl
      · rw [show Opcode.setVariable.bindWeight + n = n from Nat.zero_add n]
        exact acts_setVariable setup d slot 0 0 n
      · rw [show Opcode.setBlock.bindWeight + n = n + 2 from Nat.add_comm 2 n]
        exact acts_setBlock setup d slot 0 0 n
    exact .cons hbind (by rcases hop with rfl | rfl <;> rfl)
      (by rcases hop with rfl | rfl <;> rfl) (ih hrest)

theorem creates (h : k.Twin setup d k') (hij : i.Same j) {createArgs : Bool}
    (hcode : k.creates createArgs i code) (hcode' : k'.creates createArgs j code') :
    Moves setup d code code' s s := by
  cases createArgs with
  | false =>
    obtain rfl : code = _ := hcode
    obtain rfl : code' = _ := hcode'
    exact moves_createComponent hij
  | true =>
    obtain ⟨given, hgiven, rfl⟩ := hcode
    obtain ⟨given', hgiven', rfl⟩ := hcode'
    rw [← hij.params, ← hij.hash] at hgiven'
    have hinner : Moves setup d (given ++ createComponent i) (given' ++ createComponent j)
        (.loose 0) (.loose 0) :=
      ((((h.args hgiven hgiven' 0).yields (Shape.yields_solid 0)).yields
        (Shape.yields_fewer (Nat.zero_le 1)))).append (moves_createComponent hij)
    simpa only [List.cons_append, List.append_assoc] using Moves.frame (s := s) hinner.calling

theorem boundComponent (h : k.Twin setup d k') (hij : i.Same j) {createArgs : Bool}
    {layout : Fragment} {table : ProgramTable}
    (hcode : k.boundComponent createArgs layout table i code)
    (hcode' : k'.boundComponent createArgs layout table j code') (n : Nat) :
    Moves setup d code code' ((Shape.loose n).push .solid) (.loose n) := by
  obtain ⟨created, pushed, binders, called, hcreated, hpushed, hcalled, rfl⟩ := hcode
  obtain ⟨created', pushed', binders', called', hcreated', hpushed', hcalled', rfl⟩ := hcode'
  have hself : ∀ b ∈ [((0 : UInt32), Opcode.setVariable)], b.2.Binds := by
    rintro b (_ | ⟨_, ⟨⟩⟩)
    exact .inl rfl
  obtain ⟨rfl, hbinds, hsymbols⟩ := h.symbolsCode hij hself hpushed hpushed' (n + 1)
  have hregister : Moves setup d registerComponent registerComponent (.loose (n + 1))
      (.loose (bindWeight [(0, .setVariable)] + (n + 1))) := by
    refine moves_registerComponent.yields ?_
    rw [show bindWeight [(0, .setVariable)] + (n + 1) = n + 1 from Nat.zero_add _]
    exact Shape.yields_ref (n + 1)
  rw [← hij.hasBlocks]
  have hbefore := ((((moves_enterComponent n).append (h.creates hij hcreated hcreated')).append
    hregister).append hsymbols).append (.cons
    (acts_rootScope setup d _ (UInt32.ofNat table.symbols.length + 1) i.hasBlocks.toUInt32 0)
      rfl rfl (moves_bindSymbols hbinds (n + 1)))
  intro back ls c c' hk
  have := hbefore back ls
    _ _ (.pushFrame (h.staticCall rfl hcalled hcalled' _ _ _ _ (flows_leaveComponent hk)))
  simpa only [List.append_assoc, List.cons_append, List.nil_append] using this

/-! ### Components -/

theorem staticComponent (h : k.Twin setup d k') (hij : i.Same j) {capabilities : Capabilities}
    {layout : Fragment} (hcode : k.staticComponent capabilities layout i code)
    (hcode' : k'.staticComponent capabilities layout j code') (n : Nat) :
    Moves setup d code code' ((Shape.loose n).push .solid) (.loose n) := by
  obtain ⟨table, htable, hcode⟩ := hcode
  obtain ⟨table', htable', hcode'⟩ := hcode'
  obtain rfl := Option.some.inj (htable.symm.trans htable')
  split at hcode
  · rw [if_pos ‹_›] at hcode'
    exact h.genericComponent hij hcode hcode' n
  · rw [if_neg ‹_›] at hcode'
    exact h.boundComponent hij hcode hcode' n

theorem component (h : k.Twin setup d k') (hij : i.Same j) {handle : UInt32}
    (hcode : k.component handle i code) (hcode' : k'.component handle j code') :
    Moves setup d code code' (.loose 0) (.loose 0) := by
  obtain ⟨push, invoke, hpush, hinvoke, rfl⟩ := hcode
  obtain ⟨push', invoke', hpush', hinvoke', rfl⟩ := hcode'
  rw [h.lookup] at hinvoke
  rw [h.lookup'] at hinvoke'
  have hinvoke : Moves setup d invoke invoke' ((Shape.loose 0).push .solid) (.loose 0) := by
    split at hinvoke
    · rename_i layout hlayout
      rw [hlayout] at hinvoke'
      exact h.staticComponent hij hinvoke hinvoke' 0
    · rename_i hlayout
      rw [hlayout] at hinvoke'
      exact h.genericComponent hij hinvoke hinvoke' 0
  exact ((h.onHandle hpush hpush' rfl fun index index' => acts_pushComponentSpec setup d _ index
    index').append hinvoke).append (.one (acts_pop setup d 1 0 0) rfl rfl)

theorem guardedAppend (h : k.Twin setup d k') {value : Expression} {trusting : Bool}
    (hcode : k.guardedAppend value trusting code) (hcode' : k'.guardedAppend value trusting code') :
    Moves setup d code code' s s := by
  obtain ⟨push, find, invoke, hpush, hfind, hinvoke, rfl⟩ := hcode
  obtain ⟨push', find', invoke', hpush', hfind', hinvoke', rfl⟩ := hcode'
  have hinvoke := h.genericComponent (.refl _) hinvoke hinvoke' 0
  have hfind := h.onReferer (s := (Shape.loose 0).push .ref) hfind hfind' rfl
    fun index index' => acts_pushDynamicComponentManager setup d _ index index'
  have hcontent : Exits setup d (⟨.dynamicContent, trusting.toUInt32, 0, 0⟩ :: exitFrame)
      (⟨.dynamicContent, trusting.toUInt32, 0, 0⟩ :: exitFrame) ((Shape.loose 0).push .ref) :=
    .of_moves (.one (acts_dynamicContent setup d _ trusting.toUInt32 0 0) rfl rfl) .exitFrame
  have hbranch :=
    Exits.branch false (((Exits.of_moves (hfind.append hinvoke) .exitFrame).append)) hcontent
  have hvalue := (h.expression value hpush hpush' 0).append <|
    .cons (acts_dup_top setup d _ 0 .ref) rfl rfl <|
    .cons (acts_isComponent setup d _ 0 0 0) rfl rfl <|
    .one (acts_enter setup d _ 2 0 0) rfl rfl
  have := Exits.frame (s := s) (.of_moves hvalue hbranch)
  simpa only [List.append_assoc, List.cons_append, List.nil_append, Bool.false_eq_true,
    if_false] using this

theorem dynamicComponent (h : k.Twin setup d k') (hij : i.Same j) {definition : Expression}
    (hcode : k.dynamicComponent definition i code)
    (hcode' : k'.dynamicComponent definition j code') :
    Moves setup d code code' s s := by
  obtain ⟨push, find, invoke, hpush, hfind, hinvoke, rfl⟩ := hcode
  obtain ⟨push', find', invoke', hpush', hfind', hinvoke', rfl⟩ := hcode'
  have hinvoke := h.genericComponent hij hinvoke hinvoke' 0
  have hfind := h.onReferer (s := (Shape.loose 0).push .ref) hfind hfind' rfl
    fun index index' => acts_pushDynamicComponentManager setup d _ index index'
  have hbranch := Exits.branch false (Exits.of_moves (hfind.append hinvoke) .exitFrame)
    (.of_yields (Shape.yields_ref 0) .exitFrame)
  have hvalue := (h.expression definition hpush hpush' 0).append <|
    .cons (acts_dup_top setup d _ 0 .ref) rfl rfl <| .one (acts_enter setup d _ 2 0 0) rfl rfl
  have := Exits.frame (s := s) (.of_moves hvalue hbranch)
  simpa only [List.append_assoc, List.cons_append, List.nil_append, Bool.false_eq_true,
    if_false] using this

/-! ### Block forms -/

/-- The end of a block form: the main block is skipped unless a condition is met. -/
theorem otherwise (h : k.Twin setup d k') (expected : Bool) {f g : Option Fragment}
    (hfg : f.map Fragment.body = g.map Fragment.body) {main main' : List Instruction}
    (hmain : Moves setup d main main' s s) (hs : s.Yields (.loose 0))
    (hcode : k.otherwise (if expected then .jumpIf else .jumpUnless) f main code)
    (hcode' : k'.otherwise (if expected then .jumpIf else .jumpUnless) g main' code') :
    Exits setup d code code' (s.push .ref) := by
  have hexit : Exits setup d exitFrame exitFrame s := .of_yields hs .exitFrame
  cases f with
  | none =>
    obtain rfl : g = none := Option.map_eq_none_iff.mp hfg.symm
    obtain rfl : code = _ := hcode
    obtain rfl : code' = _ := hcode'
    exact .branch expected (.of_moves hmain hexit) hexit
  | some f =>
    obtain ⟨g, rfl, hbody⟩ := Option.map_eq_some_iff.mp hfg.symm
    obtain ⟨other, hother, rfl⟩ := hcode
    obtain ⟨other', hother', rfl⟩ := hcode'
    have hother : Exits setup d (other ++ exitFrame) (other' ++ exitFrame) s :=
      .of_moves (h.staticBlock hbody.symm hother hother') hexit
    have hjump : Exits setup d (.skip .jump other :: (other ++ exitFrame))
      (.skip .jump other' :: (other' ++ exitFrame)) s :=
      fun back l ls c c' => by
        simp only [List.cons_append, List.append_assoc]
        exact .jump (hexit back l ls c c')
    have hmain : Exits setup d (main ++ [.skip .jump other] ++ (other ++ exitFrame))
        (main' ++ [.skip .jump other'] ++ (other' ++ exitFrame)) s := by
      simpa only [List.append_assoc, List.cons_append, List.nil_append] using
        Exits.of_moves hmain hjump
    simpa only [List.append_assoc, List.cons_append, List.nil_append] using
      Exits.branch expected hmain hother

theorem blockForm (h : k.Twin setup d k') (expected : Bool) {f g : Option Fragment}
    (hfg : f.map Fragment.body = g.map Fragment.body) {values values' main main' : List Instruction}
    {s' : Shape} (hvalues : Moves setup d values values' (.loose 0) (s'.push .ref))
    (hs : s'.Yields (.loose 0)) (hmain : Moves setup d main main' s' s')
    (hcode : k.blockForm (if expected then .jumpIf else .jumpUnless) f values main code)
    (hcode' : k'.blockForm (if expected then .jumpIf else .jumpUnless) g values' main' code') :
    Moves setup d code code' s s := by
  obtain ⟨branches, hbranches, rfl⟩ := hcode
  obtain ⟨branches', hbranches', rfl⟩ := hcode'
  exact Exits.frame (.of_moves hvalues (h.otherwise expected hfg hmain hs hbranches hbranches'))

theorem conditional (h : k.Twin setup d k') (expected : Bool) {condition : Expression}
    {main main' : Fragment} (hmain : main.body = main'.body) {f g : Option Fragment}
    (hfg : f.map Fragment.body = g.map Fragment.body)
    (hcode : k.conditional (if expected then .jumpIf else .jumpUnless) condition main f code)
    (hcode' : k'.conditional (if expected then .jumpIf else .jumpUnless) condition main' g code') :
    Moves setup d code code' s s := by
  obtain ⟨value, body, hvalue, hbody, hform⟩ := hcode
  obtain ⟨value', body', hvalue', hbody', hform'⟩ := hcode'
  have hvalues := (h.expression condition hvalue hvalue' 0).append <|
    .cons (acts_toBoolean setup d _ 0 0 0) rfl rfl <| .one (acts_enter setup d _ 1 0 0) rfl rfl
  exact h.blockForm expected hfg hvalues
    (Shape.Yields.refl _) (h.staticBlock hmain hbody hbody') hform hform'

theorem withBlock (h : k.Twin setup d k') {value : Expression} {main main' : Fragment}
    (hmain : main.body = main'.body) {f g : Option Fragment}
    (hfg : f.map Fragment.body = g.map Fragment.body) (hcode : k.withBlock value main f code)
    (hcode' : k'.withBlock value main' g code') :
    Moves setup d code code' s s := by
  obtain ⟨push, body, hpush, hbody, hform⟩ := hcode
  obtain ⟨push', body', hpush', hbody', hform'⟩ := hcode'
  have hvalues := (h.expression value hpush hpush' 0).append <|
    .cons (acts_dup_top setup d _ 0 .ref) rfl rfl <|
    .cons (acts_toBoolean setup d _ 0 0 0) rfl rfl <|
    .one (acts_enter setup d _ 2 0 0) rfl rfl
  exact h.blockForm false hfg hvalues (Shape.yields_ref 0)
    (h.staticBlock hmain hbody hbody') hform hform'

/-- The loop goes round with nothing known of the stack but that its values are twins. -/
theorem moves_loop {body body' : List Instruction} (hbody : ∀ s, Moves setup d body body' s s) :
    Moves setup d (loop body) (loop body') s s := by
  intro back ls c c' hk
  let round (body : List Instruction) : List Instruction := body ++ ⟨.pop, 2, 0, 0⟩ :: exitFrame
  let after (c : List Instruction) : List Instruction :=
    ⟨.exitList, 0, 0, 0⟩ :: ⟨.popFrame, 0, 0, 0⟩ :: c
  have hafter (back' : Option (List Instruction × List Instruction)) :
      Flows setup d (after c) (after c') (⟨.loose 0, back'⟩ :: ⟨s, back⟩ :: ls) :=
    .act rfl rfl (acts_exitList setup d _ 0 0 0) (.popFrame hk)
  have hround : Exits setup d (round body) (round body') (((Shape.loose 0).push .ref).push .ref) :=
    .of_moves (((hbody _).yields (Shape.Yields.push (Shape.yields_ref 0) .ref)).yields
      (Shape.yields_ref 0)) <| .of_moves (.one (acts_pop setup d 2 0 0) rfl rfl) .exitFrame
  have hnext (first : List Instruction × List Instruction) :
      Flows setup d (.skip .iterate (round body) :: (round body ++ after c))
        (.skip .iterate (round body') :: (round body' ++ after c'))
          (⟨.loose 0, some first⟩ :: ⟨s, back⟩ :: ls) :=
    .iterate (hafter _) (hround _ _ _ _ _)
  have henter (first : List Instruction × List Instruction) :=
    Flows.yields (Shape.yields_solid 0) <|
      .yields (Shape.yields_fewer (Nat.zero_le 1)) (hnext first)
  have hnil (body c : List Instruction) : round body ++ after c ≠ [] :=
    List.append_ne_nil_of_right_ne_nil _ (List.cons_ne_nil _ _)
  let entering : List Instruction :=
    [⟨.dup, Register.fp.number, 1, 0⟩, .skip .enterList [⟨.iterate, 0, 0, 0⟩]]
  let going (body c : List Instruction) : List Instruction :=
    .skip .iterate (round body) :: (round body ++ after c)
  have hlist (first : List Instruction × List Instruction) :
      Flows setup d (entering ++ going body c) (entering ++ going body' c')
        (⟨.loose 0, some first⟩ :: ⟨s, back⟩ :: ls) := by
    refine .act rfl rfl (acts_dup_fp setup d (.loose 0) 1 0) ?_
    have hgoing : Flows setup d ([.skip .iterate (round body)] ++ (round body ++ after c))
        ([.skip .iterate (round body')] ++ (round body' ++ after c')) _ := henter first
    exact Flows.enterList (hnil _ _) (hnil _ _) hgoing
  have hfirst : Flows setup d (⟨.pushFrame, 0, 0, 0⟩ :: .skip .returnTo entering ::
    entering ++ going body c)
      (⟨.pushFrame, 0, 0, 0⟩ :: .skip .returnTo entering :: entering ++ going body' c')
        (⟨s, back⟩ :: ls) :=
    .pushFrame (.returnTo (hnext _) (hlist _))
  have hback : Instruction.skip .returnTo [⟨.dup, Register.fp.number, 1, 0⟩,
    .skip .enterList [⟨.iterate, 0, 0, 0⟩]] =
      .skip .returnTo [⟨.dup, Register.fp.number, 1, 0⟩, ⟨.enterList, 0, 0, 0⟩] := rfl
  simpa only [loop, round, after, entering, going, hback, List.cons_append, List.append_assoc,
    List.nil_append] using hfirst

theorem keyCode (h : k.Twin setup d k') {key : Option Expression} (hcode : k.keyCode key code)
    (hcode' : k'.keyCode key code') (n : Nat) :
    Moves setup d code code' (.loose n) ((Shape.loose n).push .ref) := by
  cases key with
  | none => exact h.reference hcode hcode'
  | some key => exact h.expression key hcode hcode' n

theorem eachBlock (h : k.Twin setup d k') {key : Option Expression} {list : Expression}
    {main main' : Fragment} (hmain : main.body = main'.body) {f g : Option Fragment}
    (hfg : f.map Fragment.body = g.map Fragment.body) (hcode : k.eachBlock key list main f code)
    (hcode' : k'.eachBlock key list main' g code') :
    Moves setup d code code' s s := by
  obtain ⟨keys, push, body, hkeys, hpush, hbody, hform⟩ := hcode
  obtain ⟨keys', push', body', hkeys', hpush', hbody', hform'⟩ := hcode'
  have hvalues := (((h.keyCode hkeys hkeys' 0).yields (Shape.yields_ref 0)).append
    ((h.expression list hpush hpush' 0).yields (Shape.yields_ref 0))).append <|
    .cons (acts_enter setup d _ 2 0 0) rfl rfl <| .one (acts_putIterator setup d 0 0 0 0) rfl rfl
  refine h.blockForm false hfg hvalues ?_
    (moves_loop fun _ => h.staticBlock hmain hbody hbody') hform hform'
  exact Shape.Yields.trans (Shape.yields_solid 0) (Shape.yields_fewer (Nat.zero_le 1))

theorem componentForm (h : k.Twin setup d k') {params : Option (List Expression)}
    {invocation invocation' : List Expression → Invocation}
    (hsame : ∀ rest, (invocation rest).Same (invocation' rest))
    (hcode : k.componentForm params invocation code)
    (hcode' : k'.componentForm params invocation' code') :
    Moves setup d code code' (.loose 0) (.loose 0) := by
  rcases params with _ | _ | ⟨definition, rest⟩
  · exact hcode.elim
  · exact hcode.elim
  · unfold Coding.componentForm at hcode hcode'
    rw [h.lookup, ← h.referer] at hcode
    rw [h.lookup'] at hcode'
    dsimp only at hcode hcode'
    cases hliteral : Compilable.literalComponent? setup.options.lookup k'.referer definition with
    | some handle =>
      simp only [hliteral] at hcode hcode'
      exact h.component (hsame rest) hcode hcode'
    | none =>
      simp only [hliteral] at hcode hcode'
      exact h.dynamicComponent (hsame rest) hcode hcode'

/-- A block form with its only parameter and its main block. -/
theorem single {call call' : BlockCall} (hcall : call.Same call')
    {form form' : Expression → Fragment → Prop}
    (hform : ∀ e main main', main.body = main'.body → form e main → form' e main' →
      Moves setup d code code' s s) (hcode : Coding.single call form)
    (hcode' : Coding.single call' form') : Moves setup d code code' s s := by
  obtain ⟨name, params, hash, template, inverse⟩ := call
  obtain ⟨name', params', hash', template', inverse'⟩ := call'
  obtain ⟨rfl, rfl, rfl, htemplate, -⟩ := hcall
  rcases params with _ | _ | ⟨param, _ | _⟩ <;> rcases template with _ | main
    <;> try exact hcode.elim
  obtain ⟨main', hmain', hbody⟩ := Option.map_eq_some_iff.mp htemplate.symm
  obtain rfl : template' = some main' := hmain'
  exact hform param main main' hbody.symm hcode hcode'

theorem blockCall (h : k.Twin setup d k') {call call' : BlockCall} (hcall : call.Same call')
    (hcode : k.blockCall call code) (hcode' : k'.blockCall call' code') :
    Moves setup d code code' (.loose 0) (.loose 0) := by
  unfold Coding.blockCall at hcode hcode'
  rw [← hcall.name] at hcode'
  split at hcode
  · rw [if_pos ‹_›] at hcode'
    refine single hcall ?_ hcode hcode'
    exact fun _ _ _ hmain hform hform' => h.conditional false hmain hcall.inverse hform hform'
  rw [if_neg ‹_›] at hcode'
  split at hcode
  · rw [if_pos ‹_›] at hcode'
    refine single hcall ?_ hcode hcode'
    exact fun _ _ _ hmain hform hform' => h.conditional true hmain hcall.inverse hform hform'
  rw [if_neg ‹_›] at hcode'
  split at hcode
  · rw [if_pos ‹_›] at hcode'
    refine single hcall ?_ hcode hcode'
    exact fun _ _ _ hmain hform hform' => h.withBlock hmain hcall.inverse hform hform'
  rw [if_neg ‹_›] at hcode'
  split at hcode
  · rw [if_pos ‹_›] at hcode'
    have hkey : Compilable.key? call' = Compilable.key? call := by
      rw [Compilable.key?, Compilable.key?, hcall.hash]
    rw [hkey] at hcode'
    refine single hcall ?_ hcode hcode'
    exact fun _ _ _ hmain hform hform' => h.eachBlock hmain hcall.inverse hform hform'
  rw [if_neg ‹_›] at hcode'
  split at hcode
  · rw [if_pos ‹_›, ← hcall.params] at hcode'
    exact h.componentForm hcall.invocation hcode hcode'
  · rw [if_neg ‹_›] at hcode'
    obtain ⟨handle, hhandle, hcode⟩ := hcode
    obtain ⟨handle', hhandle', hcode'⟩ := hcode'
    rw [h.lookup, ← h.referer] at hhandle
    rw [h.lookup'] at hhandle'
    obtain rfl := Option.some.inj (hhandle.symm.trans hhandle')
    rw [← hcall.params] at hcode'
    exact h.component (hcall.invocation _) hcode hcode'

/-! ### Appended values -/

theorem partialForm (h : k.Twin setup d k') {params : Option (List Expression)}
    (hcode : k.partialForm params code) (hcode' : k'.partialForm params code') :
    Moves setup d code code' (.loose 0) (.loose 0) := by
  unfold Coding.partialForm at hcode hcode'
  split at hcode
  · obtain ⟨f, table, call, hpart, hcall, rfl⟩ := hcode
    obtain ⟨f', table', call', hpart', hcall', rfl⟩ := hcode'
    rw [h.lookup, ← h.referer] at hpart
    rw [h.lookup'] at hpart'
    obtain ⟨rfl, rfl⟩ := Prod.mk.inj (Option.some.inj (hpart.symm.trans hpart'))
    have hframe := ((Moves.frame (s := .loose 0) (h.staticCall rfl hcall hcall')).append
      (.one (acts_popScope setup d _ 0 0 0) rfl rfl))
    have hbefore := Moves.cons (acts_getVariable setup d (.loose 0) 0 0 0) rfl rfl <|
      .cons (acts_rootScope setup d _ (UInt32.ofNat table.symbols.length + 1) 0 0) rfl rfl <|
      .of_yields (Shape.yields_ref 0) <| .cons (acts_setVariable setup d 0 0 0 0) rfl rfl hframe
    simpa only [List.cons_append, List.append_assoc, List.nil_append] using hbefore
  · exact hcode.elim

theorem append (h : k.Twin setup d k') {value : Expression} {trusted : Bool}
    (hcode : k.append value trusted code) (hcode' : k'.append value trusted code') :
    Moves setup d code code' (.loose 0) (.loose 0) := by
  unfold Coding.append at hcode hcode'
  rw [h.lookup, ← h.referer] at hcode
  rw [h.lookup'] at hcode'
  rcases hinline : Compilable.inline? setup.options.lookup k'.referer value with
    _ | ⟨params, hash⟩ | params | ⟨handle, params, hash⟩
  · simp only [hinline] at hcode hcode'
    split at hcode
    · rw [if_pos ‹_›] at hcode'
      exact h.guardedAppend hcode hcode'
    · rw [if_neg ‹_›] at hcode'
      obtain ⟨push, hpush, rfl⟩ := hcode
      obtain ⟨push', hpush', rfl⟩ := hcode'
      exact (h.expression value hpush hpush' 0).append
        (.one (acts_dynamicContent setup d _ 0 0 0) rfl rfl)
  · simp only [hinline] at hcode hcode'
    exact h.componentForm (fun _ => .refl _) hcode hcode'
  · simp only [hinline] at hcode hcode'
    exact h.partialForm hcode hcode'
  · simp only [hinline] at hcode hcode'
    exact h.component (.refl _) hcode hcode'

/-! ### Statements -/

/-- A namespace that is not empty has an operand that is not zero. -/
theorem space (h : k.Twin setup d k') {name : Option String} {index index' : UInt32}
    (hspace : k.space name index) (hspace' : k'.space name index') : SameSpace d index index' := by
  have hempty {k : Coding} {index : UInt32} {text : String} (hk : ∃ l : Linkage,
      l.Sound setup.options.lookup setup.options.strategy [] ∧ k.linkage ≤ l)
      (hindex : k.constants.strings.get? index = some text) (h : index = 0) : text = "" := by
    obtain ⟨l, hsound, hl⟩ := hk
    have hzero := (Linkage.Grows.constants hl).strings.get? (h ▸ hindex)
    exact Option.some.inj (hzero.symm.trans hsound.empty)
  obtain ⟨l, hsound, hl, -⟩ := h.left
  obtain ⟨l', hsound', hl', -⟩ := h.right
  cases name with
  | none => exact .inl ⟨hspace, hspace'⟩
  | some text =>
    obtain ⟨hindex, hzero⟩ := hspace
    obtain ⟨hindex', hzero'⟩ := hspace'
    by_cases htext : text = ""
    · exact .inl ⟨hzero htext, hzero' htext⟩
    · exact .inr ⟨fun h => htext (hempty ⟨l, hsound, hl⟩ hindex h),
        fun h => htext (hempty ⟨l', hsound', hl'⟩ hindex' h), text, h.string hindex hindex'⟩

theorem staticAttr (h : k.Twin setup d k') {mode : AttrMode} {name value : String}
    {space : Option String} (hcode : k.staticAttr mode name value space code)
    (hcode' : k'.staticAttr mode name value space code') :
    Moves setup d code code' s s := by
  obtain ⟨nameIndex, spaceIndex, hname, hspace, hcode⟩ := hcode
  obtain ⟨nameIndex', spaceIndex', hname', hspace', hcode'⟩ := hcode'
  cases mode with
  | component =>
    obtain ⟨push, hpush, rfl⟩ := hcode
    obtain ⟨push', hpush', rfl⟩ := hcode'
    exact (h.reference hpush hpush').append (.one (acts_attribute setup d s nameIndex nameIndex'
      Sink.setComponentAttribute (fun _ => rfl) (fun _ => rfl) (h.string hname hname')
        (h.space hspace hspace')) rfl rfl)
  | element =>
    obtain ⟨valueIndex, hvalue, rfl⟩ := hcode
    obtain ⟨valueIndex', hvalue', rfl⟩ := hcode'
    exact .one (acts_staticAttr setup d s nameIndex nameIndex' (h.string hname hname')
      (h.string hvalue hvalue') (h.space hspace hspace')) rfl rfl

theorem dynamicAttr (h : k.Twin setup d k') {mode : AttrMode} {name : String} {value : Expression}
    {space : Option String} {trusting : Bool}
    (hcode : k.dynamicAttr mode name value space trusting code)
    (hcode' : k'.dynamicAttr mode name value space trusting code') (n : Nat) :
    Moves setup d code code' (.loose n) (.loose n) := by
  obtain ⟨push, nameIndex, spaceIndex, hpush, hname, hspace, rfl⟩ := hcode
  obtain ⟨push', nameIndex', spaceIndex', hpush', hname', hspace', rfl⟩ := hcode'
  refine (h.expression value hpush hpush' n).append ?_
  cases mode with
  | component =>
    exact .one (acts_attribute setup d _ nameIndex nameIndex' Sink.setComponentAttribute
      (fun _ => rfl) (fun _ => rfl) (h.string hname hname') (h.space hspace hspace')) rfl rfl
  | element =>
    exact .one (acts_attribute setup d _ nameIndex nameIndex' Sink.setAttribute (fun _ => rfl)
      (fun _ => rfl) (h.string hname hname') (h.space hspace hspace')) rfl rfl

theorem yield (h : k.Twin setup d k') {slot : UInt32} {params : List Expression}
    (hcode : k.yield slot params code) (hcode' : k'.yield slot params code') (n : Nat) :
    Moves setup d code code' (.loose n) (.loose n) := by
  obtain ⟨given, hgiven, rfl⟩ := hcode
  obtain ⟨given', hgiven', rfl⟩ := hcode'
  have hbefore := (h.args hgiven hgiven' n).append
    (Moves.cons (acts_getBlock setup d _ slot 0 0) rfl rfl h.resolved)
  intro back ls c c' hk
  have := hbefore back ls _ _ (.invokeYield
    (.act rfl rfl (acts_popScope setup d _ 0 0 0) (.popFrame hk)))
  simpa only [List.append_assoc, List.cons_append, List.nil_append] using this

theorem optionalBlock_same {layout : Layout} {index : Option Nat} {f g : Option Fragment}
    (hf : layout.optionalBlock? index = some (f.map Fragment.body))
    (hg : layout.optionalBlock? index = some (g.map Fragment.body)) :
    f.map Fragment.body = g.map Fragment.body :=
  Option.some.inj (hf.symm.trans hg)

mutual

theorem statement (h : k.Twin setup d k') (mode : AttrMode) (st : Statement)
    {code code' : List Instruction} (hcode : k.statement mode st code)
    (hcode' : k'.statement mode st code') :
    Moves setup d code code' (.loose 0) (.loose 0) := by
  cases st with
  | text text =>
    exact h.onString hcode hcode' rfl fun index index' =>
      acts_onString setup d _ index index' (fun _ => rfl) fun _ => rfl
  | comment text =>
    exact h.onString hcode hcode' rfl fun index index' =>
      acts_onString setup d _ index index' (fun _ => rfl) fun _ => rfl
  | append value trusted => exact h.append hcode hcode'
  | openElement tag =>
    exact h.onString hcode hcode' rfl fun index index' =>
      acts_onString setup d _ index index' (fun _ => rfl) fun _ => rfl
  | flushElement =>
    obtain rfl : code = _ := hcode
    obtain rfl : code' = _ := hcode'
    exact .one (acts_flushElement setup d _ 0 0 0) rfl rfl
  | closeElement =>
    obtain rfl : code = _ := hcode
    obtain rfl : code' = _ := hcode'
    exact .one (acts_closeElement setup d _ 0 0 0) rfl rfl
  | staticAttr name value space => exact h.staticAttr hcode hcode'
  | dynamicAttr name value space trusting => exact h.dynamicAttr hcode hcode' 0
  | modifier name params hash =>
    obtain ⟨handle, given, call, hhandle, hgiven, hcall, rfl⟩ := hcode
    obtain ⟨handle', given', call', hhandle', hgiven', hcall', rfl⟩ := hcode'
    rw [h.lookup, ← h.referer] at hhandle
    rw [h.lookup'] at hhandle'
    obtain rfl := Option.some.inj (hhandle.symm.trans hhandle')
    exact (h.args hgiven hgiven' 0).append
      (h.onHandle hcall hcall' rfl fun index index' => acts_modifier setup d _ index index')
  | block name params hash template inverse =>
    obtain ⟨main, other, hmain, hother, hcode⟩ := hcode
    obtain ⟨main', other', hmain', hother', hcode'⟩ := hcode'
    rw [h.layout] at hmain' hother'
    have hcall : BlockCall.Same ⟨name, params, hash, main, other⟩
        ⟨name, params, hash, main', other'⟩ :=
      ⟨rfl, rfl, rfl, optionalBlock_same hmain hmain', optionalBlock_same hother hother'⟩
    exact h.blockCall hcall hcode hcode'
  | component tag attrs hash body =>
    obtain ⟨block, hblock, hcode⟩ := hcode
    obtain ⟨block', hblock', hcode'⟩ := hcode'
    rw [h.layout] at hblock'
    have hsame := optionalBlock_same hblock hblock'
    rw [h.lookup, ← h.referer] at hcode
    rw [h.lookup'] at hcode'
    cases hcomponent : setup.options.lookup.component? tag k'.referer with
    | some handle =>
      simp only [hcomponent] at hcode hcode'
      obtain ⟨passed, hpassed, hcode⟩ := hcode
      obtain ⟨passed', hpassed', hcode'⟩ := hcode'
      rw [h.layout] at hpassed'
      have hij : Invocation.Same { attrs := some passed, hash, block }
        { attrs := some passed', hash, block := block' } :=
        ⟨rfl, rfl, rfl, congrArg some (hpassed.trans hpassed'.symm), hsame, rfl⟩
      exact h.component hij hcode hcode'
    | none =>
      simp only [hcomponent] at hcode hcode'
      obtain ⟨opening, inner, content, hopening, hinner, hcontent, rfl⟩ := hcode
      obtain ⟨opening', inner', content', hopening', hinner', hcontent', rfl⟩ := hcode'
      have hopen : Moves setup d opening opening' (.loose 0) (.loose 0) :=
        h.onString hopening hopening' rfl fun index index' =>
          acts_onString setup d _ index index' (fun _ => rfl) fun _ => rfl
      have hclose : Moves setup d [⟨.closeElement, 0, 0, 0⟩] [⟨.closeElement, 0, 0, 0⟩]
          (.loose 0) (.loose 0) :=
        .one (acts_closeElement setup d _ 0 0 0) rfl rfl
      exact ((hopen.append (h.statements .element attrs hinner hinner')).append
        (.cons (acts_flushElement setup d _ 0 0 0) rfl rfl
          (h.optionalCall hsame hcontent hcontent'))).append hclose
  | yield slot params => exact h.yield hcode hcode' 0
  | attrSplat slot =>
    obtain ⟨called, hcalled, rfl⟩ := hcode
    obtain ⟨called', hcalled', rfl⟩ := hcode'
    exact (h.yield hcalled hcalled' 0).append (.one (acts_didCreateElement setup d _ 0 0) rfl rfl)
termination_by structural st

theorem statements (h : k.Twin setup d k') (mode : AttrMode) (ss : List Statement)
    {code code' : List Instruction} (hcode : k.statements mode ss code)
    (hcode' : k'.statements mode ss code') :
    Moves setup d code code' (.loose 0) (.loose 0) := by
  cases ss with
  | nil =>
    obtain rfl : code = [] := hcode
    obtain rfl : code' = [] := hcode'
    exact .nil
  | cons st rest =>
    obtain ⟨first, more, hfirst, hmore, rfl⟩ := hcode
    obtain ⟨first', more', hfirst', hmore', rfl⟩ := hcode'
    exact (h.statement mode st hfirst hfirst').append (h.statements mode rest hmore hmore')
termination_by structural ss

end

end Coding.Twin

/-- Blocks with the same body run alike. -/
theorem Setup.enters {setup : Setup} (hoptions : setup.options.Ample) : Exec.Enters setup := by
  rintro d handle handle' ⟨body, ⟨l, f, hsound, hd, ⟨-, block, code, m, hblock, hholds, hm, hcode⟩,
    rfl⟩, l', g, hsound', hd', ⟨-, block', code', m', hblock', hholds', hm', hcode'⟩, hgf⟩
  have hlayout : g.layout = f.layout := (congrArg Fragment.layout hgf :)
  have htwin : Coding.Twin setup d ⟨setup.options.lookup, setup.options.strategy, m, f.layout⟩
      ⟨setup.options.lookup, setup.options.strategy, m', g.layout⟩ :=
    ⟨hoptions, rfl, rfl, rfl, rfl, hlayout, ⟨l, hsound, hm, hd⟩, ⟨l', hsound', hm', hd'⟩⟩
  unfold Fragment.HasCode at hcode'
  rw [show g.attrMode = f.attrMode from (congrArg Fragment.attrMode hgf :),
    show g.statements = f.statements from (congrArg Fragment.statements hgf :)] at hcode'
  refine ⟨block.offset.toNat, block'.offset.toNat, _, _, ?_, ?_,
    ⟨hholds.mono hd.words, hholds'.mono hd'.words⟩,
    htwin.statements f.attrMode f.statements hcode hcode' none [] _ _ .leave⟩
  · rw [Heap.address?, hd.blocks _ _ hblock]
    rfl
  · rw [Heap.address?, hd'.blocks _ _ hblock']
    rfl

end TemplateMachine
