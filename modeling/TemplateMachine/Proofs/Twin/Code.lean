import TemplateMachine.Proofs.Shape.Statement
import TemplateMachine.Proofs.Twin.Link
import TemplateMachine.Proofs.Twin.Step

/-! The code of the same template, linked into two programs, runs alike.  The pieces of the code are
held against the shapes of the stack before and after them. -/

namespace TemplateMachine

/-! ### Pieces of code -/

/-- The pieces run alike, in whatever frame, from stacks of the one shape to stacks of the other. -/
def Moves (setup : Setup) (d : Duo) (c c' : List Instruction) (s s' : Shape) : Prop :=
  ∀ back ls k k', Flows setup d k k' (⟨s', back⟩ :: ls) → Flows setup d (c ++ k) (c' ++ k')
    (⟨s, back⟩ :: ls)

/-- The pieces do so in a frame that the block has entered; calls forget
where the frame returns to. -/
def Calling (setup : Setup) (d : Duo) (c c' : List Instruction) (s s' : Shape) : Prop :=
  ∀ l ls k k', Flows setup d k k' (⟨s', none⟩ :: l :: ls) → Flows setup d (c ++ k) (c' ++ k')
    (⟨s, none⟩ :: l :: ls)

/-- The pieces end with the return of the frame that they are in. -/
def Exits (setup : Setup) (d : Duo) (c c' : List Instruction) (s : Shape) : Prop :=
  ∀ back l ls k k', Flows setup d (c ++ k) (c' ++ k') (⟨s, some back⟩ :: l :: ls)

section

variable {setup : Setup} {d : Duo} {a b c a' b' c' : List Instruction} {i i' : Instruction}
variable {s s₁ s₂ s₃ : Shape}

namespace Moves

theorem nil : Moves setup d [] [] s s := fun _ _ _ _ h => h

theorem append (h : Moves setup d a a' s₁ s₂) (h' : Moves setup d b b' s₂ s₃) :
    Moves setup d (a ++ b) (a' ++ b') s₁ s₃ := fun back ls k k' hk => by
  rw [List.append_assoc, List.append_assoc]
  exact h _ _ _ _ (h' _ _ _ _ hk)

theorem cons (hacts : Acts setup d i i' s₁ s₂) (hi : i.op.returns = false)
    (hi' : i'.op.returns = false) (h : Moves setup d b b' s₂ s₃) :
    Moves setup d (i :: b) (i' :: b') s₁ s₃ := fun back ls k k' hk =>
  .act hi hi' hacts (h back ls k k' hk)

theorem one (hacts : Acts setup d i i' s₁ s₂) (hi : i.op.returns = false)
    (hi' : i'.op.returns = false) :
    Moves setup d [i] [i'] s₁ s₂ := .cons hacts hi hi' .nil

theorem yields (h : Moves setup d a a' s₁ s₂) (hs : s₂.Yields s₃) : Moves setup d a a' s₁ s₃ :=
  fun _ _ _ _ hk => h _ _ _ _ (.yields hs hk)

theorem of_yields (hs : s₁.Yields s₂) (h : Moves setup d a a' s₂ s₃) : Moves setup d a a' s₁ s₃ :=
  fun _ _ _ _ hk => .yields hs (h _ _ _ _ hk)

theorem calling (h : Moves setup d a a' s₁ s₂) : Calling setup d a a' s₁ s₂ :=
  fun l ls => h none (l :: ls)

/-- What stands in a frame leaves the stack below as it is. -/
theorem frame (h : Calling setup d a a' (.loose 0) (.loose 0)) :
    Moves setup d (⟨.pushFrame, 0, 0, 0⟩ :: a ++ [⟨.popFrame, 0, 0, 0⟩])
      (⟨.pushFrame, 0, 0, 0⟩ :: a' ++ [⟨.popFrame, 0, 0, 0⟩]) s s := fun back ls k k' hk => by
  simp only [List.cons_append, List.append_assoc, List.nil_append]
  exact .pushFrame (h _ _ _ _ (.popFrame hk))

end Moves

namespace Calling

theorem append (h : Calling setup d a a' s₁ s₂) (h' : Calling setup d b b' s₂ s₃) :
    Calling setup d (a ++ b) (a' ++ b') s₁ s₃ := fun l ls k k' hk => by
  rw [List.append_assoc, List.append_assoc]
  exact h _ _ _ _ (h' _ _ _ _ hk)

theorem invokeVirtual : Calling setup d [⟨.invokeVirtual, 0, 0, 0⟩] [⟨.invokeVirtual, 0, 0, 0⟩]
    ((Shape.loose 0).push .any) (.loose 0) := fun _ _ _ _ hk => .invokeVirtual hk

end Calling

namespace Exits

theorem of_moves (h : Moves setup d a a' s₁ s₂) (h' : Exits setup d b b' s₂) :
    Exits setup d (a ++ b) (a' ++ b') s₁ := fun back l ls k k' => by
  rw [List.append_assoc, List.append_assoc]
  exact h _ _ _ _ (h' back l ls k k')

theorem append (h : Exits setup d a a' s) : Exits setup d (a ++ b) (a' ++ b') s :=
  fun back l ls k k' => by
  rw [List.append_assoc, List.append_assoc]
  exact h back l ls _ _

theorem of_yields (hs : s₁.Yields s₂) (h : Exits setup d a a' s₂) : Exits setup d a a' s₁ :=
  fun back l ls k k' => .yields hs (h back l ls k k')

theorem exitFrame : Exits setup d Coding.exitFrame Coding.exitFrame (.loose 0) := fun _ _ _ _ _ =>
  .act rfl rfl (Exec.acts_exit setup d _ _ _ _) .ret

/-- A frame that is left through its end. -/
theorem frame (h : Exits setup d a a' (.loose 0)) :
    Moves setup d (Coding.frame a) (Coding.frame a') s s :=
  fun back ls k k' hk => by
    simp only [Coding.frame, List.cons_append, List.append_assoc, List.nil_append]
    exact .pushFrame (.returnTo (.popFrame hk) (h _ _ _ _ _))

/-- What is jumped over unless a condition is met, and what comes after it. -/
theorem branch (expected : Bool) (h : Exits setup d (a ++ b) (a' ++ b') s)
    (h' : Exits setup d b b' s) :
    Exits setup d (.skip (if expected then .jumpIf else .jumpUnless) a :: a ++ b)
      (.skip (if expected then .jumpIf else .jumpUnless) a' :: a' ++ b') (s.push .ref) :=
  fun back l ls k k' => by
    simp only [List.cons_append, List.append_assoc]
    refine .branch (h' back l ls k k') ?_
    have := h back l ls k k'
    rwa [List.append_assoc, List.append_assoc] at this

end Exits

/-! ### Codings of a template in two programs -/

/-- The two codings are of the same template, and what they refer to stands in the two programs. -/
structure Coding.Twin (setup : Setup) (d : Duo) (k k' : Coding) : Prop where
  ample : setup.options.Ample
  lookup : k.lookup = setup.options.lookup
  lookup' : k'.lookup = setup.options.lookup
  strategy : k.strategy = setup.options.strategy
  strategy' : k'.strategy = setup.options.strategy
  layout : k'.layout = k.layout
  left : ∃ l : Linkage, l.Sound setup.options.lookup setup.options.strategy [] ∧ k.linkage ≤ l ∧
    d.left.Carries l.program
  right : ∃ l : Linkage, l.Sound setup.options.lookup setup.options.strategy [] ∧ k'.linkage ≤ l ∧
    d.right.Carries l.program

end

/-- What has a handle in a coding stands in the program. -/
theorem CompileOptions.houses_of_linked {o : CompileOptions} {p : Program} {l m : Linkage}
    (hsound : l.Sound o.lookup o.strategy []) (hm : m ≤ l) (hp : p.Carries l.program) {f : Fragment}
    {handle : UInt32} (hknown : m.known f.id = some f)
    (hlinked : m.program.linked? f.id = some handle) : o.Houses p handle f.body := by
  obtain ⟨g, hg, hpending | hcompiled⟩ := hsound.linked _ _ (Linkage.Grows.linked hm hlinked)
  · cases hpending
  · obtain rfl := Option.some.inj ((Linkage.Grows.known hm _ _ hknown).symm.trans hg)
    exact ⟨l, f, hsound, hp, hcompiled, rfl⟩

namespace Coding.Twin

open Exec

variable {setup : Setup} {d : Duo} {k k' : Coding} {code code' : List Instruction} {s : Shape}

/-- What the constants of the codings are, those of the programs are. -/
theorem constants (h : k.Twin setup d k') :
    (∀ e, d.Within e → k.constants.Extends e.left.constants) ∧
      ∀ e, d.Within e → k'.constants.Extends e.right.constants := by
  obtain ⟨l, -, hl, hd⟩ := h.left
  obtain ⟨l', -, hl', hd'⟩ := h.right
  exact ⟨fun e he => ((Linkage.Grows.constants hl).trans hd.constants).trans he.left.constants,
    fun e he => ((Linkage.Grows.constants hl').trans hd'.constants).trans he.right.constants⟩

theorem names (h : k.Twin setup d k') {α : Type} {find : Constants → UInt32 → Option α}
    {index index' : UInt32} {x : α}
    (hmono : ∀ (c e : Constants) (i : UInt32), c.Extends e → find c i = some x → find e i = some x)
    (hx : find k.constants index = some x) (hx' : find k'.constants index' = some x) :
    d.Names find index index' x :=
  fun e he => ⟨hmono _ _ _ (h.constants.1 e he) hx, hmono _ _ _ (h.constants.2 e he) hx'⟩

theorem string (h : k.Twin setup d k') {index index' : UInt32} {x : String}
    (hx : k.constants.strings.get? index = some x)
    (hx' : k'.constants.strings.get? index' = some x) :
    d.Names (fun c => c.strings.get?) index index' x :=
    h.names (fun _ _ _ he => he.strings.get?) hx hx'

theorem referer (h : k.Twin setup d k') : k'.referer = k.referer := congrArg Layout.referer h.layout

theorem resolve (h : k.Twin setup d k') : k'.resolve = k.resolve := by
  unfold Coding.resolve
  rw [h.strategy, h.strategy']

/-! ### Constants -/

theorem onString (h : k.Twin setup d k') {op : Opcode} {text : String}
    (hcode : k.onString op text code) (hcode' : k'.onString op text code')
    (hop : op.returns = false) {s' : Shape}
    (hacts : ∀ index index', d.Names (fun c => c.strings.get?) index index' text →
      Acts setup d ⟨op, index, 0, 0⟩ ⟨op, index', 0, 0⟩ s s') : Moves setup d code code' s s' := by
  obtain ⟨index, hindex, rfl⟩ := hcode
  obtain ⟨index', hindex', rfl⟩ := hcode'
  exact .one (hacts _ _ (h.string hindex hindex')) hop hop

theorem onHandle (h : k.Twin setup d k') {op : Opcode} {handle : UInt32}
    (hcode : k.onHandle op handle code) (hcode' : k'.onHandle op handle code')
    (hop : op.returns = false) {s' : Shape}
    (hacts : ∀ index index', d.Names (fun c => c.handles.get?) index index' handle →
      Acts setup d ⟨op, index, 0, 0⟩ ⟨op, index', 0, 0⟩ s s') : Moves setup d code code' s s' := by
  obtain ⟨index, hindex, rfl⟩ := hcode
  obtain ⟨index', hindex', rfl⟩ := hcode'
  exact .one (hacts _ _ (h.names (fun _ _ _ he => he.handles.get?) hindex hindex')) hop hop

theorem onReferer (h : k.Twin setup d k') {op : Opcode} (hcode : k.onReferer op code)
    (hcode' : k'.onReferer op code') (hop : op.returns = false) {s' : Shape}
    (hacts : ∀ index index', d.Names (fun c => c.referers.get?) index index' k.referer →
      Acts setup d ⟨op, index, 0, 0⟩ ⟨op, index', 0, 0⟩ s s') : Moves setup d code code' s s' := by
  obtain ⟨index, hindex, rfl⟩ := hcode
  obtain ⟨index', hindex', rfl⟩ := hcode'
  rw [h.referer] at hindex'
  exact .one (hacts _ _ (h.names (fun _ _ _ he => he.referers.get?) hindex hindex')) hop hop

theorem decodes (h : k.Twin setup d k') {w w' : UInt32} {p p' : Primitive}
    (hp : Primitive.decode? w k.constants = some p)
    (hp' : Primitive.decode? w' k'.constants = some p') (e : Duo) (he : d.Within e) :
    Primitive.decode? w e.left.constants = some p ∧
    Primitive.decode? w' e.right.constants = some p' :=
  ⟨Primitive.decode?_mono (h.constants.1 e he) hp, Primitive.decode?_mono (h.constants.2 e he) hp'⟩

theorem reference (h : k.Twin setup d k') {p : Primitive} (hcode : k.reference p code)
    (hcode' : k'.reference p code') : Moves setup d code code' s (s.push .ref) := by
  obtain ⟨push, ⟨w, hw, rfl⟩, rfl⟩ := hcode
  obtain ⟨push', ⟨w', hw', rfl⟩, rfl⟩ := hcode'
  exact .cons (acts_primitive setup d s w w' (h.decodes hw hw')) rfl rfl
    (.one (acts_primitiveReference setup d s 0 0 0) rfl rfl)

theorem null (h : k.Twin setup d k') (hcode : k.primitive .null code)
    (hcode' : k'.primitive .null code') :
    Moves setup d code code' s (s.push .solid) := by
  obtain ⟨w, hw, rfl⟩ := hcode
  obtain ⟨w', hw', rfl⟩ := hcode'
  exact .one (acts_null setup d s w w' (h.decodes hw hw')) rfl rfl

theorem symbolTable (h : k.Twin setup d k') {table : Option SymbolTable}
    (hcode : k.symbolTable table code) (hcode' : k'.symbolTable table code') :
    Moves setup d code code' s (s.push .solid) := by
  cases table with
  | none => exact h.null hcode hcode'
  | some t =>
    obtain ⟨index, hindex, rfl⟩ := hcode
    obtain ⟨index', hindex', rfl⟩ := hcode'
    exact .one (acts_pushSymbolTable setup d s index index'
      (h.names (fun _ _ _ he => he.tables.get?) hindex hindex')) rfl rfl

/-! ### Blocks -/

/-- Blocks with the same body that have handles. -/
theorem blocks (h : k.Twin setup d k') {f g : Fragment} {handle handle' : UInt32}
    (hfg : f.body = g.body) (hf : k.linkage.known f.id = some f)
    (hhandle : k.linkage.program.linked? f.id = some handle) (hg : k'.linkage.known g.id = some g)
    (hhandle' : k'.linkage.program.linked? g.id = some handle') :
    d.Blocks setup.options handle handle' := by
  obtain ⟨l, hsound, hl, hd⟩ := h.left
  obtain ⟨l', hsound', hl', hd'⟩ := h.right
  exact ⟨f.body, CompileOptions.houses_of_linked hsound hl hd hf hhandle,
    hfg ▸ CompileOptions.houses_of_linked hsound' hl' hd' hg hhandle'⟩

theorem fragment (h : k.Twin setup d k') {f g : Fragment} {index index' : UInt32}
    (hfg : f.body = g.body) (hindex : k.constants.fragments.get? index = some f)
    (hindex' : k'.constants.fragments.get? index' = some g) :
    Acts setup d ⟨.constant, index, 0, 0⟩ ⟨.constant, index', 0, 0⟩ s (s.push .solid) :=
  acts_constant setup d s index index' hfg fun e he =>
    ⟨(h.constants.1 e he).fragments.get? hindex, (h.constants.2 e he).fragments.get? hindex'⟩

/-- Pushing a block. -/
theorem block (h : k.Twin setup d k') {f g : Option Fragment}
    (hfg : f.map Fragment.body = g.map Fragment.body) (hcode : k.block f code)
    (hcode' : k'.block g code') : Moves setup d code code' s (s.push .solid) := by
  cases f with
  | none =>
    obtain rfl : g = none := Option.map_eq_none_iff.mp hfg.symm
    exact h.null hcode hcode'
  | some f =>
    obtain ⟨g, rfl, hbody⟩ := Option.map_eq_some_iff.mp hfg.symm
    unfold Coding.block at hcode hcode'
    simp only [h.strategy, h.strategy'] at hcode hcode'
    cases hstrategy : setup.options.strategy with
    | lazy =>
      simp only [hstrategy] at hcode hcode'
      obtain ⟨index, -, hindex, rfl⟩ := hcode
      obtain ⟨index', -, hindex', rfl⟩ := hcode'
      exact .one (h.fragment hbody.symm hindex hindex') rfl rfl
    | eager =>
      simp only [hstrategy] at hcode hcode'
      obtain ⟨handle, hf, hhandle, w, hw, rfl⟩ := hcode
      obtain ⟨handle', hg, hhandle', w', hw', rfl⟩ := hcode'
      exact .one (acts_number setup d s w w' (h.blocks hbody.symm hf hhandle hg hhandle')
        (h.decodes hw hw')) rfl rfl

/-- What may be a block stays so. -/
theorem resolved (h : k.Twin setup d k') :
    Moves setup d k.resolve k'.resolve (s.push .any) (s.push .any) := by
  rw [h.resolve]
  unfold Coding.resolve
  rw [h.strategy]
  cases hstrategy : setup.options.strategy with
  | lazy => exact .one (acts_compileBlock h.ample hstrategy s 0 0 0) rfl rfl
  | eager => exact .nil

theorem yieldable (h : k.Twin setup d k') {f g : Option Fragment}
    (hfg : f.map Fragment.body = g.map Fragment.body) (hcode : k.yieldable f code)
    (hcode' : k'.yieldable g code') :
    Moves setup d code code' s ((s.push .solid).push .solid) := by
  obtain ⟨table, push, htable, hpush, rfl⟩ := hcode
  obtain ⟨table', push', htable', hpush', rfl⟩ := hcode'
  have hsame : (g.map fun f => f.table) = f.map fun f => f.table := by
    have hmap (f : Option Fragment) : (f.map fun f => f.table) = (f.map Fragment.body).map fun f =>
        f.table := by
      rw [Option.map_map]
      rfl
    rw [hmap, hmap f, hfg]
  rw [hsame] at htable'
  exact (h.symbolTable htable htable').append (h.block hfg hpush hpush')

/-- Calling a block in the current scope. -/
theorem staticCall (h : k.Twin setup d k') {f g : Fragment} (hfg : f.body = g.body)
    (hcode : k.staticCall f code) (hcode' : k'.staticCall g code') :
    Calling setup d code code' (.loose 0) (.loose 0) := by
  unfold Coding.staticCall at hcode hcode'
  simp only [h.strategy, h.strategy'] at hcode hcode'
  cases hstrategy : setup.options.strategy with
  | lazy =>
    simp only [hstrategy] at hcode hcode'
    obtain ⟨index, -, hindex, rfl⟩ := hcode
    obtain ⟨index', -, hindex', rfl⟩ := hcode'
    have hpush : Moves setup d [⟨.constant, index, 0, 0⟩, ⟨.compileBlock, 0, 0, 0⟩]
        [⟨.constant, index', 0, 0⟩, ⟨.compileBlock, 0, 0, 0⟩] (.loose 0)
          ((Shape.loose 0).push .any) :=
      .cons (h.fragment hfg hindex hindex') rfl rfl <|
        .of_yields (Shape.yields_any_of _ (.inr rfl)) <|
        .one (acts_compileBlock h.ample hstrategy _ 0 0 0) rfl rfl
    exact hpush.calling.append .invokeVirtual
  | eager =>
    simp only [hstrategy] at hcode hcode'
    obtain ⟨handle, hf, hhandle, rfl⟩ := hcode
    obtain ⟨handle', hg, hhandle', rfl⟩ := hcode'
    exact fun _ _ _ _ hk => .invokeStatic (h.blocks hfg hf hhandle hg hhandle') hk

/-- The parameters of a block are bound to what there is in the frame. -/
theorem moves_bindParameters (depth : UInt32) (symbols : List UInt32) :
    Moves setup d (bindParameters depth symbols) (bindParameters depth symbols) s s := by
  induction symbols generalizing depth with
  | nil => exact .nil
  | cons symbol rest ih =>
    exact .cons (acts_dup_fp setup d s depth 0) rfl rfl <|
      .cons (acts_setVariable_stray setup d s symbol 0 0) rfl rfl (ih _)

theorem moves_enterParameters (depth : UInt32) (symbols : List UInt32) :
    Moves setup d (enterParameters depth symbols) (enterParameters depth symbols) s s := by
  unfold enterParameters
  split
  · exact .nil
  · exact .cons (acts_childScope setup d s 0 0 0) rfl rfl (moves_bindParameters depth symbols)

theorem moves_leaveParameters (symbols : List UInt32) :
    Moves setup d (leaveParameters symbols) (leaveParameters symbols) s s := by
  unfold leaveParameters
  split
  · exact .nil
  · exact .one (acts_popScope setup d s 0 0 0) rfl rfl

/-- Calling a block whose parameters are values on the stack. -/
theorem staticBlock (h : k.Twin setup d k') {f g : Fragment} (hfg : f.body = g.body)
    {supplied : UInt32} (hcode : k.staticBlock f supplied code)
    (hcode' : k'.staticBlock g supplied code') :
    Moves setup d code code' s s := by
  obtain ⟨push, hpush, rfl⟩ := hcode
  obtain ⟨push', hpush', rfl⟩ := hcode'
  rw [show g.table = f.table from (congrArg Fragment.table hfg).symm]
  have hpush : Moves setup d push push' (.loose 0) ((Shape.loose 0).push .any) :=
    (h.block (f := some f) (g := some g) (congrArg some hfg) hpush hpush').yields
      (Shape.yields_any_of _ (.inr rfl))
  have hinner := (((moves_enterParameters supplied (f.table.parameters.take supplied.toNat)).append
    hpush).append h.resolved).calling.append (.append .invokeVirtual
      (moves_leaveParameters (f.table.parameters.take supplied.toNat)).calling)
  simpa only [List.cons_append, List.append_assoc, List.nil_append] using
    Moves.frame (s := s) hinner

theorem optionalCall (h : k.Twin setup d k') {f g : Option Fragment}
    (hfg : f.map Fragment.body = g.map Fragment.body) (hcode : k.optionalCall f code)
    (hcode' : k'.optionalCall g code') : Moves setup d code code' s s := by
  cases f with
  | none =>
    obtain rfl : g = none := Option.map_eq_none_iff.mp hfg.symm
    obtain rfl : code = [] := hcode
    obtain rfl : code' = [] := hcode'
    exact .nil
  | some f =>
    obtain ⟨g, rfl, hbody⟩ := Option.map_eq_some_iff.mp hfg.symm
    exact h.staticBlock hbody.symm hcode hcode'

/-! ### Expressions -/

theorem gather (h : k.Twin setup d k') {count : Nat} {names : List String}
    (hcode : k.gather count names code) (hcode' : k'.gather count names code') (n : Nat) :
    Moves setup d code code' (.loose n) ((Shape.loose n).push .solid) := by
  obtain ⟨index, flags, hindex, hflags, -, rfl⟩ := hcode
  obtain ⟨index', flags', hindex', hflags', -, rfl⟩ := hcode'
  exact .one (acts_pushArgs setup d index index' n
    (h.names (fun _ _ _ he => Constants.getStringArray?_mono he) hindex hindex')
      (hflags'.trans hflags.symm)) rfl rfl

theorem properties (h : k.Twin setup d k') {keys : List String} (hcode : k.properties keys code)
    (hcode' : k'.properties keys code') : Moves setup d code code' (s.push .ref) (s.push .ref) := by
  induction keys generalizing code code' with
  | nil =>
    obtain rfl : code = [] := hcode
    obtain rfl : code' = [] := hcode'
    exact .nil
  | cons key rest ih =>
    obtain ⟨first, more, hfirst, hmore, rfl⟩ := hcode
    obtain ⟨first', more', hfirst', hmore', rfl⟩ := hcode'
    exact (h.onString hfirst hfirst' rfl fun index index' =>
      acts_getProperty setup d s index index').append (ih hmore hmore')

mutual

/-- An expression pushes a reference; its arguments may take more references than they should. -/
theorem expression (h : k.Twin setup d k') (e : Expression) {code code' : List Instruction}
    (hcode : k.expression e code) (hcode' : k'.expression e code') (n : Nat) :
    Moves setup d code code' (.loose n) ((Shape.loose n).push .ref) := by
  cases e with
  | value json =>
    obtain ⟨p, hp, hpush⟩ := hcode
    obtain ⟨p', hp', hpush'⟩ := hcode'
    obtain rfl : p = p' := by
      rw [hp] at hp'
      exact Except.ok.inj hp'
    exact h.reference hpush hpush'
  | undefined => exact h.reference hcode hcode'
  | get head path =>
    obtain ⟨more, hmore, rfl⟩ := hcode
    obtain ⟨more', hmore', rfl⟩ := hcode'
    exact .cons (acts_getVariable setup d _ head 0 0) rfl rfl (h.properties hmore hmore')
  | unknown name =>
    unfold Coding.expression at hcode hcode'
    rw [h.lookup, ← h.referer] at hcode
    rw [h.lookup'] at hcode'
    cases hhelper : setup.options.lookup.helper? name k'.referer with
    | none =>
      simp only [hhelper] at hcode hcode'
      obtain ⟨more, hmore, rfl⟩ := hcode
      obtain ⟨more', hmore', rfl⟩ := hcode'
      exact .cons (acts_getVariable setup d _ 0 0 0) rfl rfl
        (h.onString hmore hmore' rfl fun index index' => acts_getProperty setup d _ index index')
    | some handle =>
      simp only [hhelper] at hcode hcode'
      obtain ⟨args, call, hargs, hcall, rfl⟩ := hcode
      obtain ⟨args', call', hargs', hcall', rfl⟩ := hcode'
      exact (h.gather hargs hargs' n).append
        (h.onHandle hcall hcall' rfl fun index index' => acts_helper setup d _ index index')
  | helper name params hash =>
    unfold Coding.expression at hcode hcode'
    split at hcode
    · rw [if_pos ‹_›] at hcode'
      rcases params with _ | _ | ⟨definition, rest⟩
      · exact hcode.elim
      · exact hcode.elim
      · obtain ⟨first, positional, named, args, curry, hfirst, hpositional, hnamed, hargs,
            hcurry, rfl⟩ := hcode
        obtain ⟨first', positional', named', args', curry', hfirst', hpositional', hnamed', hargs',
            hcurry', rfl⟩ :=
          hcode'
        exact (((((h.expression definition hfirst hfirst' n).yields (Shape.yields_ref n)).append
          (h.expressions rest hpositional hpositional' n)).append
            (h.namedValues hash hnamed hnamed' n)).append
          (h.gather hargs hargs' n)).append
          (h.onReferer hcurry hcurry' rfl fun index index' =>
            acts_curryComponent setup d index index' n)
    · rw [if_neg ‹_›] at hcode'
      obtain ⟨handle, positional, named, args, call, hhandle, hpositional, hnamed, hargs,
          hcall, rfl⟩ := hcode
      obtain ⟨handle', positional', named', args', call', hhandle', hpositional', hnamed', hargs',
          hcall', rfl⟩ :=
        hcode'
      rw [h.lookup, ← h.referer] at hhandle
      rw [h.lookup'] at hhandle'
      obtain rfl := Option.some.inj (hhandle.symm.trans hhandle')
      exact (((h.params? params hpositional hpositional' n).append
        (h.namedValues hash hnamed hnamed' n)).append (h.gather hargs hargs' n)).append
        (h.onHandle hcall hcall' rfl fun index index' => acts_helper setup d _ index index')
  | concat parts =>
    obtain ⟨values, hvalues, rfl⟩ := hcode
    obtain ⟨values', hvalues', rfl⟩ := hcode'
    exact (h.expressions parts hvalues hvalues' n).append
      (.one (acts_concat setup d _ 0 0 n) rfl rfl)
  | hasBlock symbol =>
    obtain rfl : code = _ := hcode
    obtain rfl : code' = _ := hcode'
    exact .one (acts_hasBlock setup d _ symbol 0 0) rfl rfl
  | hasBlockParams symbol =>
    obtain rfl : code = _ := hcode
    obtain rfl : code' = _ := hcode'
    exact (Moves.cons (acts_getBlock setup d _ symbol 0 0) rfl rfl h.resolved).append
      (.one (acts_hasBlockParams setup d _ 0 0 0) rfl rfl)
termination_by structural e

theorem expressions (h : k.Twin setup d k') (es : List Expression) {code code' : List Instruction}
    (hcode : k.expressions es code) (hcode' : k'.expressions es code') (n : Nat) :
    Moves setup d code code' (.loose n) (.loose n) := by
  cases es with
  | nil =>
    obtain rfl : code = [] := hcode
    obtain rfl : code' = [] := hcode'
    exact .nil
  | cons e rest =>
    obtain ⟨first, more, hfirst, hmore, rfl⟩ := hcode
    obtain ⟨first', more', hfirst', hmore', rfl⟩ := hcode'
    exact ((h.expression e hfirst hfirst' n).yields (Shape.yields_ref n)).append
      (h.expressions rest hmore hmore' n)
termination_by structural es

theorem params? (h : k.Twin setup d k') (params : Option (List Expression))
    {code code' : List Instruction} (hcode : k.params? params code)
    (hcode' : k'.params? params code') (n : Nat) :
    Moves setup d code code' (.loose n) (.loose n) := by
  cases params with
  | none =>
    obtain rfl : code = [] := hcode
    obtain rfl : code' = [] := hcode'
    exact .nil
  | some es => exact h.expressions es hcode hcode' n
termination_by structural params

theorem namedValues (h : k.Twin setup d k') (hash : Option (HashOf Expression))
    {code code' : List Instruction} (hcode : k.namedValues hash code)
    (hcode' : k'.namedValues hash code') (n : Nat) :
    Moves setup d code code' (.loose n) (.loose n) := by
  rcases hash with _ | ⟨names, values⟩
  · obtain rfl : code = [] := hcode
    obtain rfl : code' = [] := hcode'
    exact .nil
  · exact h.expressions values hcode.2 hcode'.2 n
termination_by structural hash

end

theorem args (h : k.Twin setup d k') {params : List Expression} {hash : Option Hash}
    (hcode : k.args params hash code) (hcode' : k'.args params hash code') (n : Nat) :
    Moves setup d code code' (.loose n) ((Shape.loose n).push .solid) := by
  obtain ⟨positional, named, gathered, hpositional, hnamed, hgathered, rfl⟩ := hcode
  obtain ⟨positional', named', gathered', hpositional', hnamed', hgathered', rfl⟩ := hcode'
  exact ((h.expressions params hpositional hpositional' n).append
    (h.namedValues hash hnamed hnamed' n)).append (h.gather hgathered hgathered' n)

end Coding.Twin

end TemplateMachine
