import TemplateMachine.Proofs.Twin.Flow

/-! Steps of two machines side by side. -/

namespace TemplateMachine

section

variable {setup : Setup} {d : Duo} {back : Option (List Instruction × List Instruction)} {l : Level}
variable {ls : List Level}
variable {ra ra' fp a a' : Nat} {base : List StackPair} {s s' : Shape} {x y : Private}
variable {c c' : List Instruction}

/-! ### Frames -/

/-- The return of a frame may be changed. -/
theorem Chain.turn (h : Chain setup d back (l :: ls) ra ra' fp base)
    {back' : Option (List Instruction × List Instruction)}
    {b b' : Nat} (hreturns : Returns setup d back' (l :: ls) b b') :
    Chain setup d back' (l :: ls) b b' fp base := by
  cases h with
  | frame _ hfits hchain => exact .frame hreturns hfits hchain
  | damaged _ halike hlength => exact .damaged hreturns halike hlength

theorem Chain.returns (h : Chain setup d back (l :: ls) ra ra' fp base) :
    Returns setup d back (l :: ls) ra ra' := by
  cases h with
  | frame hreturns _ _ => exact hreturns
  | damaged hreturns _ _ => exact hreturns

theorem Beside.of (hflows : Flows setup d c c' (⟨s, back⟩ :: ls)) (hholds : d.Holds a a' c c')
    (hheld : Held (ground setup back ls ra ra' fp) ⟨a, a', ra, ra', fp, d⟩ s x y) :
    Beside setup x y := by
  obtain rfl : x.pc = a := hheld.pc
  obtain rfl : y.pc = a' := hheld.pc'
  obtain rfl : x.ra = ra := hheld.ra
  obtain rfl : y.ra = ra' := hheld.ra'
  obtain rfl : x.fp = fp := hheld.fp
  exact ⟨d, c, c', s, back, ls, hflows, hholds, hheld⟩

theorem Held.pushFrame (h : Held (ground setup back ls ra ra' fp) ⟨a, a', ra, ra', fp, d⟩ s x y) :
    Held (ground setup none (⟨s, back⟩ :: ls) ra ra' x.stack.size)
      ⟨a, a', ra, ra', x.stack.size, d⟩ (.loose 0)
      { x with stack := (x.stack.push (.address x.ra)).push (.address x.fp), fp := x.stack.size }
      { y with stack := (y.stack.push (.address y.ra)).push (.address y.fp),
               fp := y.stack.size } := by
  have hsize : y.stack.size = x.stack.size := h.pointwise.size.symm
  obtain ⟨top, base, hl, hr, hfits, hbase⟩ := h.stack
  have hlength : x.stack.size = (top ++ base).length := by rw [hl, size_stackOf, List.length_map]
  refine { h with
    fp := rfl
    fp' := hsize
    stack := ⟨[], (.address fp, .address fp) :: (.address ra, .address ra') :: (top ++ base), ?_,
      ?_, ⟨[], [], rfl, .nil, fun _ hc => absurd hc List.not_mem_nil, Nat.zero_le _⟩, ?_⟩ }
  · show (x.stack.push (.address x.ra)).push (.address x.fp) = _
    rw [hl, ← stackOf_cons, ← stackOf_cons, h.ra, h.fp]
    rfl
  · show (y.stack.push (.address y.ra)).push (.address y.fp) = _
    rw [hr, ← stackOf_cons, ← stackOf_cons, h.ra', h.fp']
    rfl
  · show Chain setup _ none _ ra ra' x.stack.size _
    rw [hlength]
    exact .frame .none hfits hbase

theorem Shape.Fits.twins {top : List StackPair} (h : (Shape.loose 0).Fits setup.options d top)
    {p : StackPair} (hp : p ∈ top) : p.1.Twin setup.options d p.2 := by
  obtain ⟨us, vs, rfl, hus, hvs, -⟩ := h.split
  cases hus
  exact hvs p hp

namespace Exec

/-- A frame cannot be left if its second value is no address. -/
theorem popFrame_mismatch {m : Machine} (h : ∀ saved, m.stack[m.fp + 1]? ≠ some (.address saved)) :
    popFrame setup m = (mismatch "frame" : Exec Unit) setup m := by
  simp only [popFrame, bind_apply, get_apply]
  generalize m.stack[m.fp]? = first, m.stack[m.fp + 1]? = second at h
  cases first with
  | none => rfl
  | some v =>
    cases v with
    | address ra =>
      cases second with
      | none => rfl
      | some w =>
        cases w with
        | address saved => exact absurd rfl (h saved)
        | _ => rfl
    | _ => rfl

theorem popFrame_of_frame {m : Machine} {xs : Array Value} {ra fp : Nat} (vs : List Value)
    (hstack : m.stack = stackOf (vs ++ .address fp :: .address ra :: xs.toList.reverse))
    (hfp : m.fp = xs.size) :
    popFrame setup m = .ok () { m with stack := xs, ra, fp } := by
  have hra : m.stack[m.fp]? = some (.address ra) := by
    rw [hstack, getElem?_stackOf, hfp]
    simp
  have hfp' : m.stack[m.fp + 1]? = some (.address fp) := by
    rw [hstack, getElem?_stackOf, hfp]
    simp
  have hshrink : m.stack.shrink m.fp = xs := by
    rw [hstack, hfp]
    simp [stackOf]
  simp only [popFrame, bind_apply, get_apply, hra, hfp', modify_apply, hshrink]

/-- Leaving a frame restores what was around it, if nothing was taken from the frame. -/
theorem tied_popFrame :
    Tied setup (Held (ground setup back (l :: ls) ra ra' fp) ⟨a, a', ra, ra', fp, d⟩ (.loose 0))
      popFrame popFrame fun _ _ x y => ∃ ra ra' fp,
        Held (ground setup l.back ls ra ra' fp) ⟨a, a', ra, ra', fp, d⟩ l.shape x y := by
  intro m q hheld
  obtain ⟨top, base, hl, hr, hfits, hbase⟩ := hheld.stack
  have hchain : Chain setup (m.own.duo q) back (l :: ls) ra ra' fp base := hbase
  cases hchain with
  | @frame _ _ _ _ _ ra₀ ra₀' fp₀ below base _ hbelow hchain =>
    have hleft : popFrame setup m =
        .ok () { m with stack := stackOf ((below ++ base).map Prod.fst), ra := ra₀, fp := fp₀ } :=
      popFrame_of_frame (top.map Prod.fst) (hl.trans (by simp [stackOf])) (hheld.fp.trans (by simp))
    have hright : popFrame setup (m.beside q) =
        .ok () { m.beside q with stack := stackOf ((below ++ base).map Prod.snd), ra := ra₀',
                                 fp := fp₀ } :=
      popFrame_of_frame (top.map Prod.snd) (hr.trans (by simp [stackOf]))
        (hheld.fp'.trans (by simp))
    rw [hleft, hright]
    refine .ok rfl ⟨{ q with stack := stackOf ((below ++ base).map Prod.snd), ra := ra₀',
                             fp := fp₀ }, rfl,
      ra₀, ra₀', fp₀, { hheld with ra := rfl, ra' := rfl, fp := rfl, fp' := rfl, stack := ?_ }⟩
    exact ⟨below, base, rfl, rfl, hbelow, hchain⟩
  | damaged _ _ hlength =>
    -- what is at the place of the saved frame was pushed since, and is no address
    have hnone (p : StackPair → Value) (hp : ∀ c ∈ top, ∀ saved, p c ≠ .address saved)
      (saved : Nat) :
        (stackOf ((top ++ base).map p))[fp + 1]? ≠ some (.address saved) := by
      rw [getElem?_stackOf, List.map_append, List.reverse_append,
        List.getElem?_append_right (by simpa using hlength)]
      intro h
      obtain ⟨c, hc, hv⟩ := List.mem_map.mp (List.mem_reverse.mp (List.mem_of_getElem? h))
      exact hp c hc saved hv
    have hleft : popFrame setup m = (mismatch "frame" : Exec Unit) setup m := by
      refine popFrame_mismatch ?_
      rw [show m.stack = _ from hl, show m.fp = fp from hheld.fp]
      exact hnone Prod.fst fun c hc saved => ((hfits.twins hc).ne_address saved).1
    have hright : popFrame setup (m.beside q) = (mismatch "frame" : Exec Unit) setup
        (m.beside q) := by
      refine popFrame_mismatch ?_
      rw [show (m.beside q).stack = _ from hr, show (m.beside q).fp = fp from hheld.fp']
      exact hnone Prod.snd fun c hc saved => ((hfits.twins hc).ne_address saved).2
    rw [hleft, hright]
    exact .fault rfl rfl

/-! ### Jumps -/

theorem target_of_fits {m : Machine} {k : Nat} (hfits : m.program.Fits)
    (hk : a + 4 * k < m.program.heap.words.size) :
    target a (Emit.distance 0 k) setup m = .ok (a + 4 * k) m := by
  have hwords := hfits.words
  have hoffset := relativeOffset_distance (k := k) (by omega)
  simp only [target, bind_apply, get_apply, hoffset]
  rw [if_pos (by omega), show ((a : Int) + 4 * (k : Int)).toNat = a + 4 * k by omega]
  rfl

/-- The code that a jump leads to is in the heap. -/
theorem holds_target {h : Heap} {i : Instruction} {b c : List Instruction}
    (hcode : h.Holds a (i :: b ++ c)) (hc : c ≠ []) :
    h.Holds (a + 4 * (1 + b.length)) c ∧ a + 4 * (1 + b.length) < h.words.size := by
  have hafter : h.Holds (a + 4 * (i :: b).length) c := hcode.append.2
  rw [List.length_cons, Nat.add_comm b.length] at hafter
  have hsize := hafter.le_size hc
  have hlength := List.length_pos_iff.mpr hc
  exact ⟨hafter, by omega⟩

section

variable {G : Ground setup.options} {b b' : List Instruction} {i i' : Instruction}

theorem tied_target (b b' : List Instruction) (hholds : d.Holds a a' (i :: b ++ c) (i' :: b' ++ c'))
    (hc : c ≠ []) (hc' : c' ≠ [])
    {at₀ at₀' : Nat} :
    Tied setup (Held G ⟨at₀, at₀', ra, ra', fp, d⟩ s) (target a (Emit.distance 0 (1 + b.length)))
      (target a' (Emit.distance 0 (1 + b'.length))) fun t t' x y =>
        (t = a + 4 * (1 + b.length) ∧ t' = a' + 4 * (1 + b'.length)) ∧
          Held G ⟨at₀, at₀', ra, ra', fp, d⟩ s x y := by
  intro m q hheld
  have hnow := hholds.mono hheld.since
  rw [target_of_fits hheld.ready.fits (holds_target hnow.left hc).2,
    target_of_fits (m := m.beside q) hheld.ready'.fits (holds_target hnow.right hc').2]
  exact .ok rfl ⟨q, rfl, ⟨rfl, rfl⟩, hheld⟩

/-- The code behind what is jumped over. -/
theorem holds_skipped (hholds : d.Holds a a' (i :: b ++ c) (i' :: b' ++ c')) (hc : c ≠ [])
    (hc' : c' ≠ []) :
    d.Holds (a + 4 * (1 + b.length)) (a' + 4 * (1 + b'.length)) c c' :=
  ⟨(holds_target hholds.left hc).1, (holds_target hholds.right hc').1⟩

theorem tied_jump (b b' : List Instruction) (hholds : d.Holds a a' (i :: b ++ c) (i' :: b' ++ c'))
    (hc : c ≠ []) (hc' : c' ≠ [])
    {at₀ at₀' : Nat} :
    Tied setup (Held G ⟨at₀, at₀', ra, ra', fp, d⟩ s) (jump a (Emit.distance 0 (1 + b.length)))
      (jump a' (Emit.distance 0 (1 + b'.length))) fun _ _ =>
        Held G ⟨a + 4 * (1 + b.length), a' + 4 * (1 + b'.length), ra, ra', fp, d⟩ s :=
  (tied_target b b' hholds hc hc').bind fun t t' => .given fun ht => by
    obtain ⟨rfl, rfl⟩ := ht
    exact Tied.changes (fun _ => rfl) fun m q hheld =>
      ⟨{ q with pc := _ }, rfl, { hheld with pc := rfl, pc' := rfl }⟩

end

/-! ### Calls -/

/-- Twin handles lead to code that runs alike. -/
def Enters (setup : Setup) : Prop :=
  ∀ (d : Duo) (handle handle' : UInt32), d.Blocks setup.options handle handle' →
    ∃ a a' c c', d.left.heap.address? handle = some a ∧ d.right.heap.address? handle' = some a' ∧
      d.Holds a a' c c' ∧ Flows setup d c c' [⟨.loose 0, none⟩]

theorem tied_call (henters : Enters setup) {handle handle' : UInt32}
    (hblocks : d.Blocks setup.options handle handle') (hholds : d.Holds a a' c c')
    (hflows : Flows setup d c c' (⟨.loose 0, none⟩ :: l :: ls)) :
    Tied setup (Held (ground setup none (l :: ls) ra ra' fp) ⟨a, a', ra, ra', fp, d⟩ (.loose 0))
      (call handle)
      (call handle') fun _ _ => Beside setup := by
  intro m q hheld
  have hd := hheld.since
  obtain ⟨b, b', code, code', hb, hb', hcode, hcodeflows⟩ := henters _ _ _ (hblocks.mono hd)
  replace hb : m.program.heap.address? handle = some b := hb
  replace hb' : (m.beside q).program.heap.address? handle' = some b' := hb'
  simp only [call, bind_apply, get_apply, hb, hb', orFail_some, modify_apply]
  refine .ok rfl ⟨{ q with ra := q.pc, pc := b' }, rfl, ?_⟩
  obtain ⟨top, base, hl, hr, hfits, hbase⟩ := hheld.stack
  have hchain : Chain setup (m.own.duo q) none [] a a' fp base :=
    .caller (hholds.mono hd) (hflows.mono hd) (Chain.turn hbase .none)
  exact Beside.of hcodeflows hcode { hheld with
    pc := rfl
    pc' := rfl
    ra := hheld.pc
    ra' := hheld.pc'
    since := .refl _
    stack := ⟨top, base, hl, hr, hfits, hchain⟩ }

theorem tied_pushFrame :
    Tied setup (Held (ground setup back ls ra ra' fp) ⟨a, a', ra, ra', fp, d⟩ s) pushFrame pushFrame
      fun _ _ x y => ∃ fp', Held (ground setup none (⟨s, back⟩ :: ls) ra ra' fp')
        ⟨a, a', ra, ra', fp', d⟩ (.loose 0) x y :=
  Tied.changes (fun _ => rfl) fun _ _ hheld => ⟨_, rfl, _, hheld.pushFrame⟩

theorem bindParameters_twin {o : CompileOptions} {scope scope' : Scope} (h : scope.Twin o d scope')
    (parameters : List UInt32) (values : List Reference) :
    (bindParameters scope parameters values).Twin o d
      (bindParameters scope' parameters values) := by
  induction parameters generalizing scope scope' values with
  | nil => exact h
  | cons symbol rest ih =>
    cases values with
    | nil => exact ih (h.bind symbol (.value .null)) []
    | cons value values => exact ih (h.bind symbol (.value value)) values

theorem tied_enterCallerScope (parameters : List UInt32) (args : Arguments) :
    Tied setup (Held (ground setup back ls ra ra' fp) ⟨a, a', ra, ra', fp, d⟩ s)
      (enterCallerScope parameters args)
      (enterCallerScope parameters args) fun _ _ x y => ∃ fp',
        Held (ground setup none (⟨s, back⟩ :: ls) ra ra' fp') ⟨a, a', ra, ra', fp', d⟩
          (.loose 0) x y := by
  refine Tied.after shared_currentScope fun current => Tied.get_bind fun m q hheld => ?_
  have hscopes := hheld.scopes
  have hcaller : (q.scopes.get current).caller = (m.scopes.get current).caller :=
    (hscopes.get current).caller.symm
  show Tied setup _ (orFail (m.scopes.get current).caller _ >>= _)
    (orFail (q.scopes.get current).caller _ >>= _) _
  rw [hcaller]
  refine Tied.after (Shared.orFail _ _) fun caller => ?_
  refine Tied.here hheld.rebase ?_
  split
  · refine tied_pushFrame.bind fun _ _ => .exists_of fun fp' => ?_
    exact (shared_enterScope caller).tied.weaken fun _ _ _ _ h =>
      ⟨fp', Held.unbase (π := ⟨a, a', ra, ra', fp', d⟩) h hheld.since⟩
  · refine tied_pushFrame.bind fun _ _ => .exists_of fun fp' => ?_
    refine (tied_enterNewScope ?_).weaken fun _ _ _ _ h =>
      ⟨fp', Held.unbase (π := ⟨a, a', ra, ra', fp', d⟩) h hheld.since⟩
    exact bindParameters_twin (hscopes.get caller) parameters args.positional

theorem tied_invokeYield (henters : Enters setup) (hholds : d.Holds a a' c c')
    (hflows : Flows setup d c c' (⟨.loose 0, none⟩ :: ⟨s, back⟩ :: ls)) :
    Tied setup
    (Held (ground setup back ls ra ra' fp) ⟨a, a', ra, ra', fp, d⟩
      (((s.push .solid).push .any).push .any))
      invokeYield invokeYield fun _ _ => Beside setup := by
  refine tied_pop_known.bind_known fun block block' e he hblock => ?_
  refine tied_pop_known.bind_known fun table table' e' he' htable => ?_
  refine tied_popArgs.bind fun args _ => .given fun hargs => hargs ▸ ?_
  refine Tied.after shared_currentScope fun current => ?_
  have hwithin : d.Within e' := he.trans he'
  replace htable : table.Twin setup.options e' table' := htable
  have habsent : Tied setup (Held (ground setup back ls ra ra' fp) ⟨a, a', ra, ra', fp, e'⟩ s)
      (do pushFrame; enterScope current) (do pushFrame; enterScope current) fun _ _ =>
      Beside setup :=
    tied_pushFrame.bind fun _ _ => .exists_of fun fp' =>
      (shared_enterScope current).tied.weaken fun _ _ _ _ h =>
      Beside.of (hflows.mono hwithin) (hholds.mono hwithin) h
  rcases Value.Twin.toHandle? (hblock : block.Twin setup.options e block') with ⟨hnone, hnone'⟩ |
    ⟨handle, handle', hsome, hsome', hblocks⟩
  · rw [hnone, hnone']
    exact habsent
  · rw [hsome, hsome']
    cases htable with
    | table t =>
      refine (tied_enterCallerScope t.parameters args).bind fun _ _ => .exists_of fun fp' => ?_
      exact tied_call henters (hblocks.mono he') (hholds.mono hwithin) (hflows.mono hwithin)
    | _ => exact habsent

section

variable {o : CompileOptions} {main main' inverse inverse' attrs attrs' : ScopeBlock}

/-- What a symbol of a layout is bound to are twins if the blocks are. -/
theorem slot_twin (self : Reference) (args : Arguments) (hmain : main.Twin o d main')
    (hinverse : inverse.Twin o d inverse') (hattrs : attrs.Twin o d attrs') (symbol : String) :
    LayoutCall.slot? ⟨self, args, main, inverse, attrs⟩ symbol = none ∧
        LayoutCall.slot? ⟨self, args, main', inverse', attrs'⟩ symbol = none ∨
      ∃ slot slot', LayoutCall.slot? ⟨self, args, main, inverse, attrs⟩ symbol = some slot ∧
        LayoutCall.slot? ⟨self, args, main', inverse', attrs'⟩ symbol = some slot' ∧
        slot.Twin o d slot' := by
  unfold LayoutCall.slot?
  split
  · exact .inr ⟨_, _, rfl, rfl, .block hmain⟩
  split
  · exact .inr ⟨_, _, rfl, rfl, .block hinverse⟩
  split
  · exact .inr ⟨_, _, rfl, rfl, .block hattrs⟩
  cases SymbolRole.ofSymbol symbol with
  | argument symbol bare =>
    cases hnamed : args.named? bare with
    | none => exact .inl ⟨by simp [hnamed], by simp [hnamed]⟩
    | some r => exact .inr ⟨_, _, by simp [hnamed], by simp [hnamed], .value r⟩
  | _ => exact .inl ⟨rfl, rfl⟩

theorem bind_twin (self : Reference) (args : Arguments) (hmain : main.Twin o d main')
    (hinverse : inverse.Twin o d inverse') (hattrs : attrs.Twin o d attrs') {scope scope' : Scope}
    (h : scope.Twin o d scope') (slot : UInt32) (symbols : List String) :
    (LayoutCall.bind ⟨self, args, main, inverse, attrs⟩ scope slot symbols).Twin o d
      (LayoutCall.bind ⟨self, args, main', inverse', attrs'⟩ scope' slot symbols) := by
  induction symbols generalizing scope scope' slot with
  | nil => exact h
  | cons symbol rest ih =>
    simp only [LayoutCall.bind]
    rcases slot_twin self args hmain hinverse hattrs symbol with
      ⟨hnone, hnone'⟩ | ⟨v, v', hv, hv', htwin⟩
    · rw [hnone, hnone']
      exact ih h _
    · rw [hv, hv']
      exact ih (h.bind slot htwin) _

end

theorem tied_invokeLayout (henters : Enters setup) {n : Nat} (hholds : d.Holds a a' c c')
    (hflows : Flows setup d c c' (⟨.loose 0, none⟩ :: ⟨.loose n, back⟩ :: ls)) :
    Tied setup (Held (ground setup back ls ra ra' fp) ⟨a, a', ra, ra', fp, d⟩
      (((((Shape.loose (n + 6)).push .solid).push .ref).push .any).push .any))
      invokeLayout invokeLayout fun _ _ => Beside setup := by
  refine tied_pop_known.bind_known fun block block' e he hblock => ?_
  rcases Value.Twin.toHandle? (hblock : block.Twin setup.options e block') with ⟨hnone, hnone'⟩ |
    ⟨handle, handle', hsome, hsome', hblocks⟩
  · rw [hnone, hnone']
    exact Tied.mismatch _
  rw [hsome, hsome']
  refine tied_pop_known.bind_known fun table table' e₁ he₁ htable => ?_
  replace htable : table.Twin setup.options e₁ table' := htable
  cases htable with
  | table t =>
    refine tied_popRef.bind fun self _ => .given fun hself => hself ▸ ?_
    refine tied_popArgs.bind fun args _ => .given fun hargs => hargs ▸ ?_
    refine tied_popBlock.bind_known fun attrs attrs' e₂ he₂ hattrs => ?_
    refine tied_popBlock.bind_known fun inverse inverse' e₃ he₃ hinverse => ?_
    refine tied_popBlock.bind_known fun main main' e₄ he₄ hmain => ?_
    have hwithin : e₁.Within e₄ := he₂.trans (he₃.trans he₄)
    have hfrom : d.Within e₄ := he.trans (he₁.trans hwithin)
    cases t.asProgram? with
    | none => exact Tied.mismatch _
    | some program =>
      refine Tied.get_same (fun _ _ => rfl) fun m => ?_
      refine Tied.bind (tied_pushFrame (d := e₄)) fun _ _ => .exists_of fun fp' => ?_
      have hroot := (Scope.Twin.root (o := setup.options) (d := e₄) (program.symbols.length + 1)
        (program.symbols.length + 1) m.scopeStack.head?).bind 0 (.value self)
      have hscope := bind_twin self args hmain (hinverse.mono he₄) (hattrs.mono (he₃.trans he₄))
        hroot 1 program.symbols
      exact (tied_enterNewScope hscope).bind fun _ _ =>
        tied_call henters (hblocks.mono (he₁.trans hwithin)) (hholds.mono hfrom) (hflows.mono hfrom)
  | _ => exact Tied.mismatch _

/-! ### Lists -/

/-- The iterator on the stack stays there. -/
theorem tied_iterator {G : Ground setup.options} {π : Pins} :
    Tied setup (Held G π s) iterator iterator fun x y l r => x = y ∧ Held G π s l r := by
  refine Tied.get_bind fun m q hheld => ?_
  refine Tied.here hheld ?_
  have hsize : q.stack.size = m.stack.size := hheld.pointwise.size.symm
  rcases hheld.pointwise.get? (m.stack.size - 1) with ⟨hl, hr⟩ | ⟨v, v', hl, hr, halike⟩
  · rw [show m.stack.back? = none from (Array.back?_eq_getElem? ..).trans hl,
      show (m.beside q).stack.back? = none from (Array.back?_eq_getElem? ..).trans (hsize ▸ hr)]
    exact Tied.underflow
  · rw [show m.stack.back? = some v from (Array.back?_eq_getElem? ..).trans hl,
      show (m.beside q).stack.back? = some v' from (Array.back?_eq_getElem? ..).trans (hsize ▸ hr)]
    cases halike with
    | twin h =>
      cases h with
      | iterator number => exact Tied.pure fun _ _ h => ⟨rfl, h⟩
      | _ => exact Tied.mismatch _
    | _ => exact Tied.mismatch _

/-- What may be anything is known to be an iterator if it is one. -/
theorem tied_iterator_stray {G : Ground setup.options} {π : Pins} :
    Tied setup (Held G π (s.push .stray)) iterator iterator fun _ _ =>
    Held G π (s.push .solid) := by
  refine Tied.get_bind fun m q hheld => ?_
  have htops := hheld.tops
  cases htops with
  | empty hl hr =>
    rw [show m.stack = #[] from hl, show (m.beside q).stack = #[] from hr]
    exact Tied.underflow
  | @top v v' xs ys hl hr hpost =>
    obtain ⟨halike, hbelow⟩ := hpost
    replace halike : v.Alike setup.options (m.own.duo q) v' := halike
    rw [show m.stack.back? = some v from (congrArg Array.back? hl).trans Array.back?_push,
      show (m.beside q).stack.back? = some v' from (congrArg Array.back? hr).trans Array.back?_push]
    cases halike with
    | twin h =>
      cases h with
      | iterator number =>
        refine Tied.pure ?_
        rintro l r ⟨rfl, rfl⟩
        have hadmits : Kind.solid.Admits setup.options (m.own.duo r)
            (.iterator number, .iterator number) :=
          ⟨.iterator number, rfl⟩
        have hheld' := hbelow.push hadmits
        simp only [← hl, ← hr] at hheld'
        exact hheld'
      | _ => exact Tied.mismatch _
    | _ => exact Tied.mismatch _

end Exec

/-! ### Steps -/

/-- An instruction that leads from code that runs alike to code that runs alike. -/
def Proceeds (setup : Setup) (d : Duo) (i i' : Instruction) (c c' : List Instruction) (s : Shape)
    (back : Option (List Instruction × List Instruction)) (ls : List Level) : Prop :=
  ∀ (a a' ra ra' fp : Nat) (m : Machine) (q : Private), d.Holds a a' (i :: c) (i' :: c') →
    Held (ground setup back ls ra ra' fp) ⟨a + 4, a' + 4, ra, ra', fp, d⟩ s m.own q →
    setup.StepsAlike m.program (Machine.Paired fun _ _ => Beside setup) (Exec.perform a i setup m)
      (Exec.perform a' i' setup (m.beside q))

namespace Proceeds

open Exec (Enters)

variable {i i' : Instruction} {b b' : List Instruction}

/-- An instruction that links nothing. -/
theorem of (h : ∀ a a' ra ra' fp : Nat, d.Holds a a' (i :: c) (i' :: c') →
    Exec.Tied setup (Held (ground setup back ls ra ra' fp) ⟨a + 4, a' + 4, ra, ra', fp, d⟩ s)
      (Exec.perform a i)
      (Exec.perform a' i') fun _ _ => Beside setup) : Proceeds setup d i i' c c' s back ls :=
  fun a a' ra ra' fp m q hholds hheld => (h a a' ra ra' fp hholds m q hheld).steps

theorem act (hacts : Acts setup d i i' s s') (hflows : Flows setup d c c' (⟨s', back⟩ :: ls)) :
    Proceeds setup d i i' c c' s back ls := fun a a' _ _ _ m q hholds hheld => by
  have hends := hacts _ _ (.refl d) a a' m q hheld
  generalize Exec.perform a i setup m = out, Exec.perform a' i' setup (m.beside q) = out' at hends
  cases hends with
  | ok hgathers h =>
    obtain ⟨r, hr, hheld'⟩ := h
    exact .ok hgathers ⟨r, hr, .of hflows hholds.next hheld'⟩
  | fault h hgathers => exact .fault h hgathers
  | unlinked h hhangs => exact .unlinked h hhangs
  | fullLeft h => exact .fullLeft h
  | fullRight h => exact .fullRight h

theorem pushFrame (hflows : Flows setup d c c' (⟨.loose 0, none⟩ :: ⟨s, back⟩ :: ls)) :
    Proceeds setup d ⟨.pushFrame, 0, 0, 0⟩ ⟨.pushFrame, 0, 0, 0⟩ c c' s back ls :=
    .of fun _ _ _ _ _ hholds =>
  Exec.tied_pushFrame.weaken fun _ _ _ _ ⟨_, h⟩ => Beside.of hflows hholds.next h

theorem popFrame (hflows : Flows setup d c c' (l :: ls)) :
    Proceeds setup d ⟨.popFrame, 0, 0, 0⟩ ⟨.popFrame, 0, 0, 0⟩ c c' (.loose 0) back (l :: ls) :=
  .of fun _ _ _ _ _ hholds =>
    Exec.tied_popFrame.weaken fun _ _ _ _ ⟨_, _, _, h⟩ => Beside.of hflows hholds.next h

theorem returnTo (hflows : Flows setup d c c' (⟨.loose 0, some (c, c')⟩ :: l :: ls))
    (hflows' : Flows setup d (b ++ c) (b' ++ c') (⟨s, some (c, c')⟩ :: l :: ls)) :
    Proceeds setup d (.skip .returnTo b) (.skip .returnTo b') (b ++ c)
      (b' ++ c') s none (l :: ls) :=
  .of fun a a' ra ra' fp hholds => by
    obtain ⟨hc, hc'⟩ := hflows.ne_nil
    refine (Exec.tied_target b b' hholds hc hc').bind fun t t' => .given fun ht => ?_
    obtain ⟨rfl, rfl⟩ := ht
    refine Exec.Tied.changes (fun _ => rfl) fun m q hheld =>
      ⟨{ q with ra := a' + 4 * (1 + b'.length) }, rfl, ?_⟩
    obtain ⟨top, base, hl, hr, hfits, hbase⟩ := hheld.stack
    have hreturns : Returns setup (m.own.duo q) (some (c, c')) (l :: ls) (a + 4 * (1 + b.length))
        (a' + 4 * (1 + b'.length)) := by
      rintro _ _ ⟨⟩
      exact ⟨(Exec.holds_skipped hholds hc hc').mono hheld.since, hflows.mono hheld.since⟩
    have hheld' : Held (ground setup (some (c, c')) (l :: ls) (a + 4 * (1 + b.length))
      (a' + 4 * (1 + b'.length)) fp)
        ⟨a + 4, a' + 4, a + 4 * (1 + b.length), a' + 4 * (1 + b'.length), fp, d⟩ s
        { m.own with ra := a + 4 * (1 + b.length) } { q with ra := a' + 4 * (1 + b'.length) } :=
      { hheld with
        ra := rfl
        ra' := rfl
        stack := ⟨top, base, hl, hr, hfits, Chain.turn hbase hreturns⟩ }
    exact Beside.of hflows' hholds.next hheld'

theorem branch {expected : Bool} (hflows : Flows setup d c c' (⟨s, back⟩ :: ls))
    (hflows' : Flows setup d (b ++ c) (b' ++ c') (⟨s, back⟩ :: ls)) :
    Proceeds setup d (.skip (if expected then .jumpIf else .jumpUnless) b)
      (.skip (if expected then .jumpIf else .jumpUnless) b') (b ++ c) (b' ++ c')
        (s.push .ref) back ls :=
  .of fun a a' ra ra' fp hholds => by
    obtain ⟨hc, hc'⟩ := hflows.ne_nil
    rw [Instruction.skip, Instruction.skip, Exec.perform_jumpWhen, Exec.perform_jumpWhen]
    refine (Exec.tied_popDatum Exec.tied_popRef).bind fun x _ => .given fun hx => hx ▸ ?_
    split
    · exact (Exec.tied_jump b b' hholds hc hc').weaken fun _ _ _ _ h =>
        Beside.of hflows (Exec.holds_skipped hholds hc hc') h
    · exact Exec.Tied.pure fun _ _ h => Beside.of hflows' hholds.next h

theorem jump (hflows : Flows setup d c c' (⟨s, back⟩ :: ls)) :
    Proceeds setup d (.skip .jump b) (.skip .jump b') (b ++ c) (b' ++ c') s back ls :=
  .of fun a a' ra ra' fp hholds => by
    obtain ⟨hc, hc'⟩ := hflows.ne_nil
    exact (Exec.tied_jump b b' hholds hc hc').weaken fun _ _ _ _ h =>
      Beside.of hflows (Exec.holds_skipped hholds hc hc') h

theorem enterList (hc : c ≠ []) (hc' : c' ≠ [])
    (hflows : Flows setup d (b ++ c) (b' ++ c') (⟨s.push .solid, back⟩ :: ls)) :
    Proceeds setup d (.skip .enterList b) (.skip .enterList b') (b ++ c) (b' ++ c')
      (s.push .stray) back ls :=
  .of fun a a' ra ra' fp hholds => by
    refine Exec.tied_iterator_stray.bind fun _ _ => ?_
    refine (Exec.tied_target b b' hholds hc hc').bind fun _ _ => .given fun _ => ?_
    refine Exec.Tied.changes (fun _ => rfl) fun m q hheld =>
      ⟨q, ?_, Beside.of hflows hholds.next hheld⟩
    exact congrArg (fun size => Machine.beside { m with listMarks := size :: m.listMarks } q)
      hheld.pointwise.size.symm

theorem iterate (hflows : Flows setup d c c' (⟨.loose 0, back⟩ :: ls))
    (hflows' : Flows setup d (b ++ c) (b' ++ c')
      (⟨((Shape.loose 0).push .ref).push .ref, back⟩ :: ls)) :
    Proceeds setup d (.skip .iterate b) (.skip .iterate b') (b ++ c) (b' ++ c')
      (.loose 0) back ls :=
  .of fun a a' ra ra' fp hholds => by
    obtain ⟨hc, hc'⟩ := hflows.ne_nil
    refine Exec.tied_iterator.bind fun number _ => .given fun h => h ▸ ?_
    refine Exec.Tied.get_same (fun _ _ => rfl) fun m => ?_
    cases m.iterators.getD number [] with
    | nil =>
      exact (Exec.tied_jump b b' hholds hc hc').weaken fun _ _ _ _ h =>
        Beside.of hflows (Exec.holds_skipped hholds hc hc') h
    | cons item rest =>
      refine Exec.Tied.bind (Exec.Tied.shares (fun _ _ => rfl) fun _ => rfl) fun _ _ => ?_
      refine (Exec.tied_pushRef item.value).bind fun _ _ =>
        (Exec.tied_pushRef item.memo).bind fun _ _ => ?_
      exact Exec.shared_enterBlock.tied.weaken fun _ _ _ _ h => Beside.of hflows' hholds.next h

theorem invokeVirtual (henters : Enters setup)
    (hflows : Flows setup d c c' (⟨.loose 0, none⟩ :: l :: ls)) :
    Proceeds setup d ⟨.invokeVirtual, 0, 0, 0⟩ ⟨.invokeVirtual, 0, 0, 0⟩ c c'
      ((Shape.loose 0).push .any) none
      (l :: ls) := .of fun a a' ra ra' fp hholds => by
  refine Exec.tied_pop_known.bind_known fun v v' e he hv => ?_
  rcases Value.Twin.toHandle? (hv : v.Twin setup.options e v') with ⟨hnone, hnone'⟩ |
    ⟨handle, handle', hsome, hsome', hblocks⟩
  · rw [hnone, hnone']
    exact Exec.Tied.mismatch _
  · rw [hsome, hsome']
    exact Exec.tied_call henters hblocks (hholds.next.mono he) (hflows.mono he)

theorem invokeStatic (henters : Enters setup) {handle handle' : UInt32}
    (hblocks : d.Blocks setup.options handle handle')
    (hflows : Flows setup d c c' (⟨.loose 0, none⟩ :: l :: ls)) :
    Proceeds setup d ⟨.invokeStatic, handle, 0, 0⟩ ⟨.invokeStatic, handle', 0, 0⟩ c c'
      (.loose 0) none (l :: ls) :=
  .of fun _ _ _ _ _ hholds => Exec.tied_call henters hblocks hholds.next hflows

theorem invokeYield (henters : Enters setup)
    (hflows : Flows setup d c c' (⟨.loose 0, none⟩ :: ⟨s, back⟩ :: ls)) :
    Proceeds setup d ⟨.invokeYield, 0, 0, 0⟩ ⟨.invokeYield, 0, 0, 0⟩ c c'
      (((s.push .solid).push .any).push .any) back ls :=
  .of fun _ _ _ _ _ hholds => Exec.tied_invokeYield henters hholds.next hflows

theorem invokeLayout (henters : Enters setup) {n : Nat}
    (hflows : Flows setup d c c' (⟨.loose 0, none⟩ :: ⟨.loose n, back⟩ :: ls)) :
    Proceeds setup d ⟨.invokeComponentLayout, Emit.current, 0, 0⟩
      ⟨.invokeComponentLayout, Emit.current, 0, 0⟩ c c'
      (((((Shape.loose (n + 6)).push .solid).push .ref).push .any).push .any) back ls :=
  .of fun _ _ _ _ _ hholds => Exec.tied_invokeLayout henters hholds.next hflows

end Proceeds

/-- The machines go on, or not, together. -/
def GoOn (setup : Setup) (more more' : Bool) (x y : Private) : Prop :=
  more = more' ∧ (more = true → Beside setup x y)

theorem Beside.goOn (h : Beside setup x y) : GoOn setup true true x y := ⟨rfl, fun _ => h⟩

theorem Beside.size_stack (h : Beside setup x y) : y.stack.size = x.stack.size := by
  obtain ⟨d, c, c', s, back, ls, hflows, hholds, hheld⟩ := h
  exact hheld.pointwise.size.symm

/-- What is left to do after the effect of an instruction. -/
def Exec.settle (setup : Setup) (op : Opcode) :
    EStateM.Result (Stop RuntimeError) Machine Unit →
    EStateM.Result (Stop RuntimeError) Machine Bool
  | .ok _ m =>
    if op = .ret ∧ m.pc = haltAddress then .ok false m
    else if setup.maxStack < m.stack.size then
      .error (.fault (.stackOverflow m.stack.size setup.maxStack)) m
    else .ok true m
  | .error e m => .error e m

section

variable {m : Machine} {q : Private} {i i' : Instruction}

theorem Exec.step_settle (hholds : m.program.heap.Holds m.pc (i :: c)) :
    Exec.step setup m = Exec.settle setup i.op (Exec.perform m.pc i setup (m.fetched i)) := by
  rw [Exec.step_apply setup hholds]
  cases Exec.perform m.pc i setup (m.fetched i) <;> rfl

theorem Exec.settle_halt {op : Opcode} (hop : op = .ret) (hpc : m.pc = haltAddress) :
    Exec.settle setup op (.ok () m) = .ok false m := if_pos ⟨hop, hpc⟩

theorem Exec.settle_running {op : Opcode} (h : op ≠ .ret ∨ m.pc ≠ haltAddress) :
    Exec.settle setup op (.ok () m) =
      if setup.maxStack < m.stack.size then
        .error (.fault (.stackOverflow m.stack.size setup.maxStack)) m
      else .ok true m := by
  rw [Exec.settle, if_neg]
  rintro ⟨hop, hpc⟩
  exact h.elim (· hop) (· hpc)

theorem Exec.program_settle (op : Opcode) (out : EStateM.Result (Stop RuntimeError) Machine Unit) :
    (stateAfter (Exec.settle setup op out)).program = (stateAfter out).program := by
  cases out with
  | error e m => rfl
  | ok u m =>
    unfold Exec.settle
    dsimp only
    split
    · rfl
    · split <;> rfl

theorem Setup.StepsAlike.settle {p : Program} {op op' : Opcode}
    {out out' : EStateM.Result (Stop RuntimeError) Machine Unit}
    (hop : op ≠ .ret) (hop' : op' ≠ .ret)
    (h : setup.StepsAlike p (Machine.Paired fun _ _ => Beside setup) out out') :
    setup.StepsAlike p (Machine.Paired (GoOn setup)) (Exec.settle setup op out)
      (Exec.settle setup op' out') := by
  cases h with
  | @ok _ _ m m' hgathers h =>
    obtain ⟨r, rfl, hbeside⟩ := h
    rw [Exec.settle_running (.inl hop), Exec.settle_running (.inl hop'),
      show (m.beside r).stack.size = m.stack.size from hbeside.size_stack]
    split
    · exact .fault rfl fun _ => hgathers
    · exact .ok hgathers ⟨r, rfl, hbeside.goOn⟩
  | fault h hgathers => exact .fault h hgathers
  | unlinked h hhangs => exact .unlinked h hhangs
  | fullLeft h =>
    refine .fullLeft ?_
    rwa [Exec.program_settle]
  | fullRight h =>
    refine .fullRight ?_
    rwa [Exec.program_settle]

theorem Proceeds.step (h : Proceeds setup d i i' c c' s back ls) (hi : i.op ≠ .ret)
    (hi' : i'.op ≠ .ret) (hholds : d.Holds m.pc q.pc (i :: c) (i' :: c'))
    (hheld : Held (ground setup back ls ra ra' fp) ⟨m.pc, q.pc, ra, ra', fp, d⟩ s m.own q) :
    setup.StepsAlike m.program (Machine.Paired (GoOn setup)) (Exec.step setup m)
      (Exec.step setup (m.beside q)) := by
  have hnow := hholds.mono hheld.since
  rw [Exec.step_settle hnow.left, Exec.step_settle (m := m.beside q) hnow.right]
  have hends := h m.pc q.pc ra ra' fp (m.fetched i) { q with pc := q.pc + 4,
                                                             current := (q.pc, i'.op) } hholds
    { hheld with pc := rfl, pc' := rfl }
  exact hends.settle hi hi'

/-- The machine after a return. -/
def Machine.returned (m : Machine) : Machine := { m.fetched ⟨.ret, 0, 0, 0⟩ with pc := m.ra }

theorem Exec.step_ret (hholds : m.program.heap.Holds m.pc (⟨.ret, 0, 0, 0⟩ :: c)) :
    Exec.step setup m = Exec.settle setup .ret (.ok () m.returned) := Exec.step_settle hholds

/-- A return to code in the heap. -/
theorem step_ret (hholds : d.Holds m.pc q.pc (⟨.ret, 0, 0, 0⟩ :: c) (⟨.ret, 0, 0, 0⟩ :: c'))
    (hheld : Held (ground setup back ls ra ra' fp) ⟨m.pc, q.pc, ra, ra', fp, d⟩ s m.own q)
    (hra : ra ≠ haltAddress) (hra' : ra' ≠ haltAddress)
    (hbeside : Beside setup m.returned.own { q with pc := q.ra, current := (q.pc, .ret) }) :
    setup.StepsAlike m.program (Machine.Paired (GoOn setup)) (Exec.step setup m)
      (Exec.step setup (m.beside q)) := by
  have hnow := hholds.mono hheld.since
  have hl : m.returned.pc ≠ haltAddress := fun h => hra (hheld.ra.symm.trans h)
  have hr : (m.beside q).returned.pc ≠ haltAddress := fun h => hra' (hheld.ra'.symm.trans h)
  have hsize : (m.beside q).returned.stack.size = m.returned.stack.size := hheld.pointwise.size.symm
  rw [Exec.step_ret hnow.left, Exec.step_ret (m := m.beside q) hnow.right,
    Exec.settle_running (.inr hl), Exec.settle_running (.inr hr), hsize]
  split
  · exact .fault rfl fun _ => .refl
  · exact .ok .refl ⟨_, rfl, hbeside.goOn⟩

/-- A return from the block that was rendered first. -/
theorem step_halt (hholds : d.Holds m.pc q.pc (⟨.ret, 0, 0, 0⟩ :: c) (⟨.ret, 0, 0, 0⟩ :: c'))
    (hheld : Held (ground setup back ls haltAddress haltAddress fp)
      ⟨m.pc, q.pc, haltAddress, haltAddress, fp, d⟩ s
      m.own q) :
    setup.StepsAlike m.program (Machine.Paired (GoOn setup)) (Exec.step setup m)
      (Exec.step setup (m.beside q)) := by
  have hnow := hholds.mono hheld.since
  rw [Exec.step_ret hnow.left, Exec.step_ret (m := m.beside q) hnow.right,
    Exec.settle_halt (m := m.returned) rfl hheld.ra,
    Exec.settle_halt (m := (m.beside q).returned) rfl hheld.ra']
  exact .ok .refl ⟨(m.beside q).returned.own, rfl, rfl, nofun⟩

/-- An address of code is not the one at which the machine stops. -/
theorem Duo.Holds.ne_halt (h : d.Holds a a' c c') (hc : c ≠ []) (hc' : c' ≠ [])
    (hfits : d.left.Fits) (hfits' : d.right.Fits) : a ≠ haltAddress ∧ a' ≠ haltAddress := by
  have hl := h.left.le_size hc
  have hr := h.right.le_size hc'
  have hwords := hfits.words
  have hwords' := hfits'.words
  have hhalt : haltAddress = 18446744073709551615 := rfl
  omega

/-- A return to code that runs alike. -/
theorem step_back {b b' : List Instruction} {back' : Option (List Instruction × List Instruction)}
    {ls' : List Level} (hholds : d.Holds m.pc q.pc (⟨.ret, 0, 0, 0⟩ :: c) (⟨.ret, 0, 0, 0⟩ :: c'))
    (hheld : Held (ground setup back ls ra ra' fp) ⟨m.pc, q.pc, ra, ra', fp, d⟩ s m.own q)
    (hto : (m.own.duo q).Holds ra ra' b b')
    (hflows : Flows setup (m.own.duo q) b b' (⟨s, back'⟩ :: ls'))
    (hstack : ∃ top base, m.stack = stackOf ((top ++ base).map Prod.fst) ∧
      q.stack = stackOf ((top ++ base).map Prod.snd) ∧ s.Fits setup.options (m.own.duo q) top ∧
      Chain setup (m.own.duo q) back' ls' ra ra' fp base) :
    setup.StepsAlike m.program (Machine.Paired (GoOn setup)) (Exec.step setup m)
      (Exec.step setup (m.beside q)) := by
  obtain ⟨hb, hb'⟩ := hflows.ne_nil
  obtain ⟨hra, hra'⟩ := hto.ne_halt hb hb' hheld.ready.fits hheld.ready'.fits
  refine step_ret hholds hheld hra hra' ?_
  have hheld' : Held (ground setup back' ls' ra ra' fp) ⟨ra, ra', ra, ra', fp, m.own.duo q⟩ s
    m.returned.own
      { q with pc := q.ra, current := (q.pc, .ret) } :=
    { hheld with pc := hheld.ra, pc' := hheld.ra', since := .refl _, stack := hstack }
  exact .of hflows hto hheld'

theorem Flows.step (henters : Exec.Enters setup) (h : Flows setup d c c' (⟨s, back⟩ :: ls))
    (hholds : d.Holds m.pc q.pc c c')
    (hheld : Held (ground setup back ls ra ra' fp) ⟨m.pc, q.pc, ra, ra', fp, d⟩ s m.own q) :
    setup.StepsAlike m.program (Machine.Paired (GoOn setup)) (Exec.step setup m)
      (Exec.step setup (m.beside q)) := by
  generalize hlevels : Level.mk s back :: ls = levels at h
  induction h generalizing s with
  | act hi hi' hacts hflows _ =>
    cases hlevels
    exact (Proceeds.act hacts hflows).step (Opcode.ne_ret hi) (Opcode.ne_ret hi') hholds hheld
  | yields hs _ ih =>
    cases hlevels
    exact ih hholds (hheld.yields hs) rfl
  | pushFrame hflows _ =>
    cases hlevels
    exact (Proceeds.pushFrame hflows).step nofun nofun hholds hheld
  | popFrame hflows _ =>
    cases hlevels
    exact (Proceeds.popFrame hflows).step nofun nofun hholds hheld
  | returnTo hflows hflows' _ _ =>
    cases hlevels
    exact (Proceeds.returnTo hflows hflows').step nofun nofun hholds hheld
  | @ret _ _ l ls back =>
    cases hlevels
    obtain ⟨top, base, hl, hr, hfits, hbase⟩ := hheld.stack
    obtain ⟨hto, hflows⟩ := Chain.returns hbase _ _ rfl
    exact step_back hholds hheld hto hflows hheld.stack
  | leave =>
    cases hlevels
    obtain ⟨top, base, hl, hr, hfits, hbase⟩ := hheld.stack
    have hchain : Chain setup (m.own.duo q) none [] ra ra' fp base := hbase
    cases hchain with
    | halt => exact step_halt hholds hheld
    | caller hto hflows hchain =>
      exact step_back hholds hheld hto hflows ⟨top, base, hl, hr, hfits, hchain⟩
  | @branch expected _ _ _ _ _ _ _ hflows hflows' _ _ =>
    cases hlevels
    refine (Proceeds.branch hflows hflows').step ?_ ?_ hholds hheld <;> cases expected <;> nofun
  | jump hflows _ =>
    cases hlevels
    exact (Proceeds.jump hflows).step nofun nofun hholds hheld
  | enterList hc hc' hflows _ =>
    cases hlevels
    exact (Proceeds.enterList hc hc' hflows).step nofun nofun hholds hheld
  | iterate hflows hflows' _ _ =>
    cases hlevels
    exact (Proceeds.iterate hflows hflows').step nofun nofun hholds hheld
  | invokeVirtual hflows _ =>
    cases hlevels
    exact (Proceeds.invokeVirtual henters hflows).step nofun nofun hholds hheld
  | invokeStatic hblocks hflows _ =>
    cases hlevels
    exact (Proceeds.invokeStatic henters hblocks hflows).step nofun nofun hholds hheld
  | invokeYield hflows _ =>
    cases hlevels
    exact (Proceeds.invokeYield henters hflows).step nofun nofun hholds hheld
  | invokeLayout hflows _ =>
    cases hlevels
    exact (Proceeds.invokeLayout henters hflows).step nofun nofun hholds hheld

end

end

end TemplateMachine
