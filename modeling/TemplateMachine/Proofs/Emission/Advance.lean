import TemplateMachine.Proofs.Emission.Keep
import TemplateMachine.Proofs.Emission.Tiling

/-! Compilation that may fail.  Whatever becomes of it, the program only grows, the blocks that it
has stay as they are, also those that are reserved, what keeps a handle has its code, and the heap
is filled block by block. -/

namespace TemplateMachine

theorem Constants.Adds.refl {strategy : Strategy} (c : Constants) : c.Adds strategy c :=
  ⟨.refl c, id, id, fun _ => rfl⟩

theorem Constants.Adds.trans {strategy : Strategy} {c d e : Constants} (h : c.Adds strategy d)
    (h' : d.Adds strategy e) : c.Adds strategy e :=
  ⟨h.grows.trans h'.grows, h'.interned ∘ h.interned, h'.closed ∘ h.closed,
    fun heager => (h'.fragments heager).trans (h.fragments heager)⟩

/-- What compilation does to a program.  Handles are words, so there must not be more of them. -/
structure Program.Advances (strategy : Strategy) (p q : Program) : Prop where
  grows : p.Grows q
  adds : p.constants.Adds strategy q.constants
  blocks : q.heap.blocks.size ≤ UInt32.size → ∀ (i : Nat) (b : Block),
    p.heap.blocks[i]? = some b → q.heap.blocks[i]? = some b
  settled : q.heap.blocks.size ≤ UInt32.size → ∀ id handle, q.linked? id = some handle →
    p.linked? id = some handle ∨ (q.heap.block? handle).isSome
  path : q.heap.blocks.size ≤ UInt32.size → p.heap.writing = none →
    p.heap.Path q.heap ∧ q.heap.writing = none

namespace Program.Advances

variable {strategy : Strategy}

theorem refl (p : Program) : p.Advances strategy p :=
  ⟨.refl p, .refl _, fun _ _ _ h => h, fun _ _ _ h => .inl h, fun _ h => ⟨.refl, h⟩⟩

theorem block? {p q : Program} (h : p.Advances strategy q) (hq : q.heap.blocks.size ≤ UInt32.size)
    {handle : UInt32} {b : Block} (hb : p.heap.block? handle = some b) :
    q.heap.block? handle = some b := by
  obtain ⟨hget, hfinished⟩ := Option.filter_eq_some_iff.mp hb
  exact Option.filter_eq_some_iff.mpr ⟨h.blocks hq _ b hget, hfinished⟩

theorem trans {p q r : Program} (h : p.Advances strategy q) (h' : q.Advances strategy r) :
    p.Advances strategy r where
  grows := h.grows.trans h'.grows
  adds := h.adds.trans h'.adds
  blocks hr i b hb := h'.blocks hr i b (h.blocks (Nat.le_trans h'.grows.blocks hr) i b hb)
  settled hr id handle hl := by
    rcases h'.settled hr id handle hl with hl | hfinished
    · refine (h.settled (Nat.le_trans h'.grows.blocks hr) id handle hl).imp_right
        fun hfinished => ?_
      obtain ⟨b, hb⟩ := Option.isSome_iff_exists.mp hfinished
      exact Option.isSome_iff_exists.mpr ⟨b, h'.block? hr hb⟩
    · exact .inr hfinished
  path hr hwriting := by
    obtain ⟨hfirst, hwriting⟩ := h.path (Nat.le_trans h'.grows.blocks hr) hwriting
    obtain ⟨hsecond, hwriting⟩ := h'.path hr hwriting
    exact ⟨hfirst.trans hsecond, hwriting⟩

theorem constants {p : Program} {pools : Constants} (h : p.constants.Adds strategy pools) :
    p.Advances strategy { p with constants := pools } :=
  ⟨grows_constants h.grows, h, fun _ _ _ hb => hb, fun _ _ _ hl => .inl hl, fun _ h => ⟨.refl, h⟩⟩

theorem fresh {p : Program} : p.Advances strategy { p with fresh := p.fresh + 1 } where
  grows := { Grows.refl p with fresh := Nat.le_succ p.fresh }
  adds := .refl _
  blocks _ _ _ hb := hb
  settled _ _ _ hl := .inl hl
  path _ h := ⟨.refl, h⟩

end Program.Advances

/-! ### Emission -/

/-- A condition on the program alone. -/
def Upkeep.ofProgram (admits : Fragment → Prop) (P : Program → Prop)
    (broken : Stop CompileError → Program → Prop) : Upkeep where
  holds _ b := P b.program
  admits
  reaches _ _ := True
  broken e b := broken e b.program

/-- A condition on the program is kept by emission if adding constants, numbering fragments and, in
the eager strategy, linking keep it. -/
theorem maintains_program {c : BuildContext} {admits : Fragment → Prop} {P : Program → Prop}
    {broken : Stop CompileError → Program → Prop}
    (hlayouts : ∀ handle f, c.lookup.layout? handle = some f → admits f)
    (hpartials : ∀ handle f, c.lookup.partial? handle = some f → admits f)
    (hfails : ∀ (e : CompileError) p, P p → broken (.fault e) p)
    (hpools : ∀ p pools, p.constants.Adds c.strategy pools → P p → P { p with constants := pools })
    (hfresh : ∀ p, P p → P { p with fresh := p.fresh + 1 })
    (hlink : c.strategy = .eager → ∀ f p, admits f → p.constants.Closed → P p →
      EndsIn broken (fun _ q => P q ∧ q.constants.Closed) (c.link f p)) :
    c.Maintains (.ofProgram admits P broken) where
  layouts := hlayouts
  partials := hpartials
  fails e h := hfails e _ h
  constants h hadds := hpools _ _ hadds h
  fresh h := hfresh _ h
  pushed h _ _ _ := h
  opened _ h := h
  jumped h _ _ _ := h
  labelled h _ := h
  closed := by
    intro labels b scope scopes h _
    have hframe := (BuildContext.Maintains.setDistances_frame (c := c) scope.places
      scope.uses.reverse { b with scopes }).1
    cases hr : Emit.setDistances scope.places scope.uses.reverse c { b with scopes } with
    | ok r b' =>
      rw [hr] at hframe
      exact (congrArg P hframe).mpr h
    | error e b' =>
      rw [hr] at hframe
      obtain ⟨found, rfl⟩ := Emit.setDistances_error hr
      exact (congrArg (broken _) hframe).mpr (hfails found _ h)
  linked heager := by
    intro labels b f hf h hclosed
    have hends := hlink heager f b.program hf hclosed h
    cases hr : c.link f b.program with
    | error e q =>
      rw [hr] at hends
      exact hends
    | ok handle q =>
      rw [hr] at hends
      exact ⟨hends.1, trivial, hends.2⟩

/-- What is kept for all fragments is kept by the emission of any statements. -/
theorem Upkeep.Covers.all {P : Program → Prop} {broken : Stop CompileError → Program → Prop}
    {layout : Layout} {blocks : List Nat} {attributes : List (List Statement)} :
    (Upkeep.ofProgram (fun _ => True) P broken).Covers layout blocks attributes :=
  ⟨fun _ _ _ _ _ => trivial, fun _ _ _ => trivial⟩

/-! ### Linking -/

theorem Program.linked?_unlink (p : Program) (id other : FragmentId) :
    (p.unlink id).linked? other = if other = id then none else p.linked? other := by
  have hlookup (entries : List (FragmentId × UInt32)) :
      (entries.filter fun entry => entry.1 != id).lookup other =
        if other = id then none else entries.lookup other := by
    induction entries with
    | nil => simp
    | cons entry rest ih =>
      rcases entry with ⟨found, handle⟩
      by_cases hfound : found = id
      · subst hfound
        rw [List.filter_cons_of_neg (by simp), ih, List.lookup_cons]
        by_cases hother : other = found
        · simp [hother]
        · simp [hother, beq_false_of_ne hother]
      · rw [List.filter_cons_of_pos (by simpa using hfound), List.lookup_cons, List.lookup_cons, ih]
        by_cases hother : other = found
        · simp [hother, hfound]
        · simp [beq_false_of_ne hother]
  exact hlookup p.linked

section

variable {lookup : Lookup} {strategy : Strategy} {p q : Program} {id : FragmentId}

theorem Program.blocks_reserve (p : Program) (id : FragmentId) :
    (p.reserve id).heap.blocks = p.heap.blocks.push Block.reserved := rfl

/-- The code of a reserved handle is written: only its own block changes. -/
theorem Program.Advances.commit (hnone : p.linked? id = none)
    (h : (p.reserve id).Advances strategy q) (code : List Instruction) (scopeSize : UInt32) :
    p.Advances strategy { q with
      heap := q.heap.commit (UInt32.ofNat p.heap.blocks.size) code scopeSize } := by
  have hgrows := Linkage.grows_commit q (UInt32.ofNat p.heap.blocks.size) code scopeSize
  have hsize := Heap.size_blocks_commit q.heap (UInt32.ofNat p.heap.blocks.size) code scopeSize
  have hless : p.heap.blocks.size < q.heap.blocks.size := by
    have := h.grows.blocks
    rwa [blocks_reserve, Array.size_push] at this
  have hhandle (hfits : q.heap.blocks.size ≤ UInt32.size) :
      (UInt32.ofNat p.heap.blocks.size).toNat = p.heap.blocks.size :=
    UInt32.toNat_ofNat_of_lt' (Nat.lt_of_lt_of_le hless hfits)
  refine ⟨((Linkage.grows_reserve hnone).trans h.grows).trans hgrows, h.adds,
    fun hfits i b hb => ?_, fun hfits other handle hl => ?_, fun hfits hwriting => ?_⟩
  · have hi : i < p.heap.blocks.size := (Array.getElem?_eq_some_iff.mp hb).1
    rw [hsize] at hfits
    refine (Heap.getElem?_blocks_commit (by rw [hhandle hfits]; exact Nat.ne_of_lt hi)).trans
      (h.blocks hfits i b ?_)
    rw [blocks_reserve, Array.getElem?_push, if_neg (Nat.ne_of_lt hi)]
    exact hb
  · rw [hsize] at hfits
    obtain ⟨block, hblock, -⟩ := Heap.block?_commit (h := q.heap) code scopeSize
      (h.blocks hfits (UInt32.ofNat p.heap.blocks.size).toNat Block.reserved (by
        rw [hhandle hfits, blocks_reserve, Array.getElem?_push_size]))
    have hwritten : (Heap.block? (q.heap.commit (UInt32.ofNat p.heap.blocks.size) code scopeSize)
      (UInt32.ofNat p.heap.blocks.size)).isSome := by rw [hblock, Option.isSome_some]
    rcases h.settled hfits other handle hl with hl | hfinished
    · rw [Linkage.linked?_reserve] at hl
      split at hl
      · exact .inr (Option.some.inj hl ▸ hwritten)
      · exact .inl hl
    · by_cases heq : handle = UInt32.ofNat p.heap.blocks.size
      · exact .inr (heq ▸ hwritten)
      · refine .inr ?_
        rw [show Heap.block? (q.heap.commit _ code scopeSize) handle = q.heap.block? handle by
          rw [Heap.block?, Heap.getElem?_blocks_commit fun hsame => heq (UInt32.toNat_inj.mp hsame)]
          rfl]
        exact hfinished
  · rw [hsize] at hfits
    obtain ⟨hpath, hclosed⟩ := h.path hfits hwriting
    have hreserved := h.blocks hfits p.heap.blocks.size Block.reserved
      (by rw [blocks_reserve, Array.getElem?_push_size])
    rw [← hhandle hfits] at hreserved
    exact ⟨(Relation.ReflTransGen.head (.reserve p.heap) hpath).trans
      (Heap.Path.commit hclosed hreserved code scopeSize), rfl⟩

/-- A handle is given up: its block stays as it was reserved. -/
theorem Program.Advances.unlink (hnone : p.linked? id = none)
    (h : (p.reserve id).Advances strategy q) :
    p.Advances strategy (q.unlink id) := by
  have hgrows := (Linkage.grows_reserve hnone).trans h.grows
  refine ⟨⟨hgrows.words, hgrows.blocks, hgrows.constants, fun other handle hl => ?_, hgrows.fresh⟩,
    h.adds, fun hfits i b hb => h.blocks hfits i b ?_, fun hfits other handle hl => ?_,
    fun hfits hwriting => ?_⟩
  · rw [linked?_unlink, if_neg]
    · exact hgrows.linked other handle hl
    · rintro rfl
      cases hnone.symm.trans hl
  · rw [blocks_reserve, Array.getElem?_push,
      if_neg (Nat.ne_of_lt (Array.getElem?_eq_some_iff.mp hb).1)]
    exact hb
  · rw [linked?_unlink] at hl
    split at hl
    · cases hl
    · rename_i hne
      refine (h.settled hfits other handle hl).imp_left fun hl => ?_
      rwa [Linkage.linked?_reserve, if_neg hne] at hl
  · obtain ⟨hpath, hclosed⟩ := h.path hfits hwriting
    exact ⟨.head (.reserve p.heap) hpath, hclosed⟩

/-- How the linking of a fragment ends: it has a handle already, its code is written, or its handle
is given up.  It runs out of fuel only where the emission of its code does. -/
inductive Link.Ends (lookup : Lookup) (strategy : Strategy) (f : Fragment) (p : Program) :
    Nat → EStateM.Result (Stop CompileError) Program UInt32 → Prop
  | known {fuel : Nat} {handle : UInt32} : p.linked? f.id = some handle →
    Ends lookup strategy f p fuel (.ok handle p)
  | exhausted : p.linked? f.id = none → Ends lookup strategy f p 0 (.error .outOfFuel p)
  | written {fuel : Nat} {b : Builder} : p.linked? f.id = none →
    Emit.statements f.attrMode f.statements (f.context lookup strategy fuel)
      { program := p.reserve f.id } = .ok () b →
    Ends lookup strategy f p (fuel + 1) (.ok (UInt32.ofNat p.heap.blocks.size) { b.program with
      heap := b.program.heap.commit (UInt32.ofNat p.heap.blocks.size)
        (b.code.toList ++ [⟨.ret, 0, 0, 0⟩]) (UInt32.ofNat f.layout.template.symbols.length) })
  | abandoned {fuel : Nat} {b : Builder} {e : Stop CompileError} : p.linked? f.id = none →
    stateAfter (Emit.statements f.attrMode f.statements (f.context lookup strategy fuel)
      { program := p.reserve f.id }) = b →
    (e = .outOfFuel → Emit.statements f.attrMode f.statements (f.context lookup strategy fuel)
      { program := p.reserve f.id } = .error e b) →
    Ends lookup strategy f p (fuel + 1) (.error e (b.program.unlink f.id))

theorem Link.fragment_ends (lookup : Lookup) (strategy : Strategy) (fuel : Nat) (f : Fragment)
    (p : Program) :
    Link.Ends lookup strategy f p fuel (Link.fragment lookup strategy fuel f p) := by
  unfold Link.fragment
  simp only [bind, EStateM.bind, get, getThe, MonadStateOf.get]
  rw [show EStateM.get p = .ok p p from rfl]
  dsimp only
  cases hlinked : p.linked? f.id with
  | some found => exact .known hlinked
  | none =>
    cases fuel with
    | zero => exact .exhausted hlinked
    | succ fuel =>
      show Link.Ends lookup strategy f p (fuel + 1) (EStateM.tryCatch
        (Link.build (f.context lookup strategy fuel) (some (UInt32.ofNat p.heap.blocks.size))
          (Emit.statements f.attrMode f.statements)) (fun e => do
            modify fun p => p.unlink f.id
            throw e) (p.reserve f.id))
      unfold EStateM.tryCatch Link.build
      rw [Emit.bind_apply]
      cases hbody : Emit.statements f.attrMode f.statements (f.context lookup strategy fuel)
          { program := p.reserve f.id } with
      | error e b => exact .abandoned hlinked (congrArg stateAfter hbody) fun _ => hbody
      | ok u b =>
        cases hcommit : Emit.commit (some (UInt32.ofNat p.heap.blocks.size))
            (f.context lookup strategy fuel) b with
        | error e b' =>
          obtain ⟨program, code, _ | ⟨scope, rest⟩⟩ := b
          · cases hcommit
          · cases hcommit
            exact .abandoned hlinked (congrArg stateAfter hbody) fun h => by cases h
        | ok r b' =>
          obtain ⟨rfl, hprogram⟩ := Emit.commit_ok hcommit
          simp only [hcommit, hprogram]
          exact .written hlinked hbody

/-- Emitting the code of a fragment lets the program advance in which its handle is
reserved, also if it fails. -/
theorem Link.advances_statements {fuel : Nat} (f : Fragment) (hclosed : p.constants.Closed)
    (hlink : ∀ (g : Fragment) (q : Program), q.constants.Closed →
      q.Advances strategy (stateAfter (Link.fragment lookup strategy fuel g q))) :
    (p.reserve f.id).Advances strategy (stateAfter (Emit.statements f.attrMode f.statements
      (f.context lookup strategy fuel) { program := p.reserve f.id })).program := by
  have hlinked (g : Fragment) (q : Program) (hq : q.constants.Closed)
      (h : (p.reserve f.id).Advances strategy q) :
      EndsIn (fun _ q => (p.reserve f.id).Advances strategy q)
        (fun _ q => (p.reserve f.id).Advances strategy q ∧ q.constants.Closed)
        (Link.fragment lookup strategy fuel g q) := by
    have hend := h.trans (hlink g q hq)
    generalize Link.fragment lookup strategy fuel g q = r at hend
    cases r with
    | ok handle q' => exact ⟨hend, hend.adds.closed hclosed⟩
    | error e q' => exact hend
  have hmaintains : (f.context lookup strategy fuel).Maintains (.ofProgram (fun _ => True)
      ((p.reserve f.id).Advances strategy) fun _ => (p.reserve f.id).Advances strategy) :=
    maintains_program (fun _ _ _ => trivial) (fun _ _ _ => trivial)
    (fun _ _ hq => hq) (fun q pools hpools hq => hq.trans (.constants hpools))
    (fun q hq => hq.trans .fresh)
    (fun _ g q _ hq h => hlinked g q hq h)
  have hkeeps : Emit.Keeps _ _ [] [] _ := hmaintains.statements f.attrMode f.statements .all
  have hstatements := hkeeps { program := p.reserve f.id } ⟨.refl _, rfl, hclosed, trivial⟩
  generalize Emit.statements f.attrMode f.statements (f.context lookup strategy fuel)
    { program := p.reserve f.id } = r at hstatements
  cases r with
  | ok u b => exact hstatements.holds
  | error e b => exact hstatements

/-- Linking lets a program advance, also if it fails. -/
theorem Link.advances_fragment (fuel : Nat) (f : Fragment) {p : Program}
    (hclosed : p.constants.Closed) :
    p.Advances strategy (stateAfter (Link.fragment lookup strategy fuel f p)) := by
  induction fuel generalizing f p with
  | zero =>
    have hends := Link.fragment_ends lookup strategy 0 f p
    generalize Link.fragment lookup strategy 0 f p = r at hends
    cases hends <;> exact .refl p
  | succ fuel ih =>
    have hstatements := Link.advances_statements f hclosed fun g q hq => ih g hq
    have hends := Link.fragment_ends lookup strategy (fuel + 1) f p
    generalize Link.fragment lookup strategy (fuel + 1) f p = r at hends
    cases hends with
    | known => exact .refl p
    | written hnone hbody =>
      rw [hbody] at hstatements
      exact .commit hnone hstatements _ _
    | abandoned hnone hbody =>
      rw [hbody] at hstatements
      exact .unlink hnone hstatements

end

end TemplateMachine
