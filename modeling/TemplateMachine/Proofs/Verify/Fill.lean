import TemplateMachine.Proofs.Verify.Lay

/-! Filled handles.  While fragments are compiled some handles are reserved and their blocks are not
written yet; all others are finished blocks of laid code.  A handle that is finished takes up at
least one instruction, so a program without reserved handles has no more of them than words. -/

namespace TemplateMachine

/-- A block holds laid code that ends with a return. -/
def Program.Lays (p : Program) (b : Block) : Prop :=
  ∃ code : List Instruction, p.heap.Holds b.offset.toNat (code ++ [⟨.ret, 0, 0, 0⟩]) ∧
    b.size.toNat = 4 * (code.length + 1) ∧ (∀ i ∈ code, p.Supplies i) ∧
    ∀ (k : Nat) (i : Instruction), code[k]? = some i → i.op.isJump = true →
    i.LeadsAhead k code.length

theorem Program.Lays.mono {p q : Program} {b : Block} (h : p.Lays b)
    (hgrows : p.Grows q) : q.Lays b := by
  obtain ⟨code, hholds, hsize, hsupplied, hjumps⟩ := h
  exact ⟨code, hholds.mono hgrows.words, hsize, fun i hi => (hsupplied i hi).mono hgrows, hjumps⟩

/-- Every handle is finished, except for those whose blocks are being compiled. -/
structure Program.Filled (p : Program) (pending : List Nat) : Prop where
  blocks : ∀ (i : Nat) (b : Block), p.heap.blocks[i]? = some b →
    i ∈ pending ∨ (b.finished = true ∧ p.Lays b)
  linked : ∀ id handle, p.linked? id = some handle → handle.toNat < p.heap.blocks.size

theorem Program.filled_new : ({} : Program).Filled [] := ⟨nofun, nofun⟩

/-- A program without reserved handles: there are words for all of them, and all are written. -/
structure Program.Complete (p : Program) : Prop where
  closed : p.constants.Closed
  words : 4 * p.heap.blocks.size ≤ p.heap.words.size
  filled : p.Bounded → p.Filled []

theorem Program.complete_new : ({} : Program).Complete :=
  ⟨Constants.closed_initial, Nat.le_refl _, fun _ => filled_new⟩

/-! ### Commitment -/

namespace Heap

/-- The block of a handle as it is committed. -/
theorem getElem?_blocks_commit_self {h : Heap} {handle : UInt32} {code : List Instruction}
    {scopeSize : UInt32} {b : Block}
    (hb : (h.commit handle code scopeSize).blocks[handle.toNat]? = some b)
    (hsize : h.words.size + 4 * code.length < UInt32.size) :
    b.finished = true ∧ b.offset.toNat = h.words.size ∧ b.size.toNat = 4 * code.length := by
  have hwords := size_words_write h code
  have hopen : ((h.openReserved handle).write code).words.size = h.words.size + 4 * code.length :=
    size_words_write _ code
  simp only [commit, finish, blocks_write, openReserved, Array.getElem?_modify, if_true,
    Option.map_map, Option.map_eq_some_iff, Function.comp_apply] at hb
  obtain ⟨old, -, rfl⟩ := hb
  have hoffset : (UInt32.ofNat h.words.size).toNat = h.words.size :=
    UInt32.toNat_ofNat_of_lt' (by omega)
  have hend : (UInt32.ofNat (h.words.size + 4 * code.length)).toNat = h.words.size +
      4 * code.length :=
    UInt32.toNat_ofNat_of_lt' hsize
  refine ⟨rfl, hoffset, ?_⟩
  show (UInt32.ofNat ((h.openReserved handle).write code).words.size -
    UInt32.ofNat h.words.size).toNat = _
  rw [hopen, UInt32.toNat_sub_of_le _ _ (by rw [UInt32.le_iff_toNat_le, hoffset, hend]; omega),
    hoffset, hend]
  omega

end Heap

/-- Laid code that is committed to the handle reserved for it fills the handle. -/
theorem Program.Filled.commit {b : Builder} {n : Nat} {pending : List Nat}
    (hfilled : b.program.Filled (n :: pending)) (hlaid : b.Laid [])
    (hn : n < b.program.heap.blocks.size) (scopeSize : UInt32)
    (hbounded : Program.Bounded { b.program with
      heap := b.program.heap.commit (UInt32.ofNat n)
        (b.code.toList ++ [⟨.ret, 0, 0, 0⟩]) scopeSize }) :
    Program.Filled { b.program with
      heap := b.program.heap.commit (UInt32.ofNat n)
        (b.code.toList ++ [⟨.ret, 0, 0, 0⟩]) scopeSize } pending := by
  obtain ⟨hwords, hblocks⟩ := hbounded
  have hgrows := Linkage.grows_commit b.program (UInt32.ofNat n)
    (b.code.toList ++ [⟨.ret, 0, 0, 0⟩]) scopeSize
  dsimp only at hwords hblocks
  rw [Heap.size_blocks_commit] at hblocks
  rw [Heap.size_words_commit] at hwords
  have hhandle : (UInt32.ofNat n).toNat = n :=
    UInt32.toNat_ofNat_of_lt' (Nat.lt_of_lt_of_le hn hblocks)
  constructor
  · intro i block hblock
    by_cases hi : i = n
    · subst hi
      refine .inr ?_
      have hself : (b.program.heap.commit (UInt32.ofNat i) (b.code.toList ++ [⟨.ret, 0, 0, 0⟩])
          scopeSize).blocks[(UInt32.ofNat i).toNat]? = some block := by
        rw [hhandle]
        exact hblock
      obtain ⟨hfinished, hoffset, hsize⟩ := Heap.getElem?_blocks_commit_self hself
        (Nat.lt_trans hwords (by decide))
      refine ⟨hfinished, b.code.toList, ?_, ?_, fun i hi => (hlaid.supplied i hi).mono hgrows, ?_⟩
      · rw [hoffset]
        exact (Heap.holds_write b.program.heap _).mono fun a w hw => by
          rw [Heap.word?, Heap.words_commit]
          exact hw
      · rw [hsize, List.length_append]
        rfl
      · intro k i hi hop
        rw [Array.getElem?_toList] at hi
        rw [Array.length_toList]
        refine (hlaid.jumps k i hi hop).resolve_right ?_
        rintro ⟨scope, hscope, -⟩
        rw [List.forall₂_nil_right_iff.mp hlaid.awaited] at hscope
        cases hscope
    · have hold : b.program.heap.blocks[i]? = some block := by
        rw [← Heap.getElem?_blocks_commit (h := b.program.heap)
          (by rw [hhandle]; exact hi)]
        exact hblock
      rcases hfilled.blocks i block hold with hmem | ⟨hfinished, hlays⟩
      · exact .inl ((List.mem_cons.mp hmem).resolve_left hi)
      · exact .inr ⟨hfinished, hlays.mono hgrows⟩
  · intro id handle hlinked
    dsimp only
    rw [Heap.size_blocks_commit]
    exact hfilled.linked id handle hlinked

/-- A handle is reserved for a fragment. -/
theorem Program.Filled.reserve {p : Program} {pending : List Nat} (h : p.Filled pending)
    (id : FragmentId) (hnone : p.linked? id = none)
    (hbounded : (p.reserve id).Bounded) :
    (p.reserve id).Filled (p.heap.blocks.size :: pending) := by
  have hsize : (p.reserve id).heap.blocks.size = p.heap.blocks.size + 1 := Array.size_push _
  have hgrows := Linkage.grows_reserve hnone
  have hblocks := hbounded.blocks
  rw [hsize] at hblocks
  constructor
  · intro i b hb
    rw [blocks_reserve, Array.getElem?_push] at hb
    split at hb
    · rename_i hi
      exact .inl (hi ▸ List.mem_cons_self)
    · rcases h.blocks i b hb with hmem | ⟨hfinished, hlays⟩
      · exact .inl (List.mem_cons_of_mem _ hmem)
      · exact .inr ⟨hfinished, hlays.mono hgrows⟩
  · intro other handle hlinked
    rw [Linkage.linked?_reserve] at hlinked
    rw [hsize]
    split at hlinked
    · obtain rfl := Option.some.inj hlinked
      rw [UInt32.toNat_ofNat_of_lt' (by omega)]
      exact Nat.lt_succ_self _
    · exact Nat.lt_succ_of_lt (h.linked other handle hlinked)

/-! ### Linking -/

/-- What linking does to a program whose handles are filled, but for those that are pending. -/
structure Program.Fills (pending : List Nat) (p : Program) (handle : UInt32)
    (q : Program) : Prop where
  grows : p.Grows q
  closed : q.constants.Closed
  words : 4 * q.heap.blocks.size + p.heap.words.size ≤ q.heap.words.size + 4 * p.heap.blocks.size
  filled : q.Bounded → q.Filled pending ∧ handle.toNat < q.heap.blocks.size

/-- What is kept while the code of a fragment is emitted. -/
def Upkeep.filling (base : Program) (pending : List Nat) : Upkeep where
  holds labels b :=
    base.Grows b.program ∧
    4 * b.program.heap.blocks.size + base.heap.words.size ≤
      b.program.heap.words.size + 4 * base.heap.blocks.size ∧
    (b.program.Bounded → b.program.Filled pending ∧ b.Laid labels)
  admits _ := True
  reaches p handle := p.Bounded → handle.toNat < p.heap.blocks.size
  broken _ _ := True

theorem maintains_filling {c : BuildContext} (base : Program) (pending : List Nat)
    (hlink : c.strategy = .eager → ∀ f p, p.constants.Closed → (p.Bounded → p.Filled pending) →
      EndsIn (fun _ _ => True) (p.Fills pending) (c.link f p)) :
    c.Maintains (.filling base pending) where
  layouts _ _ _ := trivial
  partials _ _ _ := trivial
  fails _ _ := trivial
  constants := by
    rintro labels ⟨program, code, scopes⟩ pools ⟨hgrows, hwords, hfilled⟩ hadds
    have hstep : program.Grows { program with constants := pools } :=
      Program.grows_constants hadds.grows
    refine ⟨hgrows.trans hstep, hwords, fun hbounded => ?_⟩
    obtain ⟨hfilled, hlaid⟩ := hfilled ⟨hbounded.words, hbounded.blocks⟩
    refine ⟨⟨fun i b hb => (hfilled.blocks i b hb).imp_right fun h => ⟨h.1, h.2.mono hstep⟩,
      hfilled.linked⟩, hlaid.grow hstep⟩
  fresh := by
    rintro labels ⟨program, code, scopes⟩ ⟨hgrows, hwords, hfilled⟩
    have hstep : program.Grows { program with fresh := program.fresh + 1 } :=
      { Program.Grows.refl program with fresh := Nat.le_succ _ }
    refine ⟨hgrows.trans hstep, hwords, fun hbounded => ?_⟩
    obtain ⟨hfilled, hlaid⟩ := hfilled ⟨hbounded.words, hbounded.blocks⟩
    refine ⟨⟨fun i b hb => (hfilled.blocks i b hb).imp_right fun h => ⟨h.1, h.2.mono hstep⟩,
      hfilled.linked⟩, hlaid.grow hstep⟩
  pushed := by
    rintro labels b i ⟨hgrows, hwords, hfilled⟩ hjump hsupplies hreaches
    refine ⟨hgrows, hwords, fun hbounded => ?_⟩
    obtain ⟨hfilled, hlaid⟩ := hfilled hbounded
    exact ⟨hfilled, hlaid.push ⟨hsupplies, fun hop => hreaches hop hbounded⟩ hjump⟩
  opened := by
    rintro labels b inner ⟨hgrows, hwords, hfilled⟩
    refine ⟨hgrows, hwords, fun hbounded => ?_⟩
    obtain ⟨hfilled, hlaid⟩ := hfilled hbounded
    exact ⟨hfilled, hlaid.openLabels inner⟩
  jumped := by
    rintro inner labels b scope scopes o target ⟨hgrows, hwords, hfilled⟩ hscopes ho htarget
    refine ⟨hgrows, hwords, fun hbounded => ?_⟩
    obtain ⟨hfilled, hlaid⟩ := hfilled hbounded
    exact ⟨hfilled, hlaid.jump hscopes ho htarget⟩
  labelled := by
    rintro name inner labels b scope scopes ⟨hgrows, hwords, hfilled⟩ hscopes
    refine ⟨hgrows, hwords, fun hbounded => ?_⟩
    obtain ⟨hfilled, hlaid⟩ := hfilled hbounded
    exact ⟨hfilled, hlaid.label hscopes⟩
  closed := by
    rintro labels ⟨program, code, scopes'⟩ scope scopes ⟨hgrows, hwords, hfilled⟩ hscopes
    obtain rfl : scopes' = scope :: scopes := hscopes
    have hframe := (BuildContext.Maintains.setDistances_frame (c := c) scope.places
      scope.uses.reverse ⟨program, code, scopes⟩).1
    have hdistances (hlaid : Builder.Laid ([] :: labels) ⟨program, code, scope :: scopes⟩) :=
      Builder.Laid.setDistances (c := c) (b := ⟨program, code, scopes⟩)
        (Builder.Laid.reverse (b := ⟨program, code, scopes⟩) hlaid)
    dsimp only at hgrows hwords hfilled hframe hdistances ⊢
    cases hr : Emit.setDistances scope.places scope.uses.reverse c ⟨program, code, scopes⟩ with
    | error e b' => trivial
    | ok r b' =>
      rw [hr] at hframe hdistances
      obtain rfl : b'.program = program := hframe
      refine ⟨hgrows, hwords, fun hbounded => ?_⟩
      obtain ⟨hfilled, hlaid⟩ := hfilled hbounded
      exact ⟨hfilled, hdistances hlaid⟩
  linked := by
    rintro heager labels ⟨program, code, scopes⟩ f - ⟨hgrows, hwords, hfilled⟩ hclosed
    have hends := hlink heager f program hclosed fun hbounded => (hfilled hbounded).1
    dsimp only at hgrows hwords hfilled ⊢
    cases hr : c.link f program with
    | error e q => trivial
    | ok handle q =>
      rw [hr] at hends
      obtain ⟨hstep, hclosed', hwords', hfilled'⟩ := hends
      refine ⟨⟨hgrows.trans hstep, ?_, fun hbounded => ⟨(hfilled' hbounded).1, ?_⟩⟩,
        fun hbounded => (hfilled' hbounded).2, hclosed'⟩
      · dsimp only
        omega
      · exact (hfilled (hstep.bounded hbounded)).2.grow hstep

variable {lookup : Lookup} {strategy : Strategy}

/-- Linking fills the handles that it gives out. -/
theorem Link.fills_fragment (fuel : Nat) (f : Fragment) {p : Program} {pending : List Nat}
    (hclosed : p.constants.Closed) (hfilled : p.Bounded → p.Filled pending) :
    EndsIn (fun _ _ => True) (p.Fills pending) (Link.fragment lookup strategy fuel f p) := by
  induction fuel generalizing f p pending with
  | zero =>
    have hends := Link.fragment_ends lookup strategy 0 f p
    generalize Link.fragment lookup strategy 0 f p = r at hends
    cases hends with
    | known hlinked =>
      exact ⟨.refl p, hclosed, Nat.le_of_eq (Nat.add_comm _ _),
        fun hbounded => ⟨hfilled hbounded, (hfilled hbounded).linked _ _ hlinked⟩⟩
    | exhausted => trivial
  | succ fuel ih =>
    have hends := Link.fragment_ends lookup strategy (fuel + 1) f p
    generalize Link.fragment lookup strategy (fuel + 1) f p = r at hends
    cases hends with
    | known hlinked =>
      exact ⟨.refl p, hclosed, Nat.le_of_eq (Nat.add_comm _ _),
        fun hbounded => ⟨hfilled hbounded, (hfilled hbounded).linked _ _ hlinked⟩⟩
    | abandoned => trivial
    | @written _ b hnone hbody =>
      have hreserve : p.Grows (p.reserve f.id) := Linkage.grows_reserve hnone
      have hstatements := (maintains_filling (c := f.context lookup strategy fuel) (p.reserve f.id)
        (p.heap.blocks.size :: pending) fun _ g q hq hfilled => ih g hq hfilled).statements
        f.attrMode f.statements ⟨fun _ _ _ _ _ => trivial, fun _ _ _ => trivial⟩
        { program := p.reserve f.id } ⟨⟨.refl _,
          Nat.le_of_eq (Nat.add_comm _ _), fun hbounded =>
            ⟨(hfilled (hreserve.bounded hbounded)).reserve f.id hnone hbounded, .start _⟩⟩, rfl,
          hclosed, trivial⟩
      rw [hbody] at hstatements
      obtain ⟨⟨hgrows, hwords, hlaid⟩, -, hclosed', -⟩ := hstatements
      have hcommit := Linkage.grows_commit b.program (UInt32.ofNat p.heap.blocks.size)
        (b.code.toList ++ [⟨.ret, 0, 0, 0⟩]) (UInt32.ofNat f.layout.template.symbols.length)
      have hsize : p.heap.blocks.size + 1 ≤ b.program.heap.blocks.size := by
        have := hgrows.blocks
        rwa [Program.blocks_reserve, Array.size_push] at this
      have hreserved : (p.reserve f.id).heap.blocks.size = p.heap.blocks.size + 1 :=
        Array.size_push _
      have hsame : (p.reserve f.id).heap.words.size = p.heap.words.size := rfl
      refine ⟨(hreserve.trans hgrows).trans hcommit, hclosed', ?_, fun hbounded => ⟨?_, ?_⟩⟩
      · dsimp only at hwords ⊢
        rw [Heap.size_blocks_commit, Heap.size_words_commit, List.length_append,
          List.length_singleton]
        omega
      · have hlaid := hlaid (hcommit.bounded hbounded)
        exact hlaid.1.commit hlaid.2 hsize _ hbounded
      · have hblocks := hbounded.blocks
        dsimp only at hblocks ⊢
        rw [Heap.size_blocks_commit] at hblocks ⊢
        rw [UInt32.toNat_ofNat_of_lt' (by omega)]
        exact hsize

/-- Compiling a fragment leaves a complete program complete. -/
theorem Program.Complete.compile {options : CompileOptions} {f : Fragment} {p q : Program}
    {handle : UInt32} (h : p.Complete)
    (hcompile : options.compile f p = .ok handle q) : q.Complete := by
  have hfills : EndsIn (fun _ _ => True) (p.Fills []) (options.compile f p) :=
    Link.fills_fragment _ f h.closed h.filled
  rw [hcompile] at hfills
  obtain ⟨-, hclosed, hwords, hfilled⟩ := hfills
  refine ⟨hclosed, ?_, fun hbounded => (hfilled hbounded).1⟩
  have := h.words
  omega

end TemplateMachine
