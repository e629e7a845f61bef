import TemplateMachine.Compile.Link
import TemplateMachine.Proofs.Emission.Statement

/-! Linking of fragments.  A handle is reserved, the code is emitted, and then it is written to the
end of the heap in one go, so blocks that are finished already never change. -/

namespace TemplateMachine

/-! ### Writing -/

namespace Heap

/-- The heap with instructions written at its end. -/
def write (h : Heap) (code : List Instruction) : Heap :=
  code.foldl (fun heap i => heap.append i.words) h

theorem toList_write (h : Heap) (code : List Instruction) :
    (h.write code).words.toList = h.words.toList ++ code.flatMap Instruction.words := by
  induction code generalizing h with
  | nil => simp [write]
  | cons i code ih =>
    show ((h.append i.words).write code).words.toList = _
    rw [ih]
    simp [append, push, Instruction.words]

theorem size_words_write (h : Heap) (code : List Instruction) :
    (h.write code).words.size = h.words.size + 4 * code.length := by
  have hwords (code : List Instruction) : (code.flatMap Instruction.words).length =
      4 * code.length := by
    induction code with
    | nil => rfl
    | cons i rest ih =>
      rw [List.flatMap_cons, List.length_append, ih, List.length_cons]
      simp only [Instruction.words, List.length_cons, List.length_nil]
      omega
  rw [← Array.length_toList, toList_write, List.length_append, hwords, Array.length_toList]

theorem blocks_write (h : Heap) (code : List Instruction) : (h.write code).blocks = h.blocks := by
  induction code generalizing h with
  | nil => rfl
  | cons i code ih => exact ih (h.append i.words)

theorem word?_write_of_some {h : Heap} {code : List Instruction} {a : Nat} {w : UInt32}
    (hw : h.word? a = some w) : (h.write code).word? a = some w := by
  rw [word?, ← Array.getElem?_toList] at hw ⊢
  rw [toList_write, List.getElem?_append_left (List.getElem?_eq_some_iff.mp hw).1, hw]

theorem word?_write (h : Heap) (code : List Instruction) (n : Nat) :
    (h.write code).word? (h.words.size + n) = (code.flatMap Instruction.words)[n]? := by
  rw [word?, ← Array.getElem?_toList, toList_write, List.getElem?_append_right (by simp),
    Array.length_toList, Nat.add_sub_cancel_left]

theorem holds_write (h : Heap) (code : List Instruction) :
    (h.write code).Holds h.words.size code := by
  induction code generalizing h with
  | nil => trivial
  | cons i rest ih =>
    have hword (n : Nat) := word?_write h (i :: rest) n
    refine ⟨hword 0, hword 1, hword 2, hword 3, ?_⟩
    have hsize : (h.append i.words).words.size = h.words.size + 4 := by
      simp [append, push, Instruction.words]
    rw [← hsize]
    exact ih (h.append i.words)

/-- The block of a reserved handle as it is after its code is written. -/
def commit (h : Heap) (handle : UInt32) (code : List Instruction)
    (scopeSize : UInt32) : Heap :=
  ((h.openReserved handle).write code).finish handle scopeSize

theorem words_commit (h : Heap) (handle : UInt32) (code : List Instruction) (scopeSize : UInt32) :
    (h.commit handle code scopeSize).words = (h.write code).words := by
  have hwords (g : Heap) (hg : g.words = h.words) : (g.write code).words =
      (h.write code).words := by
    rw [← Array.toList_inj, toList_write, toList_write, hg]
  exact hwords _ rfl

theorem size_words_commit (h : Heap) (handle : UInt32) (code : List Instruction)
    (scopeSize : UInt32) :
    (h.commit handle code scopeSize).words.size = h.words.size + 4 * code.length := by
  rw [words_commit, size_words_write]

theorem size_blocks_commit (h : Heap) (handle : UInt32) (code : List Instruction)
    (scopeSize : UInt32) : (h.commit handle code scopeSize).blocks.size = h.blocks.size := by
  simp [commit, finish, blocks_write, openReserved]

theorem getElem?_blocks_commit {h : Heap} {handle : UInt32} {code : List Instruction}
    {scopeSize : UInt32} {i : Nat} (hi : i ≠ handle.toNat) :
    (h.commit handle code scopeSize).blocks[i]? = h.blocks[i]? := by
  simp only [commit, finish, blocks_write, openReserved, Array.getElem?_modify]
  rw [if_neg (Ne.symm hi), if_neg (Ne.symm hi)]

theorem block?_commit {h : Heap} {handle : UInt32} (code : List Instruction) (scopeSize : UInt32)
    {b : Block} (hb : h.blocks[handle.toNat]? = some b) :
    ∃ block, (h.commit handle code scopeSize).block? handle = some block ∧
      block.offset = UInt32.ofNat h.words.size := by
  refine ⟨{ b with
    offset := UInt32.ofNat h.words.size
    size := UInt32.ofNat ((h.openReserved handle).write code).words.size -
      UInt32.ofNat h.words.size
    scopeSize
    finished := true }, ?_, rfl⟩
  simp [block?, commit, finish, blocks_write, openReserved, Array.getElem?_modify, hb]

end Heap

theorem Emit.commit_ok {c : BuildContext} {b b' : Builder} {handle r : UInt32}
    (h : Emit.commit (some handle) c b = .ok r b') :
    r = handle ∧ b'.program = { b.program with
      heap := b.program.heap.commit handle (b.code.toList ++ [⟨.ret, 0, 0, 0⟩])
        (UInt32.ofNat c.layout.template.symbols.length) } := by
  obtain ⟨program, code, scopes⟩ := b
  cases scopes with
  | cons scope rest => cases h
  | nil =>
    cases h
    refine ⟨rfl, ?_⟩
    rw [← Array.foldl_toList]
    simp only [Array.toList_push]
    rfl

/-! ### Reservation -/

/-- The program in which a fragment has got a handle. -/
def Program.reserve (p : Program) (id : FragmentId) : Program where
  heap := { p.heap with blocks := p.heap.blocks.push Block.reserved }
  constants := p.constants
  linked := (id, UInt32.ofNat p.heap.blocks.size) :: p.linked
  fresh := p.fresh

namespace Linkage

variable {lookup : Lookup} {strategy : Strategy} {l : Linkage} {pending : List UInt32}

def reserve (l : Linkage) (id : FragmentId) : Linkage :=
  ⟨l.program.reserve id, l.known, l.templates⟩

theorem linked?_reserve (p : Program) (id other : FragmentId) :
    (p.reserve id).linked? other =
      if other = id then some (UInt32.ofNat p.heap.blocks.size) else p.linked? other := by
  simp only [Program.linked?, Program.reserve, List.lookup_cons]
  by_cases h : other = id
  · simp [h]
  · rw [beq_false_of_ne h, if_neg h]

theorem grows_reserve {p : Program} {id : FragmentId} (h : p.linked? id = none) :
    p.Grows (p.reserve id) where
  words _ _ hw := hw
  blocks := by simp [Program.reserve]
  constants := .refl _
  linked other handle hl := by
    rw [linked?_reserve, if_neg]
    · exact hl
    · rintro rfl
      rw [h] at hl
      cases hl
  fresh := Nat.le_refl _

theorem le_reserve {id : FragmentId} (h : l.program.linked? id = none) : l ≤ l.reserve id := by
  refine ⟨grows_reserve h, fun handle block hb => ?_, fun _ _ hk => hk, rfl⟩
  obtain ⟨hget, hfinished⟩ := Option.filter_eq_some_iff.mp hb
  refine Option.filter_eq_some_iff.mpr ⟨?_, hfinished⟩
  have hlt := (Array.getElem?_eq_some_iff.mp hget).1
  simp only [reserve, Program.reserve, Array.getElem?_push, Nat.ne_of_lt hlt, if_false, hget]

/-- The handles of fragments belong to the heap. -/
theorem Sound.handle_lt (h : l.Sound lookup strategy pending) {id : FragmentId} {handle : UInt32}
    (hl : l.program.linked? id = some handle) : handle.toNat < l.program.heap.blocks.size := by
  obtain ⟨f, -, hpending | ⟨-, block, code, m, hblock, -⟩⟩ := h.linked id handle hl
  · obtain ⟨b, hb, -⟩ := h.reserved handle hpending
    exact (Array.getElem?_eq_some_iff.mp hb).1
  · obtain ⟨hget, -⟩ := Option.filter_eq_some_iff.mp hblock
    exact (Array.getElem?_eq_some_iff.mp hget).1

theorem Sound.reserve (h : l.Sound lookup strategy pending) {f : Fragment}
    (hf : l.known f.id = some f) (hnew : l.program.linked? f.id = none)
    (hsize : l.program.heap.blocks.size < 0x100000000) :
    (l.reserve f.id).Sound lookup strategy
      (UInt32.ofNat l.program.heap.blocks.size :: pending) where
  empty := h.empty
  fragments := h.fragments
  ids := h.ids
  fresh := h.fresh
  layouts := h.layouts
  partials := h.partials
  templates := h.templates
  regular := h.regular
  linked id handle hl := by
    rw [show (l.reserve f.id).program = l.program.reserve f.id from rfl, linked?_reserve] at hl
    split at hl
    · subst id
      cases hl
      exact ⟨f, hf, .inl (.head _)⟩
    · obtain ⟨g, hg, hcode⟩ := h.linked id handle hl
      exact ⟨g, hg, hcode.imp (.tail _) fun hc => hc.mono (le_reserve hnew)⟩
  reserved handle hhandle := by
    have hpush : (l.reserve f.id).program.heap.blocks =
      l.program.heap.blocks.push Block.reserved := rfl
    rw [hpush]
    cases hhandle with
    | head =>
      refine ⟨Block.reserved, ?_, rfl⟩
      rw [UInt32.toNat_ofNat_of_lt' hsize, Array.getElem?_push_size]
    | tail _ hhandle =>
      obtain ⟨b, hb, hfinished⟩ := h.reserved handle hhandle
      refine ⟨b, ?_, hfinished⟩
      rw [Array.getElem?_push, if_neg (Nat.ne_of_lt (Array.getElem?_eq_some_iff.mp hb).1), hb]
  distinct id id' handle hl hl' := by
    rw [show (l.reserve f.id).program = l.program.reserve f.id from rfl, linked?_reserve] at hl hl'
    have hne {other : FragmentId} (ho : l.program.linked? other = some handle) :
        some (UInt32.ofNat l.program.heap.blocks.size) ≠ some handle := by
      rintro ⟨⟩
      have := h.handle_lt ho
      rw [UInt32.toNat_ofNat_of_lt' hsize] at this
      exact Nat.lt_irrefl _ this
    split at hl
    · split at hl'
      · exact ‹id = _›.trans ‹id' = _›.symm
      · exact absurd hl (hne hl')
    · split at hl'
      · exact absurd hl' (hne hl)
      · exact h.distinct id id' handle hl hl'

/-! ### Commitment -/

/-- The linkage in which the code of a handle is written. -/
def commit (l : Linkage) (handle : UInt32) (code : List Instruction) (scopeSize : UInt32) :
    Linkage :=
  ⟨{ l.program with heap := l.program.heap.commit handle code scopeSize }, l.known, l.templates⟩

theorem grows_commit (p : Program) (handle : UInt32) (code : List Instruction)
    (scopeSize : UInt32) : p.Grows { p with heap := p.heap.commit handle code scopeSize } where
  words a w hw := by
    show (p.heap.commit handle code scopeSize).word? a = some w
    rw [Heap.word?, Heap.words_commit]
    exact Heap.word?_write_of_some hw
  blocks := Nat.le_of_eq (Heap.size_blocks_commit ..).symm
  constants := .refl _
  linked _ _ hl := hl
  fresh := Nat.le_refl _

theorem Sound.le_commit (h : l.Sound lookup strategy pending) {handle : UInt32}
    (hhandle : handle ∈ pending) (code : List Instruction) (scopeSize : UInt32) :
    l ≤ l.commit handle code scopeSize := by
  refine ⟨grows_commit .., fun other block hb => ?_, fun _ _ hk => hk, rfl⟩
  obtain ⟨hget, hfinished⟩ := Option.filter_eq_some_iff.mp hb
  refine Option.filter_eq_some_iff.mpr ⟨?_, hfinished⟩
  rw [show (l.commit handle code scopeSize).program.heap =
    l.program.heap.commit handle code scopeSize from rfl, Heap.getElem?_blocks_commit]
  · exact hget
  · intro heq
    obtain ⟨b', hb', hunfinished⟩ := h.reserved handle hhandle
    rw [heq, hb'] at hget
    obtain rfl := Option.some.inj hget
    rw [hunfinished] at hfinished
    cases hfinished

/-- Once its code is written a fragment is compiled. -/
theorem Sound.commit {handle : UInt32} (h : l.Sound lookup strategy (handle :: pending))
    (hnotin : handle ∉ pending) {f : Fragment} (hf : l.known f.id = some f)
    (hlinked : l.program.linked? f.id = some handle) {code : List Instruction}
    (hcode : f.HasCode lookup strategy l code) (hsize : l.program.heap.words.size < 0x80000000)
    (scopeSize : UInt32) :
    (l.commit handle (code ++ [⟨.ret, 0, 0, 0⟩]) scopeSize).Sound lookup strategy pending where
  empty := h.empty
  fragments := h.fragments
  ids := h.ids
  fresh := h.fresh
  layouts := h.layouts
  partials := h.partials
  templates := h.templates
  regular := h.regular
  linked id other hl := by
    have hle := h.le_commit (.head _) (code ++ [⟨.ret, 0, 0, 0⟩]) scopeSize
    obtain ⟨g, hg, hpending | hcompiled⟩ := h.linked id other hl
    · refine ⟨g, hg, ?_⟩
      cases hpending with
      | tail _ hpending => exact .inl hpending
      | head =>
        obtain rfl := h.distinct id f.id handle hl hlinked
        obtain rfl := Option.some.inj (hf.symm.trans hg)
        obtain ⟨b, hb, -⟩ := h.reserved handle (.head _)
        obtain ⟨block, hblock, hoffset⟩ :=
          Heap.block?_commit (code ++ [⟨.ret, 0, 0, 0⟩]) scopeSize hb
        refine .inr ⟨h.templates _ _ hf, block, code, l, hblock, ?_, hle, hcode⟩
        rw [hoffset, UInt32.toNat_ofNat_of_lt' (Nat.lt_trans hsize (by decide))]
        refine Heap.Holds.mono (fun a w hw => ?_) (Heap.holds_write l.program.heap _)
        show (l.program.heap.commit handle _ scopeSize).word? a = some w
        rw [Heap.word?, Heap.words_commit]
        exact hw
    · exact ⟨g, hg, .inr (hcompiled.mono hle)⟩
  reserved other hother := by
    obtain ⟨b, hb, hfinished⟩ := h.reserved other (.tail _ hother)
    refine ⟨b, ?_, hfinished⟩
    rw [show (l.commit handle (code ++ [⟨.ret, 0, 0, 0⟩]) scopeSize).program.heap =
      l.program.heap.commit handle (code ++ [⟨.ret, 0, 0, 0⟩]) scopeSize from rfl,
      Heap.getElem?_blocks_commit]
    · exact hb
    · intro heq
      exact hnotin (UInt32.toNat_inj.mp heq ▸ hother)
  distinct := h.distinct

end Linkage

/-! ### Linking -/

section

variable {lookup : Lookup} {strategy : Strategy}

/-- The context in which the code of a fragment is emitted. -/
def Fragment.context (f : Fragment) (lookup : Lookup) (strategy : Strategy) (fuel : Nat) :
    BuildContext :=
  { lookup, strategy, layout := f.layout, link := Link.fragment lookup strategy fuel }

/-- Linking finds a handle, or reserves one and commits code to it. -/
theorem Link.fragment_ok {fuel : Nat} {f : Fragment} {p p' : Program} {handle : UInt32}
    (h : Link.fragment lookup strategy fuel f p = .ok handle p') :
    (p.linked? f.id = some handle ∧ p' = p) ∨
      (p.linked? f.id = none ∧ handle = UInt32.ofNat p.heap.blocks.size ∧ ∃ k b, fuel = k + 1 ∧
        Emit.statements f.attrMode f.statements (f.context lookup strategy k)
          { program := p.reserve f.id } = .ok () b ∧
        p' = { b.program with
          heap := b.program.heap.commit handle (b.code.toList ++ [⟨.ret, 0, 0, 0⟩])
            (UInt32.ofNat f.layout.template.symbols.length) }) := by
  unfold Link.fragment at h
  simp only [bind, EStateM.bind, get, getThe, MonadStateOf.get] at h
  rw [show EStateM.get p = .ok p p from rfl] at h
  dsimp only at h
  cases hlinked : p.linked? f.id with
  | some found =>
    simp only [hlinked, pure, EStateM.pure] at h
    cases h
    exact .inl ⟨rfl, rfl⟩
  | none =>
    simp only [hlinked] at h
    cases fuel with
    | zero => cases h
    | succ k =>
      right
      have hcatch : EStateM.tryCatch (Link.build (f.context lookup strategy k)
          (some (UInt32.ofNat p.heap.blocks.size)) (Emit.statements f.attrMode f.statements))
          (fun e => do
            modify fun p => p.unlink f.id
            throw e) (p.reserve f.id) = .ok handle p' := h
      unfold EStateM.tryCatch at hcatch
      cases hbuild : Link.build (f.context lookup strategy k)
          (some (UInt32.ofNat p.heap.blocks.size)) (Emit.statements f.attrMode f.statements)
          (p.reserve f.id) with
      | error e q =>
        rw [hbuild] at hcatch
        cases hcatch
      | ok found q =>
        rw [hbuild] at hcatch
        cases hcatch
        unfold Link.build at hbuild
        split at hbuild
        · rename_i r b' hbody
          cases hbuild
          obtain ⟨_, b, hstatements, hcommit⟩ := Emit.bind_ok hbody
          obtain ⟨rfl, hprogram⟩ := Emit.commit_ok hcommit
          exact ⟨rfl, rfl, k, b, rfl, hstatements, hprogram⟩
        · cases hbuild

/-- Where the code of a fragment can be emitted, the fragment is linked. -/
theorem Link.fragment_of_ok {fuel : Nat} {f : Fragment} {p : Program} {b : Builder}
    (hnone : p.linked? f.id = none)
    (hbody : Emit.statements f.attrMode f.statements (f.context lookup strategy fuel)
      { program := p.reserve f.id } = .ok () b) (hscopes : b.scopes = []) :
    ∃ handle q, Link.fragment lookup strategy (fuel + 1) f p = .ok handle q := by
  obtain ⟨r, b', hcommit⟩ : ∃ r b', Emit.commit (some (UInt32.ofNat p.heap.blocks.size))
      (f.context lookup strategy fuel) b = .ok r b' := by
    obtain ⟨program, code, scopes⟩ := b
    obtain rfl : scopes = [] := hscopes
    exact ⟨_, _, rfl⟩
  refine ⟨r, b'.program, ?_⟩
  unfold Link.fragment
  simp only [bind, EStateM.bind, get, getThe, MonadStateOf.get]
  rw [show EStateM.get p = .ok p p from rfl]
  dsimp only
  rw [hnone]
  show EStateM.tryCatch (Link.build (f.context lookup strategy fuel)
    (some (UInt32.ofNat p.heap.blocks.size)) (Emit.statements f.attrMode f.statements)) _
    (p.reserve f.id) = _
  unfold EStateM.tryCatch Link.build
  rw [Emit.bind_apply, hbody]
  simp only [hcommit]

theorem Link.fragment_of_linked {fuel : Nat} {f : Fragment} {p : Program} {handle : UInt32}
    (h : p.linked? f.id = some handle) : Link.fragment lookup strategy fuel f p = .ok handle p := by
  unfold Link.fragment
  simp only [bind, EStateM.bind, get, getThe, MonadStateOf.get]
  rw [show EStateM.get p = .ok p p from rfl]
  dsimp only
  rw [h]
  rfl

/-- Where the code of a fragment cannot be emitted, the fragment is not
linked, for the same reason. -/
theorem Link.fragment_of_error {fuel : Nat} {f : Fragment} {p : Program} {e : Stop CompileError}
    {b : Builder} (hnone : p.linked? f.id = none)
    (hbody : Emit.statements f.attrMode f.statements (f.context lookup strategy fuel)
      { program := p.reserve f.id } = .error e b) :
    Link.fragment lookup strategy (fuel + 1) f p = .error e (b.program.unlink f.id) := by
  unfold Link.fragment
  simp only [bind, EStateM.bind, get, getThe, MonadStateOf.get]
  rw [show EStateM.get p = .ok p p from rfl]
  dsimp only
  rw [hnone]
  show EStateM.tryCatch (Link.build (f.context lookup strategy fuel)
    (some (UInt32.ofNat p.heap.blocks.size)) (Emit.statements f.attrMode f.statements)) (fun e => do
      modify fun p => p.unlink f.id
      throw e) (p.reserve f.id) = _
  unfold EStateM.tryCatch Link.build
  rw [Emit.bind_apply, hbody]
  rfl

theorem links_fragment (hlookup : lookup.Coherent) (fuel : Nat) (f : Fragment) :
    Links lookup strategy f (Link.fragment lookup strategy fuel f) := by
  induction fuel generalizing f with
  | zero =>
    rintro - p handle p' h
    rcases Link.fragment_ok h with ⟨hlinked, rfl⟩ | ⟨-, -, k, b, hfuel, -⟩
    · exact ⟨.refl _, fun _ l pending hl hsound _ => ⟨l, hl, l.le_refl, hsound, hlinked⟩⟩
    · cases hfuel
  | succ fuel ih =>
    intro hregular p handle p' h
    rcases Link.fragment_ok h with ⟨hlinked, rfl⟩ | ⟨hnone, rfl, k, b, hfuel, hbody, rfl⟩
    · exact ⟨.refl _, fun _ l pending hl hsound _ => ⟨l, hl, l.le_refl, hsound, hlinked⟩⟩
    · obtain rfl := Nat.succ.inj hfuel
      have hc : (f.context lookup strategy fuel).Faithful := ⟨ih, hlookup⟩
      obtain ⟨hgrows, hdraft⟩ := emits_statements hc f.attrMode f.statements hregular.wellFormed
        (fun _ => hregular.mem_attributes) _ _ _ hbody
      have hgrows' := Linkage.grows_commit b.program (UInt32.ofNat p.heap.blocks.size)
        (b.code.toList ++ [⟨.ret, 0, 0, 0⟩]) (UInt32.ofNat f.layout.template.symbols.length)
      refine ⟨((Linkage.grows_reserve hnone).trans hgrows).trans hgrows', ?_⟩
      intro hfits l pending hl hsound hf
      subst hl
      have hsize : l.program.heap.blocks.size < 0x100000000 := Nat.lt_of_le_of_lt
        ((Linkage.grows_reserve hnone).trans (hgrows.trans hgrows')).blocks hfits.blocks
      have hle := Linkage.le_reserve hnone
      obtain ⟨m, d, hm, hle', hsound', hcode, hscopes, hspec⟩ := hdraft (hgrows'.fits hfits)
        (l.reserve f.id) _ rfl (hsound.reserve hf hnone hsize) (hsound.templates _ _ hf) trivial
      obtain ⟨code, rfl, hhas⟩ := hspec m m.le_refl
      rw [Draft.raw_plain] at hcode
      have hlinked : m.program.linked? f.id = some (UInt32.ofNat l.program.heap.blocks.size) := by
        refine Linkage.Grows.linked hle' ?_
        rw [show (l.reserve f.id).program = l.program.reserve f.id from rfl,
          Linkage.linked?_reserve, if_pos rfl]
      have hnotin : UInt32.ofNat l.program.heap.blocks.size ∉ pending := by
        intro hmem
        obtain ⟨block, hblock, -⟩ := hsound.reserved _ hmem
        have hlt := (Array.getElem?_eq_some_iff.mp hblock).1
        rw [UInt32.toNat_ofNat_of_lt' hsize] at hlt
        exact Nat.lt_irrefl _ hlt
      rw [← hm, hcode]
      rw [← hm] at hfits
      refine ⟨m.commit (UInt32.ofNat l.program.heap.blocks.size) (code ++ [⟨.ret, 0, 0, 0⟩])
        (UInt32.ofNat f.layout.template.symbols.length), rfl, ?_, ?_, hlinked⟩
      · exact Linkage.le_trans hle (Linkage.le_trans hle' (hsound'.le_commit (.head _) _ _))
      · exact hsound'.commit hnotin (Linkage.Grows.known (Linkage.le_trans hle hle') _ _ hf)
          hlinked hhas ((hm ▸ hgrows'.fits (hm ▸ hfits) : m.program.Fits).words) _

/-- The fragments that have identities before anything is compiled. -/
def Lookup.known (lookup : Lookup) (entry : Fragment) : FragmentId → Option Fragment
  | .entry => some entry
  | .layout handle => lookup.layout? handle
  | .part handle => lookup.partial? handle
  | .nested _ => none

/-- The templates that are compiled by themselves: the entry, layouts and partials. -/
inductive Lookup.Offers (lookup : Lookup) (entry : Fragment) : Fragment → Prop
  | entry : Offers lookup entry entry
  | layout {handle : UInt32} {f : Fragment} (h : lookup.layout? handle = some f) :
    Offers lookup entry f
  | part {handle : UInt32} {f : Fragment} (h : lookup.partial? handle = some f) :
    Offers lookup entry f

/-- The empty program.  All templates are those of fragments that are offered. -/
def Linkage.start (lookup : Lookup) (entry : Fragment) : Linkage where
  program := {}
  known := lookup.known entry
  templates layout := ∃ f, lookup.Offers entry f ∧ f.layout = layout

theorem Lookup.offers_of_known {entry f : Fragment} {id : FragmentId}
    (h : lookup.known entry id = some f) : lookup.Offers entry f := by
  cases id with
  | entry => exact Option.some.inj h ▸ .entry
  | layout handle => exact .layout h
  | part handle => exact .part h
  | nested n => cases h

theorem Lookup.Offers.known {entry f : Fragment} (hlookup : lookup.Coherent)
    (hid : entry.id = .entry) (h : lookup.Offers entry f) : lookup.known entry f.id = some f := by
  cases h with
  | entry => rw [hid]; rfl
  | layout h => rw [(hlookup.layout _ f h).1]; exact h
  | part h => rw [(hlookup.part _ f h).1]; exact h

theorem Lookup.Offers.regular {entry f : Fragment} (hlookup : lookup.Coherent)
    (hentry : entry.Regular) (h : lookup.Offers entry f) : f.Regular := by
  cases h with
  | entry => exact hentry
  | layout h => exact (hlookup.layout _ f h).2.1
  | part h => exact (hlookup.part _ f h).2.1

theorem Linkage.sound_start (hlookup : lookup.Coherent) {entry : Fragment}
    (hid : entry.id = .entry) (hentry : entry.Regular) :
    (Linkage.start lookup entry).Sound lookup strategy [] where
  empty := rfl
  fragments index f hf := by simp [start, Constants.initial, Pool.get?] at hf
  ids id f hf := by
    cases id with
    | entry => exact Option.some.inj hf ▸ hid
    | layout handle => exact (hlookup.layout handle f hf).1
    | part handle => exact (hlookup.part handle f hf).1
    | nested n => cases hf
  fresh _ _ hf := nomatch hf
  layouts handle f hf := by
    rw [(hlookup.layout handle f hf).1]
    exact hf
  partials handle f hf := by
    rw [(hlookup.part handle f hf).1]
    exact hf
  templates _ f hf := ⟨f, Lookup.offers_of_known hf, rfl⟩
  regular _ _ hf := (Lookup.offers_of_known hf).regular hlookup hentry
  linked _ _ hl := nomatch hl
  reserved := nofun
  distinct _ _ _ hl := nomatch hl

/-- The programs that compiling templates makes out of a fresh one. -/
inductive CompileOptions.Builds (options : CompileOptions) (entry : Fragment) : Program → Prop
  | fresh : Builds options entry {}
  | compile {p p' : Program} {f : Fragment} {handle : UInt32} : Builds options entry p →
    options.lookup.Offers entry f → options.compile f p = .ok handle p' → Builds options entry p'

/-- Compiling a template into a sound program keeps it sound, and gives it
the code of the template. -/
theorem CompileOptions.compile_sound {options : CompileOptions} (hlookup : options.lookup.Coherent)
    {l : Linkage} (hsound : l.Sound options.lookup options.strategy []) {f : Fragment}
    (hknown : l.known f.id = some f) {p : Program} {handle : UInt32}
    (h : options.compile f l.program = .ok handle p) (hfits : p.Fits) :
    ∃ m : Linkage, m.program = p ∧ l ≤ m ∧ m.Sound options.lookup options.strategy [] ∧
      m.Compiled options.lookup options.strategy f handle := by
  obtain ⟨-, hlink⟩ :=
    links_fragment hlookup _ f (hsound.regular _ _ hknown) _ _ _ h
  obtain ⟨m, hm, hle, hsound', hlinked⟩ := hlink hfits l [] rfl hsound hknown
  refine ⟨m, hm, hle, hsound', ?_⟩
  rw [← hm] at hlinked
  obtain ⟨g, hg, hpending | hcompiled⟩ := hsound'.linked _ _ hlinked
  · cases hpending
  · obtain rfl := Option.some.inj (hg.symm.trans (Linkage.Grows.known hle _ _ hknown))
    exact hcompiled

/-- A program that was built out of a fresh one is sound. -/
theorem CompileOptions.Builds.sound {options : CompileOptions} (hlookup : options.lookup.Coherent)
    {entry : Fragment} (hid : entry.id = .entry) (hentry : entry.Regular) {p : Program}
    (h : options.Builds entry p) (hfits : p.Fits) :
    ∃ l : Linkage, l.program = p ∧ Linkage.start options.lookup entry ≤ l ∧
      l.Sound options.lookup options.strategy [] := by
  induction h with
  | fresh => exact ⟨_, rfl, Linkage.le_refl _, Linkage.sound_start hlookup hid hentry⟩
  | @compile p p' f handle _ hf hcompile ih =>
    have hgrows : p.Grows p' :=
      (links_fragment hlookup _ f (hf.regular hlookup hentry) _ _ _ hcompile).1
    obtain ⟨l, rfl, hle, hsound⟩ := ih (hgrows.fits hfits)
    obtain ⟨m, rfl, hle', hsound', -⟩ := CompileOptions.compile_sound hlookup hsound
      (Linkage.Grows.known hle _ _ (hf.known hlookup hid)) hcompile hfits
    exact ⟨m, rfl, Linkage.le_trans hle hle', hsound'⟩

end

/-! ### Blocks as a whole.  The words of a block are pushed one by one, and a word is read behind
all that were pushed after it.  Where programs are compiled in a proof, by computation, the words of
a block are better appended as a whole; it is the same program. -/

theorem Heap.write_eq (h : Heap) (code : List Instruction) :
    h.write code = { h with words := ⟨h.words.toList ++ code.flatMap Instruction.words⟩ } := by
  induction code generalizing h with
  | nil => simp [write]
  | cons i code ih =>
    show (h.append i.words).write code = _
    rw [ih]
    simp [append, push, Instruction.words]

/-- `Emit.commit`, with the words of the block appended as a whole. -/
def Emit.commitWhole (reserved : Option UInt32) : Emit UInt32 := do
  unless (← get).scopes.isEmpty do
    fail (.unbalancedLabels "label scope open at commit")
  op .ret
  let scopeSize := UInt32.ofNat (← read).layout.template.symbols.length
  let code := (← get).code
  onProgram <| modifyGet fun p =>
    match p with
    | ⟨heap, constants, linked, fresh⟩ =>
      let (handle, heap) :=
        match reserved with
        | some handle => (handle, heap.openReserved handle)
        | none => heap.allocate
      let heap :=
        { heap with words := ⟨heap.words.toList ++ code.toList.flatMap Instruction.words⟩ }
      (handle, ⟨heap.finish handle scopeSize, constants, linked, fresh⟩)

theorem Emit.commit_eq_commitWhole : Emit.commit = Emit.commitWhole := by
  funext reserved
  have hwrite (h : Heap) (code : Array Instruction) :
      { h with words := ⟨h.words.toList ++ code.toList.flatMap Instruction.words⟩ } =
        code.foldl (fun heap i => heap.append i.words) h := by
    rw [← Array.foldl_toList]
    exact (h.write_eq code.toList).symm
  unfold commitWhole
  simp only [hwrite]
  rfl

/-- `Link.build`, with the words of the block appended as a whole. -/
def Link.buildWhole (context : BuildContext) (reserved : Option UInt32) (body : Emit Unit) :
    Link UInt32 := fun program =>
  match (do body; Emit.commitWhole reserved : Emit UInt32) context { program } with
  | .ok handle builder => .ok handle builder.program
  | .error e builder => .error e builder.program

theorem Link.build_eq_buildWhole : Link.build = Link.buildWhole := by
  funext context reserved body
  unfold build buildWhole
  exact Emit.commit_eq_commitWhole ▸ rfl

/-- `Link.fragment`, with the words of each block appended as a whole. -/
def Link.fragmentWhole (lookup : Lookup) (strategy : Strategy) (fuel : Nat) (f : Fragment) :
    Link UInt32 := do
  match (← get).linked? f.id with
  | some handle => return handle
  | none =>
    match fuel with
    | 0 => throw .outOfFuel
    | fuel + 1 =>
      let handle ← reserve f.id
      let context : BuildContext :=
        { lookup, strategy, layout := f.layout, link := fragmentWhole lookup strategy fuel }
      try
        buildWhole context handle (Emit.statements f.attrMode f.statements)
      catch e =>
        modify fun p => p.unlink f.id
        throw e

theorem Link.fragment_eq_fragmentWhole (lookup : Lookup) (strategy : Strategy) (fuel : Nat) :
    Link.fragment lookup strategy fuel = Link.fragmentWhole lookup strategy fuel := by
  induction fuel with
  | zero =>
    funext f
    exact (fragment.eq_def lookup strategy 0 f).trans
      (fragmentWhole.eq_def lookup strategy 0 f).symm
  | succ fuel ih =>
    funext f
    have hwhole := fragmentWhole.eq_def lookup strategy (fuel + 1) f
    dsimp only at hwhole
    rw [← ih, ← build_eq_buildWhole] at hwhole
    exact (fragment.eq_def lookup strategy (fuel + 1) f).trans hwhole.symm

/-- `CompileOptions.compile`, with the words of each block appended as a whole. -/
def CompileOptions.compileWhole (options : CompileOptions) (f : Fragment) : Link UInt32 :=
  Link.fragmentWhole options.lookup options.strategy
    (options.nesting + f.layout.template.fragmentCount) f

theorem CompileOptions.compile_eq_compileWhole :
    CompileOptions.compile = CompileOptions.compileWhole := by
  funext options f
  rw [compile, compileWhole, Link.fragment_eq_fragmentWhole]

end TemplateMachine
