import TemplateMachine.Proofs.Shape.Statement

/-! Sound linkages.  The constants of a program are fragments that are known, and a fragment that
has a handle has its code in the heap, unless it is still being compiled. -/

namespace TemplateMachine

namespace Linkage

/-- The code of a fragment of a template stands in the heap, in the finished block of a handle. -/
def Compiled (lookup : Lookup) (strategy : Strategy) (l : Linkage) (f : Fragment)
    (handle : UInt32) : Prop :=
  l.templates f.layout ∧ ∃ block code m, l.program.heap.block? handle = some block ∧
    l.program.heap.Holds block.offset.toNat (code ++ [⟨.ret, 0, 0, 0⟩]) ∧
    m ≤ l ∧ f.HasCode lookup strategy m code

/-- What holds of the linkages that compilation makes.  The handles that are pending belong to
fragments that are being compiled. -/
structure Sound (lookup : Lookup) (strategy : Strategy) (l : Linkage) (pending : List UInt32) :
    Prop where
  empty : l.program.constants.strings.get? 0 = some ""
  fragments : ∀ index f, l.program.constants.fragments.get? index = some f →
    l.known f.id = some f
  ids : ∀ id f, l.known id = some f → f.id = id
  fresh : ∀ n f, l.known (.nested n) = some f → n < l.program.fresh
  layouts : ∀ handle f, lookup.layout? handle = some f → l.known f.id = some f
  partials : ∀ handle f, lookup.partial? handle = some f → l.known f.id = some f
  templates : ∀ id f, l.known id = some f → l.templates f.layout
  regular : ∀ id f, l.known id = some f → f.Regular
  linked : ∀ id handle, l.program.linked? id = some handle →
    ∃ f, l.known id = some f ∧ (handle ∈ pending ∨ Compiled lookup strategy l f handle)
  reserved : ∀ handle ∈ pending, ∃ b, l.program.heap.blocks[handle.toNat]? = some b ∧
    b.finished = false
  distinct : ∀ id id' handle, l.program.linked? id = some handle →
    l.program.linked? id' = some handle → id = id'

variable {lookup : Lookup} {strategy : Strategy} {l m : Linkage} {pending : List UInt32}

theorem Compiled.mono {f : Fragment} {handle : UInt32} (h : l.Compiled lookup strategy f handle)
    (hm : l ≤ m) : m.Compiled lookup strategy f handle := by
  obtain ⟨htemplate, block, code, n, hblock, hholds, hn, hcode⟩ := h
  exact ⟨Grows.templates hm ▸ htemplate, block, code, n, Grows.finished hm _ _ hblock,
    hholds.mono (Grows.program hm).words,
    le_trans hn hm, hcode⟩

/-- Sound linkages stay sound when constants are added, if new fragments are known. -/
theorem Sound.constants {heap : Heap} {c d : Constants} {linked : List (FragmentId × UInt32)}
    {fresh : Nat} {known : FragmentId → Option Fragment} {templates : Layout → Prop}
    (h : Sound lookup strategy ⟨⟨heap, c, linked, fresh⟩, known, templates⟩ pending)
    (hd : c.Extends d) (hnew : ∀ index f, d.fragments.get? index = some f → known f.id = some f) :
    Sound lookup strategy ⟨⟨heap, d, linked, fresh⟩, known, templates⟩ pending where
  empty := hd.strings.get? h.empty
  fragments := hnew
  ids := h.ids
  fresh := h.fresh
  layouts := h.layouts
  partials := h.partials
  templates := h.templates
  regular := h.regular
  linked id handle hl := by
    obtain ⟨f, hf, hcode⟩ := h.linked id handle hl
    refine ⟨f, hf, hcode.imp_right fun hc => hc.mono ?_⟩
    exact ⟨Program.grows_constants hd, fun _ _ hb => hb, fun _ _ hk => hk, rfl⟩
  reserved := h.reserved
  distinct := h.distinct

/-- The number of the next nested fragment belongs to none yet. -/
theorem Sound.known_fresh (h : l.Sound lookup strategy pending) :
    l.known (.nested l.program.fresh) = none := by
  cases hk : l.known (.nested l.program.fresh) with
  | none => rfl
  | some f => exact absurd (h.fresh _ _ hk) (Nat.lt_irrefl _)

/-- The linkage in which the next nested fragment has got its number. -/
def name (l : Linkage) (f : Fragment) : Linkage where
  program := { l.program with fresh := l.program.fresh + 1 }
  known id := if id = .nested l.program.fresh then some f else l.known id
  templates := l.templates

theorem Sound.le_name (h : l.Sound lookup strategy pending) (f : Fragment) : l ≤ l.name f := by
  refine ⟨⟨fun _ _ hw => hw, Nat.le_refl _, .refl _, fun _ _ hl => hl, Nat.le_succ _⟩,
    fun _ _ hb => hb, fun id g hg => ?_, rfl⟩
  show (if id = .nested l.program.fresh then some f else l.known id) = some g
  split
  · rename_i hid
    rw [hid, h.known_fresh] at hg
    cases hg
  · exact hg

theorem Sound.name (h : l.Sound lookup strategy pending) {f : Fragment}
    (hid : f.id = .nested l.program.fresh) (hlayout : l.templates f.layout) (hf : f.Regular) :
    (l.name f).Sound lookup strategy pending where
  empty := h.empty
  fragments index g hg := Grows.known (h.le_name f) _ _ (h.fragments index g hg)
  ids id g hg := by
    simp only [Linkage.name] at hg
    split at hg
    · obtain rfl := Option.some.inj hg
      rw [hid, ‹id = _›]
    · exact h.ids id g hg
  fresh n g hg := by
    simp only [Linkage.name] at hg
    split at hg
    · rename_i hn
      cases hn
      exact Nat.lt_succ_self _
    · exact Nat.lt_succ_of_lt (h.fresh n g hg)
  layouts handle g hg := Grows.known (h.le_name f) _ _ (h.layouts handle g hg)
  partials handle g hg := Grows.known (h.le_name f) _ _ (h.partials handle g hg)
  templates id g hg := by
    simp only [Linkage.name] at hg
    split at hg
    · obtain rfl := Option.some.inj hg
      exact hlayout
    · exact h.templates id g hg
  regular id g hg := by
    simp only [Linkage.name] at hg
    split at hg
    · obtain rfl := Option.some.inj hg
      exact hf
    · exact h.regular id g hg
  linked id handle hl := by
    obtain ⟨g, hg, hcode⟩ := h.linked id handle hl
    exact ⟨g, Grows.known (h.le_name f) _ _ hg, hcode.imp_right fun hc => hc.mono (h.le_name f)⟩
  reserved := h.reserved
  distinct := h.distinct

theorem known_name (l : Linkage) {f : Fragment} (hid : f.id = .nested l.program.fresh) :
    (l.name f).known f.id = some f := by
  simp only [Linkage.name, hid, if_pos]

end Linkage

end TemplateMachine
