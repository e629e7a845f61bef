import TemplateMachine.Machine.Registry
import TemplateMachine.Proofs.Emission.Advance

/-! Compilation comes to an end.  Eagerly, layouts and partials may be compiled on the way that
refer to one another in a cycle, but each is reserved before its code is emitted, and what is
reserved is not compiled again.  So the templates that are still outstanding, together with what
nests in the template at hand, bound how deeply compilation nests. -/

namespace TemplateMachine

/-! ### Outstanding templates -/

/-- The number of fragments of those templates that have no handle yet. -/
def Program.outstanding (p : Program) (wholes : List Fragment) : Nat :=
  (wholes.map fun f => if (p.linked? f.id).isSome then 0 else f.layout.template.fragmentCount).sum

section

variable {p q : Program} {wholes : List Fragment} {f : Fragment}

/-- The more fragments have a handle, the less is outstanding. -/
theorem Program.outstanding_le_of_linked (h : ∀ id, (p.linked? id).isSome → (q.linked? id).isSome) :
    q.outstanding wholes ≤ p.outstanding wholes := by
  refine List.sum_le_sum fun f _ => ?_
  by_cases hlinked : (p.linked? f.id).isSome
  · rw [if_pos (h _ hlinked)]
    exact Nat.zero_le _
  · rw [if_neg hlinked]
    split
    · exact Nat.zero_le _
    · exact Nat.le_refl _

theorem Program.outstanding_le (h : p.Grows q) : q.outstanding wholes ≤ p.outstanding wholes := by
  refine Program.outstanding_le_of_linked fun id hid => ?_
  obtain ⟨handle, hhandle⟩ := Option.isSome_iff_exists.mp hid
  exact Option.isSome_iff_exists.mpr ⟨handle, h.linked _ _ hhandle⟩

/-- A template that is reserved is not outstanding any more. -/
theorem Program.outstanding_reserve (hf : f ∈ wholes) (hnone : p.linked? f.id = none) :
    (p.reserve f.id).outstanding wholes + f.layout.template.fragmentCount ≤
      p.outstanding wholes := by
  obtain ⟨before, after, rfl⟩ := List.append_of_mem hf
  have hgrows := Linkage.grows_reserve hnone
  have hbefore : _ ≤ p.outstanding before := Program.outstanding_le hgrows
  have hafter : _ ≤ p.outstanding after := Program.outstanding_le hgrows
  simp only [Program.outstanding, List.map_append, List.map_cons, List.sum_append, List.sum_cons,
    Linkage.linked?_reserve, hnone] at hbefore hafter ⊢
  simp only [if_pos, Option.isSome_some, Option.isSome_none, Bool.false_eq_true, if_false]
  omega

theorem Program.outstanding_le_sum (p : Program) (wholes : List Fragment) :
    p.outstanding wholes ≤ (wholes.map fun f => f.layout.template.fragmentCount).sum := by
  refine List.sum_le_sum fun f _ => ?_
  split
  · exact Nat.zero_le _
  · exact Nat.le_refl _

end

/-! ### Linking -/

/-- The templates that a lookup gives are whole ones, among given fragments. -/
structure Lookup.Listed (l : Lookup) (wholes : List Fragment) : Prop where
  layouts : ∀ handle f, l.layout? handle = some f → f ∈ wholes
  partials : ∀ handle f, l.partial? handle = some f → f ∈ wholes
  whole : ∀ f ∈ wholes, f.statements = f.layout.template.statements

/-- In none of the templates that a lookup gives is a block nested in itself. -/
structure Lookup.Ordered (l : Lookup) (wholes : List Fragment) : Prop extends l.Listed wholes where
  acyclic : ∀ f ∈ wholes, f.layout.template.Acyclic

section

variable {lookup : Lookup} {strategy : Strategy} {wholes : List Fragment}

/-- A lazily compiled fragment links no other. -/
theorem Link.settles_lazy (fuel : Nat) (f : Fragment) {p : Program} (hclosed : p.constants.Closed)
    (q : Program) : Link.fragment lookup .lazy (fuel + 1) f p ≠ .error .outOfFuel q := by
  intro hfragment
  have hmaintains : (f.context lookup .lazy fuel).Maintains
    (.ofProgram (fun _ => True) (fun _ => True)
      fun e _ => e ≠ .outOfFuel) := maintains_program (fun _ _ _ => trivial)
    (fun _ _ _ => trivial) (fun _ _ _ => nofun) (fun _ _ _ _ => trivial) (fun _ _ => trivial) nofun
  have hkeeps : Emit.Keeps _ _ [] [] _ := hmaintains.statements f.attrMode f.statements .all
  have hstatements := hkeeps { program := p.reserve f.id } ⟨trivial, rfl, hclosed, trivial⟩
  have hends := Link.fragment_ends lookup .lazy (fuel + 1) f p
  rw [hfragment] at hends
  generalize hout : (Stop.outOfFuel : Stop CompileError) = e at hends
  cases hends with
  | abandoned hnone hbody herror =>
    rw [herror hout.symm] at hstatements
    exact hstatements hout.symm

/-- A fragment is linked, or fails, within as much fuel as fragments nest
in it and are outstanding. -/
theorem Link.settles_eager (hordered : lookup.Ordered wholes) (fuel : Nat)
    (f : Fragment) {p : Program} (hclosed : p.constants.Closed)
    (hacyclic : f.layout.template.Acyclic) (hfuel : p.linked? f.id = none →
      f.layout.template.depth f.statements + (p.reserve f.id).outstanding wholes < fuel)
    (q : Program) : Link.fragment lookup .eager fuel f p ≠ .error .outOfFuel q := by
  induction fuel generalizing f p q with
  | zero =>
    intro hfragment
    have hends := Link.fragment_ends lookup .eager 0 f p
    rw [hfragment] at hends
    cases hends with
    | exhausted hnone => exact absurd (hfuel hnone) (Nat.not_lt_zero _)
  | succ fuel ih =>
    intro hfragment
    have hends := Link.fragment_ends lookup .eager (fuel + 1) f p
    rw [hfragment] at hends
    generalize hout : (Stop.outOfFuel : Stop CompileError) = e at hends
    cases hends with
    | abandoned hnone hbody herror =>
      have hbound := hfuel hnone
      -- what may be linked nests less deeply, or is a whole template that is still outstanding
      let admits (g : Fragment) : Prop := g ∈ wholes ∨ g.layout = f.layout ∧
        f.layout.template.depth g.statements < f.layout.template.depth f.statements
      have hmaintains : (f.context lookup .eager fuel).Maintains (.ofProgram admits
          (p.reserve f.id).Grows fun e _ => e ≠ .outOfFuel) := maintains_program
        (fun handle g hg => .inl (hordered.layouts handle g hg))
        (fun handle g hg => .inl (hordered.partials handle g hg)) (fun _ _ _ => nofun)
        (fun r pools hpools hr => hr.trans (Program.grows_constants hpools.grows))
        (fun r hr => hr.trans { Program.Grows.refl r with fresh := Nat.le_succ _ })
        fun _ g r hg hr hgrows => by
          have hadvances : r.Advances .eager (stateAfter (Link.fragment lookup .eager fuel g r)) :=
            Link.advances_fragment fuel g hr
          have hless : r.outstanding wholes ≤ _ := Program.outstanding_le hgrows
          have hsettles : ∀ q, Link.fragment lookup .eager fuel g r ≠ .error .outOfFuel q := by
            rcases hg with hwhole | ⟨hlayout, hdepth⟩
            · refine ih g hr (hordered.acyclic g hwhole) fun hunlinked => ?_
              have hreserve := Program.outstanding_reserve hwhole hunlinked
              have hdepth := g.layout.template.depth_statements
              rw [← hordered.whole g hwhole] at hdepth
              omega
            · refine ih g hr (hlayout ▸ hacyclic) fun hunlinked => ?_
              have hreserve : _ ≤ r.outstanding wholes :=
                Program.outstanding_le (Linkage.grows_reserve hunlinked)
              rw [hlayout]
              omega
          show EndsIn _ _ (Link.fragment lookup .eager fuel g r)
          cases hlink : Link.fragment lookup .eager fuel g r with
          | ok handle r' =>
            rw [hlink] at hadvances
            exact ⟨hgrows.trans hadvances.grows, hadvances.adds.closed hr⟩
          | error e r' =>
            rintro rfl
            exact hsettles r' hlink
      have hkeeps : Emit.Keeps _ _ [] [] _ := hmaintains.statements f.attrMode f.statements
        ⟨fun i hi b hb id => .inr ⟨rfl, Template.depth_block hacyclic hi hb⟩,
          fun attrs hattrs id => .inr ⟨rfl, Template.depth_attributes hattrs⟩⟩
      have hstatements := hkeeps { program := p.reserve f.id } ⟨.refl _, rfl, hclosed, trivial⟩
      rw [herror hout.symm] at hstatements
      exact hstatements hout.symm

end

/-! ### Registries -/

namespace Registry

/-- The layouts and partials of a registry. -/
def wholes (r : Registry) : List Fragment :=
  (r.components.toList.mapIdx fun i c => .ofLayout (.layout (UInt32.ofNat i)) ⟨c.layout, c.name⟩) ++
    r.partials.toList.mapIdx fun i entry => .ofLayout (.part (UInt32.ofNat i)) ⟨entry.2, entry.1⟩

/-- In no template of the registry is a block nested in itself. -/
def Acyclic (r : Registry) : Prop :=
  (∀ c ∈ r.components, c.layout.Acyclic) ∧ ∀ entry ∈ r.partials, entry.2.Acyclic

theorem fragmentCount_eq (r : Registry) :
    r.fragmentCount = (r.wholes.map fun f => f.layout.template.fragmentCount).sum := by
  have hfold {α : Type} (count : α → Nat) (entries : List α) (n : Nat) :
      entries.foldl (fun n a => n + count a) n = n + (entries.map count).sum := by
    induction entries generalizing n with
    | nil => rfl
    | cons a rest ih => rw [List.foldl_cons, ih, List.map_cons, List.sum_cons, Nat.add_assoc]
  have hmap {α : Type} (count : α → Nat) (make : Nat → α → Fragment) (entries : List α)
      (h : ∀ i a, (make i a).layout.template.fragmentCount = count a) :
      ((entries.mapIdx make).map fun f => f.layout.template.fragmentCount) = entries.map count := by
    induction entries generalizing make with
    | nil => rfl
    | cons a rest ih =>
      rw [List.mapIdx_cons, List.map_cons, List.map_cons, h, ih _ fun i => h (i + 1)]
  unfold fragmentCount wholes
  rw [List.map_append, List.sum_append, hmap (fun c => c.layout.fragmentCount) _ _ fun _ _ => rfl,
    hmap (fun entry => entry.2.fragmentCount) _ _ fun _ _ => rfl]
  simp only [← Array.foldl_toList]
  rw [hfold fun entry : String × Template => entry.2.fragmentCount, hfold, Nat.zero_add]

theorem listed (r : Registry) : r.lookup.Listed r.wholes where
  layouts handle f hf := by
    obtain ⟨c, hc, rfl⟩ := Option.map_eq_some_iff.mp hf
    refine List.mem_append_left _ (List.mem_mapIdx.mpr ?_)
    obtain ⟨hlt, hc⟩ := Array.getElem?_eq_some_iff.mp hc
    exact ⟨handle.toNat, hlt, by simp [hc]⟩
  partials handle f hf := by
    obtain ⟨entry, hentry, rfl⟩ := Option.map_eq_some_iff.mp hf
    refine List.mem_append_right _ (List.mem_mapIdx.mpr ?_)
    obtain ⟨hlt, hentry⟩ := Array.getElem?_eq_some_iff.mp hentry
    exact ⟨handle.toNat, hlt, by simp [hentry]⟩
  whole f hf := by
    rcases List.mem_append.mp hf with hf | hf <;> obtain ⟨i, hi, rfl⟩ :=
      List.mem_mapIdx.mp hf <;> rfl

theorem Acyclic.ordered {r : Registry} (h : r.Acyclic) : r.lookup.Ordered r.wholes where
  toListed := r.listed
  acyclic f hf := by
    rcases List.mem_append.mp hf with hf | hf <;> obtain ⟨i, hi, rfl⟩ := List.mem_mapIdx.mp hf
    · exact h.1 _ (Array.getElem_mem ..)
    · exact h.2 _ (Array.getElem_mem ..)

/-- Compilation gives a handle or an error: lazily in any case, and eagerly of whole templates where
no block is nested in itself. -/
theorem compile_settles (r : Registry) (strategy : Strategy) {f : Fragment} {p : Program}
    (hclosed : p.constants.Closed)
    (heager : strategy = .eager → r.Acyclic ∧ f.layout.template.Acyclic ∧
      f.statements = f.layout.template.statements) (q : Program) :
    (r.options strategy).compile f p ≠ .error .outOfFuel q := by
  have hdepth := f.layout.template.depth_statements
  unfold CompileOptions.compile
  cases strategy with
  | lazy =>
    obtain ⟨fuel, hfuel⟩ := Nat.exists_eq_add_one_of_ne_zero
      (show (r.options .lazy).nesting + f.layout.template.fragmentCount ≠ 0 by omega)
    rw [hfuel]
    exact Link.settles_lazy fuel f hclosed q
  | eager =>
    obtain ⟨hacyclic, hf, hwhole⟩ := heager rfl
    refine Link.settles_eager hacyclic.ordered _ f hclosed hf (fun _ => ?_) q
    have hsum := (p.reserve f.id).outstanding_le_sum r.wholes
    rw [← r.fragmentCount_eq] at hsum
    rw [hwhole]
    show _ < r.fragmentCount + _
    omega

end Registry

end TemplateMachine
