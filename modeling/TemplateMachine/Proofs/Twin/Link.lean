import TemplateMachine.Proofs.Emission.Again
import TemplateMachine.Proofs.Emission.Once
import TemplateMachine.Proofs.Run.Leads
import TemplateMachine.Proofs.Twin.Action

/-! Linking on two machines side by side.  Whether a fragment can be linked is a matter of its body,
and not of what a program has been linked from so far. -/

namespace TemplateMachine

namespace CompileOptions

variable {o : CompileOptions} {p q : Program} {f g : Fragment} {handle : UInt32}

theorem Finds.known (h : o.Finds p f) {l : Linkage} (hl : l.program = p)
    (hsound : l.Sound o.lookup o.strategy []) : l.known f.id = some f := by
  subst hl
  rcases h with ⟨-, index, hindex⟩ | ⟨handle, hlayout⟩
  · exact hsound.fragments index f hindex
  · exact hsound.layouts handle f hlayout

/-- Handles stand for what they should, and there is fuel to link all that they stand for. -/
structure Ample (o : CompileOptions) : Prop where
  coherent : o.lookup.Coherent
  fuel : ∃ wholes, o.lookup.Listed wholes ∧
    (wholes.map fun f => f.layout.template.fragmentCount).sum ≤ o.nesting

end CompileOptions

theorem Registry.ample (r : Registry) (strategy : Strategy) : (r.options strategy).Ample :=
  ⟨r.coherent, r.wholes, r.listed, Nat.le_of_eq r.fragmentCount_eq.symm⟩

namespace Linkage

variable {lookup : Lookup} {strategy : Strategy} {l : Linkage} {f : Fragment}

theorem Sound.below (h : l.Sound lookup strategy []) (hf : l.known f.id = some f) :
    f.Below l.program.fresh :=
  fun k hk => h.fresh k f (hk ▸ hf)

theorem Sound.tracked (h : l.Sound lookup strategy []) : l.program.Tracked := by
  intro k hk
  cases hlinked : l.program.linked? (.nested k) with
  | none => rfl
  | some handle =>
    obtain ⟨f, hf, -⟩ := h.linked _ _ hlinked
    exact absurd (h.fresh k f hf) (Nat.not_lt_of_le hk)

theorem Sound.whole (h : l.Sound lookup strategy []) (hf : lookup.Whole f) :
    l.known f.id = some f := by
  rcases hf with ⟨handle, hf⟩ | ⟨handle, hf⟩
  · exact h.layouts handle f hf
  · exact h.partials handle f hf

end Linkage

namespace CompileOptions

variable {o : CompileOptions} {p q : Program} {f g : Fragment} {handle : UInt32}

/-- A template that was hopeless and had no handle has none after another is linked. -/
theorem spares_hopeless (hlookup : o.lookup.Coherent) (heager : o.strategy = .eager) {l : Linkage}
    (hsound : l.Sound o.lookup o.strategy []) (hclosed : l.program.constants.Closed)
    (hf : l.known f.id = some f) (hg : l.known g.id = some g) (hid : ∀ k, g.id ≠ .nested k)
    (hhopeless : o.lookup.Hopeless g) (hnone : l.program.linked? g.id = none)
    (h : o.compile f l.program = .ok handle q) : q.linked? g.id = none := by
  unfold compile at h
  rw [heager] at h
  have hknown {w : Fragment} (hw : l.known w.id = some w) (heq : w.id = g.id) :
      o.lookup.Hopeless w := by
    rw [heq] at hw
    exact Option.some.inj (hg.symm.trans hw) ▸ hhopeless
  exact Link.spares_hopeless hlookup hclosed hsound.tracked (hsound.below hf) h hid
    (fun w hw heq => hknown (hsound.whole hw) heq) (fun heq => hknown hf heq) hnone

/-- What was linked stands in the program, into which more can be linked. -/
theorem Ready.compile (hlookup : o.lookup.Coherent) (hready : o.Ready p) (hf : o.Finds p f)
    (h : o.compile f p = .ok handle q) (hfits : q.Fits) :
    o.Ready q ∧ q.Carries p ∧ o.Houses q handle f.body := by
  obtain ⟨l, rfl, hsound⟩ := hready.sound
  have hknown := hf.known rfl hsound
  obtain ⟨m, rfl, hle, hsound', hcompiled⟩ :=
    CompileOptions.compile_sound hlookup hsound hknown h hfits
  refine ⟨⟨hfits, Program.closed_of_compile hready.closed h, ⟨m, rfl, hsound'⟩,
    fun heager w hw hlinked hhopeless => ?_⟩,
    Linkage.carries_of_le hle, m, f, hsound', .refl _, hcompiled, rfl⟩
  have hnone : l.program.linked? w.id = none :=
    Option.not_isSome_iff_eq_none.mp fun hlinked => hready.hopeful heager w hw hlinked hhopeless
  rw [spares_hopeless hlookup heager hsound hready.closed hknown (hsound.whole hw)
    (fun k hk => Nat.not_lt_zero k (hw.below hlookup 0 k hk)) hhopeless hnone h] at hlinked
  cases hlinked

/-- What has a handle can be linked into any other program. -/
theorem compile_again (hoptions : o.Ample) (hready : o.Ready p) {l : Linkage} (hl : l.program = p)
    (hsound : l.Sound o.lookup o.strategy []) (hknown : l.known f.id = some f)
    (hlinked : (p.linked? f.id).isSome)
    (hf : o.strategy = .eager → f.statements = f.layout.template.statements ∧ ¬o.lookup.Hopeless f)
    (hfg : f.body = g.body) (r : Program) : ∃ handle r', o.compile g r = .ok handle r' := by
  subst hl
  have hlayout : f.layout = g.layout := (congrArg Fragment.layout hfg :)
  have hstatements : f.statements = g.statements := (congrArg Fragment.statements hfg :)
  obtain ⟨wholes, hlisted, hsum⟩ := hoptions.fuel
  obtain ⟨handle, hhandle⟩ := Option.isSome_iff_exists.mp hlinked
  have hhopeful := hready.hopeful
  obtain ⟨lookup, strategy, nesting⟩ := o
  unfold compile
  cases strategy with
  | lazy =>
    have hcompilable : g.isCompilable lookup := by
      obtain ⟨f', hf', hpending | ⟨-, block, code, n, -, -, -, hcode⟩⟩ := hsound.linked _ _ hhandle
      · cases hpending
      obtain rfl := Option.some.inj (hknown.symm.trans hf')
      have hsame : f.isCompilable lookup = g.isCompilable lookup :=
        (congrArg (fun h : Fragment => h.isCompilable lookup) hfg :)
      exact hsame ▸ hcode.compilable
    have hfuel : nesting + g.layout.template.fragmentCount =
        nesting + g.layout.template.fragmentCount - 1 + 1 := by
      rw [Template.fragmentCount]
      omega
    dsimp only
    rw [hfuel]
    exact Link.fragment_lazy hcompilable _ r
  | eager =>
    obtain ⟨hwhole, hhope⟩ := hf rfl
    have hgood : ¬lookup.Hopeless g := by
      unfold Lookup.Hopeless at hhope ⊢
      rwa [← hlayout, ← hstatements]
    have hfuel : lookup.depth g.layout g.statements + (r.reserve g.id).outstanding wholes <
        nesting + g.layout.template.fragmentCount := by
      have hdepth := lookup.depth_template g.layout
      have hrest := (r.reserve g.id).outstanding_le_sum wholes
      rw [← hstatements, hwhole, hlayout]
      dsimp only at hsum
      omega
    obtain ⟨handle', r', hlink, -⟩ := Link.fragment_again hlisted hsound (hhopeful rfl) _ hknown
      hlinked hfg hgood fun _ => hfuel
    exact ⟨handle', r', hlink⟩

/-- What can be linked into one program can be linked into any other. -/
theorem Ready.compile_again (hoptions : o.Ample) (hready : o.Ready p) (hf : o.Finds p f)
    (h : o.compile f p = .ok handle q) (hfits : q.Fits) (hfg : f.body = g.body) (r : Program) :
    ∃ handle' r', o.compile g r = .ok handle' r' := by
  obtain ⟨hready', -⟩ := hready.compile hoptions.coherent hf h hfits
  obtain ⟨l, rfl, hsound⟩ := hready.sound
  obtain ⟨m, rfl, hle, hsound', -⟩ :=
    CompileOptions.compile_sound hoptions.coherent hsound (hf.known rfl hsound) h hfits
  have hlinked := CompileOptions.linked_of_compile hready.closed h
  have hsome := Option.isSome_iff_exists.mpr ⟨handle, hlinked⟩
  refine CompileOptions.compile_again hoptions hready' rfl hsound'
    (Linkage.Grows.known hle _ _ (hf.known rfl hsound)) hsome (fun heager => ?_) hfg r
  rcases hf with ⟨hlazy, -⟩ | hlayout
  · cases hlazy.symm.trans heager
  · obtain ⟨wholes, hlisted, -⟩ := hoptions.fuel
    exact ⟨hlisted.whole f (hlisted.mem (.inl hlayout)),
      hready'.hopeful heager f (.inl hlayout) hsome⟩

end CompileOptions

section

variable {setup : Setup} {d : Duo} {G : Ground setup.options} {π : Pins} {s s' : Shape}
variable {pre : Private → Private → Prop} {f g : Fragment}

/-! ### Steps that link -/

/-- From states that satisfy `pre` the steps end alike, in states that
satisfy `post`; they may link. -/
def Exec.Steps {α β : Type} (setup : Setup) (pre : Private → Private → Prop)
    (x : Exec α) (y : Exec β) (post : α → β → Private → Private → Prop) : Prop :=
  ∀ m q, pre m.own q → setup.StepsAlike m.program (Machine.Paired post) (x setup m)
    (y setup (m.beside q))

namespace Exec

variable {α β γ δ : Type} {x : Exec α} {y : Exec β} {k : α → Exec γ} {k' : β → Exec δ}
variable {mid post : α → β → Private → Private → Prop} {final : γ → δ → Private → Private → Prop}

theorem Tied.bind_steps (hx : Tied setup pre x y mid)
    (hk : ∀ a b, Steps setup (mid a b) (k a) (k' b) final) :
    Steps setup pre (x >>= k) (y >>= k') final := by
  intro m q hpre
  have hends := hx m q hpre
  rw [bind_apply, bind_apply]
  generalize x setup m = out at hends
  generalize y setup (m.beside q) = out' at hends
  cases hends with
  | ok hprogram h =>
    obtain ⟨r, rfl, hmid⟩ := h
    exact hprogram ▸ hk _ _ _ r hmid
  | fault hprogram h => exact .fault h fun _ => hprogram ▸ .refl

theorem program_continued {γ δ : Type} (z : EStateM.Result (Stop RuntimeError) Machine γ)
    (k : γ → Exec δ) (hsame : ∀ a m, (stateAfter (k a setup m)).program = m.program) :
    (stateAfter (match z with | .ok a m => k a setup m | .error e m => .error e m)).program =
      (stateAfter z).program := by
  cases z with
  | ok a m => exact hsame a m
  | error e m => rfl

/-- What comes after linking links nothing. -/
theorem Steps.bind_tied (hx : Steps setup pre x y mid)
    (hk : ∀ a b, Tied setup (mid a b) (k a) (k' b) final)
    (hsame : ∀ a m, (stateAfter (k a setup m)).program = m.program)
    (hsame' : ∀ b m, (stateAfter (k' b setup m)).program = m.program) :
    Steps setup pre (x >>= k) (y >>= k') final := by
  intro m q hpre
  have hends := hx m q hpre
  rw [bind_apply, bind_apply]
  generalize x setup m = out at hends
  generalize y setup (m.beside q) = out' at hends
  cases hends with
  | @ok a b m₁ m₂ hgathers h =>
    obtain ⟨r, rfl, hmid⟩ := h
    have hsecond := hk a b m₁ r hmid
    dsimp only
    generalize k a setup m₁ = out at hsecond
    generalize k' b setup (m₁.beside r) = out' at hsecond
    cases hsecond with
    | ok hprogram h => exact .ok (hprogram ▸ hgathers) h
    | fault hprogram h => exact .fault h fun _ => hprogram ▸ hgathers
  | fault h hunlinked => exact .fault h hunlinked
  | unlinked h hhangs => exact .unlinked h hhangs
  | fullLeft h =>
    exact .fullLeft fun hfits =>
      h ((congrArg Program.Fits (program_continued out k hsame)).mp hfits)
  | fullRight h =>
    exact .fullRight fun hfits =>
      h ((congrArg Program.Fits (program_continued out' k' hsame')).mp hfits)

end Exec

/-- The machines stand side by side when both have linked something. -/
theorem Held.link (h : Held G π s l r) {p p' : Program} (hd : (l.duo r).Within ⟨p, p'⟩)
    (hready : setup.options.Ready p) (hready' : setup.options.Ready p') :
    Held G π s { l with program := p } { r with program := p' } := by
  obtain ⟨top, base, hl, hr, hfits, hbase⟩ := h.stack
  exact { h with
    since := h.since.trans hd
    ready := hready
    ready' := hready'
    registers := h.registers.mono hd
    scopes := h.scopes.mono hd
    stack := ⟨top, base, hl, hr, hfits.mono hd, G.mono hbase hd⟩ }

namespace Exec

theorem link_of_ok {m : Machine} {handle : UInt32} {p : Program}
    (h : setup.options.compile f m.program = .ok handle p) :
    link f setup m = .ok handle { m with program := p } := by
  unfold link
  simp only [h]

theorem link_of_fault {m : Machine} {e : CompileError} {p : Program}
    (h : setup.options.compile f m.program = .error (.fault e) p) :
    link f setup m = .error (.fault (.compile e)) { m with program := p } := by
  unfold link
  simp only [h]

theorem link_of_outOfFuel {m : Machine} {p : Program}
    (h : setup.options.compile f m.program = .error .outOfFuel p) :
    link f setup m = .error .outOfFuel { m with program := p } := by
  unfold link
  simp only [h]

/-- Fragments with the same body are linked alike. -/
theorem steps_link (hoptions : setup.options.Ample) (hbody : f.body = g.body)
    (hpre : ∀ l r, pre l r → Held G π s l r ∧ setup.options.Finds l.program f ∧
      setup.options.Finds r.program g) :
    Steps setup pre (link f) (link g) fun handle handle' =>
      HeldWith (fun e => e.Blocks setup.options handle handle') G π s := by
  intro m q hmq
  obtain ⟨hheld, hf, hg⟩ := hpre _ _ hmq
  have hready : setup.options.Ready m.program := hheld.ready
  have hready' : setup.options.Ready q.program := hheld.ready'
  have hlazy {p : Program} {f : Fragment} (h : setup.options.Finds p f)
    (heager : setup.options.strategy = .eager) :
      ∃ handle, setup.options.lookup.layout? handle = some f := by
    rcases h with ⟨hlazy, -⟩ | h
    · cases hlazy.symm.trans heager
    · exact h
  cases hleft : setup.options.compile f m.program with
  | error e p =>
    cases hright : setup.options.compile g q.program with
    | error e' p' =>
      cases e with
      | outOfFuel =>
        rw [link_of_outOfFuel hleft]
        have hhangs : setup.Hangs := ⟨f, _, _, hready.closed, hlazy hf, hleft⟩
        cases e' with
        | outOfFuel =>
          rw [link_of_outOfFuel (m := m.beside q) hright]
          exact .unlinked ⟨rfl, rfl, .inl rfl⟩ hhangs
        | fault e' =>
          rw [link_of_fault (m := m.beside q) hright]
          exact .unlinked ⟨rfl, rfl, .inl rfl⟩ hhangs
      | fault e =>
        rw [link_of_fault hleft]
        cases e' with
        | outOfFuel =>
          rw [link_of_outOfFuel (m := m.beside q) hright]
          exact .unlinked ⟨rfl, rfl, .inr rfl⟩ ⟨g, _, _, hready'.closed, hlazy hg, hright⟩
        | fault e' =>
          rw [link_of_fault (m := m.beside q) hright]
          exact .fault rfl nofun
    | ok handle' p' =>
      rw [link_of_ok (m := m.beside q) hright]
      by_cases hfits' : p'.Fits
      · obtain ⟨_, _, h⟩ := hready'.compile_again hoptions hg hright hfits' hbody.symm m.program
        cases hleft.symm.trans h
      · exact .fullRight hfits'
  | ok handle p =>
    rw [link_of_ok hleft]
    by_cases hfits : p.Fits
    · obtain ⟨hready₁, hp, hhouses⟩ := hready.compile hoptions.coherent hf hleft hfits
      obtain ⟨handle', p', hright⟩ := hready.compile_again hoptions hf hleft hfits hbody q.program
      rw [link_of_ok (m := m.beside q) hright]
      by_cases hfits' : p'.Fits
      · obtain ⟨hready₂, hp', hhouses'⟩ := hready'.compile hoptions.coherent hg hright hfits'
        exact .ok (.link .refl hf hleft) ⟨{ q with program := p' }, rfl,
          ⟨f.body, hhouses, hbody ▸ hhouses'⟩, hheld.link ⟨hp, hp'⟩ hready₁ hready₂⟩
      · exact .fullRight hfits'
    · exact .fullLeft hfits

/-! ### Instructions that link -/

theorem acts_compileBlock (hoptions : setup.options.Ample) (hlazy : setup.options.strategy = .lazy)
    (s : Shape) (a b c : UInt32) :
    Acts setup d ⟨.compileBlock, a, b, c⟩ ⟨.compileBlock, a, b, c⟩ (s.push .any) (s.push .any) := by
  intro G π hπ start start'
  refine tied_pop_known.bind_steps fun v v' m q hpre => ?_
  have hheld := hpre.2
  have hv : v.Twin setup.options (m.own.duo q) v' := hpre.1
  have hstay {w w' : Value} (hw : w.Twin setup.options (m.own.duo q) w') :
      setup.StepsAlike m.program (Machine.Paired fun _ _ => Held G π (s.push .any)) (push w setup m)
        (push w' setup (m.beside q)) :=
    (Tied.of_known (R := (m.own.duo q).Within) (fun e _ he => tied_push_any (hw.mono he)) m q
      ⟨.refl _, hheld⟩).steps
  cases hv with
  | @fragment f f' hbody hf hf' =>
    have hlink : Steps setup (fun l r => Held G π s l r ∧ setup.options.Finds l.program f ∧
        setup.options.Finds r.program f') (link f) (link f') _ :=
        steps_link hoptions hbody fun _ _ h => h
    exact hlink.bind_tied (fun handle handle' => Tied.of_known fun e _ h =>
      tied_push_any (.handle h)) (fun _ _ => rfl) (fun _ _ => rfl) m q ⟨hheld, .inl ⟨hlazy, hf⟩,
        .inl ⟨hlazy, hf'⟩⟩
  | null => exact hstay .null
  | handle h => exact hstay (.handle h)
  | @number handle handle' h =>
    have hsome (handle : UInt32) :
        (Value.primitive (.number (Binary64.ofNat handle.toNat))).toHandle?.isSome = true := by
      rw [Value.toHandle?, Binary64.toWord?_ofNat]
      rfl
    have hpush (handle : UInt32) :
        (if (Value.primitive (.number (Binary64.ofNat handle.toNat))).isNull ||
            (Value.primitive (.number (Binary64.ofNat handle.toNat))).toHandle?.isSome then
          push (.primitive (.number (Binary64.ofNat handle.toNat)))
        else mismatch "template" : Exec Unit) =
        push (.primitive (.number (Binary64.ofNat handle.toNat))) := by
      rw [if_pos (by simp [hsome])]
    dsimp only
    rw [hpush, hpush]
    exact hstay (.number h)
  | _ => exact .fault rfl fun _ => .refl

/-- The layout of the current component is found, and linked. -/
theorem acts_getComponentLayout (hoptions : setup.options.Ample) (s : Shape) (b c : UInt32) :
    Acts setup d ⟨.getComponentLayout, Emit.current, b, c⟩
      ⟨.getComponentLayout, Emit.current, b, c⟩ s ((s.push .any).push .any) := by
  intro G π hπ start start'
  refine tied_component.bind_steps fun x y m q hpre => ?_
  obtain ⟨rfl, hheld⟩ := hpre
  show setup.StepsAlike _ _
    ((orFail (setup.options.lookup.layout? x.definition) (.unknownComponent x.name) >>= _) setup m)
    ((orFail (setup.options.lookup.layout? x.definition) (.unknownComponent x.name) >>= _) setup
      (m.beside q))
  cases hlayout : setup.options.lookup.layout? x.definition with
  | none => exact .fault rfl fun _ => .refl
  | some f =>
    have hlink : Steps setup (Held G π s) (link f) (link f) _ :=
      steps_link hoptions rfl fun _ _ h => ⟨h, .inr ⟨_, hlayout⟩, .inr ⟨_, hlayout⟩⟩
    refine hlink.bind_tied (fun handle handle' => Tied.of_known fun e _ h => ?_)
      (fun _ _ => rfl) (fun _ _ => rfl) m q hheld
    exact (tied_push_any (.table f.table)).bind fun _ _ => tied_push_any (.handle h)

end Exec

end

end TemplateMachine
