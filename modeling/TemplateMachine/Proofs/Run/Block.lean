import TemplateMachine.Proofs.Emission.Lazy
import TemplateMachine.Proofs.Emission.Settle
import TemplateMachine.Proofs.Run.Frame
import TemplateMachine.Proofs.Run.Scope
import TemplateMachine.Proofs.Run.Value

/-! Calls of blocks.  A block that is called has code somewhere in the heap, or can be linked, or
cannot be compiled at all. -/

namespace TemplateMachine

/-- What renders rely on: layouts and partials are whole templates, and the host has the helpers and
modifiers that names are resolved to. -/
structure Setup.Serves (setup : Setup) : Prop where
  coherent : setup.options.lookup.Coherent
  helper : ∀ name referer handle, setup.options.lookup.helper? name referer = some handle →
    (setup.host.helper? handle).isSome
  modifier : ∀ name referer handle, setup.options.lookup.modifier? name referer = some handle →
    (setup.host.modifier? handle).isSome

/-- The code belongs to a render. -/
structure Coding.Within (k : Coding) (setup : Setup) (t : Store) : Prop where
  lookup : k.lookup = setup.options.lookup
  strategy : k.strategy = setup.options.strategy
  linkage : k.linkage ≤ t.linkage
  wellFormed : k.layout.template.wellFormed

theorem Coding.Within.mono {k : Coding} {setup : Setup} {t u : Store} (h : k.Within setup t)
    (hu : t ≤ u) : k.Within setup u :=
  ⟨h.lookup, h.strategy, Linkage.le_trans h.linkage (Store.Grows.linkage hu), h.wellFormed⟩

/-- The code of a fragment stands at an address. -/
def Setup.CompiledAt (setup : Setup) (t : Store) (f : Fragment) (address : Nat) : Prop :=
  f.layout.template.wellFormed ∧ ∃ code l, t.HasCode address (code ++ [⟨.ret, 0, 0, 0⟩]) ∧
    l ≤ t.linkage ∧ f.HasCode setup.options.lookup setup.options.strategy l code

/-- The machine stands at the end of a block, which returns from there. -/
def Ends (setup : Setup) (cells : Cells) (p : Pose) (w : World) (t : Store) (m : Machine) : Prop :=
  ∃ a i rest, i.op = .ret ∧ t.HasCode a (i :: rest) ∧ Stands setup cells a p w t m

/-- The machine does what a way of rendering fragments does, if the stack has a height by
then.  Where the way of rendering comes to no end, so does the machine for `n` steps,
unless it has no stack left. -/
structure Simulates (setup : Setup) (cells : Cells) (height : Nat) (n : ENat)
    (call : Call) : Prop where
  compiled : ∀ {t : Store} {f : Fragment} {address : Nat} {slots : Slots} {current : Option Current}
    {p : Pose} {w : World} {m : Machine}, height ≤ p.stack.size → setup.CompiledAt t f address →
    t.Sees setup.options.strategy p slots → t.IsCurrent p.registers.s0 current →
    Stands setup cells address p w t m →
    Leads setup .free p.stack.size n m (call f.body slots current w) fun _ w' m' =>
      Ends setup cells p w' t m'
  uncompilable : ∀ body slots current w, body.isCompilable setup.options.lookup = false →
    call body slots current w = .error (.fault .uncompilable) w ∨
      (n = 0 ∨ setup.maxStack < height) ∧ call body slots current w = .error .outOfFuel w
  balanced : ∀ body slots current, (call body slots current).Balanced

section

variable {setup : Setup} {cells : Cells} {a floor : Nat} {n : ENat} {p : Pose}
variable {w : World} {t : Store} {m : Machine} {rest : List Instruction} {α : Type}
variable {out : EStateM.Result (Stop Fault) World α} {final : α → World → Machine → Prop}
variable {k : Coding} {code : List Instruction}

open Exec (bind_apply pure_apply get_apply read_apply modify_apply orFail_some pop_of)

/-! ### Passing blocks -/

/-- The value that a block is passed as; null if there is none. -/
def Store.Passes (strategy : Strategy) (t : Store) (v : Value) : Option Fragment → Prop
  | none => v = .null
  | some f => t.IsBlock strategy v f.body

theorem Store.Passes.mono {strategy : Strategy} {t u : Store} {v : Value} {f : Option Fragment}
    (h : t.Passes strategy v f) (hu : t ≤ u) : u.Passes strategy v f := by
  cases f with
  | none => exact h
  | some f => exact Store.IsBlock.mono h hu

/-- The symbols that are passed with a block. -/
def tableValue (f : Option Fragment) : Value :=
  match f with
  | some f => .table f.table
  | none => .null

theorem leads_symbolTable {f : Option Fragment} (hm : Stands setup cells a p w t m)
    (hk : k.linkage ≤ t.linkage) (hshape : k.symbolTable (f.map fun f => f.table) code)
    (hcode : t.HasCode a code)
    (h : ∀ m', Stands setup cells (a + 4 * code.length) (p.push (tableValue f)) w t m' →
      Leads setup .free floor n m' out final) : Leads setup .free floor n m out final := by
  cases f with
  | none => exact leads_pushPrimitive hm hk hshape hcode h
  | some f =>
    obtain ⟨index, hindex, rfl⟩ := hshape
    refine hm.next hcode (by simp) (fun u current hu => ?_) h
    simp only [Exec.perform, bind_apply,
      Exec.constant_of (fun c => c.tables.get?) ((hu.constants hk).tables.get? hindex)]
    rfl

/-- The pushed block can be called in every store that grows out of the linkage of the code. -/
theorem leads_pushBlock {f : Option Fragment} (hm : Stands setup cells a p w t m)
    (hk : k.Within setup t) (hshape : k.block f code) (hcode : t.HasCode a code)
    (h : ∀ m' v, (∀ u : Store, k.linkage ≤ u.linkage → u.Passes setup.options.strategy v f) →
      Stands setup cells (a + 4 * code.length) (p.push v) w t m' →
      Leads setup .free floor n m' out final) :
    Leads setup .free floor n m out final := by
  cases f with
  | none =>
    exact leads_pushPrimitive hm hk.linkage hshape hcode fun m' hm' => h m' _ (fun _ _ => rfl) hm'
  | some f =>
    unfold Coding.block at hshape
    simp only [hk.strategy] at hshape
    cases hs : setup.options.strategy with
    | lazy =>
      rw [hs] at hshape
      obtain ⟨index, hknown, hindex, rfl⟩ := hshape
      refine hm.next hcode (by simp) (q := p.push (.fragment f)) (fun u current hu => ?_)
        fun m' hm' => h m' _ (fun u hu => ?_) hm'
      · simp only [Exec.perform, bind_apply, Exec.constant_of (fun c => c.fragments.get?)
          ((hu.constants hk.linkage).fragments.get? hindex)]
        rfl
      · rw [hs]
        exact ⟨f, rfl, rfl, Linkage.Grows.known hu _ _ hknown⟩
    | eager =>
      rw [hs] at hshape
      obtain ⟨handle, hknown, hlinked, hpush⟩ := hshape
      refine leads_pushPrimitive hm hk.linkage hpush hcode fun m' hm' => h m' _ (fun u hu => ?_) hm'
      rw [hs]
      exact ⟨f, handle, rfl, rfl, Linkage.Grows.known hu _ _ hknown,
        Linkage.Grows.linked hu hlinked⟩

theorem leads_yieldable {f : Option Fragment} (hm : Stands setup cells a p w t m)
    (hk : k.Within setup t) (hshape : k.yieldable f code) (hcode : t.HasCode a code)
    (h : ∀ m' v, (∀ u : Store, k.linkage ≤ u.linkage → u.Passes setup.options.strategy v f) →
      Stands setup cells (a + 4 * code.length) ((p.push (tableValue f)).push v) w t m' →
      Leads setup .free floor n m' out final) : Leads setup .free floor n m out final := by
  obtain ⟨table, push, htable, hpush, rfl⟩ := hshape
  obtain ⟨hcode₁, hcode₂⟩ := hcode.append
  rw [List.length_append, Nat.mul_add, ← Nat.add_assoc] at h
  exact leads_symbolTable hm hk.linkage htable hcode₁ fun m hm =>
    leads_pushBlock hm hk hpush hcode₂ h

/-! ### Linking -/

theorem Linkage.Compiled.isCompilable {lookup : Lookup} {strategy : Strategy} {l : Linkage}
    {f : Fragment} {handle : UInt32} (h : l.Compiled lookup strategy f handle) :
    f.isCompilable lookup := by
  obtain ⟨-, block, code, m, -, -, -, hcode⟩ := h
  exact hcode.compilable

/-- A fragment that has a handle in a valid store has code. -/
theorem Setup.Valid.compiled {u : Store} (h : setup.Valid u) {f : Fragment} {handle : UInt32}
    (hknown : u.linkage.known f.id = some f)
    (hlinked : u.linkage.program.linked? f.id = some handle) :
    u.linkage.Compiled setup.options.lookup setup.options.strategy f handle := by
  obtain ⟨g, hg, hpending | hcompiled⟩ := h.linked _ _ hlinked
  · cases hpending
  · obtain rfl := Option.some.inj (hknown.symm.trans hg)
    exact hcompiled

/-- What a successful link does to a valid store. -/
theorem Setup.Valid.link (hserves : setup.Serves) {u : Store} (h : setup.Valid u) {f : Fragment}
    (hknown : u.linkage.known f.id = some f) {handle : UInt32} {program : Program}
    (hlink : setup.options.compile f u.linkage.program = .ok handle program)
    (hfits : program.Fits) :
    ∃ l : Linkage, l.program = program ∧ u.linkage ≤ l ∧ setup.Valid { u with linkage := l } ∧
      l.Compiled setup.options.lookup setup.options.strategy f handle := by
  obtain ⟨-, hsound⟩ := links_fragment hserves.coherent _ f (h.regular _ _ hknown) _ _ _ hlink
  obtain ⟨l, hl, hle, hsound', hlinked⟩ := hsound hfits u.linkage [] rfl h.toSound hknown
  have hvalid : setup.Valid { u with linkage := l } :=
    ⟨hsound', fun layout hlayout => h.wellFormed layout (Linkage.Grows.templates hle ▸ hlayout)⟩
  refine ⟨l, hl, hle, hvalid, ?_⟩
  exact hvalid.compiled (Linkage.Grows.known hle _ _ hknown) (hl ▸ hlinked)

/-- How a render stops when linking does. -/
def Stop.linking : Stop CompileError → Stop RuntimeError
  | .fault e => .fault (.compile e)
  | .outOfFuel => .outOfFuel

theorem Exec.link_of {u : Store} {current : Nat × Opcode} {pc : Nat} (f : Fragment) :
    Exec.link f setup (.of cells pc p w u current) =
      match setup.options.compile f u.linkage.program with
      | .ok handle program => .ok handle { Machine.of cells pc p w u current with program }
      | .error e program =>
        .error e.linking { Machine.of cells pc p w u current with program } := by
  simp only [Exec.link]
  rw [show (Machine.of cells pc p w u current).program = u.linkage.program from rfl]
  rcases setup.options.compile f u.linkage.program with _ | ⟨_ | _, _⟩ <;> rfl

/-- Lazily, what is compilable can be linked. -/
theorem Setup.compile_lazy (hs : setup.options.strategy = .lazy) {f : Fragment}
    (hcompilable : f.isCompilable setup.options.lookup) (program : Program) :
    ∃ handle program', setup.options.compile f program = .ok handle program' := by
  unfold CompileOptions.compile
  rw [hs]
  have hfuel : setup.options.nesting + f.layout.template.fragmentCount =
      setup.options.nesting + (f.layout.template.fragmentCount - 1) + 1 := by
    unfold Template.fragmentCount
    omega
  simp only [hfuel]
  exact Link.fragment_lazy hcompilable _ program

/-- An instruction that links a fragment.  Lazily it fails only if the fragment cannot be compiled
by itself; eagerly, the failure may come from another fragment. -/
theorem Stands.links (hserves : setup.Serves) {f : Fragment} {i : Instruction} {q : UInt32 → Pose}
    (hm : Stands setup cells a p w t m)
    (hknown : ∀ u, t ≤ u → setup.Valid u → u.linkage.known f.id = some f)
    (hcode : t.HasCode a (i :: rest)) (hplain : i.op.isPlain = true)
    (hperform : ∀ u current, t ≤ u → ∃ p'',
      Exec.perform a i setup (.of cells (a + 4) p w u current) =
        match setup.options.compile f u.linkage.program with
        | .ok handle program =>
          .ok () { Machine.of cells (a + 4) (q handle) w u current with program }
        | .error e program =>
          .error e.linking { Machine.of cells (a + 4) p'' w u current with program })
    (hlayout : setup.options.strategy = .eager → ∃ handle d,
      setup.host.component? handle = some d ∧ setup.options.lookup.layout? handle = some f)
    (hfail : f.isCompilable setup.options.lookup = false →
      Leads setup .free floor n m out final ∨ out = .error (.fault .uncompilable) w)
    (h : ∀ m' u handle, t ≤ u → Stands setup cells (a + 4) (q handle) w u m' →
      u.linkage.Compiled setup.options.lookup setup.options.strategy f handle →
      Leads setup .free floor n m' out final) : Leads setup .free floor n m out final := by
  have hholds := hm.hasCode hcode
  refine Leads.of_program fun hfits hclosed => ?_
  obtain ⟨u, current, hu, hvalid, rfl⟩ := hm
  have hknown' := hknown u hu hvalid
  obtain ⟨p'', hdone⟩ := hperform u (a, i.op) hu
  cases hlink : setup.options.compile f u.linkage.program with
  | ok handle program =>
    refine Leads.le (n := n + 1) ?_ le_self_add
    rw [hlink] at hdone
    refine Leads.instruction hholds hplain hdone fun hfits' => ?_
    obtain ⟨l, rfl, hle, hvalid', hcompiled⟩ := hvalid.link hserves hknown' hlink hfits'
    have hle' : u ≤ { u with linkage := l } := ⟨hle, .refl _, .refl _, .refl _⟩
    exact h _ { u with linkage := l } handle (Store.le_trans hu hle')
      ⟨_, _, Store.le_refl _, hvalid', rfl⟩ hcompiled
  | error e program =>
    rw [hlink] at hdone
    have hfuel (he : e.linking = .outOfFuel) : setup.Hangs := by
      cases e with
      | fault e => cases he
      | outOfFuel =>
        refine ⟨f, _, program, hclosed, fun heager => ?_, hlink⟩
        obtain ⟨handle, -, -, hlayout⟩ := hlayout heager
        exact ⟨handle, hlayout⟩
    cases hs : setup.options.strategy with
    | eager =>
      have hallows : setup.Allows e.linking := by
        obtain ⟨handle, d, hcomponent, -⟩ := hlayout hs
        cases e <;> exact ⟨hs, handle, d, hcomponent⟩
      exact Leads.instruction_escapes hholds (Leads.cuts_of_plain hplain) hdone hallows hfuel
    | lazy =>
      have hnot : f.isCompilable setup.options.lookup = false := by
        rw [← Bool.not_eq_true]
        intro hcompilable
        obtain ⟨handle, program', hok⟩ := Setup.compile_lazy hs hcompilable u.linkage.program
        rw [hok] at hlink
        cases hlink
      rcases hfail hnot with hleads | rfl
      · exact hleads
      · cases e <;> exact Leads.instruction_fails hholds (Leads.cuts_of_plain hplain) hdone rfl
          ⟨rfl, rfl, rfl⟩ hfuel

/-- Linking the block on the stack when it is first used. -/
theorem leads_compileBlock (hserves : setup.Serves) (hs : setup.options.strategy = .lazy)
    {f : Fragment} {b c d : UInt32} (hm : Stands setup cells a (p.push (.fragment f)) w t m)
    (hknown : t.linkage.known f.id = some f)
    (hcode : t.HasCode a (⟨.compileBlock, b, c, d⟩ :: rest))
    (hfail : f.isCompilable setup.options.lookup = false →
      Leads setup .free floor n m out final ∨ out = .error (.fault .uncompilable) w)
    (h : ∀ m' u handle, t ≤ u → Stands setup cells (a + 4) (p.push (.handle handle)) w u m' →
      u.linkage.Compiled setup.options.lookup setup.options.strategy f handle →
      Leads setup .free floor n m' out final) : Leads setup .free floor n m out final := by
  refine hm.links hserves (fun u hu _ => Linkage.Grows.known (Store.Grows.linkage hu) _ _ hknown)
    hcode (by simp) (fun u current _ => ⟨p, ?_⟩) (fun heager => by rw [hs] at heager; cases heager)
      hfail h
  simp only [Exec.perform, Exec.compileBlock, bind_apply, pop_of, Exec.link_of]
  cases setup.options.compile f u.linkage.program <;> rfl

/-- Turning the block on the stack into a handle. -/
theorem leads_resolve (hserves : setup.Serves) {v : Value} {body : Fragment}
    (hm : Stands setup cells a (p.push v) w t m) (hk : k.Within setup t)
    (hblock : t.IsBlock setup.options.strategy v body)
    (hcode : t.HasCode a (k.resolve ++ rest))
    (hfail : body.isCompilable setup.options.lookup = false →
      Leads setup .free floor n m out final ∨ out = .error (.fault .uncompilable) w)
    (h : ∀ m' u v' f handle, t ≤ u → v'.toHandle? = some handle →
      Stands setup cells (a + 4 * k.resolve.length) (p.push v') w u m' → f.body = body →
      v'.isNull = false →
      u.linkage.Compiled setup.options.lookup setup.options.strategy f handle →
      Leads setup .free floor n m' out final) : Leads setup .free floor n m out final := by
  unfold Coding.resolve at hcode h
  rw [hk.strategy] at hcode h
  cases hs : setup.options.strategy with
  | lazy =>
    rw [hs] at hcode hblock
    simp only [hs] at h
    obtain ⟨f, rfl, rfl, hknown⟩ := hblock
    refine leads_compileBlock hserves hs hm hknown hcode hfail
      fun m' u handle hu hm' hcompiled => ?_
    exact h m' u _ f handle hu rfl hm' rfl rfl (hs ▸ hcompiled)
  | eager =>
    rw [hs] at hcode hblock
    simp only [hs] at h
    obtain ⟨f, handle, rfl, rfl, hknown, hlinked⟩ := hblock
    obtain ⟨u, current, hu, hvalid, rfl⟩ := hm
    have hlinkage := Store.Grows.linkage hu
    have hcompiled := hvalid.compiled (Linkage.Grows.known hlinkage _ _ hknown)
      (Linkage.Grows.linked hlinkage hlinked)
    rw [hs] at hcompiled
    exact h _ u (.primitive (.number (Binary64.ofNat handle.toNat))) f handle hu
      (Binary64.toWord?_ofNat handle) ⟨u, _, u.le_refl, hvalid, rfl⟩ rfl rfl hcompiled

/-! ### Calls -/

theorem Exec.call_of {f : Fragment} {handle : UInt32} {u : Store} {current : Nat × Opcode}
    {pc : Nat} (hvalid : setup.Valid u)
    (hcompiled : u.linkage.Compiled setup.options.lookup setup.options.strategy f handle) :
    ∃ address, setup.CompiledAt u f address ∧
      Exec.call handle setup (.of cells pc p w u current) =
        .ok () (.of cells address (p.returning pc) w u current) := by
  obtain ⟨htemplate, block, code, l, hblock, hholds, hl, hcode⟩ := hcompiled
  refine ⟨block.offset.toNat, ⟨hvalid.wellFormed _ htemplate, code, l, hholds, hl, hcode⟩, ?_⟩
  simp only [Exec.call, bind_apply, get_apply]
  rw [show (Machine.of cells pc p w u current).program = u.linkage.program from rfl, Heap.address?,
    hblock]
  rfl

/-- Addresses up to the end of code are real ones. -/
theorem Stands.ne_haltAddress (hm : Stands setup cells a p w t m) (hfits : m.program.Fits)
    {b c : Nat} (hcode : t.HasCode b code) (hne : code ≠ []) (hc : c ≤ b + 4 * code.length) :
    c ≠ haltAddress := by
  obtain ⟨u, current, hu, hvalid, rfl⟩ := hm
  have hsize := Heap.Holds.le_size (hcode.mono hu) hne
  have hwords := hfits.words
  have hhalt : haltAddress = 18446744073709551615 := rfl
  simp only [Machine.of] at hwords
  omega

/-- The return from a block that was called. -/
theorem Ends.returns {u : Store} {last : Machine} {w' : World} (address : Nat)
    (current : Nat × Opcode) (hlast : Ends setup cells p w' u last) (hra : p.ra ≠ haltAddress)
    (hstack : last.stack.size ≤ setup.maxStack) (hw : w'.transactions = w.transactions) :
    ∃ i left, last.next? = some i ∧ i.op = .ret ∧ Exec.step setup last = .ok true left ∧
      (Machine.of cells address p w u current).Returned left ∧
      Stands setup cells p.ra p w' u left := by
  obtain ⟨a', i, rest, hop, hcode, hm⟩ := hlast
  have hholds := hm.hasCode hcode
  obtain ⟨v, current', hv, hvalid, rfl⟩ := hm
  refine ⟨i, .of cells p.ra p w' v (a', i.op), hholds.next?, hop, ?_, ?_, ⟨v, _, hv, hvalid, rfl⟩⟩
  · rw [Exec.step_apply setup hholds]
    obtain ⟨op, b, c, d⟩ := i
    cases hop
    simp only [Exec.perform, Exec.modify_apply]
    rw [if_neg fun hhalt => hra hhalt.2]
    exact if_neg (Nat.not_lt.mpr hstack)
  · exact ⟨rfl, rfl, rfl, rfl, rfl, rfl, rfl, rfl, rfl, hw, hv.scopes⟩

/-- An instruction that calls a block, in a pose that it makes. -/
theorem Stands.calls {call : Call} (hsim : Simulates setup cells (floor + 1) n call) {u : Store}
    {f : Fragment} {handle : UInt32} {i : Instruction} {slots : Slots}
    {c : Option Current} {p' : Pose} {current : Nat × Opcode} (hvalid : setup.Valid u)
    (hcode : u.HasCode a (i :: rest))
    (hcallee : (Machine.of cells a p' w u current).callee? = some handle) {v : Store}
    (hperform : Exec.perform a i setup (.of cells (a + 4) p' w u (a, i.op)) =
      Exec.call handle setup (.of cells (a + 4) p w v (a, i.op)))
    (hv : setup.Valid v)
    (hcompiled : v.linkage.Compiled setup.options.lookup setup.options.strategy f handle)
    (hsees : v.Sees setup.options.strategy p slots) (hcurrent : v.IsCurrent p.registers.s0 c)
    (hfloor : floor < p.stack.size) :
    Leads setup .free floor n (.of cells a p' w u current) (call f.body slots c w) fun _ w' m' =>
      Stands setup cells (a + 4) (p.returning (a + 4)) w' v m' := by
  refine Leads.of_fits fun hfits => ?_
  have hm : Stands setup cells a p' w u (.of cells a p' w u current) :=
    ⟨u, _, u.le_refl, hvalid, rfl⟩
  have hra := hm.ne_haltAddress (c := a + 4) hfits hcode
    (by simp) (by simp only [List.length_cons]; omega)
  have hholds := hm.hasCode hcode
  obtain ⟨address, hat, hcall⟩ := Exec.call_of hv hcompiled
  have hperform' := hperform.trans hcall
  have hleads := hsim.compiled (p := p.returning (a + 4)) (w := w) hfloor hat
    (hsees.of_scopeStack rfl) hcurrent ⟨v, (a, i.op), v.le_refl, hv, rfl⟩
  refine Leads.le (n := n + 1) ?_ le_self_add
  refine Leads.calling hholds hcallee hfloor hperform' (hsees.canYield v.le_refl rfl rfl) hleads
    fun _ w' last hout hlast hsize => ?_
  exact hlast.returns _ _ hra hsize (hsim.balanced _ _ _ _ _ _ hout)

/-- The next instruction calls the code of a fragment, in a pose and with a store that it makes. -/
def Calls (setup : Setup) (cells : Cells) (back : Nat) (p : Pose) (body : Fragment)
    (w : World) (t : Store) (m : Machine) : Prop :=
  ∃ a i rest p' u current f handle, back = a + 4 ∧ m = .of cells a p' w u current ∧ setup.Valid u ∧
    u.HasCode a (i :: rest) ∧ m.callee? = some handle ∧
    Exec.perform a i setup (.of cells (a + 4) p' w u (a, i.op)) =
      Exec.call handle setup (.of cells (a + 4) p w t (a, i.op)) ∧
    setup.Valid t ∧ f.body = body ∧
    t.linkage.Compiled setup.options.lookup setup.options.strategy f handle

theorem Calls.leads {call : Call} (hsim : Simulates setup cells (floor + 1) n call) {back : Nat}
    {body : Fragment} {slots : Slots} {c : Option Current} (h : Calls setup cells back p body w t m)
    (hsees : t.Sees setup.options.strategy p slots) (hcurrent : t.IsCurrent p.registers.s0 c)
    (hfloor : floor < p.stack.size) :
    Leads setup .free floor n m (call body slots c w) fun _ w' m' =>
      Stands setup cells back (p.returning back) w' t m' := by
  obtain ⟨a, i, rest, p', u, current, f, handle, rfl, rfl, hvalid, hcode, hcallee,
    hperform, hv, rfl,
    hcompiled⟩ := h
  exact Stands.calls hsim hvalid hcode hcallee hperform hv hcompiled hsees hcurrent hfloor

/-- An instruction that calls a block in the current scope. -/
theorem Stands.call {call : Call} (hsim : Simulates setup cells (floor + 1) n call) {f : Fragment}
    {handle : UInt32} {i : Instruction} {slots : Slots} {c : Option Current} {p' : Pose}
    (hm : Stands setup cells a p' w t m)
    (hcompiled : t.linkage.Compiled setup.options.lookup setup.options.strategy f handle)
    (hcode : t.HasCode a (i :: rest))
    (hcallee : ∀ m : Machine, m.next? = some i → m.stack = p'.stack → m.callee? = some handle)
    (hperform : ∀ u current, setup.Later t u →
      Exec.perform a i setup (.of cells (a + 4) p' w u current) =
        Exec.call handle setup (.of cells (a + 4) p w u current))
    (hsees : t.Sees setup.options.strategy p slots) (hcurrent : t.IsCurrent p.registers.s0 c)
    (hfloor : floor < p.stack.size) :
    Leads setup .free floor n m (call f.body slots c w) fun _ w' m' =>
      Stands setup cells (a + 4) (p.returning (a + 4)) w' t m' := by
  refine Leads.of_fits fun hfits => ?_
  have hholds := hm.hasCode hcode
  obtain ⟨u, current, hu, hvalid, rfl⟩ := hm
  refine Leads.mono (Stands.calls hsim hvalid (hcode.mono hu) (hcallee _ hholds.next? rfl)
    (hperform u _ ⟨hu, hvalid, hfits⟩) hvalid
    (hcompiled.mono (Store.Grows.linkage hu)) (hsees.mono hu) (hcurrent.mono hu) hfloor)
    fun _ _ _ h => h.weaken hu

theorem Exec.invokeVirtual_of {u : Store} {current : Nat × Opcode} {pc : Nat} {v : Value}
    {handle : UInt32} (hv : v.toHandle? = some handle) :
    Exec.invokeVirtual setup (.of cells pc (p.push v) w u current) =
      Exec.call handle setup (.of cells pc p w u current) := by
  simp only [Exec.invokeVirtual, bind_apply, pop_of, hv]

/-- The block on the stack is the one that is called. -/
theorem Machine.callee?_of_push {handle b c d : UInt32} {v : Value} {stack : Array Value}
    (hnext : m.next? = some ⟨.invokeVirtual, b, c, d⟩) (hstack : m.stack = stack.push v)
    (hv : v.toHandle? = some handle) : m.callee? = some handle := by
  simp [Machine.callee?, hnext, hstack, hv]

theorem leads_invokeVirtual {call : Call} (hsim : Simulates setup cells (floor + 1) n call)
    {f : Fragment} {handle b c d : UInt32} {v : Value} {slots : Slots} {current : Option Current}
    (hm : Stands setup cells a (p.push v) w t m) (hv : v.toHandle? = some handle)
    (hcompiled : t.linkage.Compiled setup.options.lookup setup.options.strategy f handle)
    (hcode : t.HasCode a (⟨.invokeVirtual, b, c, d⟩ :: rest))
    (hsees : t.Sees setup.options.strategy p slots) (hcurrent : t.IsCurrent p.registers.s0 current)
    (hfloor : floor < p.stack.size) :
    Leads setup .free floor n m (call f.body slots current w) fun _ w' m' =>
      Stands setup cells (a + 4) (p.returning (a + 4)) w' t m' := by
  refine hm.call hsim hcompiled hcode (fun m hnext hstack => ?_) (fun u current _ => ?_)
    hsees hcurrent hfloor
  · exact Machine.callee?_of_push hnext hstack hv
  · exact Exec.invokeVirtual_of hv

/-- How the failure of a block that cannot be compiled is met before it is called. -/
theorem Simulates.fails {call : Call} (hsim : Simulates setup cells (floor + 1) n call)
    {body : Fragment} {slots : Slots} {current : Option Current} {w' : World}
    {final : Unit → World → Machine → Prop} (hm : Stands setup cells a p w' t m)
    (hfloor : floor < p.stack.size) (h : body.isCompilable setup.options.lookup = false) :
    Leads setup .free floor n m (call body slots current w) final ∨
      call body slots current w = .error (.fault .uncompilable) w := by
  rcases hsim.uncompilable body slots current w h with hfault | ⟨rfl | hheight, hfuel⟩
  · exact .inr hfault
  · rw [hfuel]
    exact .inl Leads.exhausted
  · obtain ⟨u, current, -, -, rfl⟩ := hm
    refine .inl (Leads.of_bounded fun _ hstack => ?_)
    exact absurd hstack (Nat.not_le_of_lt (Nat.lt_of_lt_of_le hheight hfloor))

/-- Calling the block on the stack. -/
theorem leads_callBlock (hserves : setup.Serves) {call : Call}
    (hsim : Simulates setup cells (floor + 1) n call) {body : Fragment} {b c d : UInt32} {v : Value}
    {slots : Slots} {current : Option Current} (hm : Stands setup cells a (p.push v) w t m)
    (hk : k.Within setup t) (hblock : t.IsBlock setup.options.strategy v body)
    (hcode : t.HasCode a (k.resolve ++ ⟨.invokeVirtual, b, c, d⟩ :: rest))
    (hsees : t.Sees setup.options.strategy p slots) (hcurrent : t.IsCurrent p.registers.s0 current)
    (hfloor : floor < p.stack.size) :
    Leads setup .free floor n m (call body slots current w) fun _ w' m' =>
      Stands setup cells (a + 4 * k.resolve.length + 4)
        (p.returning (a + 4 * k.resolve.length + 4)) w' t m' := by
  refine leads_resolve hserves hm hk hblock hcode
    (hsim.fails hm (Nat.lt_of_lt_of_le hfloor (p.size_le_push v))) ?_
  rintro m u v' f handle hu hv' hm rfl - hcompiled
  exact (leads_invokeVirtual hsim hm hv' hcompiled (hcode.mono hu).append.2 (hsees.mono hu)
    (hcurrent.mono hu) hfloor).mono fun _ _ _ h => h.weaken hu

/-- Pushing a block and calling it. -/
theorem leads_pushCall (hserves : setup.Serves) {call : Call}
    (hsim : Simulates setup cells (floor + 1) n call) {f : Fragment} {push : List Instruction}
    {b c d : UInt32} {slots : Slots} {current : Option Current} (hm : Stands setup cells a p w t m)
    (hk : k.Within setup t) (hpush : k.block (some f) push)
    (hcode : t.HasCode a (push ++ (k.resolve ++ ⟨.invokeVirtual, b, c, d⟩ :: rest)))
    (hsees : t.Sees setup.options.strategy p slots) (hcurrent : t.IsCurrent p.registers.s0 current)
    (hfloor : floor < p.stack.size) :
    Leads setup .free floor n m (call f.body slots current w) fun _ w' m' =>
      ∃ ra, Stands setup cells (a + 4 * (push.length + k.resolve.length + 1)) (p.returning ra) w' t
        m' := by
  obtain ⟨hcode₁, hcode₂⟩ := hcode.append
  refine leads_pushBlock hm hk hpush hcode₁ fun m v hblock hm => ?_
  refine (leads_callBlock hserves hsim hm hk (hblock t hk.linkage) hcode₂ hsees
    hcurrent hfloor).mono fun _ _ _ h => ?_
  rw [show a + 4 * (push.length + k.resolve.length + 1) =
    a + 4 * push.length + 4 * k.resolve.length + 4 by omega]
  exact ⟨_, h⟩

/-- The code of a call of a fragment, up to the call itself. -/
theorem leads_toStaticCall (hserves : setup.Serves) {f : Fragment}
    (hm : Stands setup cells a p w t m) (hk : k.Within setup t) (hshape : k.staticCall f code)
    (hcode : t.HasCode a code) (hfail : f.isCompilable setup.options.lookup = false →
      ∀ a' v m', Stands setup cells a' (p.push v) w t m' →
        Leads setup .free floor n m' out final ∨ out = .error (.fault .uncompilable) w)
    (h : ∀ m' u, t ≤ u → Calls setup cells (a + 4 * code.length) p f.body w u m' →
      Leads setup .free floor n m' out final) : Leads setup .free floor n m out final := by
  unfold Coding.staticCall at hshape
  cases hs : k.strategy with
  | lazy =>
    simp only [hs] at hshape
    obtain ⟨index, hknown, hindex, rfl⟩ := hshape
    have hpush : k.block (some f) [⟨.constant, index, 0, 0⟩] := by
      simp only [Coding.block, hs]
      exact ⟨index, hknown, hindex, rfl⟩
    have hresolve : k.resolve = [⟨.compileBlock, 0, 0, 0⟩] := by rw [Coding.resolve, hs]
    have hcode' : t.HasCode a
        ([⟨.constant, index, 0, 0⟩] ++ (k.resolve ++ [⟨.invokeVirtual, 0, 0, 0⟩])) := by
      rwa [hresolve]
    obtain ⟨hcode₁, hcode₂⟩ := hcode'.append
    refine leads_pushBlock hm hk hpush hcode₁ fun m v hblock hm => ?_
    refine leads_resolve hserves hm hk (hblock t hk.linkage) hcode₂
      (fun hnot => hfail hnot _ v m hm) ?_
    rintro m u v' g handle hu hv' hm hbody - hcompiled
    have hcall : u.HasCode _ [⟨.invokeVirtual, 0, 0, 0⟩] := (hcode₂.mono hu).append.2
    have hholds := hm.hasCode hcall
    obtain ⟨u', current, hu', hvalid, rfl⟩ := hm
    refine h _ u' (Store.le_trans hu hu') ⟨_, _, _, _, u', current, g, handle, ?_, rfl, hvalid,
      hcall.mono hu', ?_, ?_, hvalid, hbody, hcompiled.mono (Store.Grows.linkage hu')⟩
    · rw [hresolve]
      rfl
    · exact Machine.callee?_of_push hholds.next? rfl hv'
    · exact Exec.invokeVirtual_of hv'
  | eager =>
    simp only [hs] at hshape
    obtain ⟨handle, hknown, hlinked, rfl⟩ := hshape
    have hholds := hm.hasCode hcode
    obtain ⟨u, current, hu, hvalid, rfl⟩ := hm
    have hlinkage := Linkage.le_trans hk.linkage (Store.Grows.linkage hu)
    refine h _ u hu ⟨a, _, [], p, u, current, f, handle, rfl, rfl, hvalid, hcode.mono hu,
      ?_, rfl, hvalid, rfl, hvalid.compiled (Linkage.Grows.known hlinkage _ _ hknown)
        (Linkage.Grows.linked hlinkage hlinked)⟩
    simp [Machine.callee?, hholds.next?]

theorem leads_staticCall (hserves : setup.Serves) {call : Call}
    (hsim : Simulates setup cells (floor + 1) n call) {f : Fragment} {slots : Slots}
    {current : Option Current} (hm : Stands setup cells a p w t m) (hk : k.Within setup t)
    (hshape : k.staticCall f code) (hcode : t.HasCode a code)
    (hsees : t.Sees setup.options.strategy p slots) (hcurrent : t.IsCurrent p.registers.s0 current)
    (hfloor : floor < p.stack.size) :
    Leads setup .free floor n m (call f.body slots current w) fun _ w' m' =>
      ∃ ra, Stands setup cells (a + 4 * code.length) (p.returning ra) w' t m' := by
  exact leads_toStaticCall hserves hm hk hshape hcode
    (fun hnot _ v _ hm => hsim.fails hm (Nat.lt_of_lt_of_le hfloor (p.size_le_push v)) hnot)
    fun m u hu hcalls =>
      (hcalls.leads hsim (hsees.mono hu) (hcurrent.mono hu) hfloor).mono fun _ _ _ h =>
        ⟨_, h.weaken hu⟩

/-- A block that cannot be compiled is met before it is called. -/
theorem leads_staticCall_fails (hserves : setup.Serves) {f : Fragment}
    (hm : Stands setup cells a p w t m) (hk : k.Within setup t) (hshape : k.staticCall f code)
    (hcode : t.HasCode a code) (hnot : f.isCompilable setup.options.lookup = false) :
    Leads setup .free floor n m (.error (.fault .uncompilable) w) final := by
  refine leads_toStaticCall hserves hm hk hshape hcode (fun _ _ _ _ _ => .inr rfl)
    fun m u _ hcalls => ?_
  obtain ⟨-, -, -, -, -, -, g, handle, -, -, -, -, -, -, -, hbody, hcompiled⟩ := hcalls
  have hcompilable : g.body.isCompilable setup.options.lookup := hcompiled.isCompilable
  rw [hbody] at hcompilable
  exact absurd (hnot.symm.trans hcompilable) (by simp)

/-! ### Blocks in frames -/

/-- The pose in a scope with parameters, if it is one of its own. -/
def Pose.inside (p : Pose) : Option Nat → Pose
  | some number => p.enter number
  | none => p

@[simp] theorem Pose.stack_inside (p : Pose) (inner : Option Nat) :
    (p.inside inner).stack = p.stack := by
  cases inner <;> rfl

theorem Pose.returning_inside (p : Pose) (ra : Nat) (inner : Option Nat) :
    (p.inside inner).returning ra = (p.returning ra).inside inner := by
  cases inner <;> rfl

/-- A value below a frame. -/
theorem Pose.getElem?_within {values : List Reference} {ra i : Nat} {r : Reference}
    (h : values[i]? = some r) :
    ((p.pushAll (values.map .ref)).within ra []).stack[
      ((p.pushAll (values.map .ref)).within ra []).fp - values.length + i]? = some (.ref r) := by
  have hlt := (List.getElem?_eq_some_iff.mp h).1
  simp only [Pose.within, Pose.pushAll, Array.append_empty, Array.size_append, List.size_toArray,
    List.length_map, Nat.add_sub_cancel]
  rw [Array.getElem?_push, if_neg (by simp; omega), Array.getElem?_push, if_neg (by simp; omega),
    Array.getElem?_append_right (Nat.le_add_right _ _), Nat.add_sub_cancel_left]
  simp [h]

/-- Entering a scope with parameters that are values below the frame. -/
theorem leads_enterParameters {depth : UInt32} {symbols : List UInt32} {values : List Reference}
    {slots : Slots} (hm : Stands setup cells a ((p.pushAll (values.map .ref)).within p.ra []) w t m)
    (hdepth : depth.toNat = values.length) (hlength : symbols.length ≤ values.length)
    (hsees : t.Sees setup.options.strategy p slots)
    (hcode : t.HasCode a (Coding.enterParameters depth symbols))
    (h : ∀ m' u inner, t ≤ u → inner.isSome = !symbols.isEmpty →
      u.Sees setup.options.strategy (p.inside inner) (slots.bindValues symbols values) →
      Stands setup cells (a + 4 * (Coding.enterParameters depth symbols).length)
        (((p.pushAll (values.map .ref)).within p.ra []).inside inner) w u m' →
      Leads setup .free floor n m' out final) : Leads setup .free floor n m out final := by
  unfold Coding.enterParameters at hcode h
  cases symbols with
  | nil => exact h m t none t.le_refl rfl hsees hm
  | cons symbol symbols =>
    rw [if_neg (by simp)] at hcode
    obtain ⟨number, others, scope, hstack, hscope, hslots⟩ := hsees
    refine leads_childScope hm hstack hscope hcode fun m hm => ?_
    refine hm.bindParameters hdepth (by simp [Pose.within, Pose.pushAll]) hlength
      (fun i r hi => Pose.getElem?_within hi) hcode.tail fun m hm => ?_
    obtain ⟨u, inner, hu, hinner, hm⟩ := hm.stands
    have hsees : u.Sees setup.options.strategy
        ((((p.pushAll (values.map .ref)).within p.ra []).inside (some inner))) _ :=
      ⟨inner, _, _, rfl, hinner, (hslots.mono hu).bindParameters _ _⟩
    refine Leads.filled (hm.canYield (hsees.of_scopeStack rfl)) (h m u (some inner) hu rfl hsees ?_)
    simp only [List.isEmpty_cons, Bool.false_eq_true, if_false, List.length_cons]
    rwa [show a + 4 * ((Coding.bindParameters depth (symbol :: symbols)).length + 1) =
      a + 4 + 4 * (Coding.bindParameters depth (symbol :: symbols)).length by omega]

theorem leads_leaveParameters {symbols : List UInt32} {inner : Option Nat}
    (hm : Stands setup cells a (p.inside inner) w t m) (hinner : inner.isSome = !symbols.isEmpty)
    (hcode : t.HasCode a (Coding.leaveParameters symbols))
    (h : ∀ m', Stands setup cells (a + 4 * (Coding.leaveParameters symbols).length) p w t m' →
      Leads setup .free floor n m' out final) : Leads setup .free floor n m out final := by
  unfold Coding.leaveParameters at hcode h
  cases symbols with
  | nil =>
    cases inner with
    | none => exact h m hm
    | some number => cases hinner
  | cons symbol symbols =>
    cases inner with
    | none => cases hinner
    | some number => exact leads_popScope hm hcode h

/-- A block that is called in a frame, with parameters that are values below the frame. -/
theorem leads_staticBlock (hserves : setup.Serves) {site : Site} {call : Call}
    (hsim : Simulates setup cells (floor + 1) n call) {f : Fragment} {supplied : UInt32}
    {values : List Reference} (hm : Stands setup cells a (p.pushAll (values.map .ref)) w t m)
    (hk : k.Within setup t) (hshape : k.staticBlock f supplied code)
    (hsupplied : supplied.toNat = values.length) (hcode : t.HasCode a code)
    (hsees : t.Sees setup.options.strategy p site.slots)
    (hcurrent : t.IsCurrent p.registers.s0 site.current) (hfloor : floor ≤ p.stack.size) :
    Leads setup .free floor (n + 1) m (Walk.staticBlock site call f.body values w) fun _ w' m' =>
      Stands setup cells (a + 4 * code.length) (p.pushAll (values.map .ref)) w' t m' := by
  obtain ⟨push, hpush, rfl⟩ := hshape
  unfold Walk.staticBlock
  rw [hsupplied] at hcode ⊢
  rw [show f.body.table = f.table from rfl]
  generalize hsymbols : f.table.parameters.take values.length = symbols at hcode ⊢
  have hlength : symbols.length ≤ values.length := by
    rw [← hsymbols]
    exact List.length_take_le _ _
  simp only [List.cons_append, List.append_assoc] at hcode
  refine leads_pushFrame_succ hm hcode fun m hm => ?_
  obtain ⟨henter, hrest⟩ := hcode.tail.append
  refine leads_enterParameters hm hsupplied hlength hsees henter
    fun m u inner hu hinner hsees hm => ?_
  have hcurrent' : u.IsCurrent
      (((p.pushAll (values.map .ref)).within p.ra []).inside inner).registers.s0 site.current := by
    cases inner <;> exact hcurrent.mono hu
  have hsees' := hsees.of_scopeStack
    (q := ((p.pushAll (values.map .ref)).within p.ra []).inside inner) (by cases inner <;> rfl)
  refine (leads_pushCall hserves hsim hm (hk.mono hu) hpush (hrest.mono hu) hsees'
    hcurrent' (by simp; omega)).andThen ?_
  rintro - w' m ⟨ra, hm⟩
  have hm := hm.weaken hu
  rw [Pose.returning_inside, Pose.within_returning] at hm
  have hleave := hrest.append.2.append.2.tail.at (b := a + 4 +
    4 * (Coding.enterParameters supplied symbols).length +
    4 * (push.length + k.resolve.length + 1)) (by omega)
  refine leads_leaveParameters hm hinner hleave.append.1 fun m hm => ?_
  refine leads_popFrame hm hleave.append.2 fun m hm => Leads.done (hm.at ?_)
  simp
  omega

/-- A block that is called in a frame, without parameters. -/
theorem leads_plainBlock (hserves : setup.Serves) {site : Site} {call : Call}
    (hsim : Simulates setup cells (floor + 1) n call) {f : Fragment}
    (hm : Stands setup cells a p w t m) (hk : k.Within setup t) (hshape : k.staticBlock f 0 code)
    (hcode : t.HasCode a code) (hsees : t.Sees setup.options.strategy p site.slots)
    (hcurrent : t.IsCurrent p.registers.s0 site.current) (hfloor : floor ≤ p.stack.size) :
    Leads setup .free floor (n + 1) m (Walk.staticBlock site call f.body [] w) fun _ w' m' =>
      Stands setup cells (a + 4 * code.length) p w' t m' := by
  have hnone : (0 : UInt32).toNat = ([] : List Reference).length := rfl
  rw [← p.pushAll_nil] at hm
  have h := leads_staticBlock hserves hsim hm hk hshape hnone hcode hsees hcurrent hfloor
  rwa [List.map_nil, p.pushAll_nil] at h

end

end TemplateMachine
