import TemplateMachine.Proofs.Run.Perform
import TemplateMachine.Proofs.Shape.Statement

/-! Instructions that compute values. -/

namespace TemplateMachine

section

variable {setup : Setup} {cells : Cells} {a floor : Nat} {n : ENat} {p : Pose}
variable {w : World} {t : Store} {m : Machine} {rest : List Instruction} {α : Type}
variable {out : EStateM.Result (Stop Fault) World α} {final : α → World → Machine → Prop}
variable {k : Coding} {code : List Instruction}

open Exec (bind_apply pure_apply get_apply read_apply modify_apply orFail_some pop_of)

/-! ### Literals -/

theorem leads_pushPrimitive {prim : Primitive} (hm : Stands setup cells a p w t m)
    (hk : k.linkage ≤ t.linkage) (hshape : k.primitive prim code) (hcode : t.HasCode a code)
    (h : ∀ m', Stands setup cells (a + 4 * code.length) (p.push (.primitive prim)) w t m' →
      Leads setup .free floor n m' out final) : Leads setup .free floor n m out final := by
  obtain ⟨word, hword, rfl⟩ := hshape
  refine hm.next hcode (by simp) (fun u current hu => ?_) h
  have hfind := Primitive.decode?_mono (hu.constants hk) hword
  simp only [Exec.perform, bind_apply,
    Exec.constant_of (fun c w => Primitive.decode? w c) hfind]
  rfl

theorem leads_reference {prim : Primitive} (hm : Stands setup cells a p w t m)
    (hk : k.linkage ≤ t.linkage) (hshape : k.reference prim code) (hcode : t.HasCode a code)
    (h : ∀ m', Stands setup cells (a + 4 * code.length) (p.push (.ref (.ofJson prim.toJson))) w t
      m' → Leads setup .free floor n m' out final) : Leads setup .free floor n m out final := by
  obtain ⟨push, hpush, rfl⟩ := hshape
  obtain ⟨hfirst, hlast⟩ := hcode.append
  refine leads_pushPrimitive hm hk hpush hfirst fun m hm => ?_
  rw [List.length_append] at h
  refine hm.next hlast (by simp) (fun u current _ => ?_) h
  simp only [Exec.perform, Exec.primitiveReference, bind_apply, pop_of]
  rfl

/-! ### Slots -/

/-- The value of a slot; blocks and empty slots are null. -/
def Slot.read : Slot → Reference
  | .value r => r
  | _ => .null

theorem Store.Holds.read {strategy : Strategy} {scope : Scope} {slots : Slots}
    (h : t.Holds strategy scope slots) (symbol : UInt32) :
    (scope.get symbol).read = slots.value symbol := by
  have hfills := h symbol
  unfold Slots.value
  cases hb : slots symbol with
  | empty =>
    rw [hb] at hfills
    rcases hfills with heq | heq <;> rw [heq] <;> rfl
  | value r =>
    rw [hb] at hfills
    rw [show scope.get symbol = .value r from hfills]
    rfl
  | block body written =>
    rw [hb] at hfills
    obtain ⟨⟨value, heq, -⟩, -⟩ := hfills
    rw [heq]
    rfl

theorem leads_getVariable {slots : Slots} {symbol b c : UInt32} (hm : Stands setup cells a p w t m)
    (hsees : t.Sees setup.options.strategy p slots)
    (hcode : t.HasCode a (⟨.getVariable, symbol, b, c⟩ :: rest))
    (h : ∀ m', Stands setup cells (a + 4) (p.push (.ref (slots.value symbol))) w t m' →
      Leads setup .free floor n m' out final) : Leads setup .free floor n m out final := by
  refine hm.next hcode (by simp) (fun u current hu => ?_) h
  obtain ⟨number, others, scope, hstack, hscope, hslots⟩ := hsees.mono hu.le
  rw [← hslots.read symbol]
  simp only [Exec.perform, Exec.getVariable, bind_apply, Exec.slot_of hstack hscope]
  cases scope.get symbol <;> rfl

theorem leads_getProperty {r : Reference} {key : String}
    (hm : Stands setup cells a (p.push (.ref r)) w t m) (hk : k.linkage ≤ t.linkage)
    (hshape : k.onString .getProperty key code) (hcode : t.HasCode a code)
    (h : ∀ m', Stands setup cells (a + 4 * code.length) (p.push (.ref (.property r key))) w t m' →
      Leads setup .free floor n m' out final) : Leads setup .free floor n m out final := by
  obtain ⟨index, hindex, rfl⟩ := hshape
  refine hm.next hcode (by simp) (fun u current hu => ?_) h
  have hfind := (hu.constants hk).strings.get? hindex
  simp only [Exec.perform, bind_apply, Exec.stringConstant,
    Exec.constant_of (fun c => c.strings.get?) hfind, Exec.popRef_of]
  rfl

theorem leads_properties {path : List String} {r : Reference}
    (hm : Stands setup cells a (p.push (.ref r)) w t m) (hk : k.linkage ≤ t.linkage)
    (hshape : k.properties path code) (hcode : t.HasCode a code)
    (h : ∀ m', Stands setup cells (a + 4 * code.length)
      (p.push (.ref (path.foldl .property r))) w t m' → Leads setup .free floor n m' out final) :
    Leads setup .free floor n m out final := by
  induction path generalizing r a m code with
  | nil =>
    obtain rfl : code = [] := hshape
    exact h m hm
  | cons key path ih =>
    obtain ⟨first, more, hfirst, hmore, rfl⟩ := hshape
    obtain ⟨hcode₁, hcode₂⟩ := hcode.append
    refine leads_getProperty hm hk hfirst hcode₁ fun m hm => ih hm hmore hcode₂ fun m hm => h m ?_
    rwa [List.length_append, Nat.mul_add, ← Nat.add_assoc]

theorem leads_hasBlock {symbol b c : UInt32} {site : Site}
    (hm : Stands setup cells a p w t m)
    (hsees : t.Sees setup.options.strategy p site.slots)
    (hcode : t.HasCode a (⟨.hasBlock, symbol, b, c⟩ :: rest))
    (h : ∀ m', Stands setup cells (a + 4) (p.push (.ref (Walk.hasBlock site symbol))) w t m' →
      Leads setup .free floor n m' out final) : Leads setup .free floor n m out final := by
  refine hm.next hcode (by simp) (fun u current hu => ?_) h
  obtain ⟨number, others, scope, hstack, hscope, hslots⟩ := hsees.mono hu.le
  have hfills := hslots symbol
  simp only [Exec.perform, Exec.hasBlock, bind_apply, Exec.slot_of hstack hscope]
  unfold Walk.hasBlock
  cases hb : site.slots symbol with
  | empty =>
    rw [hb] at hfills
    rcases hfills with heq | heq <;> rw [heq] <;> rfl
  | value r =>
    rw [hb] at hfills
    rw [show scope.get symbol = .value r from hfills]
    rfl
  | block body written =>
    rw [hb] at hfills
    obtain ⟨⟨value, heq, hvalue⟩, -⟩ := hfills
    rw [heq]
    have hpresent : (ScopeBlock.mk (.table body.table) value).isPresent = true := by
      cases hs : setup.options.strategy with
      | lazy =>
        rw [hs] at hvalue
        obtain ⟨f, rfl, -⟩ := hvalue
        rfl
      | eager =>
        rw [hs] at hvalue
        obtain ⟨f, handle, rfl, -⟩ := hvalue
        rfl
    simp only [hpresent]
    rfl

/-! ### Arguments -/

theorem leads_gather {positional named : List Reference} {names : List String}
    (hm : Stands setup cells a (p.pushAll ((positional ++ named).map .ref)) w t m)
    (hk : k.linkage ≤ t.linkage) (hwell : k.layout.template.wellFormed)
    (hnames : names.length = named.length)
    (hshape : k.gather positional.length names code) (hcode : t.HasCode a code)
    (h : ∀ m', Stands setup cells (a + 4 * code.length)
      (p.push (.args ⟨positional, names.map Walk.bareName, named⟩)) w t m' →
      Leads setup .free floor n m' out final) : Leads setup .free floor n m out final := by
  obtain ⟨index, flags, hindex, hflags, hcount, rfl⟩ := hshape
  rw [Nat.mod_eq_of_lt (hcount hwell)] at hflags
  refine hm.next hcode (by simp) (fun u current hu => ?_) h
  have hfind := Constants.getStringArray?_mono (hu.constants hk) hindex
  rw [List.map_append, Pose.pushAll_append]
  simp only [Exec.perform, Exec.gatherArgs, bind_apply,
    Exec.constant_of Constants.getStringArray? hfind, hnames, Exec.popRefs_of, hflags,
    List.append_nil]
  rfl

theorem leads_concat {rs : List Reference} {count b c : UInt32}
    (hm : Stands setup cells a (p.pushAll (rs.map .ref)) w t m) (hcount : count.toNat = rs.length)
    (hcode : t.HasCode a (⟨.concat, count, b, c⟩ :: rest))
    (h : ∀ m', Stands setup cells (a + 4) (p.push (.ref (.concat .still rs))) w t m' →
      Leads setup .free floor n m' out final) : Leads setup .free floor n m out final := by
  refine hm.next hcode (by simp) (fun u current _ => ?_) h
  simp only [Exec.perform, bind_apply, hcount, Exec.popRefs_of, List.append_nil]
  rfl

/-! ### Calls of the host -/

/-- What an instruction does that calls a helper, by what the helper answers. -/
theorem Exec.helper_of {index handle : UInt32} {helper : History → Helper} {u : Store} {pc : Nat}
    (hindex : u.linkage.program.constants.handles.get? index = some handle)
    (hhelper : setup.host.helper? handle = some helper) (args : Arguments)
    (current : Nat × Opcode) :
    Exec.callHelper index setup (.of cells pc (p.push (.args args)) w u current) =
      match helper (w.events.push (.helper handle args)) cells args with
      | .ok d => .ok () (.of cells pc (p.push (.ref (.const d)))
          { w with events := w.events.push (.helper handle args) } u current)
      | .error message => .error (.fault (.helperFailed message)) (.of cells pc p
          { w with events := w.events.push (.helper handle args) } u current) := by
  simp only [Exec.callHelper, bind_apply, Exec.handleConstant,
    Exec.constant_of (fun c => c.handles.get?) hindex, read_apply, hhelper,
    orFail_some, Exec.popArgs_of, Exec.record, modify_apply, get_apply]
  rw [show (Machine.of cells pc p w u current).cells = cells from rfl,
    show (Machine.of cells pc p w u current).events = w.events from rfl]
  cases helper (w.events.push (.helper handle args)) cells args <;> rfl

theorem Walk.callHelper_of {handle : UInt32} {helper : History → Helper}
    (hhelper : setup.host.helper? handle = some helper) (args : Arguments) (w : World) :
    Walk.callHelper (setup.scene cells) handle args w =
      match helper (w.events.push (.helper handle args)) cells args with
      | .ok d => .ok (.const d) { w with events := w.events.push (.helper handle args) }
      | .error message => .error (.fault (.helperFailed message))
          { w with events := w.events.push (.helper handle args) } := by
  simp only [Walk.callHelper, Setup.scene, hhelper, Walk.orUndefined_some]
  simp only [Walk.bind_apply, Walk.record_apply, Walk.get_apply]
  cases helper (w.events.push (.helper handle args)) cells args <;> rfl

theorem leads_helper {handle : UInt32} {args : Arguments}
    (hm : Stands setup cells a (p.push (.args args)) w t m) (hk : k.linkage ≤ t.linkage)
    (hshape : k.onHandle .helper handle code) (hcode : t.HasCode a code)
    (hserved : (setup.host.helper? handle).isSome) :
    Leads setup .free floor n m (Walk.callHelper (setup.scene cells) handle args w) fun r w' m' =>
      Stands setup cells (a + 4 * code.length) (p.push (.ref r)) w' t m' := by
  obtain ⟨index, hindex, rfl⟩ := hshape
  obtain ⟨helper, hhelper⟩ := Option.isSome_iff_exists.mp hserved
  have hfind (u : Store) (hu : setup.Later t u) := (hu.constants hk).handles.get? hindex
  rw [Walk.callHelper_of hhelper]
  cases hresult : helper (w.events.push (.helper handle args)) cells args with
  | ok d =>
    refine hm.next hcode (by simp) (fun u current hu => ?_) fun m' hm' => Leads.done hm'
    rw [Exec.perform, Exec.helper_of (hfind u hu) hhelper, hresult]
    rfl
  | error message =>
    refine hm.fails hcode (by simp) fun u current hu => ?_
    rw [Exec.perform, Exec.helper_of (hfind u hu) hhelper, hresult]
    exact ⟨_, _, rfl, rfl, rfl, rfl, rfl⟩

end

end TemplateMachine
