import TemplateMachine.Proofs.Run.Value

/-! Instructions that write markup. -/

namespace TemplateMachine

section

variable {setup : Setup} {cells : Cells} {a floor : Nat} {n : ENat} {p : Pose}
variable {w : World} {t : Store}
variable {m : Machine} {rest : List Instruction} {k : Coding} {code : List Instruction}

open Exec (bind_apply pure_apply get_apply read_apply modify_apply orFail_some pop_of)

theorem Exec.onElement_of {pc : Nat} {current : Nat × Opcode} (change : Sink → Sink.Result) :
    Exec.onElement change setup (.of cells pc p w t current) =
      match change w.sink with
      | .ok sink => .ok () (.of cells pc p { w with sink } t current)
      | .error operation =>
        .error (.fault (.noOpenElement operation))
          (.of cells pc p { w with sink := {} } t current) :=
  rfl

theorem Exec.stringConstant_of {index : UInt32} {pc : Nat} {current : Nat × Opcode} {s : String}
    (h : t.linkage.program.constants.strings.get? index = some s) :
    Exec.stringConstant index setup (.of cells pc p w t current) =
      .ok s (.of cells pc p w t current) :=
  Exec.constant_of (fun c => c.strings.get?) h

/-! ### Content -/

/-- An instruction that writes a string. -/
theorem leads_onString {op : Opcode} {s : String} (write : String → Sink → Sink)
    (hop : ∀ address index, Exec.perform address ⟨op, index, 0, 0⟩ = do
      let s ← Exec.stringConstant index
      Exec.emit (write s))
    (hplain : op.isPlain = true) (hm : Stands setup cells a p w t m) (hk : k.linkage ≤ t.linkage)
    (hshape : k.onString op s code) (hcode : t.HasCode a code) :
    Leads setup .free floor n m (Walk.emit (write s) w) fun _ w' m' =>
      Stands setup cells (a + 4 * code.length) p w' t m' := by
  obtain ⟨index, hindex, rfl⟩ := hshape
  refine hm.next hcode hplain (fun u current hu => ?_) fun m' hm' => Leads.done hm'
  rw [hop]
  simp only [bind_apply, Exec.stringConstant_of ((hu.constants hk).strings.get? hindex)]
  rfl

theorem leads_text {s : String} (hm : Stands setup cells a p w t m) (hk : k.linkage ≤ t.linkage)
    (hshape : k.onString .text s code) (hcode : t.HasCode a code) :
    Leads setup .free floor n m (Walk.emit (fun sink => sink.appendText s) w) fun _ w' m' =>
      Stands setup cells (a + 4 * code.length) p w' t m' :=
  leads_onString (fun s sink => sink.appendText s) (fun _ _ => rfl) (by simp) hm hk hshape hcode

theorem leads_comment {s : String} (hm : Stands setup cells a p w t m) (hk : k.linkage ≤ t.linkage)
    (hshape : k.onString .comment s code) (hcode : t.HasCode a code) :
    Leads setup .free floor n m (Walk.emit (fun sink => sink.appendComment s) w) fun _ w' m' =>
      Stands setup cells (a + 4 * code.length) p w' t m' :=
  leads_onString (fun s sink => sink.appendComment s) (fun _ _ => rfl) (by simp) hm hk hshape
    hcode

theorem leads_openElement {tag : String} (hm : Stands setup cells a p w t m)
    (hk : k.linkage ≤ t.linkage) (hshape : k.onString .openElement tag code)
    (hcode : t.HasCode a code) :
    Leads setup .free floor n m (Walk.emit (fun sink => sink.openElement tag) w) fun _ w' m' =>
      Stands setup cells (a + 4 * code.length) p w' t m' :=
  leads_onString (fun s sink => sink.openElement s) (fun _ _ => rfl) (by simp) hm hk hshape
    hcode

/-- What an instruction does that appends a value, if it has a content. -/
theorem Exec.dynamicContent_of {u : Store} {pc : Nat} (r : Reference) (trusted : Bool)
    (current : Nat × Opcode) :
    Exec.dynamicContent trusted setup (.of cells pc (p.push (.ref r)) w u current) =
      match (r.value cells).content? with
      | some content =>
        .ok () (.of cells pc p
          { w with
            sink := if trusted then w.sink.append content else w.sink.appendText content }
          u current)
      | none => .ok () (.of cells pc p w u current) := by
  simp only [Exec.dynamicContent, bind_apply, Exec.popDatum_of]
  cases (r.value cells).content? <;> rfl

theorem Walk.content_of (r : Reference) (trusted : Bool) (w : World) :
    Walk.content (setup.scene cells) trusted r w =
      match (r.value cells).content? with
      | some content =>
        .ok ()
          { w with
            sink := if trusted then w.sink.append content else w.sink.appendText content }
      | none => .ok () w := by
  simp only [Walk.content, Setup.scene]
  cases (r.value cells).content? <;> rfl

theorem leads_dynamicContent {r : Reference} {trusting b c : UInt32} {trusted : Bool}
    (htrust : (trusting != 0) = trusted) (hm : Stands setup cells a (p.push (.ref r)) w t m)
    (hcode : t.HasCode a (⟨.dynamicContent, trusting, b, c⟩ :: rest)) :
    Leads setup .free floor n m (Walk.content (setup.scene cells) trusted r w) fun _ w' m' =>
      Stands setup cells (a + 4) p w' t m' := by
  rw [Walk.content_of]
  cases hcontent : (r.value cells).content? with
  | some content =>
    refine hm.next hcode (by simp) (fun u current _ => ?_) fun m' hm' => Leads.done hm'
    rw [Exec.perform, htrust, Exec.dynamicContent_of, hcontent]
  | none =>
    refine hm.next hcode (by simp) (fun u current _ => ?_) fun m' hm' => Leads.done hm'
    rw [Exec.perform, htrust, Exec.dynamicContent_of, hcontent]

/-! ### Elements -/

/-- An instruction that changes the sink, where an element is needed. -/
theorem leads_onElement {i : Instruction} {change : Sink → Sink.Result} {p' : Pose}
    (hplain : i.op.isPlain = true) (hm : Stands setup cells a p w t m)
    (hcode : t.HasCode a (i :: rest)) (hperform : ∀ u current, setup.Later t u →
      Exec.perform a i setup (.of cells (a + 4) p w u current) =
        Exec.onElement change setup (.of cells (a + 4) p' w u current)) :
    Leads setup .free floor n m (Walk.onElement change w) fun _ w' m' =>
      Stands setup cells (a + 4) p' w' t m' := by
  unfold Walk.onElement
  cases hchange : change w.sink with
  | ok sink =>
    refine hm.next hcode hplain (fun u current hu => ?_) fun m' hm' => Leads.done hm'
    rw [hperform u current hu, Exec.onElement_of, hchange]
  | error operation =>
    refine hm.fails hcode hplain fun u current hu => ?_
    rw [hperform u current hu, Exec.onElement_of, hchange]
    exact ⟨_, _, rfl, rfl, rfl, rfl, rfl⟩

theorem leads_flushElement {b c d : UInt32} (hm : Stands setup cells a p w t m)
    (hcode : t.HasCode a (⟨.flushElement, b, c, d⟩ :: rest)) :
    Leads setup .free floor n m (Walk.onElement Sink.flushElement w) fun _ w' m' =>
      Stands setup cells (a + 4) p w' t m' :=
  leads_onElement (by simp) hm hcode fun _ _ _ => rfl

theorem leads_closeElement {b c d : UInt32} (hm : Stands setup cells a p w t m)
    (hcode : t.HasCode a (⟨.closeElement, b, c, d⟩ :: rest)) :
    Leads setup .free floor n m (Walk.onElement Sink.closeElement w) fun _ w' m' =>
      Stands setup cells (a + 4) p w' t m' :=
  leads_onElement (by simp) hm hcode fun _ _ _ => rfl

/-! ### Attributes -/

/-- The namespace of an operand. -/
theorem Exec.namespaceConstant_of {pc : Nat} {current : Nat × Opcode} {space : Option String}
    {index : UInt32} {u : Store} (hu : setup.Later t u) (hvalid : setup.Valid u)
    (hk : k.linkage ≤ t.linkage) (hspace : k.space space index) :
    Exec.namespaceConstant index setup (.of cells pc p w u current) =
      .ok (Walk.namespaceOf space) (.of cells pc p w u current) := by
  cases space with
  | none =>
    obtain rfl : index = 0 := hspace
    rfl
  | some s =>
    obtain ⟨hindex, hempty⟩ := hspace
    have hfind := (hu.constants hk).strings.get? hindex
    by_cases hs : s = ""
    · obtain rfl := hempty hs
      subst hs
      rfl
    · have hzero : index ≠ 0 := by
        rintro rfl
        exact hs (Option.some.inj (hfind.symm.trans hvalid.empty))
      simp only [Exec.namespaceConstant, if_neg hzero, bind_apply, Exec.stringConstant_of hfind]
      simp only [Walk.namespaceOf, Option.filter_some, decide_eq_true_eq, ne_eq, hs,
        not_false_eq_true, if_true]
      rfl

/-- The operation of an attribute on behalf of an element or an invocation. -/
def AttrMode.set : AttrMode → Sink → String → Option String → Option String → Sink.Result
  | .element => Sink.setAttribute
  | .component => Sink.setComponentAttribute

theorem Walk.setAttribute_eq (mode : AttrMode) (name : String) (value space : Option String) :
    Walk.setAttribute mode name value space =
      Walk.onElement fun sink => mode.set sink name value (Walk.namespaceOf space) := by
  cases mode <;> rfl

/-- Setting an attribute to the value on the stack. -/
theorem leads_setAttribute {mode : AttrMode} {name : String} {space : Option String}
    {r : Reference} {nameIndex b spaceIndex : UInt32}
    (hm : Stands setup cells a (p.push (.ref r)) w t m) (hk : k.linkage ≤ t.linkage)
    (hname : k.constants.strings.get? nameIndex = some name) (hspace : k.space space spaceIndex)
    (hcode : t.HasCode a (⟨mode.op, nameIndex, b, spaceIndex⟩ :: rest)) :
    Leads setup .free floor n m
      (Walk.setAttribute mode name (Exec.attributeText? (r.value cells)) space w) fun _ w' m' =>
      Stands setup cells (a + 4) p w' t m' := by
  rw [Walk.setAttribute_eq]
  refine leads_onElement (by cases mode <;> simp) hm hcode fun u current hu => ?_
  have hname' : Exec.stringConstant nameIndex setup
    (.of cells (a + 4) (p.push (.ref r)) w u current) =
      _ := Exec.stringConstant_of ((hu.constants hk).strings.get? hname)
  have hspace' : Exec.namespaceConstant spaceIndex setup
      (.of cells (a + 4) (p.push (.ref r)) w u current) = _ :=
    Exec.namespaceConstant_of hu hu.valid hk hspace
  cases mode <;>
    simp only [AttrMode.op, Exec.perform, Exec.setAttribute, bind_apply, hname', hspace',
    Exec.popDatum_of] <;> rfl

/-- Setting an attribute of an element to a fixed value. -/
theorem leads_staticAttr {name value : String} {space : Option String}
    {nameIndex valueIndex spaceIndex : UInt32} (hm : Stands setup cells a p w t m)
    (hk : k.linkage ≤ t.linkage) (hname : k.constants.strings.get? nameIndex = some name)
    (hvalue : k.constants.strings.get? valueIndex = some value) (hspace : k.space space spaceIndex)
    (hcode : t.HasCode a (⟨.staticAttr, nameIndex, valueIndex, spaceIndex⟩ :: rest)) :
    Leads setup .free floor n m (Walk.setAttribute .element name (some value) space w)
      fun _ w' m' =>
      Stands setup cells (a + 4) p w' t m' := by
  rw [Walk.setAttribute_eq]
  refine leads_onElement (by simp) hm hcode fun u current hu => ?_
  have hstrings := (hu.constants hk).strings
  simp only [Exec.perform, Exec.staticAttribute, bind_apply,
    Exec.stringConstant_of (hstrings.get? hname), Exec.stringConstant_of (hstrings.get? hvalue),
    Exec.namespaceConstant_of hu hu.valid hk hspace]
  rfl

/-! ### Modifiers -/

/-- Attributes are set as in a walk; if one cannot be set the sink is gone. -/
theorem Exec.setAttributes_of (setup : Setup) (cells : Cells) (p : Pose)
    (attributes : List (String × String)) (w : World) :
    (∃ w', Walk.setAttributes attributes w = .ok () w' ∧ ∀ pc t current,
      Exec.setAttributes attributes setup (.of cells pc p w t current) =
        .ok () (.of cells pc p w' t current)) ∨
    ∃ operation w', Walk.setAttributes attributes w =
        .error (.fault (.noOpenElement operation)) w' ∧ ∀ pc t current, ∃ m',
      Exec.setAttributes attributes setup (.of cells pc p w t current) =
        .error (.fault (.noOpenElement operation)) m' ∧ m'.Unwinds w' := by
  induction attributes generalizing w with
  | nil => exact .inl ⟨w, rfl, fun _ _ _ => rfl⟩
  | cons first rest ih =>
    obtain ⟨name, value⟩ := first
    simp only [Exec.setAttributes, bind_apply, Exec.onElement_of, Walk.setAttributes,
      Walk.bind_apply, Walk.onElement]
    cases w.sink.setAttribute name (some value) none with
    | ok sink => exact ih _
    | error operation => exact .inr ⟨operation, w, rfl, fun _ _ _ => ⟨_, rfl, rfl, rfl, rfl⟩⟩

/-- What an instruction does that applies a modifier, by what the modifier answers. -/
theorem Exec.applyModifier_of {index handle : UInt32} {change : History → Modifier} {u : Store}
    {pc : Nat} (hindex : u.linkage.program.constants.handles.get? index = some handle)
    (hchange : setup.host.modifier? handle = some change) (args : Arguments)
    (current : Nat × Opcode) :
    Exec.applyModifier index setup (.of cells pc (p.push (.args args)) w u current) =
      match change (w.events.push (.modifier handle args)) cells args with
      | .ok attributes => Exec.setAttributes attributes setup
          (.of cells pc p { w with events := w.events.push (.modifier handle args) } u current)
      | .error message => .error (.fault (.helperFailed message)) (.of cells pc p
          { w with events := w.events.push (.modifier handle args) } u current) := by
  simp only [Exec.applyModifier, bind_apply, Exec.handleConstant,
    Exec.constant_of (fun c => c.handles.get?) hindex, read_apply, hchange,
    orFail_some, Exec.popArgs_of, Exec.record, modify_apply, get_apply]
  rw [show (Machine.of cells pc p w u current).cells = cells from rfl,
    show (Machine.of cells pc p w u current).events = w.events from rfl]
  cases change (w.events.push (.modifier handle args)) cells args <;> rfl

theorem Walk.applyModifier_of {handle : UInt32} {change : History → Modifier}
    (hchange : setup.host.modifier? handle = some change) (args : Arguments) (w : World) :
    Walk.applyModifier (setup.scene cells) handle args w =
      match change (w.events.push (.modifier handle args)) cells args with
      | .ok attributes => Walk.setAttributes attributes
          { w with events := w.events.push (.modifier handle args) }
      | .error message => .error (.fault (.helperFailed message))
          { w with events := w.events.push (.modifier handle args) } := by
  simp only [Walk.applyModifier, Setup.scene, hchange, Walk.orUndefined_some]
  simp only [Walk.bind_apply, Walk.record_apply, Walk.get_apply]
  cases change (w.events.push (.modifier handle args)) cells args <;> rfl

theorem leads_modifier {handle : UInt32} {args : Arguments}
    (hm : Stands setup cells a (p.push (.args args)) w t m) (hk : k.linkage ≤ t.linkage)
    (hshape : k.onHandle .modifier handle code) (hcode : t.HasCode a code)
    (hserved : (setup.host.modifier? handle).isSome) :
    Leads setup .free floor n m (Walk.applyModifier (setup.scene cells) handle args w)
      fun _ w' m' =>
      Stands setup cells (a + 4 * code.length) p w' t m' := by
  obtain ⟨index, hindex, rfl⟩ := hshape
  obtain ⟨change, hchange⟩ := Option.isSome_iff_exists.mp hserved
  have hfind (u : Store) (hu : setup.Later t u) := (hu.constants hk).handles.get? hindex
  rw [Walk.applyModifier_of hchange]
  cases hresult : change (w.events.push (.modifier handle args)) cells args with
  | ok attributes =>
    rcases Exec.setAttributes_of setup cells p attributes
      { w with events := w.events.push (.modifier handle args) }
      with ⟨w', hw', hset⟩ | ⟨operation, w', hw', hset⟩
    · simp only [hw']
      refine hm.next hcode (by simp) (fun u current hu => ?_) fun m' hm' => Leads.done hm'
      rw [Exec.perform, Exec.applyModifier_of (hfind u hu) hchange, hresult]
      simp only [hset]
      rfl
    · simp only [hw']
      refine hm.fails hcode (by simp) fun u current hu => ?_
      obtain ⟨m', hm', hunwinds⟩ := hset (a + 4) u current
      rw [Exec.perform, Exec.applyModifier_of (hfind u hu) hchange, hresult]
      simp only [hm']
      exact ⟨_, m', rfl, rfl, hunwinds⟩
  | error message =>
    refine hm.fails hcode (by simp) fun u current hu => ?_
    rw [Exec.perform, Exec.applyModifier_of (hfind u hu) hchange, hresult]
    exact ⟨_, _, rfl, rfl, rfl, rfl, rfl⟩

end

end TemplateMachine
