import TemplateMachine.Proofs.Emission.Labels

/-! Emission of the forms that are frames: values that may be components, and block forms. -/

namespace TemplateMachine

section

variable {c : BuildContext} {pre : Linkage → Prop}

theorem emits_exitFrame :
    Emits c pre Emit.exitFrame fun _ _ code => code = Coding.exitFrame :=
  Emits.op_seq (Emits.op fun _ => rfl)

/-- What an invocation without arguments and blocks asks of linkages. -/
theorem Linkage.knowsAll_empty (l : Linkage) : l.KnowsAll {} := ⟨nofun, nofun, nofun⟩

theorem emits_guardedAppend (hc : c.Faithful) {value : Expression}
    (hvalue : c.wellFormed → value.wellFormed) (trusting : Bool) :
    Emits c pre (Emit.guardedAppend value trusting) fun l _ code =>
      (c.coding l).guardedAppend value trusting code := by
  have hpre := Persistent.true
  refine Emits.strengthen (?_ : Emits c (fun _ => True) _ _) fun _ _ => trivial
  refine (emits_frameWithLabels (fun l _ d => ∃ push find invoke,
    (c.coding l).expression value push ∧
    (c.coding l).onReferer .pushDynamicComponentManager find ∧
    (c.coding l).genericComponent {} none invoke ∧
    d = Draft.plain (push ++ [⟨.dup, Register.sp.number, 0, 0⟩, ⟨.isComponent, 0, 0, 0⟩,
      ⟨.enter, 2, 0, 0⟩]) ++ Draft.branch .jumpUnless
        (Draft.plain (find ++ invoke ++ Coding.exitFrame))
        (⟨.dynamicContent, trusting.toUInt32, 0, 0⟩ :: Coding.exitFrame)) hpre ?_).mono ?_
  · refine Drafts.code_seq hpre (emits_expression hpre value hvalue) fun _ push => ?_
    refine Drafts.op_seq hpre (Drafts.op_seq hpre (Drafts.op_seq hpre (Drafts.jump_seq hpre ?_)))
    refine Drafts.code_seq hpre (emits_onReferer hpre .pushDynamicComponentManager)
      fun _ find => ?_
    refine Drafts.code_seq hpre ((emits_invokeComponent (i := {}) none hc
      ⟨fun _ => rfl, fun _ => rfl, nofun, nofun, nofun⟩ nofun).strengthen
      fun l _ => ⟨l.knowsAll_empty, nofun⟩) fun _ invoke => ?_
    refine Drafts.code_seq hpre emits_exitFrame fun _ exit => Drafts.label_seq hpre ?_
    refine Drafts.op_seq hpre (Drafts.mono emits_exitFrame ?_)
    rintro l _ _ ⟨_, rfl, rfl⟩ rfl hinvoke hfind hpush
    exact ⟨push, find, invoke, hpush, hfind, hinvoke, by simp [Draft.branch]⟩
  · rintro l _ code ⟨start, _, ⟨push, find, invoke, hpush, hfind, hinvoke, rfl⟩, hcode⟩
    refine ⟨push, find, invoke, hpush, hfind, hinvoke, ?_⟩
    rw [Draft.assemble_branch _ hcode]
    simp

theorem emits_dynamicComponent (hc : c.Faithful) {definition : Expression}
    (hdefinition : c.wellFormed → definition.wellFormed) {i : Invocation} (hi : i.Regular c) :
    Emits c (fun l => l.KnowsAll i) (Emit.dynamicComponent definition i) fun l _ code =>
      (c.coding l).dynamicComponent definition i code := by
  have hpre := Persistent.knowsAll i
  refine (emits_frameWithLabels (fun l _ d => ∃ push find invoke,
    (c.coding l).expression definition push ∧
    (c.coding l).onReferer .pushDynamicComponentManager find ∧
    (c.coding l).genericComponent i none invoke ∧
    d = Draft.plain (push ++ [⟨.dup, Register.sp.number, 0, 0⟩, ⟨.enter, 2, 0, 0⟩]) ++
      Draft.branch .jumpUnless (Draft.plain (find ++ invoke)) Coding.exitFrame) hpre ?_).mono ?_
  · refine Drafts.code_seq hpre (emits_expression hpre definition hdefinition) fun _ push => ?_
    refine Drafts.op_seq hpre (Drafts.op_seq hpre (Drafts.jump_seq hpre ?_))
    refine Drafts.code_seq hpre (emits_onReferer hpre .pushDynamicComponentManager)
      fun _ find => ?_
    refine Drafts.code_seq hpre ((emits_invokeComponent none hc hi nofun).strengthen
      fun l hl => ⟨hl, nofun⟩) fun _ invoke => Drafts.label_seq hpre ?_
    refine Drafts.mono emits_exitFrame ?_
    rintro l _ _ ⟨_, rfl, rfl⟩ hinvoke hfind hpush
    exact ⟨push, find, invoke, hpush, hfind, hinvoke, by simp [Draft.branch]⟩
  · rintro l _ code ⟨start, _, ⟨push, find, invoke, hpush, hfind, hinvoke, rfl⟩, hcode⟩
    refine ⟨push, find, invoke, hpush, hfind, hinvoke, ?_⟩
    rw [Draft.assemble_branch _ hcode]
    simp

/-! ### Block forms -/

/-- The end of a conditional form as a draft. -/
def Coding.elseDraft (k : Coding) (inverse : Option Fragment) (d : Draft) : Prop :=
  match inverse with
  | some f =>
    ∃ other, k.staticBlock f 0 other ∧
      d = .jump .jump "EXIT" :: .label "ELSE" :: Draft.plain other ++
        .label "EXIT" :: Draft.plain Coding.exitFrame
  | none => d = .label "ELSE" :: Draft.plain Coding.exitFrame

theorem drafts_elseBranch (hc : c.Faithful) {inverse : Option Fragment}
    (hinverse : Fragment.AllRegular inverse) :
    Drafts c (fun l => l.knows inverse) (Emit.elseBranch inverse) fun l _ d =>
      (c.coding l).elseDraft inverse d := by
  have hpre := Persistent.knows inverse
  cases inverse with
  | none =>
    refine Drafts.label_seq hpre (Drafts.mono emits_exitFrame ?_)
    rintro l _ _ ⟨_, rfl, rfl⟩
    rfl
  | some f =>
    refine Drafts.jump_seq hpre (Drafts.label_seq hpre ?_)
    refine Drafts.code_seq hpre ((emits_invokeStaticBlock hc (hinverse f rfl) 0).strengthen
      fun l hl => Linkage.knows_some hl) fun _ other => Drafts.label_seq hpre ?_
    refine Drafts.mono emits_exitFrame ?_
    rintro l _ _ ⟨_, rfl, rfl⟩ hother
    exact ⟨other, hother, rfl⟩

theorem blockForm_of_plain {k : Coding} {op : Opcode} {inverse : Option Fragment}
    {values main code : List Instruction} {d : Draft} {start : Nat} (hd : k.elseDraft inverse d)
    (h : (Draft.frame
      (Draft.plain values ++ .jump op "ELSE" :: Draft.plain main ++ d)).assemble start =
      some code) : k.blockForm op inverse values main code := by
  cases inverse with
  | none =>
    obtain rfl : d = _ := hd
    have hcode := Draft.assemble_branch Coding.exitFrame (by simpa [Draft.branch] using h)
    exact ⟨_, rfl, by simpa using hcode⟩
  | some f =>
    obtain ⟨other, hother, rfl⟩ := hd
    have hcode := Draft.assemble_branches other (by simpa [Draft.branches] using h)
    exact ⟨_, ⟨other, hother, rfl⟩, by simpa using hcode⟩

theorem blockForm_of_loop {k : Coding} {op : Opcode} {inverse : Option Fragment}
    {values body code : List Instruction} {d : Draft} {start : Nat} (hd : k.elseDraft inverse d)
    (h : (Draft.frame
      (Draft.plain values ++ .jump op "ELSE" :: Draft.loop body ++ d)).assemble start =
      some code) : k.blockForm op inverse values (Coding.loop body) code := by
  cases inverse with
  | none =>
    obtain rfl : d = _ := hd
    have hcode := Draft.assemble_loop Coding.exitFrame (by simpa [Draft.branch] using h)
    exact ⟨_, rfl, by simpa using hcode⟩
  | some f =>
    obtain ⟨other, hother, rfl⟩ := hd
    have hcode := Draft.assemble_loops other (by simpa [Draft.branches] using h)
    exact ⟨_, ⟨other, hother, rfl⟩, by simpa using hcode⟩

/-- The blocks of a block statement are known. -/
structure Linkage.KnowsBlocks (l : Linkage) (call : BlockCall) : Prop where
  template : l.knows call.template
  inverse : l.knows call.inverse

theorem Persistent.knowsBlocks (call : BlockCall) : Persistent fun l => l.KnowsBlocks call :=
  fun l m h hl => ⟨Persistent.knows _ l m h hl.template, Persistent.knows _ l m h hl.inverse⟩

/-- The arguments of a block statement are well-formed if the template is, and its blocks are
regular. -/
structure BlockCall.Regular (c : BuildContext) (call : BlockCall) : Prop where
  params : c.wellFormed → Expression.paramsWellFormed call.params
  hash : c.wellFormed → Expression.hashWellFormed call.hash
  template : Fragment.AllRegular call.template
  inverse : Fragment.AllRegular call.inverse

theorem BlockCall.Regular.param {call : BlockCall} (h : call.Regular c) {e : Expression}
    (he : call.params = some [e]) (hc : c.wellFormed) : e.wellFormed := by
  have := h.params hc
  rw [he] at this
  simp only [Expression.paramsWellFormed, Expression.allWellFormed, Bool.and_eq_true] at this
  exact this.2.1

/-- A block form takes one parameter and a main block. -/
theorem emits_single {call : BlockCall} {f : Expression → Fragment → Emit Unit}
    {spec : Linkage → Unit → List Instruction → Prop}
    (h : ∀ param main, call.params = some [param] → call.template = some main →
      Emits c pre (f param main) spec) :
    Emits c pre (do
      let param ← Emit.onlyParam call
      let main ← Emit.mainBlock call
      f param main) spec := by
  obtain ⟨name, params, hash, template, inverse⟩ := call
  rcases params with _ | _ | ⟨param, _ | ⟨other, rest⟩⟩
  · exact Emits.fail
  · exact Emits.fail
  · cases template with
    | none => exact Emits.fail
    | some main => exact h param main rfl rfl
  · exact Emits.fail

theorem emits_conditional (hc : c.Faithful) (skip : Opcode) {call : BlockCall}
    (hcall : call.Regular c) :
    Emits c (fun l => l.KnowsBlocks call) (Emit.conditional skip call) fun l _ code =>
      Coding.single call fun e main => (c.coding l).conditional skip e main call.inverse code := by
  have hpre := Persistent.knowsBlocks call
  refine emits_single fun condition main hcondition hmain => ?_
  refine (emits_frameWithLabels (fun l _ d => ∃ value body rest,
    (c.coding l).expression condition value ∧ (c.coding l).staticBlock main 0 body ∧
    (c.coding l).elseDraft call.inverse rest ∧
    d = Draft.plain (value ++ [⟨.toBoolean, 0, 0, 0⟩, ⟨.enter, 1, 0, 0⟩]) ++
      .jump skip "ELSE" :: Draft.plain body ++ rest) hpre ?_).mono ?_
  · refine Drafts.code_seq hpre (emits_expression hpre condition (hcall.param hcondition))
      fun _ value => ?_
    refine Drafts.op_seq hpre (Drafts.op_seq hpre (Drafts.jump_seq hpre ?_))
    refine Drafts.code_seq hpre
      ((emits_invokeStaticBlock hc (hcall.template main hmain) 0).strengthen
      fun l hl => hl.template main hmain) fun _ body => ?_
    refine ((drafts_elseBranch hc hcall.inverse).strengthen fun l hl => hl.inverse).mono ?_
    rintro l _ rest hrest hbody hvalue
    exact ⟨value, body, rest, hvalue, hbody, hrest, by simp⟩
  · rintro l _ code ⟨start, _, ⟨value, body, rest, hvalue, hbody, hrest, rfl⟩, hcode⟩
    simp only [Coding.single, hcondition, hmain]
    exact ⟨value, body, hvalue, hbody, blockForm_of_plain hrest hcode⟩

theorem emits_withBlock (hc : c.Faithful) {call : BlockCall} (hcall : call.Regular c) :
    Emits c (fun l => l.KnowsBlocks call) (Emit.withBlock call) fun l _ code =>
      Coding.single call fun e main => (c.coding l).withBlock e main call.inverse code := by
  have hpre := Persistent.knowsBlocks call
  refine emits_single fun value main hvalue hmain => ?_
  refine (emits_frameWithLabels (fun l _ d => ∃ push body rest,
    (c.coding l).expression value push ∧ (c.coding l).staticBlock main 1 body ∧
    (c.coding l).elseDraft call.inverse rest ∧
    d = Draft.plain (push ++ [⟨.dup, Register.sp.number, 0, 0⟩, ⟨.toBoolean, 0, 0, 0⟩,
      ⟨.enter, 2, 0, 0⟩]) ++ .jump .jumpUnless "ELSE" :: Draft.plain body ++ rest) hpre ?_).mono ?_
  · refine Drafts.code_seq hpre (emits_expression hpre value (hcall.param hvalue)) fun _ push => ?_
    refine Drafts.op_seq hpre (Drafts.op_seq hpre (Drafts.op_seq hpre (Drafts.jump_seq hpre ?_)))
    refine Drafts.code_seq hpre
      ((emits_invokeStaticBlock hc (hcall.template main hmain) 1).strengthen
      fun l hl => hl.template main hmain) fun _ body => ?_
    refine ((drafts_elseBranch hc hcall.inverse).strengthen fun l hl => hl.inverse).mono ?_
    rintro l _ rest hrest hbody hpush
    exact ⟨push, body, rest, hpush, hbody, hrest, by simp⟩
  · rintro l _ code ⟨start, _, ⟨push, body, rest, hpush, hbody, hrest, rfl⟩, hcode⟩
    simp only [Coding.single, hvalue, hmain]
    exact ⟨push, body, hpush, hbody, blockForm_of_plain hrest hcode⟩

theorem BlockCall.Regular.key {call : BlockCall} (h : call.Regular c) {e : Expression}
    (he : Compilable.key? call = some e) (hc : c.wellFormed) : e.wellFormed := by
  obtain ⟨hash, hhash, hget⟩ := Option.bind_eq_some_iff.mp he
  have := h.hash hc
  rw [hhash] at this
  exact Hash.wellFormed_of_get? this hget

theorem emits_eachBlock (hc : c.Faithful) {call : BlockCall} (hcall : call.Regular c) :
    Emits c (fun l => l.KnowsBlocks call) (Emit.eachBlock call) fun l _ code =>
      Coding.single call fun e main =>
        (c.coding l).eachBlock (Compilable.key? call) e main call.inverse code := by
  have hpre := Persistent.knowsBlocks call
  refine emits_single fun list main hlist hmain => ?_
  refine (emits_frameWithLabels (fun l _ d => ∃ keys push body rest,
    (c.coding l).keyCode (Compilable.key? call) keys ∧ (c.coding l).expression list push ∧
    (c.coding l).staticBlock main 2 body ∧ (c.coding l).elseDraft call.inverse rest ∧
    d = Draft.plain (keys ++ push ++ [⟨.enter, 2, 0, 0⟩, ⟨.putIterator, 0, 0, 0⟩]) ++
      .jump .jumpUnless "ELSE" :: Draft.loop body ++ rest) hpre ?_).mono ?_
  · have hrest (keys : List Instruction) : Drafts c (fun l => l.KnowsBlocks call)
        (Emit.iteration list main call.inverse) fun l _ d => ∃ push body rest,
          (c.coding l).expression list push ∧ (c.coding l).staticBlock main 2 body ∧
          (c.coding l).elseDraft call.inverse rest ∧
          Draft.plain keys ++ d = Draft.plain (keys ++ push ++ [⟨.enter, 2, 0, 0⟩,
            ⟨.putIterator, 0, 0, 0⟩]) ++ .jump .jumpUnless "ELSE" :: Draft.loop body ++ rest := by
      refine Drafts.code_seq hpre (emits_expression hpre list (hcall.param hlist)) fun _ push => ?_
      refine Drafts.op_seq hpre (Drafts.op_seq hpre (Drafts.jump_seq hpre ?_))
      refine Drafts.op_seq hpre (Drafts.jump_seq hpre (Drafts.op_seq hpre ?_))
      refine Drafts.jump_seq hpre (Drafts.label_seq hpre (Drafts.jump_seq hpre ?_))
      refine Drafts.label_seq hpre ?_
      refine Drafts.code_seq hpre
        ((emits_invokeStaticBlock hc (hcall.template main hmain) 2).strengthen
        fun l hl => hl.template main hmain) fun _ body => Drafts.op_seq hpre ?_
      refine Drafts.code_seq hpre emits_exitFrame fun _ exit => Drafts.label_seq hpre ?_
      refine Drafts.op_seq hpre (Drafts.op_seq hpre ?_)
      refine ((drafts_elseBranch hc hcall.inverse).strengthen fun l hl => hl.inverse).mono ?_
      rintro l _ rest hrest rfl hbody hpush
      exact ⟨push, body, rest, hpush, hbody, hrest, by simp [Draft.loop]⟩
    cases hkey : call.hash.bind fun hash => hash.get? "key" with
    | none =>
      refine Drafts.code_seq hpre (emits_reference hpre .null) fun _ keys => (hrest keys).mono ?_
      rintro l _ d ⟨push, body, rest, hpush, hbody, hrest, hd⟩ hkeys
      rw [show Compilable.key? call = none from hkey]
      exact ⟨keys, push, body, rest, hkeys, hpush, hbody, hrest, hd⟩
    | some key =>
      refine Drafts.code_seq hpre (emits_expression hpre key (hcall.key hkey))
        fun _ keys => (hrest keys).mono ?_
      rintro l _ d ⟨push, body, rest, hpush, hbody, hrest, hd⟩ hkeys
      rw [show Compilable.key? call = some key from hkey]
      exact ⟨keys, push, body, rest, hkeys, hpush, hbody, hrest, hd⟩
  · rintro l _ code ⟨start, _, ⟨keys, push, body, rest, hkeys, hpush, hbody, hrest, rfl⟩, hcode⟩
    simp only [Coding.single, hlist, hmain]
    exact ⟨keys, push, body, hkeys, hpush, hbody, blockForm_of_loop hrest hcode⟩

end

end TemplateMachine
