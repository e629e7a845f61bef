import TemplateMachine.Proofs.Emission.Component

/-! Emission of code with labels.  In a frame with labels of its own, drafts are put together as
code is, and leaving the frame resolves the draft. -/

namespace TemplateMachine

namespace Drafts

variable {α β : Type} {c : BuildContext} {pre : Linkage → Prop}

/-- Code, and the draft after it. -/
theorem code_seq {x : Emit α} {f : α → Emit β} {first : Linkage → α → List Instruction → Prop}
    {spec : Linkage → β → Draft → Prop} (hpre : Persistent pre) (hx : Emits c pre x first)
    (hf : ∀ a code, Drafts c pre (f a) fun l r e =>
      first l a code → spec l r (.plain code ++ e)) :
    Drafts c pre (x >>= f) spec := by
  refine Drafts.seq hpre hx fun a d b r b' h => ?_
  by_cases hplain : ∃ code, d = Draft.plain code
  · obtain ⟨code, rfl⟩ := hplain
    refine (hf a code).mono ?_ b r b' h
    rintro n r e hspec ⟨code', heq, hcode⟩
    have hraw := congrArg Draft.raw heq
    rw [Draft.raw_plain, Draft.raw_plain] at hraw
    subst hraw
    exact hspec hcode
  · refine (hf a []).mono ?_ b r b' h
    rintro n r _ _ ⟨code, rfl, -⟩
    exact absurd ⟨code, rfl⟩ hplain

theorem op_seq {o : Opcode} {i j k : UInt32} {f : Unit → Emit β}
    {spec : Linkage → β → Draft → Prop} (hpre : Persistent pre)
    (h : Drafts c pre (f ()) fun l r e => spec l r (.instruction ⟨o, i, j, k⟩ :: e)) :
    Drafts c pre (Emit.op o i j k >>= f) spec := by
  have hop : Emits c pre (Emit.op o i j k) fun _ _ code => code = [⟨o, i, j, k⟩] :=
    Emits.op fun _ => rfl
  refine code_seq hpre hop fun _ code => h.mono ?_
  rintro l r e hspec rfl
  exact hspec

theorem jump (op : Opcode) (target : String) :
    Drafts c pre (Emit.jump op target) fun _ _ d => d = [.jump op target] := by
  rintro ⟨program, code, scopes⟩ a b' h
  cases scopes with
  | nil => cases h
  | cons scope rest =>
    cases h
    refine ⟨.refl _, fun _ l pending hl hsound _ _ =>
      ⟨l, [.jump op target], hl, l.le_refl, hsound, ?_, rfl, fun _ _ => rfl⟩⟩
    exact Array.toList_push

theorem label (name : String) :
    Drafts c pre (Emit.label name) fun _ _ d => d = [.label name] := by
  rintro ⟨program, code, scopes⟩ a b' h
  cases scopes with
  | nil => cases h
  | cons scope rest =>
    cases h
    refine ⟨.refl _, fun _ l pending hl hsound _ _ =>
      ⟨l, [.label name], hl, l.le_refl, hsound, ?_, rfl, fun _ _ => rfl⟩⟩
    exact (List.append_nil _).symm

theorem jump_seq {op : Opcode} {target : String} {f : Unit → Emit β}
    {spec : Linkage → β → Draft → Prop} (hpre : Persistent pre)
    (h : Drafts c pre (f ()) fun l r e => spec l r (.jump op target :: e)) :
    Drafts c pre (Emit.jump op target >>= f) spec := by
  refine (jump op target).seq hpre fun _ d => h.mono ?_
  rintro l r e hspec rfl
  exact hspec

theorem label_seq {name : String} {f : Unit → Emit β} {spec : Linkage → β → Draft → Prop}
    (hpre : Persistent pre)
    (h : Drafts c pre (f ()) fun l r e => spec l r (.label name :: e)) :
    Drafts c pre (Emit.label name >>= f) spec := by
  refine (label name).seq hpre fun _ d => h.mono ?_
  rintro l r e hspec rfl
  exact hspec

end Drafts

/-! ### Frames -/

namespace Draft

/-- The code of the draft with its own labels, if its first instruction has a number. -/
def assemble (start : Nat) (d : Draft) : Option (List Instruction) :=
  d.resolve (d.places start).reverse start

/-- A frame that is left through its end. -/
def frame (body : Draft) : Draft :=
  .instruction ⟨.pushFrame, 0, 0, 0⟩ :: .jump .returnTo "END" :: body ++
    [.label "END", .instruction ⟨.popFrame, 0, 0, 0⟩]

/-- Code that is skipped unless a condition is met, and the code after it. -/
def branch (op : Opcode) (main : Draft) (rest : List Instruction) : Draft :=
  .jump op "ELSE" :: main ++ .label "ELSE" :: plain rest

/-- Code that is skipped unless a condition is met, and the other code. -/
def branches (op : Opcode) (main : Draft) (other : List Instruction) : Draft :=
  .jump op "ELSE" :: main ++ .jump .jump "EXIT" :: .label "ELSE" :: plain other ++
    .label "EXIT" :: plain Coding.exitFrame

/-- The loop over the items of the iterator on the stack. -/
def loop (body : List Instruction) : Draft :=
  [.instruction ⟨.pushFrame, 0, 0, 0⟩, .jump .returnTo "ITER",
    .instruction ⟨.dup, Register.fp.number, 1, 0⟩, .jump .enterList "BODY", .label "ITER",
    .jump .iterate "BREAK", .label "BODY"] ++
  plain (body ++ ⟨.pop, 2, 0, 0⟩ :: Coding.exitFrame) ++
  [.label "BREAK", .instruction ⟨.exitList, 0, 0, 0⟩, .instruction ⟨.popFrame, 0, 0, 0⟩]

theorem places_plain_append (start : Nat) (code : List Instruction) (d : Draft) :
    (plain code ++ d).places start = d.places (start + code.length) := by
  rw [places_append, places_plain, raw_plain, List.nil_append]

theorem distance_eq {source target n : Nat} (h : target = source + n) :
    Emit.distance source target = Emit.distance 0 n := by
  subst h
  simp only [Emit.distance]
  congr 2
  omega

section

variable {op : Opcode} {values main : List Instruction} (rest : List Instruction) {start : Nat}
  {code : List Instruction}

theorem assemble_branch
    (h : (frame (plain values ++ branch op (plain main) rest)).assemble start = some code) :
    code = Coding.frame (values ++ .skip op main :: main ++ rest) := by
  simp [assemble, frame, branch, places, resolve, places_plain_append, resolve_plain,
    List.lookup_cons] at h
  subst h
  simp [Coding.frame, Instruction.skip]
  exact ⟨distance_eq (by omega), distance_eq (by omega)⟩

theorem assemble_branches
    (h : (frame (plain values ++ branches op (plain main) rest)).assemble start = some code) :
    code = Coding.frame (values ++ .skip op (main ++ [.skip .jump rest]) :: main ++
      .skip .jump rest :: rest ++ Coding.exitFrame) := by
  simp [assemble, frame, branches, places, resolve, places_plain_append, resolve_plain,
    List.lookup_cons] at h
  subst h
  simp [Coding.frame, Instruction.skip, Coding.exitFrame]
  exact ⟨distance_eq (by omega), distance_eq (by omega), distance_eq (by omega)⟩

theorem assemble_loop
    (h : (frame (plain values ++ branch op (loop main) rest)).assemble start = some code) :
    code = Coding.frame (values ++ .skip op (Coding.loop main) :: Coding.loop main ++ rest) := by
  simp [assemble, frame, branch, loop, places, resolve, places_plain_append, resolve_plain,
    List.lookup_cons] at h
  subst h
  simp [Coding.frame, Coding.loop, Instruction.skip, Coding.exitFrame]
  exact ⟨distance_eq (by omega), distance_eq (by omega), distance_eq (by omega),
    distance_eq (by omega), distance_eq (by omega)⟩

theorem assemble_loops
    (h : (frame (plain values ++ branches op (loop main) rest)).assemble start = some code) :
    code = Coding.frame (values ++ .skip op (Coding.loop main ++ [.skip .jump rest]) ::
      Coding.loop main ++ .skip .jump rest :: rest ++ Coding.exitFrame) := by
  simp [assemble, frame, branches, loop, places, resolve, places_plain_append, resolve_plain,
    List.lookup_cons] at h
  subst h
  simp [Coding.frame, Coding.loop, Instruction.skip, Coding.exitFrame]
  exact ⟨distance_eq (by omega), distance_eq (by omega), distance_eq (by omega),
    distance_eq (by omega), distance_eq (by omega), distance_eq (by omega)⟩

end

end Draft

section

variable {c : BuildContext} {pre : Linkage → Prop}

theorem program_setDistances {places : List (String × Nat)} {uses : List LabelUse} {b b' : Builder}
    {u : Unit} (h : Emit.setDistances places uses c b = .ok u b') : b'.program = b.program := by
  induction uses generalizing b with
  | nil => exact (Emit.pure_ok h).2 ▸ rfl
  | cons use rest ih =>
    obtain ⟨place, _, hfound, h⟩ := Emit.bind_ok h
    obtain ⟨-, rfl⟩ := Emit.orFail_ok hfound
    obtain ⟨_, m, hmodify, h⟩ := Emit.bind_ok h
    obtain rfl := Emit.modify_ok hmodify
    have hprogram := ih h
    exact hprogram

theorem closeLabels_ok {b b' : Builder} {u : Unit} (h : Emit.closeLabels c b = .ok u b') :
    ∃ scope rest, b.scopes = scope :: rest ∧
      Emit.setDistances scope.places scope.uses.reverse c { b with scopes := rest } = .ok u b' := by
  obtain ⟨program, code, scopes⟩ := b
  cases scopes with
  | nil => cases h
  | cons scope rest => exact ⟨scope, rest, rfl, h⟩

/-- Closing a label scope assembles the draft in it. -/
theorem emits_labels {x : Emit Unit} {spec : Linkage → Unit → Draft → Prop}
    (hx : Drafts c pre x spec) :
    Emits c pre (do Emit.openLabels; x; Emit.closeLabels) fun l r code =>
      ∃ start d, spec l r d ∧ d.assemble start = some code := by
  intro b r b' h
  obtain ⟨_, b₁, h₁, h⟩ := Emit.bind_ok h
  obtain ⟨u, b₂, h₂, h⟩ := Emit.bind_ok h
  have hb₁ := Emit.modify_ok h₁
  obtain ⟨hgrows, hdraft⟩ := hx b₁ u b₂ h₂
  obtain ⟨scope, rest, hscope, hclose⟩ := closeLabels_ok h
  have hprogram : b'.program = b₂.program := (program_setDistances hclose :)
  have hbefore : b₁.program = b.program := by rw [hb₁]
  refine ⟨hbefore ▸ hprogram ▸ hgrows, fun hfits l pending hl hsound hlayout hpre => ?_⟩
  obtain ⟨m, d, hm, hle, hsound', hcode, hscopes, hd⟩ :=
    hdraft (hprogram ▸ hfits) l pending (by rw [hb₁]; exact hl) hsound hlayout hpre
  have hscopes' : b₂.scopes =
      ⟨(d.places b.code.size).reverse, (d.uses b.code.size).reverse⟩ :: b.scopes := by
    rw [hscopes, hb₁]
    simp [Draft.extend]
  rw [hscopes', List.cons.injEq] at hscope
  obtain ⟨rfl, rfl⟩ := hscope
  rw [List.reverse_reverse, ← Array.length_toList] at hclose
  have hcode₂ : ({ b₂ with scopes := b.scopes } : Builder).code =
      (b.code.toList ++ d.raw).toArray := by
    rw [hb₁] at hcode
    rw [← hcode]
  obtain ⟨code, hresolve, rfl⟩ := Emit.setDistances_uses d _ hcode₂ hclose
  refine ⟨m, .plain code, hm, hle, hsound', by simp, (Draft.extend_plain _ _ _).symm,
    fun n hn => ?_⟩
  exact ⟨code, rfl, b.code.toList.length, d, hd n hn, hresolve⟩

theorem emits_frameWithLabels {body : Emit Unit} (spec : Linkage → Unit → Draft → Prop)
    (hpre : Persistent pre) (hbody : Drafts c pre body spec) :
    Emits c pre (Emit.frameWithLabels body) fun l r code =>
      ∃ start d, spec l r d ∧ d.frame.assemble start = some code := by
  have hframe : Drafts c pre (do
      Emit.op .pushFrame
      Emit.jump .returnTo "END"
      body
      Emit.label "END"
      Emit.op .popFrame) fun l r e => ∃ d, spec l r d ∧ e = d.frame := by
    refine Drafts.op_seq hpre (Drafts.jump_seq hpre (hbody.seq hpre fun _ d => ?_))
    have hpop : Emits c pre (Emit.op .popFrame) fun _ _ code => code = [⟨.popFrame, 0, 0, 0⟩] :=
      Emits.op fun _ => rfl
    refine Drafts.label_seq hpre (Drafts.mono hpop ?_)
    rintro l r _ ⟨_, rfl, rfl⟩ hd
    exact ⟨d, hd, rfl⟩
  have heq : Emit.frameWithLabels body = (do
      Emit.openLabels
      (do
        Emit.op .pushFrame
        Emit.jump .returnTo "END"
        body
        Emit.label "END"
        Emit.op .popFrame : Emit Unit)
      Emit.closeLabels) := by
    simp only [Emit.frameWithLabels, bind_assoc]
  rw [heq]
  refine (emits_labels hframe).mono ?_
  rintro l r code ⟨start, _, ⟨d, hd, rfl⟩, hcode⟩
  exact ⟨start, d, hd, hcode⟩

end

end TemplateMachine
