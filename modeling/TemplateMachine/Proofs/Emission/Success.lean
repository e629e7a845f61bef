import TemplateMachine.Proofs.Emission.Draft
import TemplateMachine.Proofs.Walk.Compilable
import TemplateMachine.Compile.Link

/-! Emission that succeeds.  Lazily compiled code links nothing while it is emitted, so
whether it can be emitted is a matter of the fragment alone.  Eagerly it may matter
what has a handle already. -/

namespace TemplateMachine

/-- The program has a handle for each of some fragments. -/
def Program.Has (p : Program) (held : FragmentId → Prop) : Prop :=
  ∀ id, held id → (p.linked? id).isSome

/-- The step gives a result, whatever the builder, if the program has some handles.  It keeps those
and leaves the label scopes alone. -/
def Works {α : Type} (c : BuildContext) (held : FragmentId → Prop) (x : Emit α)
    (result : α → Prop) : Prop :=
  ∀ b : Builder, b.program.Has held →
    ∃ a b', x c b = .ok a b' ∧ b'.scopes = b.scopes ∧ b'.program.Has held ∧ result a

/-- The labels of a scope have places. -/
def LabelScope.Has (scope : LabelScope) (label : String) : Prop :=
  (scope.places.lookup label).isSome

/-- Within a label scope the step gives a result; it uses some labels and places some. -/
def Jumps (c : BuildContext) (held : FragmentId → Prop) (x : Emit Unit)
    (uses places : List String) : Prop :=
  ∀ b scope rest, b.scopes = scope :: rest → b.program.Has held →
    ∃ b' scope', x c b = .ok () b' ∧ b'.scopes = scope' :: rest ∧ b'.program.Has held ∧
      (∀ u ∈ scope'.uses, u ∈ scope.uses ∨ u.label ∈ uses) ∧
      ∀ label, label ∈ places ∨ scope.Has label → scope'.Has label

/-- Nothing is asked of the result. -/
def anything {α : Type} : α → Prop := fun _ => True

section

variable {α β : Type} {c : BuildContext} {held : FragmentId → Prop} {x : Emit α} {f : α → Emit β}
variable {result : α → Prop}

namespace Works

theorem pure {a : α} (h : result a) : Works c held (Pure.pure a) result :=
  fun b hb => ⟨a, b, rfl, rfl, hb, h⟩

theorem bind {next : β → Prop} (hx : Works c held x result)
    (hf : ∀ a, result a → Works c held (f a) next) : Works c held (x >>= f) next := by
  intro b hb
  obtain ⟨a, b₁, h₁, hscopes, hb₁, ha⟩ := hx b hb
  obtain ⟨r, b₂, h₂, hscopes', hb₂, hr⟩ := hf a ha b₁ hb₁
  refine ⟨r, b₂, ?_, hscopes'.trans hscopes, hb₂, hr⟩
  rw [Emit.bind_apply, h₁]
  exact h₂

theorem seq {next : β → Prop} (hx : Works c held x result) (hf : ∀ a, Works c held (f a) next) :
    Works c held (x >>= f) next :=
  hx.bind fun a _ => hf a

/-- What a step does that goes by the context. -/
theorem reads {f : BuildContext → Emit α} (h : Works c held (f c) result) :
    Works c held (read >>= f) result := h

theorem op {o : Opcode} {i j k : UInt32} : Works c held (Emit.op o i j k) anything :=
  fun _ hb => ⟨(), _, rfl, rfl, hb, trivial⟩

theorem onConstants {γ : Type} {add : Constants → γ × Constants} :
    Works c held (Emit.onConstants add) anything :=
  fun _ hb => ⟨_, _, rfl, rfl, hb, trivial⟩

theorem orFail {v : Option α} {e : CompileError} {a : α} {next : β → Prop} (hv : v = some a)
    (hf : Works c held (f a) next) : Works c held (Emit.orFail v e >>= f) next := by
  subst hv
  exact hf

theorem resolve {find : Lookup → String → String → Option UInt32} {name : String} :
    Works c held (Emit.resolve find name) (· = find c.lookup name c.layout.referer) :=
  fun b hb => ⟨_, b, rfl, rfl, hb, rfl⟩

theorem newFragment (make : FragmentId → Layout → Fragment) :
    Works c held (Emit.newFragment make) anything :=
  fun _ hb => ⟨_, _, rfl, rfl, hb, trivial⟩

end Works

namespace Jumps

variable {g : Unit → Emit Unit} {uses places : List String}

theorem seq {y : Emit Unit} {uses' places' : List String} (hx : Jumps c held y uses places)
    (hg : Jumps c held (g ()) uses' places') :
    Jumps c held (y >>= g) (uses ++ uses') (places ++ places') := by
  intro b scope rest hb hheld
  obtain ⟨b₁, scope₁, h₁, hscopes₁, hheld₁, huses₁, hplaces₁⟩ := hx b scope rest hb hheld
  obtain ⟨b₂, scope₂, h₂, hscopes₂, hheld₂, huses₂, hplaces₂⟩ := hg b₁ scope₁ rest hscopes₁ hheld₁
  refine ⟨b₂, scope₂, ?_, hscopes₂, hheld₂, fun u hu => ?_, fun label hlabel => ?_⟩
  · rw [Emit.bind_apply, h₁]
    exact h₂
  · rcases huses₂ u hu with hu | hu
    · exact (huses₁ u hu).imp_right fun h => List.mem_append_left _ h
    · exact .inr (List.mem_append_right _ hu)
  · refine hplaces₂ label ?_
    rcases hlabel with hlabel | hlabel
    · rcases List.mem_append.mp hlabel with hlabel | hlabel
      · exact .inr (hplaces₁ label (.inl hlabel))
      · exact .inl hlabel
    · exact .inr (hplaces₁ label (.inr hlabel))

theorem of_works {x : Emit Unit} {result : Unit → Prop} (hx : Works c held x result) :
    Jumps c held x [] [] := by
  intro b scope rest hb hheld
  obtain ⟨a, b', h, hscopes, hheld', -⟩ := hx b hheld
  exact ⟨b', scope, h, hscopes.trans hb, hheld', fun u hu => .inl hu, fun label hlabel =>
    hlabel.elim (by simp) id⟩

theorem code_seq {x : Emit α} {f : α → Emit Unit} (hx : Works c held x result)
    (hf : ∀ a, result a → Jumps c held (f a) uses places) : Jumps c held (x >>= f) uses places := by
  intro b scope rest hb hheld
  obtain ⟨a, b₁, h₁, hscopes, hheld₁, ha⟩ := hx b hheld
  obtain ⟨b₂, scope₂, h₂, hrest⟩ := hf a ha b₁ scope rest (hscopes.trans hb) hheld₁
  refine ⟨b₂, scope₂, ?_, hrest⟩
  rw [Emit.bind_apply, h₁]
  exact h₂

theorem jump (o : Opcode) (target : String) : Jumps c held (Emit.jump o target) [target] [] := by
  rintro ⟨program, code, scopes⟩ scope rest rfl hheld
  refine ⟨_, _, rfl, rfl, hheld, fun u hu => ?_, fun label hlabel => hlabel.elim (by simp) id⟩
  rcases List.mem_cons.mp hu with rfl | hu
  · exact .inr (.head _)
  · exact .inl hu

theorem label (name : String) : Jumps c held (Emit.label name) [] [name] := by
  rintro ⟨program, code, scopes⟩ scope rest rfl hheld
  refine ⟨_, _, rfl, rfl, hheld, fun u hu => .inl hu, fun label hlabel => ?_⟩
  show (List.lookup label ((name, code.size) :: scope.places)).isSome
  rw [List.lookup_cons]
  by_cases heq : label = name
  · subst heq
    simp
  · rw [beq_false_of_ne heq]
    rcases hlabel with hlabel | hlabel
    · exact absurd (List.mem_singleton.mp hlabel) heq
    · exact hlabel

end Jumps

theorem works_setDistances (places : List (String × Nat)) (uses : List LabelUse)
    (h : ∀ u ∈ uses, (places.lookup u.label).isSome) :
    Works c held (Emit.setDistances places uses) anything := by
  induction uses with
  | nil => exact Works.pure trivial
  | cons u uses ih =>
    obtain ⟨position, target⟩ := u
    obtain ⟨place, hplace⟩ := Option.isSome_iff_exists.mp (h _ (.head _))
    refine Works.orFail hplace ?_
    have hfirst : Works c held (modify fun b : Builder => { b with
        code := b.code.modify position fun i =>
          { i with a := Emit.distance position place } }) anything :=
      fun _ hb => ⟨(), _, rfl, rfl, hb, trivial⟩
    exact hfirst.seq fun _ => ih fun u hu => h u (.tail _ hu)

/-- A frame whose labels all have places. -/
theorem works_frameWithLabels {body : Emit Unit} (uses places : List String)
    (hbody : Jumps c held body uses places) (hplaces : uses ⊆ "END" :: places) :
    Works c held (Emit.frameWithLabels body) anything := by
  have hjumps : Jumps c held (do
      Emit.op .pushFrame
      Emit.jump .returnTo "END"
      body
      Emit.label "END"
      Emit.op .popFrame) (["END"] ++ (uses ++ ([] ++ []))) ([] ++ (places ++ (["END"] ++ []))) :=
    Jumps.code_seq Works.op fun _ _ => (Jumps.jump .returnTo "END").seq
      (hbody.seq ((Jumps.label "END").seq (.of_works Works.op)))
  rw [List.append_nil, List.append_nil, List.append_nil, List.nil_append] at hjumps
  intro b hheld
  obtain ⟨b₁, scope, h₁, hscopes, hheld₁, huses, hhas⟩ :=
    hjumps { b with scopes := {} :: b.scopes } {} b.scopes rfl hheld
  obtain ⟨_, b₂, h₂, hscopes₂, hheld₂, -⟩ := works_setDistances (c := c) scope.places
    scope.uses.reverse (fun u hu => by
      rcases huses u (List.mem_reverse.mp hu) with hu | hu
      · cases hu
      · refine hhas u.label (.inl ?_)
        rcases List.mem_cons.mp hu with hu | hu
        · simp [hu]
        · rcases List.mem_cons.mp (hplaces hu) with hu | hu
          · simp [hu]
          · exact List.mem_append_left _ hu) { b₁ with scopes := b.scopes } hheld₁
  refine ⟨(), b₂, ?_, hscopes₂, hheld₂, trivial⟩
  have hclose : Emit.closeLabels c b₁ = .ok () b₂ := by
    obtain ⟨program, code, scopes⟩ := b₁
    obtain rfl : scopes = scope :: b.scopes := hscopes
    exact h₂
  have hframe : Emit.frameWithLabels body c b = ((do
      Emit.op .pushFrame
      Emit.jump .returnTo "END"
      body
      Emit.label "END"
      Emit.op .popFrame : Emit Unit) >>= fun _ => Emit.closeLabels) c
        { b with scopes := {} :: b.scopes } := by
    simp only [bind_assoc]
    rfl
  rw [hframe, Emit.bind_apply, h₁]
  exact hclose

end

end TemplateMachine
