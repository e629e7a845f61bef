import TemplateMachine.Compile.Statement

/-! Code in which labels are still names.  A builder keeps the jumps and the labels of its innermost
scope; closing the scope gives every jump its distance, at once and in one pass. -/

namespace TemplateMachine

inductive Piece where
  | instruction (i : Instruction)
  /-- A jump to a label. -/
  | jump (op : Opcode) (target : String)
  /-- A label before the next instruction. -/
  | label (name : String)

abbrev Draft := List Piece

namespace Draft

/-- Code without jumps to labels. -/
def plain (code : List Instruction) : Draft := code.map .instruction

/-- The code before jumps have distances. -/
def raw : Draft → List Instruction
  | [] => []
  | .instruction i :: d => i :: raw d
  | .jump op _ :: d => ⟨op, 0, 0, 0⟩ :: raw d
  | .label _ :: d => raw d

/-- The jumps, in order, of a draft whose first instruction has a number. -/
def uses (start : Nat) : Draft → List LabelUse
  | [] => []
  | .instruction _ :: d => uses (start + 1) d
  | .jump _ target :: d => ⟨start, target⟩ :: uses (start + 1) d
  | .label _ :: d => uses start d

/-- The labels, in order, with the numbers of the instructions that follow. -/
def places (start : Nat) : Draft → List (String × Nat)
  | [] => []
  | .instruction _ :: d => places (start + 1) d
  | .jump _ _ :: d => places (start + 1) d
  | .label name :: d => (name, start) :: places start d

/-- The label scopes after a draft is emitted. -/
def extend (start : Nat) (d : Draft) : List LabelScope → List LabelScope
  | [] => []
  | scope :: rest =>
    ⟨(d.places start).reverse ++ scope.places, (d.uses start).reverse ++ scope.uses⟩ :: rest

/-- The code with the distances of all jumps, if their labels are known. -/
def resolve (places : List (String × Nat)) (start : Nat) : Draft → Option (List Instruction)
  | [] => some []
  | .instruction i :: d => (resolve places (start + 1) d).map (i :: ·)
  | .jump op target :: d =>
    (places.lookup target).bind fun place =>
      (resolve places (start + 1) d).map (⟨op, Emit.distance start place, 0, 0⟩ :: ·)
  | .label _ :: d => resolve places start d

@[simp] theorem raw_append (d e : Draft) : raw (d ++ e) = raw d ++ raw e := by
  induction d with
  | nil => rfl
  | cons p d ih => cases p <;> simp [raw, ih]

@[simp] theorem raw_plain (code : List Instruction) : (plain code).raw = code := by
  induction code with
  | nil => rfl
  | cons i code ih => exact congrArg (i :: ·) ih

theorem uses_append (start : Nat) (d e : Draft) :
    uses start (d ++ e) = uses start d ++ uses (start + d.raw.length) e := by
  induction d generalizing start with
  | nil => rfl
  | cons p d ih =>
    cases p <;> simp [uses, raw, ih, Nat.add_assoc, Nat.add_comm 1]

theorem places_append (start : Nat) (d e : Draft) :
    places start (d ++ e) = places start d ++ places (start + d.raw.length) e := by
  induction d generalizing start with
  | nil => rfl
  | cons p d ih =>
    cases p <;> simp [places, raw, ih, Nat.add_assoc, Nat.add_comm 1]

@[simp] theorem uses_plain (start : Nat) (code : List Instruction) :
    (plain code).uses start = [] := by
  induction code generalizing start with
  | nil => rfl
  | cons i code ih => exact ih (start + 1)

@[simp] theorem places_plain (start : Nat) (code : List Instruction) :
    (plain code).places start = [] := by
  induction code generalizing start with
  | nil => rfl
  | cons i code ih => exact ih (start + 1)

@[simp] theorem plain_append (first second : List Instruction) :
    plain (first ++ second) = plain first ++ plain second := List.map_append

@[simp] theorem plain_nil : plain [] = [] := rfl

@[simp] theorem plain_cons (i : Instruction) (code : List Instruction) :
    plain (i :: code) = .instruction i :: plain code := rfl

theorem extend_plain (start : Nat) (code : List Instruction) (scopes : List LabelScope) :
    (plain code).extend start scopes = scopes := by
  cases scopes <;> simp [extend]

theorem extend_append (start : Nat) (d e : Draft) (scopes : List LabelScope) :
    extend start (d ++ e) scopes = extend (start + d.raw.length) e (extend start d scopes) := by
  cases scopes <;> simp [extend, uses_append, places_append]

theorem resolve_plain (places : List (String × Nat)) (start : Nat) (code : List Instruction)
    (d : Draft) :
    resolve places start (plain code ++ d) =
      (resolve places (start + code.length) d).map (code ++ ·) := by
  induction code generalizing start with
  | nil => simp
  | cons i code ih =>
    show (resolve places (start + 1) (plain code ++ d)).map (i :: ·) = _
    rw [ih, Option.map_map, List.length_cons, Nat.add_assoc, Nat.add_comm 1]
    rfl

end Draft

theorem List.modify_append_length {α : Type} (first rest : List α) (a : α) (f : α → α) :
    (first ++ a :: rest).modify first.length f = first ++ f a :: rest := by
  induction first with
  | nil => rfl
  | cons b first ih => exact congrArg (b :: ·) ih

/-- The iteration of a block form, once its keys are on the stack. -/
def Emit.iteration (list : Expression) (main : Fragment) (inverse : Option Fragment) :
    Emit Unit := do
  expression list
  op .enter 2
  op .putIterator
  jump .jumpUnless "ELSE"
  op .pushFrame
  jump .returnTo "ITER"
  op .dup Register.fp.number 1
  jump .enterList "BODY"
  label "ITER"
  jump .iterate "BREAK"
  label "BODY"
  invokeStaticBlock main 2
  op .pop 2
  exitFrame
  label "BREAK"
  op .exitList
  op .popFrame
  elseBranch inverse

theorem Emit.eachBlock_eq (call : BlockCall) :
    Emit.eachBlock call = (do
      let list ← onlyParam call
      let main ← mainBlock call
      frameWithLabels do
        match call.hash.bind fun hash => hash.get? "key" with
        | some key => do
          expression key
          iteration list main call.inverse
        | none => do
          primitiveReference .null
          iteration list main call.inverse) := rfl

namespace Emit

variable {α β : Type} {c : BuildContext} {b b' : Builder}

theorem bind_apply (x : Emit α) (f : α → Emit β) (b : Builder) :
    (x >>= f) c b =
      match x c b with
      | .ok a b' => f a c b'
      | .error e b' => .error e b' := by
  show EStateM.bind (x c) (fun a => f a c) b = _
  unfold EStateM.bind
  cases x c b <;> rfl

theorem bind_ok {x : Emit α} {f : α → Emit β} {r : β} (h : (x >>= f) c b = .ok r b') :
    ∃ a m, x c b = .ok a m ∧ f a c m = .ok r b' := by
  simp only [bind, ReaderT.bind, EStateM.bind] at h
  split at h
  · exact ⟨_, _, ‹_›, h⟩
  · cases h

theorem pure_ok {a r : α} (h : (pure a : Emit α) c b = .ok r b') : a = r ∧ b = b' := by
  simpa [pure, ReaderT.pure, EStateM.pure] using h

theorem modify_ok {change : Builder → Builder} {u : Unit}
    (h : (modify change : Emit Unit) c b = .ok u b') : b' = change b := by
  cases h
  rfl

theorem orFail_ok {value : Option α} {error : CompileError} {r : α}
    (h : orFail value error c b = .ok r b') : value = some r ∧ b = b' := by
  cases value with
  | none => cases h
  | some a =>
    obtain ⟨rfl, rfl⟩ := pure_ok h
    exact ⟨rfl, rfl⟩

/-- Giving the jumps of a draft their distances resolves the draft. -/
theorem setDistances_uses {places : List (String × Nat)} (d : Draft) (before : List Instruction)
    {u : Unit} (hb : b.code = (before ++ d.raw).toArray)
    (h : setDistances places (d.uses before.length) c b = .ok u b') :
    ∃ code, d.resolve places before.length = some code ∧
      b' = { b with code := (before ++ code).toArray } := by
  induction d generalizing before b with
  | nil =>
    obtain ⟨-, rfl⟩ := pure_ok h
    exact ⟨[], rfl, by simp only [Draft.raw] at hb; rw [← hb]⟩
  | cons p d ih =>
    cases p with
    | instruction i =>
      obtain ⟨code, hcode, rfl⟩ := ih (before ++ [i]) (b := b)
        (by rw [hb]; simp [Draft.raw]) (by simpa [Draft.uses] using h)
      refine ⟨i :: code, ?_, by simp⟩
      simpa [Draft.resolve] using hcode
    | label name => exact ih before hb h
    | jump op target =>
      obtain ⟨place, _, hfound, h⟩ := bind_ok h
      obtain ⟨hplace, rfl⟩ := orFail_ok hfound
      obtain ⟨_, m, hmodify, h⟩ := bind_ok h
      have hm := modify_ok hmodify
      let i : Instruction := ⟨op, distance before.length place, 0, 0⟩
      have hcode : m.code = (before ++ [i] ++ Draft.raw d).toArray := by
        simp only [hm, hb, Draft.raw, List.modify_toArray, List.modify_append_length]
        simp [i]
      obtain ⟨code, hresolve, rfl⟩ := ih (before ++ [i]) hcode (by simpa using h)
      refine ⟨i :: code, ?_, by simp [hm]⟩
      rw [List.length_append] at hresolve
      simp only [Draft.resolve, hplace, Option.bind_some]
      exact congrArg (Option.map (i :: ·)) hresolve

end Emit

end TemplateMachine
