import TemplateMachine.Proofs.Shape.Compilable

/-! Calls in code.  The eager strategy names the handle of a whole template in two ways: as the
operand of a direct call, or as a number that is pushed just before a layout is invoked.  Most
pieces of code call no whole template. -/

namespace TemplateMachine

/-! ### Calls in code -/

namespace Constants

/-- The handle that the word of a primitive stands for. -/
def handle? (c : Constants) (w : UInt32) : Option UInt32 :=
  match Primitive.decode? w c with
  | some (.number x) => x.toWord?
  | _ => none

/-- The handle that an instruction names as that of a whole template, if it does, by
the operation that follows. -/
def call? (c : Constants) (i : Instruction) (next : Option Opcode) : Option (Option UInt32) :=
  match i.op with
  | .invokeStatic => some (some i.a)
  | .primitive => if next = some .invokeComponentLayout then some (c.handle? i.a) else none
  | _ => none

/-- The handles that code names as those of whole templates, one for each call. -/
def calls (c : Constants) : List Instruction → List (Option UInt32)
  | [] => []
  | i :: rest => (c.call? i (rest.head?.map (·.op))).toList ++ calls c rest

end Constants

/-- The operation has no part in the call of a whole template. -/
def Opcode.isSilent : Opcode → Bool
  | .invokeStatic | .invokeComponentLayout => false
  | _ => true

@[simp] theorem Opcode.isSilent_of_ne {op : Opcode} (hstatic : op ≠ .invokeStatic)
    (hlayout : op ≠ .invokeComponentLayout) : op.isSilent = true := by
  unfold isSilent
  split
  · exact absurd rfl hstatic
  · exact absurd rfl hlayout
  · rfl

/-- Code that calls no whole template. -/
def Silent (code : List Instruction) : Prop := code.all fun i => i.op.isSilent

section

variable {first second code : List Instruction}

@[simp] theorem silent_nil : Silent [] := rfl

@[simp] theorem silent_cons {i : Instruction} :
    Silent (i :: code) ↔ i.op.isSilent = true ∧ Silent code := by
  simp only [Silent, List.all_cons, Bool.and_eq_true]

@[simp] theorem silent_append : Silent (first ++ second) ↔ Silent first ∧ Silent second := by
  simp only [Silent, List.all_append, Bool.and_eq_true]

/-- Code that does not go on with the call of a layout. -/
def Begins (code : List Instruction) : Prop :=
  code.head?.map (·.op) ≠ some .invokeComponentLayout

theorem begins_cons {i : Instruction} (h : i.op ≠ .invokeComponentLayout) : Begins (i :: code) :=
  fun heq => h (Option.some.inj heq)

theorem Silent.begins (h : Silent code) : Begins code := by
  cases code with
  | nil => exact nofun
  | cons i rest =>
    refine begins_cons fun hop => ?_
    have hsilent := (silent_cons.mp h).1
    rw [hop] at hsilent
    cases hsilent

theorem Begins.append (hfirst : Begins first) (hsecond : Begins second) :
    Begins (first ++ second) := by
  cases first with
  | nil => exact hsecond
  | cons i rest => exact hfirst

namespace Constants

variable {c : Constants}

theorem call?_of_silent {i : Instruction} {next : Option Opcode} (hi : i.op.isSilent = true)
    (hnext : next ≠ some .invokeComponentLayout) : c.call? i next = none := by
  unfold call?
  split
  · rename_i hop
    rw [hop] at hi
    cases hi
  · rw [if_neg hnext]
  · rfl

theorem calls_of_silent (h : Silent code) : c.calls code = [] := by
  induction code with
  | nil => rfl
  | cons i rest ih =>
    obtain ⟨hi, hrest⟩ := silent_cons.mp h
    rw [calls, call?_of_silent hi hrest.begins, ih hrest]
    rfl

theorem calls_append (hsecond : Begins second) :
    c.calls (first ++ second) = c.calls first ++ c.calls second := by
  induction first with
  | nil => rfl
  | cons i rest ih =>
    have hcall : c.call? i ((rest ++ second).head?.map (·.op)) =
        c.call? i (rest.head?.map (·.op)) := by
      cases rest with
      | cons j more => rfl
      | nil =>
        unfold call?
        split
        · rfl
        · rw [List.nil_append, if_neg hsecond, if_neg (by simp)]
        · rfl
    rw [List.cons_append, calls, calls, hcall, ih, List.append_assoc]

end Constants

end

namespace Coding

variable {k : Coding} {code : List Instruction}

/-! ### Silent pieces -/

@[simp] theorem silent_skip {op : Opcode} {skipped : List Instruction} :
    (Instruction.skip op skipped).op = op := rfl

theorem silent_onString {op : Opcode} {s : String} (hop : op.isSilent = true)
    (h : k.onString op s code) : Silent code := by
  obtain ⟨index, -, rfl⟩ := h
  simp [hop]

theorem silent_onHandle {op : Opcode} {handle : UInt32} (hop : op.isSilent = true)
    (h : k.onHandle op handle code) : Silent code := by
  obtain ⟨index, -, rfl⟩ := h
  simp [hop]

theorem silent_onReferer {op : Opcode} (hop : op.isSilent = true) (h : k.onReferer op code) :
    Silent code := by
  obtain ⟨index, -, rfl⟩ := h
  simp [hop]

theorem silent_primitive {p : Primitive} (h : k.primitive p code) : Silent code := by
  obtain ⟨w, -, rfl⟩ := h
  simp

theorem silent_reference {p : Primitive} (h : k.reference p code) : Silent code := by
  obtain ⟨push, hpush, rfl⟩ := h
  simp [silent_primitive hpush]

theorem silent_symbolTable {table : Option SymbolTable} (h : k.symbolTable table code) :
    Silent code := by
  cases table with
  | none => exact silent_primitive h
  | some t =>
    obtain ⟨index, -, rfl⟩ := h
    simp

theorem silent_block {f : Option Fragment} (h : k.block f code) : Silent code := by
  cases f with
  | none => exact silent_primitive h
  | some f =>
    unfold Coding.block at h
    dsimp only at h
    split at h
    · obtain ⟨index, -, -, rfl⟩ := h
      simp
    · obtain ⟨handle, -, -, hpush⟩ := h
      exact silent_primitive hpush

theorem silent_resolve : Silent k.resolve := by
  unfold Coding.resolve
  split <;> simp

theorem silent_yieldable {f : Option Fragment} (h : k.yieldable f code) : Silent code := by
  obtain ⟨table, push, htable, hpush, rfl⟩ := h
  simp [silent_symbolTable htable, silent_block hpush]

theorem silent_bindParameters (depth : UInt32) (symbols : List UInt32) :
    Silent (bindParameters depth symbols) := by
  induction symbols generalizing depth with
  | nil => rfl
  | cons symbol rest ih => simp [bindParameters, ih]

theorem silent_staticBlock {f : Fragment} {supplied : UInt32} (h : k.staticBlock f supplied code) :
    Silent code := by
  obtain ⟨push, hpush, rfl⟩ := h
  have henter (depth : UInt32) (symbols : List UInt32) :
      Silent (enterParameters depth symbols) := by
    unfold enterParameters
    split <;> simp [silent_bindParameters]
  have hleave (symbols : List UInt32) : Silent (leaveParameters symbols) := by
    unfold leaveParameters
    split <;> simp
  simp [henter, hleave, silent_block hpush, silent_resolve]

theorem silent_gather {count : Nat} {names : List String} (h : k.gather count names code) :
    Silent code := by
  obtain ⟨index, flags, -, -, -, rfl⟩ := h
  simp

theorem silent_properties {path : List String} (h : k.properties path code) : Silent code := by
  induction path generalizing code with
  | nil =>
    obtain rfl : code = [] := h
    rfl
  | cons key rest ih =>
    obtain ⟨first, more, hfirst, hmore, rfl⟩ := h
    simp [silent_onString rfl hfirst, ih hmore]

mutual

theorem silent_expression (e : Expression) {code : List Instruction} (h : k.expression e code) :
    Silent code := by
  cases e with
  | value json =>
    obtain ⟨p, -, hpush⟩ := h
    exact silent_reference hpush
  | undefined => exact silent_reference h
  | get head path =>
    obtain ⟨more, hmore, rfl⟩ := h
    simp [silent_properties hmore]
  | unknown name =>
    unfold Coding.expression at h
    split at h
    · obtain ⟨args, call, hargs, hcall, rfl⟩ := h
      simp [silent_gather hargs, silent_onHandle rfl hcall]
    · obtain ⟨more, hmore, rfl⟩ := h
      simp [silent_onString rfl hmore]
  | helper name params hash =>
    unfold Coding.expression at h
    split at h
    · rcases params with _ | _ | ⟨definition, rest⟩
      · exact h.elim
      · exact h.elim
      · obtain ⟨first, positional, named, args, curry, hfirst, hpositional, hnamed, hargs, hcurry,
          rfl⟩ := h
        simp [silent_expression definition hfirst, silent_expressions rest hpositional,
          silent_namedValues hash hnamed, silent_gather hargs, silent_onReferer rfl hcurry]
    · obtain ⟨handle, positional, named, args, call, -, hpositional, hnamed, hargs, hcall, rfl⟩ := h
      simp [silent_params? params hpositional, silent_namedValues hash hnamed, silent_gather hargs,
        silent_onHandle rfl hcall]
  | concat parts =>
    obtain ⟨values, hvalues, rfl⟩ := h
    simp [silent_expressions parts hvalues]
  | hasBlock symbol =>
    obtain rfl : code = [⟨.hasBlock, symbol, 0, 0⟩] := h
    simp
  | hasBlockParams symbol =>
    obtain rfl : code = _ := h
    simp [silent_resolve]
termination_by structural e

theorem silent_expressions (es : List Expression) {code : List Instruction}
    (h : k.expressions es code) : Silent code := by
  cases es with
  | nil =>
    obtain rfl : code = [] := h
    rfl
  | cons e rest =>
    obtain ⟨first, more, hfirst, hmore, rfl⟩ := h
    simp [silent_expression e hfirst, silent_expressions rest hmore]
termination_by structural es

theorem silent_params? (params : Option (List Expression)) {code : List Instruction}
    (h : k.params? params code) : Silent code := by
  cases params with
  | none =>
    obtain rfl : code = [] := h
    rfl
  | some es => exact silent_expressions es h
termination_by structural params

theorem silent_namedValues (hash : Option (HashOf Expression)) {code : List Instruction}
    (h : k.namedValues hash code) : Silent code := by
  rcases hash with _ | ⟨names, values⟩
  · obtain rfl : code = [] := h
    rfl
  · exact silent_expressions values h.2
termination_by structural hash

end

theorem silent_args {params : List Expression} {hash : Option Hash} (h : k.args params hash code) :
    Silent code := by
  obtain ⟨positional, named, gathered, hpositional, hnamed, hgathered, rfl⟩ := h
  simp [silent_expressions params hpositional, silent_namedValues hash hnamed,
    silent_gather hgathered]

theorem silent_passes {i : Invocation} (h : k.passes i code) : Silent code := by
  obtain ⟨main, inverse, attrs, given, hmain, hinverse, hattrs, hgiven, rfl⟩ := h
  simp [silent_yieldable hmain, silent_yieldable hinverse, silent_yieldable hattrs,
    silent_args hgiven]

theorem silent_symbolCode {i : Invocation} {symbol : String} {binder : Option Opcode}
    (h : k.symbolCode i symbol code binder) : Silent code ∧ ∀ op ∈ binder, op.isSilent = true := by
  unfold Coding.symbolCode at h
  split at h
  · obtain ⟨f, -, hpush, rfl⟩ := h
    exact ⟨silent_yieldable hpush, by simp⟩
  · split at h
    · obtain ⟨hpush, rfl⟩ := h
      exact ⟨silent_expression _ hpush, by simp⟩
    · obtain ⟨rfl, rfl⟩ := h
      exact ⟨rfl, nofun⟩
  · obtain ⟨rfl, rfl⟩ := h
    exact ⟨rfl, nofun⟩

theorem silent_symbolsCode {i : Invocation} {symbols : List String}
    {bound binders : List (UInt32 × Opcode)} {slot : UInt32}
    (hbound : Silent (bindSymbols bound)) (h : k.symbolsCode i bound slot symbols code binders) :
    Silent code ∧ Silent (bindSymbols binders) := by
  induction symbols generalizing bound slot code with
  | nil =>
    obtain ⟨rfl, rfl⟩ := h
    exact ⟨rfl, hbound⟩
  | cons symbol rest ih =>
    obtain ⟨first, more, binder, hfirst, rfl, hrest⟩ := h
    obtain ⟨hsilent, hop⟩ := silent_symbolCode hfirst
    cases binder with
    | none =>
      obtain ⟨hmore, hbinders⟩ := ih hbound hrest
      exact ⟨silent_append.mpr ⟨hsilent, hmore⟩, hbinders⟩
    | some op =>
      have hcons : Silent (bindSymbols ((slot, op) :: bound)) :=
        silent_cons.mpr ⟨hop op rfl, hbound⟩
      obtain ⟨hmore, hbinders⟩ := ih hcons hrest
      exact ⟨silent_append.mpr ⟨hsilent, hmore⟩, hbinders⟩

theorem silent_createComponent (i : Invocation) : Silent (createComponent i) := by
  simp [createComponent]

theorem silent_creates {createArgs : Bool} {i : Invocation} (h : k.creates createArgs i code) :
    Silent code := by
  unfold Coding.creates at h
  split at h
  · obtain ⟨given, hgiven, rfl⟩ := h
    simp [silent_args hgiven, silent_createComponent]
  · subst h
    exact silent_createComponent i

theorem silent_enterComponent : Silent enterComponent := rfl

theorem silent_registerComponent : Silent registerComponent := rfl

theorem silent_leaveComponent : Silent leaveComponent := rfl

theorem silent_exitFrame : Silent exitFrame := rfl

/-! ### Block forms -/

theorem silent_otherwise {op : Opcode} {inverse : Option Fragment} {main : List Instruction}
    (hop : op.isSilent = true) (hmain : Silent main) (h : k.otherwise op inverse main code) :
    Silent code := by
  cases inverse with
  | some f =>
    obtain ⟨other, hother, rfl⟩ := h
    simp [hop, hmain, silent_staticBlock hother, silent_exitFrame]
  | none =>
    obtain rfl : code = _ := h
    simp [hop, hmain, silent_exitFrame]

theorem silent_blockForm {op : Opcode} {inverse : Option Fragment} {values main : List Instruction}
    (hop : op.isSilent = true) (hvalues : Silent values) (hmain : Silent main)
    (h : k.blockForm op inverse values main code) : Silent code := by
  obtain ⟨branches, hbranches, rfl⟩ := h
  simp [frame, hvalues, silent_otherwise hop hmain hbranches]

theorem silent_conditional {op : Opcode} {condition : Expression} {main : Fragment}
    {inverse : Option Fragment} (hop : op.isSilent = true)
    (h : k.conditional op condition main inverse code) : Silent code := by
  obtain ⟨value, body, hvalue, hbody, hform⟩ := h
  refine silent_blockForm hop ?_ (silent_staticBlock hbody) hform
  simp [silent_expression condition hvalue]

theorem silent_withBlock {value : Expression} {main : Fragment} {inverse : Option Fragment}
    (h : k.withBlock value main inverse code) : Silent code := by
  obtain ⟨push, body, hpush, hbody, hform⟩ := h
  refine silent_blockForm rfl ?_ (silent_staticBlock hbody) hform
  simp [silent_expression value hpush]

theorem silent_eachBlock {key : Option Expression} {list : Expression} {main : Fragment}
    {inverse : Option Fragment} (h : k.eachBlock key list main inverse code) : Silent code := by
  obtain ⟨keys, push, body, hkeys, hpush, hbody, hform⟩ := h
  have hkeys : Silent keys := by
    cases key with
    | some key => exact silent_expression key hkeys
    | none => exact silent_reference hkeys
  refine silent_blockForm rfl ?_ ?_ hform
  · simp [hkeys, silent_expression list hpush]
  · simp [loop, silent_staticBlock hbody, silent_exitFrame]

/-- What a block form asks of its parameter and its block. -/
theorem silent_single {call : BlockCall} {form : Expression → Fragment → Prop}
    (hform : ∀ e main, form e main → Silent code) (h : single call form) : Silent code := by
  unfold single at h
  split at h
  · exact hform _ _ h
  · exact h.elim

/-! ### Statements -/

theorem silent_yield {slot : UInt32} {params : List Expression} (h : k.yield slot params code) :
    Silent code := by
  obtain ⟨given, hgiven, rfl⟩ := h
  simp [silent_args hgiven, silent_resolve]

theorem silent_staticAttr {mode : AttrMode} {name value : String} {space : Option String}
    (h : k.staticAttr mode name value space code) : Silent code := by
  obtain ⟨nameIndex, spaceIndex, -, -, hmode⟩ := h
  cases mode with
  | component =>
    obtain ⟨push, hpush, rfl⟩ := hmode
    simp [silent_reference hpush]
  | element =>
    obtain ⟨valueIndex, -, rfl⟩ := hmode
    simp

theorem silent_dynamicAttr {mode : AttrMode} {name : String} {value : Expression}
    {space : Option String} {trusting : Bool}
    (h : k.dynamicAttr mode name value space trusting code) : Silent code := by
  obtain ⟨push, nameIndex, spaceIndex, hpush, -, -, rfl⟩ := h
  cases mode <;> simp [silent_expression value hpush]

theorem silent_optionalCall {f : Option Fragment} (h : k.optionalCall f code) : Silent code := by
  cases f with
  | some f => exact silent_staticBlock h
  | none =>
    obtain rfl : code = [] := h
    rfl

end Coding

end TemplateMachine
