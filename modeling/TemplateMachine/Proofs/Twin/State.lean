import TemplateMachine.Proofs.Emission.Cycle
import TemplateMachine.Proofs.Emission.Failure
import TemplateMachine.Proofs.Run.Path
import TemplateMachine.Proofs.Run.Scope
import TemplateMachine.Proofs.Run.Step

/-! Twins: what two machines have in common that run the same templates over programs which were
linked in different ways.  A block has a handle in each of the two programs, and values are twins if
they are equal up to the handles of such blocks.  The machines share everything but their programs
and what has to do with those: where they are, their stacks, registers and scopes.  Steps of the two
are tied if they end alike. -/

namespace TemplateMachine

/-! ### Programs -/

/-- `q` has the finished blocks of `p`, their code, and its constants. -/
structure Program.Carries (q p : Program) : Prop where
  words : ∀ a w, p.heap.word? a = some w → q.heap.word? a = some w
  blocks : ∀ handle b, p.heap.block? handle = some b → q.heap.block? handle = some b
  constants : p.constants.Extends q.constants

theorem Program.Carries.refl (p : Program) : p.Carries p :=
  ⟨fun _ _ h => h, fun _ _ h => h, .refl _⟩

theorem Program.Carries.trans {p q r : Program} (h : r.Carries q)
    (h' : q.Carries p) : r.Carries p :=
  ⟨fun a w hw => h.words a w (h'.words a w hw),
    fun handle b hb => h.blocks handle b (h'.blocks handle b hb),
    h'.constants.trans h.constants⟩

theorem Linkage.carries_of_le {l m : Linkage} (h : l ≤ m) : m.program.Carries l.program :=
  ⟨(Grows.program h).words, Grows.finished h, Grows.constants h⟩

namespace CompileOptions

variable {o : CompileOptions} {p q : Program} {handle : UInt32} {body : Fragment}

/-- The code of a body stands in the block of a handle.  It need not be this program that it was
compiled into. -/
def Houses (o : CompileOptions) (p : Program) (handle : UInt32) (body : Fragment) : Prop :=
  ∃ (l : Linkage) (f : Fragment), l.Sound o.lookup o.strategy [] ∧ p.Carries l.program ∧
    l.Compiled o.lookup o.strategy f handle ∧ f.body = body

/-- A fragment is among the constants. -/
def Knows (p : Program) (f : Fragment) : Prop := ∃ index, p.constants.fragments.get? index = some f

/-- Fragments can be linked into the program. -/
structure Ready (o : CompileOptions) (p : Program) : Prop where
  fits : p.Fits
  closed : p.constants.Closed
  sound : ∃ l : Linkage, l.program = p ∧ l.Sound o.lookup o.strategy []
  hopeful : o.strategy = .eager → ∀ w, o.lookup.Whole w → (p.linked? w.id).isSome →
    ¬o.lookup.Hopeless w

theorem Houses.mono (h : o.Houses p handle body) (hq : q.Carries p) : o.Houses q handle body := by
  obtain ⟨l, f, hsound, hp, hcompiled, hbody⟩ := h
  exact ⟨l, f, hsound, hq.trans hp, hcompiled, hbody⟩

theorem Knows.mono {f : Fragment} (h : Knows p f) (hq : q.Carries p) : Knows q f := by
  obtain ⟨index, hindex⟩ := h
  exact ⟨index, hq.constants.fragments.get? hindex⟩

end CompileOptions

/-- Two programs. -/
structure Duo where
  left : Program
  right : Program

namespace Duo

structure Within (d e : Duo) : Prop where
  left : e.left.Carries d.left
  right : e.right.Carries d.right

theorem Within.refl (d : Duo) : d.Within d := ⟨.refl _, .refl _⟩

theorem Within.trans {d e f : Duo} (h : d.Within e) (h' : e.Within f) : d.Within f :=
  ⟨h'.left.trans h.left, h'.right.trans h.right⟩

/-- The handles stand for a block with the same body. -/
def Blocks (o : CompileOptions) (d : Duo) (handle handle' : UInt32) : Prop :=
  ∃ body, o.Houses d.left handle body ∧ o.Houses d.right handle' body

theorem Blocks.mono {o : CompileOptions} {d e : Duo} {handle handle' : UInt32}
    (h : d.Blocks o handle handle') (he : d.Within e) : e.Blocks o handle handle' := by
  obtain ⟨body, hleft, hright⟩ := h
  exact ⟨body, hleft.mono he.left, hright.mono he.right⟩

end Duo

/-! ### Values -/

section

variable {o : CompileOptions} {d e : Duo}

/-- Values that are equal but for the handles of blocks.  The only primitives among them are null
and handles; a primitive of a template becomes a reference at once. -/
inductive Value.Twin (o : CompileOptions) (d : Duo) : Value → Value → Prop
  | null : Twin o d .null .null
  | ref (r : Reference) : Twin o d (.ref r) (.ref r)
  | table (t : SymbolTable) : Twin o d (.table t) (.table t)
  | iterator (number : Nat) : Twin o d (.iterator number) (.iterator number)
  | args (a : Arguments) : Twin o d (.args a) (.args a)
  | component (number : Nat) : Twin o d (.component number) (.component number)
  | handle {handle handle' : UInt32} : d.Blocks o handle handle' →
    Twin o d (.handle handle) (.handle handle')
  | number {handle handle' : UInt32} : d.Blocks o handle handle' →
    Twin o d (.primitive (.number (Binary64.ofNat handle.toNat)))
      (.primitive (.number (Binary64.ofNat handle'.toNat)))
  | fragment {f f' : Fragment} : f.body = f'.body → CompileOptions.Knows d.left f →
    CompileOptions.Knows d.right f' → Twin o d (.fragment f) (.fragment f')

namespace Value

/-- A reference, which the code of arguments takes. -/
def isRef : Value → Bool
  | .ref _ => true
  | _ => false

/-- Values on the stacks of the two machines: twins, saved addresses or frames, or a primitive of a
template. -/
inductive Alike (o : CompileOptions) (d : Duo) : Value → Value → Prop
  | twin {v v' : Value} (h : v.Twin o d v') : Alike o d v v'
  | address (a a' : Nat) : Alike o d (.address a) (.address a')
  | primitive (p : Primitive) : Alike o d (.primitive p) (.primitive p)

variable {v v' : Value}

theorem Twin.mono (h : v.Twin o d v') (he : d.Within e) : v.Twin o e v' := by
  cases h with
  | null => exact .null
  | ref r => exact .ref r
  | table t => exact .table t
  | iterator number => exact .iterator number
  | args a => exact .args a
  | component number => exact .component number
  | handle h => exact .handle (h.mono he)
  | number h => exact .number (h.mono he)
  | fragment h hleft hright => exact .fragment h (hleft.mono he.left) (hright.mono he.right)

theorem Alike.mono (h : v.Alike o d v') (he : d.Within e) : v.Alike o e v' := by
  cases h with
  | twin h => exact .twin (h.mono he)
  | address a a' => exact .address a a'
  | primitive p => exact .primitive p

theorem Twin.ne_address (h : v.Twin o d v') (a : Nat) : v ≠ .address a ∧ v' ≠ .address a := by
  cases h <;> exact ⟨nofun, nofun⟩

theorem Twin.isNull (h : v.Twin o d v') : v'.isNull = v.isNull := by
  cases h with
  | number h => exact Eq.trans (b := false) rfl rfl
  | _ => rfl

/-- Twins stand for twin blocks, if for any. -/
theorem Twin.toHandle? (h : v.Twin o d v') :
    v.toHandle? = none ∧ v'.toHandle? = none ∨ ∃ handle handle', v.toHandle? = some handle ∧
      v'.toHandle? = some handle' ∧ d.Blocks o handle handle' := by
  cases h with
  | handle h => exact .inr ⟨_, _, rfl, rfl, h⟩
  | @number handle handle' h =>
    refine .inr ⟨handle, handle', ?_, ?_, h⟩
    · rw [Value.toHandle?, Binary64.toWord?_ofNat]
    · rw [Value.toHandle?, Binary64.toWord?_ofNat]
  | _ => exact .inl ⟨rfl, rfl⟩

end Value

/-! ### Scopes and registers -/

/-- Arrays whose entries are related one by one. -/
structure Pointwise {α β : Type} (R : α → β → Prop) (xs : Array α) (ys : Array β) : Prop where
  size : xs.size = ys.size
  entry : ∀ (i : Nat) (x : α) (y : β), xs[i]? = some x → ys[i]? = some y → R x y

namespace Pointwise

variable {α β : Type} {R S : α → β → Prop} {xs xs' : Array α} {ys ys' : Array β} {x : α} {y : β}

theorem empty : Pointwise R #[] #[] := ⟨rfl, fun _ _ _ h => by simp at h⟩

theorem mono (h : Pointwise R xs ys) (hRS : ∀ x y, R x y → S x y) : Pointwise S xs ys :=
  ⟨h.size, fun i x y hx hy => hRS x y (h.entry i x y hx hy)⟩

/-- An entry on either side has its counterpart. -/
theorem get? (h : Pointwise R xs ys) (i : Nat) :
    xs[i]? = none ∧ ys[i]? = none ∨ ∃ x y, xs[i]? = some x ∧ ys[i]? = some y ∧ R x y := by
  by_cases hi : i < xs.size
  · have hi' : i < ys.size := h.size ▸ hi
    exact .inr ⟨xs[i], ys[i], Array.getElem?_eq_getElem hi, Array.getElem?_eq_getElem hi',
      h.entry i _ _ (Array.getElem?_eq_getElem hi) (Array.getElem?_eq_getElem hi')⟩
  · exact .inl ⟨Array.getElem?_eq_none (by omega),
      Array.getElem?_eq_none (by have := h.size; omega)⟩

theorem push (h : Pointwise R xs ys) (hxy : R x y) : Pointwise R (xs.push x) (ys.push y) := by
  refine ⟨by simp [h.size], fun i a b ha hb => ?_⟩
  rw [Array.getElem?_push] at ha hb
  rw [h.size] at ha
  split at ha
  · rw [if_pos ‹_›] at hb
    cases ha
    cases hb
    exact hxy
  · rw [if_neg ‹_›] at hb
    exact h.entry i a b ha hb

theorem modify (h : Pointwise R xs ys) (i : Nat) {f : α → α} {g : β → β}
    (hfg : ∀ x y, R x y → R (f x) (g y)) : Pointwise R (xs.modify i f) (ys.modify i g) := by
  refine ⟨by simp [h.size], fun j a b ha hb => ?_⟩
  rw [Array.getElem?_modify] at ha hb
  split at ha
  · rw [if_pos ‹_›] at hb
    obtain ⟨x, hx, rfl⟩ := Option.map_eq_some_iff.mp ha
    obtain ⟨y, hy, rfl⟩ := Option.map_eq_some_iff.mp hb
    exact hfg x y (h.entry j x y hx hy)
  · rw [if_neg ‹_›] at hb
    exact h.entry j a b ha hb

theorem getD (h : Pointwise R xs ys) (i : Nat) (hxy : R x y) : R (xs.getD i x) (ys.getD i y) := by
  rw [Array.getD_eq_getD_getElem?, Array.getD_eq_getD_getElem?]
  rcases h.get? i with ⟨hx, hy⟩ | ⟨a, b, hx, hy, hab⟩
  · rw [hx, hy]
    exact hxy
  · rw [hx, hy]
    exact hab

end Pointwise

structure ScopeBlock.Twin (o : CompileOptions) (d : Duo) (b b' : ScopeBlock) : Prop where
  table : b.table.Twin o d b'.table
  block : b.block.Twin o d b'.block

inductive Slot.Twin (o : CompileOptions) (d : Duo) : Slot → Slot → Prop
  | empty : Twin o d .empty .empty
  | value (r : Reference) : Twin o d (.value r) (.value r)
  | block {b b' : ScopeBlock} : b.Twin o d b' → Twin o d (.block b) (.block b')

structure Scope.Twin (o : CompileOptions) (d : Duo) (s s' : Scope) : Prop where
  get : ∀ symbol, (s.get symbol).Twin o d (s'.get symbol)
  caller : s.caller = s'.caller

def Scopes.Twin (o : CompileOptions) (d : Duo) (s s' : Scopes) : Prop :=
  Pointwise (Scope.Twin o d) s.entries s'.entries

structure SavedRegisters.Twin (o : CompileOptions) (d : Duo) (s s' : SavedRegisters) : Prop where
  s0 : s.s0.Twin o d s'.s0
  s1 : s.s1.Twin o d s'.s1
  t0 : s.t0.Twin o d s'.t0
  t1 : s.t1.Twin o d s'.t1

theorem ScopeBlock.Twin.mono {b b' : ScopeBlock} (h : b.Twin o d b')
    (he : d.Within e) : b.Twin o e b' :=
  ⟨h.table.mono he, h.block.mono he⟩

theorem ScopeBlock.Twin.isPresent {b b' : ScopeBlock} (h : b.Twin o d b') :
    b'.isPresent = b.isPresent := by
  rw [ScopeBlock.isPresent, ScopeBlock.isPresent, h.block.isNull]

theorem Slot.Twin.mono {s s' : Slot} (h : s.Twin o d s') (he : d.Within e) : s.Twin o e s' := by
  cases h with
  | empty => exact .empty
  | value r => exact .value r
  | block h => exact .block (h.mono he)

namespace Scope.Twin

variable {s s' : Scope}

theorem mono (h : s.Twin o d s') (he : d.Within e) : s.Twin o e s' :=
  ⟨fun symbol => (h.get symbol).mono he, h.caller⟩

theorem root (size size' : Nat) (caller : Option Nat) :
    (Scope.root size caller).Twin o d (.root size' caller) := by
  refine ⟨fun symbol => ?_, rfl⟩
  rw [Scope.get_root, Scope.get_root]
  exact .empty

theorem bind (h : s.Twin o d s') (symbol : UInt32) {slot slot' : Slot}
    (hslot : slot.Twin o d slot') :
    (s.bind symbol slot).Twin o d (s'.bind symbol slot') := by
  refine ⟨fun other => ?_, h.caller⟩
  rw [Scope.get_bind, Scope.get_bind]
  split
  · exact hslot
  · exact h.get other

end Scope.Twin

namespace Scopes.Twin

variable {s s' : Scopes}

theorem mono (h : s.Twin o d s') (he : d.Within e) : s.Twin o e s' :=
  Pointwise.mono h fun _ _ h => h.mono he

theorem get (h : s.Twin o d s') (number : Nat) : (s.get number).Twin o d (s'.get number) :=
  Pointwise.getD h number ⟨fun _ => .empty, rfl⟩

theorem bind (h : s.Twin o d s') (number : Nat) (symbol : UInt32) {slot slot' : Slot}
    (hslot : slot.Twin o d slot') :
    (s.bind number symbol slot).Twin o d (s'.bind number symbol slot') :=
  Pointwise.modify h number fun _ _ h => h.bind symbol hslot

theorem push (h : s.Twin o d s') {scope scope' : Scope} (hscope : scope.Twin o d scope') :
    (Scopes.mk (s.entries.push scope)).Twin o d ⟨s'.entries.push scope'⟩ :=
  Pointwise.push h hscope

end Scopes.Twin

namespace SavedRegisters.Twin

variable {s s' : SavedRegisters}

theorem mono (h : s.Twin o d s') (he : d.Within e) : s.Twin o e s' :=
  ⟨h.s0.mono he, h.s1.mono he, h.t0.mono he, h.t1.mono he⟩

theorem get? (h : s.Twin o d s') (r : Register) :
    s.get? r = none ∧ s'.get? r = none ∨ ∃ v v', s.get? r = some v ∧ s'.get? r = some v' ∧
    v.Twin o d v' := by
  cases r with
  | s0 => exact .inr ⟨_, _, rfl, rfl, h.s0⟩
  | s1 => exact .inr ⟨_, _, rfl, rfl, h.s1⟩
  | t0 => exact .inr ⟨_, _, rfl, rfl, h.t0⟩
  | t1 => exact .inr ⟨_, _, rfl, rfl, h.t1⟩
  | _ => exact .inl ⟨rfl, rfl⟩

theorem set (h : s.Twin o d s') (r : Register) {v v' : Value} (hv : v.Twin o d v') :
    (s.set r v).Twin o d (s'.set r v') := by
  cases r <;> first | exact h | exact { h with s0 := hv } | exact { h with s1 := hv } |
    exact { h with t0 := hv } | exact { h with t1 := hv }

end SavedRegisters.Twin

end

/-! ### Machines -/

/-- What two machines that run the same templates need not have in common. -/
structure Private where
  program : Program
  stack : Array Value
  pc : Nat
  ra : Nat
  fp : Nat
  registers : SavedRegisters
  scopes : Scopes
  current : Nat × Opcode

namespace Machine

def own (m : Machine) : Private :=
  ⟨m.program, m.stack, m.pc, m.ra, m.fp, m.registers, m.scopes, m.current⟩

/-- The machine that has everything else in common with this one. -/
def beside (m : Machine) (q : Private) : Machine :=
  { m with
    program := q.program, stack := q.stack, pc := q.pc, ra := q.ra, fp := q.fp,
    registers := q.registers, scopes := q.scopes, current := q.current }

end Machine

/-- Ends of two computations that have left the one program as it was. -/
inductive Exec.EndsAlike {α β : Type} (p : Program) (R : α → β → Machine → Machine → Prop) :
    EStateM.Result (Stop RuntimeError) Machine α →
    EStateM.Result (Stop RuntimeError) Machine β → Prop
  | ok {a : α} {b : β} {m m' : Machine} : m.program = p → R a b m m' →
    EndsAlike p R (.ok a m) (.ok b m')
  | fault {e e' : RuntimeError} {m m' : Machine} : m.program = p → e.name = e'.name →
    EndsAlike p R (.error (.fault e) m) (.error (.fault e') m')

/-- The other machine shares what it should, and the others are as asked. -/
def Machine.Paired {α β : Type} (post : α → β → Private → Private → Prop) (a : α) (b : β)
    (m m' : Machine) : Prop :=
  ∃ r, m' = m.beside r ∧ post a b m.own r

/-- From states that satisfy `pre` the steps of the two machines end alike, in states that satisfy
`post`. -/
def Exec.Tied {α β : Type} (setup : Setup) (pre : Private → Private → Prop)
    (x : Exec α) (y : Exec β) (post : α → β → Private → Private → Prop) : Prop :=
  ∀ m q, pre m.own q → Exec.EndsAlike m.program (Machine.Paired post) (x setup m)
    (y setup (m.beside q))

namespace Exec.Tied

variable {α β γ δ : Type} {setup : Setup} {pre pre' : Private → Private → Prop}
variable {x : Exec α} {y : Exec β} {f : α → Exec γ} {g : β → Exec δ}
variable {mid post post' : α → β → Private → Private → Prop}
variable {final : γ → δ → Private → Private → Prop}

theorem pure {a : α} {b : β} (h : ∀ l r, pre l r → post a b l r) :
    Tied setup pre (Pure.pure a) (Pure.pure b) post := fun _ q hpre => .ok rfl ⟨q, rfl, h _ _ hpre⟩

theorem bind (hx : Tied setup pre x y mid) (hf : ∀ a b, Tied setup (mid a b) (f a) (g b) final) :
    Tied setup pre (x >>= f) (y >>= g) final := by
  intro m q hpre
  have hends := hx m q hpre
  rw [bind_apply, bind_apply]
  generalize x setup m = out at hends
  generalize y setup (m.beside q) = out' at hends
  cases hends with
  | @ok a b m₁ m₂ hprogram h =>
    obtain ⟨r, rfl, hmid⟩ := h
    exact hprogram ▸ hf a b m₁ r hmid
  | fault hprogram h => exact .fault hprogram h

theorem strengthen (h : Tied setup pre' x y post) (hpre : ∀ l r, pre l r → pre' l r) :
    Tied setup pre x y post := fun m q hm => h m q (hpre _ _ hm)

/-- All that is known of the two machines is where they are. -/
theorem here {m : Machine} {q : Private} (hpre : pre m.own q) (h : Tied setup pre x y post) :
    Tied setup (fun l r => l = m.own ∧ r = q) x y post := by
  refine h.strengthen ?_
  rintro l r ⟨rfl, rfl⟩
  exact hpre

theorem weaken (h : Tied setup pre x y post) (hpost : ∀ a b l r, post a b l r → post' a b l r) :
    Tied setup pre x y post' := by
  intro m q hpre
  have hends := h m q hpre
  generalize x setup m = out at hends
  generalize y setup (m.beside q) = out' at hends
  cases hends with
  | ok hprogram h =>
    obtain ⟨r, hr, hmid⟩ := h
    exact .ok hprogram ⟨r, hr, hpost _ _ _ _ hmid⟩
  | fault hprogram h => exact .fault hprogram h

/-- A condition that does not speak of the machines. -/
theorem given {p : Prop} (h : p → Tied setup pre x y post) :
    Tied setup (fun l r => p ∧ pre l r) x y post := fun m q ⟨hp, hpre⟩ => h hp m q hpre

theorem exists_of {ι : Type} {pre : ι → Private → Private → Prop}
    (h : ∀ i, Tied setup (pre i) x y post) :
    Tied setup (fun l r => ∃ i, pre i l r) x y post := fun m q ⟨i, hpre⟩ => h i m q hpre

theorem fail {e e' : RuntimeError} (h : e.name = e'.name) :
    Tied setup pre (Exec.fail e : Exec α) (Exec.fail e' : Exec β) post := fun _ _ _ => .fault rfl h

theorem mismatch (expected : String) :
    Tied setup pre (Exec.mismatch expected : Exec α) (Exec.mismatch expected : Exec β) post :=
  fun _ _ _ => .fault rfl rfl

theorem underflow : Tied setup pre (Exec.underflow : Exec α) (Exec.underflow : Exec β) post :=
  fun _ _ _ => .fault rfl rfl

/-- What is read from the machines is what they are. -/
theorem get_bind {f : Machine → Exec γ} {g : Machine → Exec δ}
    (h : ∀ m q, pre m.own q → Tied setup (fun l r => l = m.own ∧ r = q) (f m)
      (g (m.beside q)) final) :
    Tied setup pre (get >>= f) (get >>= g) final := fun m q hpre => h m q hpre m q ⟨rfl, rfl⟩

/-- What is read from the machines is what they share. -/
theorem get_same {f : Machine → Exec γ} {g : Machine → Exec δ}
    (hg : ∀ m q, g (Machine.beside m q) = g m) (h : ∀ m, Tied setup pre (f m) (g m) final) :
    Tied setup pre (get >>= f) (get >>= g) final :=
  get_bind fun m q hpre => by
    rw [hg]
    exact (h m).here hpre

theorem read_bind {f : Setup → Exec γ} {g : Setup → Exec δ}
    (h : Tied setup pre (f setup) (g setup) final) :
    Tied setup pre (read >>= f) (read >>= g) final := h

theorem changes {change change' : Machine → Machine} {post : Unit → Unit → Private → Private → Prop}
    (hprogram : ∀ m, (change m).program = m.program)
    (h : ∀ m q, pre m.own q → Machine.Paired post () () (change m) (change' (m.beside q))) :
    Tied setup pre (modify change : Exec Unit) (modify change' : Exec Unit) post :=
  fun m q hpre => .ok (hprogram m) (h m q hpre)

/-- A change of what the machines have in common. -/
theorem shares {change : Machine → Machine}
    (h : ∀ (m : Machine) (q : Private), change (m.beside q) = (change m).beside q)
    (hown : ∀ m : Machine, (change m).own = m.own) :
    Tied setup pre (modify change : Exec Unit) (modify change : Exec Unit) fun _ _ => pre :=
  changes (fun m => congrArg Private.program (hown m)) fun m q hpre =>
    ⟨q, h m q, by rw [hown]; exact hpre⟩

/-- An option that is there on both sides, or on none. -/
theorem orFail_of {v : Option α} {v' : Option β} {e e' : RuntimeError} (h : e.name = e'.name)
    (hv : ∀ l r, pre l r → v = none ∧ v' = none ∨ ∃ a b, v = some a ∧ v' = some b ∧ post a b l r) :
    Tied setup pre (Exec.orFail v e) (Exec.orFail v' e') post := by
  intro m q hpre
  rcases hv _ _ hpre with ⟨rfl, rfl⟩ | ⟨a, b, rfl, rfl, hpost⟩
  · exact .fault rfl h
  · exact .ok rfl ⟨q, rfl, hpost⟩

end Exec.Tied

/-- Steps that neither read nor change what is private to a machine. -/
def Exec.Shared {α : Type} (setup : Setup) (x : Exec α) : Prop :=
  ∀ pre : Private → Private → Prop, Exec.Tied setup pre x x fun a b l r => a = b ∧ pre l r

namespace Exec.Shared

variable {α β : Type} {setup : Setup} {x : Exec α} {f : α → Exec β}

theorem pure (a : α) : Shared setup (Pure.pure a : Exec α) :=
  fun _ => Tied.pure fun _ _ h => ⟨rfl, h⟩

theorem bind (hx : Shared setup x) (hf : ∀ a, Shared setup (f a)) : Shared setup (x >>= f) :=
  fun pre => (hx pre).bind fun a _ => Tied.given fun h => h ▸ hf a pre

theorem tied {pre : Private → Private → Prop} (hx : Shared setup x) :
    Tied setup pre x x fun _ _ => pre :=
  (hx pre).weaken fun _ _ _ _ h => h.2

theorem fail (e : RuntimeError) : Shared setup (Exec.fail e : Exec α) := fun _ => Tied.fail rfl

theorem mismatch (expected : String) : Shared setup (Exec.mismatch expected : Exec α) :=
  fun _ => Tied.mismatch expected

theorem orFail (v : Option α) (e : RuntimeError) : Shared setup (Exec.orFail v e) := by
  intro pre
  cases v with
  | none => exact Tied.fail rfl
  | some a => exact pure a pre

theorem get_bind {f : Machine → Exec β} (hread : ∀ m q, f (Machine.beside m q) = f m)
    (hf : ∀ m, Shared setup (f m)) : Shared setup (get >>= f) := fun pre =>
  Tied.get_bind fun m q hpre => by
    rw [hread]
    refine (hf m _).weaken fun a b l r h => ⟨h.1, ?_⟩
    obtain ⟨-, rfl, rfl⟩ := h
    exact hpre

theorem read_bind {f : Setup → Exec β} (hf : Shared setup (f setup)) :
  Shared setup (read >>= f) := hf

theorem modify {change : Machine → Machine}
    (h : ∀ (m : Machine) (q : Private), change (m.beside q) = (change m).beside q)
    (hown : ∀ m : Machine, (change m).own = m.own) : Shared setup (modify change : Exec Unit) :=
  fun _ => (Tied.shares h hown).weaken fun _ _ _ _ hpre => ⟨rfl, hpre⟩

end Exec.Shared

theorem Exec.Tied.after {α γ δ : Type} {setup : Setup} {pre : Private → Private → Prop} {x : Exec α}
    {f : α → Exec γ} {g : α → Exec δ} {final : γ → δ → Private → Private → Prop}
    (hx : Exec.Shared setup x) (hf : ∀ a, Exec.Tied setup pre (f a) (g a) final) :
    Exec.Tied setup pre (x >>= f) (x >>= g) final :=
  (hx pre).bind fun a _ => .given fun h => h ▸ hf a

/-! ### Stacks -/

/-- Values at the same height of the two stacks. -/
abbrev StackPair := Value × Value

/-- The stack of some values, the topmost first. -/
def stackOf (vs : List Value) : Array Value := vs.reverse.toArray

@[simp] theorem size_stackOf (vs : List Value) : (stackOf vs).size = vs.length := by simp [stackOf]

theorem stackOf_cons (v : Value) (vs : List Value) : stackOf (v :: vs) = (stackOf vs).push v := by
  simp [stackOf]

theorem getElem?_stackOf (vs : List Value) (i : Nat) : (stackOf vs)[i]? = vs.reverse[i]? := by
  simp [stackOf]

/-- What is known of a value on the stack. -/
inductive Kind where
  | ref
  /-- Not a reference. -/
  | solid
  /-- A reference, or not. -/
  | any
  /-- A primitive of a template. -/
  | literal
  /-- It may be a saved address, too. -/
  | stray
deriving DecidableEq

/-- What is known of the values on the stack above the frame.  Ill-formed arguments
take more references than they should, or leave some, so that there is nothing to be
known of references further down. -/
structure Shape where
  /-- The topmost values. -/
  kinds : List Kind := []
  /-- How many values below those are no references, at least. -/
  solids : Nat := 0

/-- The number of values that are no references. -/
def solidCount (ps : List StackPair) : Nat := ps.countP fun c => !c.1.isRef

section

variable {o : CompileOptions} {d e : Duo}

/-- The values of the two stacks are of a kind. -/
def Kind.Admits (o : CompileOptions) (d : Duo) : Kind → StackPair → Prop
  | .ref, c => c.1.Twin o d c.2 ∧ c.1.isRef = true
  | .solid, c => c.1.Twin o d c.2 ∧ c.1.isRef = false
  | .any, c => c.1.Twin o d c.2
  | .literal, c => ∃ p, c = (.primitive p, .primitive p)
  | .stray, c => c.1.Alike o d c.2

theorem Kind.Admits.mono {k : Kind} {c : StackPair} (h : k.Admits o d c) (he : d.Within e) :
    k.Admits o e c := by
  cases k with
  | ref => exact ⟨h.1.mono he, h.2⟩
  | solid => exact ⟨h.1.mono he, h.2⟩
  | any => exact Value.Twin.mono h he
  | literal => exact h
  | stray => exact Value.Alike.mono h he

/-- Values above the frame. -/
structure Shape.Fits (o : CompileOptions) (d : Duo) (s : Shape) (top : List StackPair) : Prop where
  split : ∃ us vs, top = us ++ vs ∧ List.Forall₂ (fun (k : Kind) (c : StackPair) => k.Admits o d c)
    s.kinds us ∧ (∀ c ∈ vs, c.1.Twin o d c.2) ∧ s.solids ≤ solidCount vs

theorem Shape.Fits.mono {s : Shape} {top : List StackPair} (h : s.Fits o d top) (he : d.Within e) :
    s.Fits o e top := by
  obtain ⟨us, vs, htop, hus, hvs, hn⟩ := h.split
  exact ⟨us, vs, htop, hus.imp fun _ _ hc => hc.mono he, fun c hc => (hvs c hc).mono he, hn⟩

/-- What there is below, the frame first: whatever is taken from it, the values are alike. -/
structure Ground (o : CompileOptions) where
  Holds : Duo → List StackPair → Prop
  mono : ∀ {d e : Duo} {base : List StackPair}, Holds d base → d.Within e → Holds e base
  pop : ∀ {d : Duo} {c : StackPair} {base : List StackPair}, Holds d (c :: base) →
    c.1.Alike o d c.2 ∧ Holds d base

theorem Ground.alike (G : Ground o) {base : List StackPair} (h : G.Holds d base) {c : StackPair}
    (hc : c ∈ base) : c.1.Alike o d c.2 := by
  induction base with
  | nil => cases hc
  | cons b base ih =>
    obtain ⟨hb, hbase⟩ := G.pop h
    cases hc with
    | head => exact hb
    | tail _ hc => exact ih hbase hc

/-- What an instruction leaves alone if it is not a jump. -/
structure Pins where
  pc : Nat
  pc' : Nat
  ra : Nat
  ra' : Nat
  fp : Nat
  since : Duo

/-- The programs have got further. -/
def Pins.at (π : Pins) (e : Duo) : Pins := { π with since := e }

/-- The two programs. -/
def Private.duo (l r : Private) : Duo := ⟨l.program, r.program⟩

/-- The machines stand side by side. -/
structure Held (G : Ground o) (π : Pins) (s : Shape) (l r : Private) : Prop where
  pc : l.pc = π.pc
  pc' : r.pc = π.pc'
  ra : l.ra = π.ra
  ra' : r.ra = π.ra'
  fp : l.fp = π.fp
  fp' : r.fp = π.fp
  since : π.since.Within (l.duo r)
  ready : o.Ready l.program
  ready' : o.Ready r.program
  registers : l.registers.Twin o (l.duo r) r.registers
  scopes : l.scopes.Twin o (l.duo r) r.scopes
  stack : ∃ top base, l.stack = stackOf ((top ++ base).map Prod.fst) ∧
    r.stack = stackOf ((top ++ base).map Prod.snd) ∧ s.Fits o (l.duo r) top ∧ G.Holds (l.duo r) base

/-- The machines stand side by side, and something is known of the two programs. -/
def HeldWith (F : Duo → Prop) (G : Ground o) (π : Pins) (s : Shape) (l r : Private) : Prop :=
  F (l.duo r) ∧ Held G π s l r

end

end TemplateMachine
