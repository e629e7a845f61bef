import TemplateMachine.Proofs.Emission.Once
import TemplateMachine.Proofs.Run.Step

/-! What a run does to the program: nothing but linking.  A program is only changed by
compiling what a handle is asked for, and if that fails then so does the run.  What is
linked has a handle from then on, so that a machine whose program contains it already takes
the same steps and links nothing. -/

namespace TemplateMachine

/-- The run could not be finished because something could not be compiled, or
because fuel was used up. -/
def Stop.isUnlinked : Stop RuntimeError → Bool
  | .fault (.compile _) | .outOfFuel => true
  | _ => false

/-- Programs that compiling some fragments one after the other leads to. -/
inductive CompileOptions.Links (options : CompileOptions) : Program → Program → Prop
  | refl (p : Program) : Links options p p
  | link {p q r : Program} {f : Fragment} {handle : UInt32} :
      Links options p q → options.compile f q = .ok handle r → Links options p r

theorem CompileOptions.Links.trans {options : CompileOptions} {p q r : Program}
    (h : options.Links p q) (h' : options.Links q r) : options.Links p r := by
  induction h' with
  | refl => exact h
  | link _ hcompile ih => exact ih.link hcompile

namespace Exec

/-- Only linking has changed the program; the last that was to be linked may have failed. -/
def EndsLinked {α : Type} (options : CompileOptions) (m : Machine) :
    EStateM.Result (Stop RuntimeError) Machine α → Prop
  | .ok _ m' => options.Links m.program m'.program
  | .error e m' => options.Links m.program m'.program ∨ e.isUnlinked = true ∧
      ∃ q f failure, options.Links m.program q ∧ options.compile f q = .error failure m'.program

def LinksOnly {α : Type} (x : Exec α) : Prop :=
  ∀ setup m, EndsLinked setup.options m (x setup m)

variable {α β : Type}

theorem EndsLinked.prepend {options : CompileOptions} {m m' : Machine}
    {out : EStateM.Result (Stop RuntimeError) Machine α} (h : options.Links m.program m'.program)
    (hout : EndsLinked options m' out) : EndsLinked options m out := by
  cases out with
  | ok a m'' => exact h.trans hout
  | error e m'' =>
    refine hout.imp h.trans ?_
    rintro ⟨he, q, f, failure, hlinks, hfailed⟩
    exact ⟨he, q, f, failure, h.trans hlinks, hfailed⟩

theorem LinksOnly.pure (a : α) : (pure a : Exec α).LinksOnly := fun _ m => .refl m.program

theorem LinksOnly.fail (error : RuntimeError) : (fail error : Exec α).LinksOnly :=
  fun _ m => .inl (.refl m.program)

theorem LinksOnly.outOfFuel : (throw .outOfFuel : Exec α).LinksOnly :=
  fun _ m => .inl (.refl m.program)

theorem LinksOnly.get : (get : Exec Machine).LinksOnly := fun _ m => .refl m.program

theorem LinksOnly.read : (read : Exec Setup).LinksOnly := fun _ m => .refl m.program

theorem LinksOnly.bind {x : Exec α} {f : α → Exec β} (hx : x.LinksOnly)
    (hf : ∀ a, (f a).LinksOnly) : (x >>= f).LinksOnly := by
  intro setup m
  have hx := hx setup m
  rw [bind_apply]
  cases hxm : x setup m with
  | error e m' =>
    rw [hxm] at hx
    exact hx
  | ok a m' =>
    rw [hxm] at hx
    exact (hf a setup m').prepend hx

/-- A change that leaves the program alone. -/
theorem LinksOnly.modify {change : Machine → Machine} (h : ∀ m, (change m).program = m.program) :
    (modify change : Exec Unit).LinksOnly := fun setup m => by
  show setup.options.Links m.program (change m).program
  rw [h m]
  exact .refl m.program

theorem LinksOnly.orFail (o : Option α) (error : RuntimeError) : (orFail o error).LinksOnly := by
  cases o with
  | none => exact .fail error
  | some a => exact .pure a

theorem linksOnly_onElement (change : Sink → Sink.Result) : (onElement change).LinksOnly := by
  intro setup m
  unfold onElement
  simp only
  cases change m.sink with
  | ok sink => exact CompileOptions.Links.refl m.program
  | error operation => exact .inl (CompileOptions.Links.refl m.program)

/-- Linking is all that changes a program. -/
theorem linksOnly_link (f : Fragment) : (link f).LinksOnly := by
  intro setup m
  unfold link
  simp only
  cases h : setup.options.compile f m.program with
  | ok handle q => exact .link (.refl m.program) h
  | error e q =>
    cases e with
    | fault failure => exact .inr ⟨rfl, m.program, f, .fault failure, .refl m.program, h⟩
    | outOfFuel => exact .inr ⟨rfl, m.program, f, .outOfFuel, .refl m.program, h⟩

end Exec

/-! ### Programs that contain another -/

/-- `q` has what `p` has, finished blocks included, and perhaps more. -/
structure Program.Contains (q p : Program) : Prop where
  grows : p.Grows q
  finished : ∀ handle b, p.heap.block? handle = some b → q.heap.block? handle = some b

namespace Program

variable {p q r : Program}

theorem Contains.refl (p : Program) : p.Contains p := ⟨.refl p, fun _ _ h => h⟩

theorem Contains.trans (h : r.Contains q) (h' : q.Contains p) : r.Contains p :=
  ⟨h'.grows.trans h.grows, fun handle b hb => h.finished handle b (h'.finished handle b hb)⟩

theorem Contains.address? (h : q.Contains p) {handle : UInt32} {address : Nat}
    (ha : p.heap.address? handle = some address) : q.heap.address? handle = some address := by
  obtain ⟨b, hb, rfl⟩ := Option.map_eq_some_iff.mp ha
  exact Option.map_eq_some_iff.mpr ⟨b, h.finished _ _ hb, rfl⟩

theorem Contains.of_compile {options : CompileOptions} {f : Fragment} {handle : UInt32}
    (hclosed : p.constants.Closed) (h : options.compile f p = .ok handle q)
    (hfits : q.Fits) : q.Contains p := by
  have hadvances : p.Advances options.strategy _ := .of_compile hclosed f
  rw [h] at hadvances
  exact ⟨hadvances.grows, fun _ _ hb => hadvances.block? (Nat.le_of_lt hfits.blocks) hb⟩

end Program

namespace CompileOptions

variable {options : CompileOptions} {p q : Program}

theorem Links.closed (h : options.Links p q) (hclosed : p.constants.Closed) :
    q.constants.Closed := by
  induction h with
  | refl => exact hclosed
  | link _ hcompile ih => exact Program.closed_of_compile ih hcompile

/-- What is linked is added to the program. -/
theorem Links.contains (h : options.Links p q) (hclosed : p.constants.Closed)
    (hfits : q.Fits) : q.Contains p := by
  induction h with
  | refl => exact .refl _
  | link hlinks hcompile ih =>
    have hlast := Program.Contains.of_compile (hlinks.closed hclosed) hcompile hfits
    exact hlast.trans (ih (hlast.grows.fits hfits))

/-- What was linked has its handle in whatever contains the program. -/
theorem compile_of_contains {f : Fragment} {handle : UInt32} {r : Program}
    (hclosed : p.constants.Closed) (h : options.compile f p = .ok handle q) (hr : r.Contains q) :
    options.compile f r = .ok handle r :=
  Link.fragment_of_linked (hr.grows.linked _ _ (linked_of_compile hclosed h))

end CompileOptions

/-- The machine over another program. -/
def Machine.over (m : Machine) (q : Program) : Machine := { m with program := q }

/-! ### Steps -/

namespace Exec

variable {α β : Type}

/-- The program changes only by linking, and once it contains what was linked
the step can be repeated. -/
structure Lasting (x : Exec α) : Prop where
  links : x.LinksOnly
  again : ∀ {setup : Setup} {m m' : Machine} {a : α} {q : Program}, x setup m = .ok a m' →
    m.program.constants.Closed → q.Contains m'.program → q.Fits → x setup (m.over q) =
    .ok a (m'.over q)

namespace Lasting

theorem pure (a : α) : (pure a : Exec α).Lasting := by
  refine ⟨.pure a, fun h _ _ _ => ?_⟩
  cases h
  rfl

theorem fail (error : RuntimeError) : (fail error : Exec α).Lasting :=
  ⟨.fail error, fun h => nomatch h⟩

theorem outOfFuel : (throw .outOfFuel : Exec α).Lasting := ⟨.outOfFuel, fun h => nomatch h⟩

theorem read : (read : Exec Setup).Lasting := by
  refine ⟨.read, fun h _ _ _ => ?_⟩
  cases h
  rfl

theorem bind {x : Exec α} {f : α → Exec β} (hx : x.Lasting) (hf : ∀ a, (f a).Lasting) :
    (x >>= f).Lasting := by
  refine ⟨hx.links.bind fun a => (hf a).links, fun {setup m m'' b q} h hclosed hq hfits => ?_⟩
  rw [bind_apply] at h ⊢
  have hfirst := hx.links setup m
  cases hxm : x setup m with
  | error e m' =>
    rw [hxm] at h
    cases h
  | ok a m' =>
    rw [hxm] at h hfirst
    replace h : f a setup m' = .ok b m'' := h
    have hclosed' := CompileOptions.Links.closed hfirst hclosed
    have hsecond := (hf a).links setup m'
    rw [h] at hsecond
    have hcontains :=
      hq.trans (CompileOptions.Links.contains hsecond hclosed' (hq.grows.fits hfits))
    rw [hx.again hxm hclosed hcontains hfits]
    exact (hf a).again h hclosed' hq hfits

/-- What is read from the machine is none of the program. -/
theorem bind_get {f : Machine → Exec α} (hsame : ∀ m q, f (m.over q) = f m)
    (hf : ∀ m, (f m).Lasting) : (get >>= f).Lasting := by
  refine ⟨.bind .get fun m => (hf m).links, fun {setup m m' a q} h hclosed hq hfits => ?_⟩
  rw [bind_apply] at h ⊢
  show f (m.over q) setup (m.over q) = _
  rw [hsame m q]
  exact (hf m).again h hclosed hq hfits

theorem modify {change : Machine → Machine} (h : ∀ m, (change m).program = m.program)
    (hover : ∀ m q, change (m.over q) = (change m).over q) :
    (modify change : Exec Unit).Lasting := by
  refine ⟨.modify h, fun {setup m m' a q} hm _ _ _ => ?_⟩
  cases hm
  exact congrArg _ (hover m q)

theorem orFail (o : Option α) (error : RuntimeError) : (orFail o error).Lasting := by
  cases o with
  | none => exact .fail error
  | some a => exact .pure a

/-- What is found in the program is also found in one that contains it. -/
theorem find {find : Program → Option α} {error : RuntimeError}
    (hfind : ∀ p q a, q.Contains p → find p = some a → find q = some a) :
    (do Exec.orFail (find (← get).program) error : Exec α).Lasting := by
  refine ⟨.bind .get fun m => .orFail _ _, fun {setup m m' a q} h _ hq _ => ?_⟩
  rw [bind_apply, get_apply] at h ⊢
  dsimp only at h ⊢
  cases hm : find m.program with
  | none =>
    rw [hm] at h
    cases h
  | some a =>
    rw [hm] at h
    cases h
    rw [show find (m.over q).program = some a from hfind _ _ _ hq hm]
    rfl

theorem bind_find (find : Program → Option α) {error : RuntimeError} {k : α → Exec β}
    (hfind : ∀ p q a, q.Contains p → find p = some a → find q = some a) (hk : ∀ a, (k a).Lasting) :
    (do k (← Exec.orFail (find (← get).program) error) : Exec β).Lasting := by
  have hbind : (do k (← Exec.orFail (find (← get).program) error) : Exec β) =
      (do Exec.orFail (find (← get).program) error) >>= k := (bind_assoc _ _ _).symm
  rw [hbind]
  exact (Lasting.find hfind).bind hk

end Lasting

theorem lasting_onElement (change : Sink → Sink.Result) : (onElement change).Lasting := by
  refine ⟨linksOnly_onElement change, fun {setup m m' a q} h _ _ _ => ?_⟩
  unfold onElement at h ⊢
  simp only at h ⊢
  rw [show (m.over q).sink = m.sink from rfl]
  cases hchange : change m.sink with
  | ok sink =>
    rw [hchange] at h
    cases h
    rfl
  | error operation =>
    rw [hchange] at h
    cases h

theorem lasting_link (f : Fragment) : (link f).Lasting := by
  refine ⟨linksOnly_link f, fun {setup m m' handle q} h hclosed hq _ => ?_⟩
  unfold link at h ⊢
  simp only at h ⊢
  cases hcompile : setup.options.compile f m.program with
  | ok handle r =>
    rw [hcompile] at h
    cases h
    rw [show setup.options.compile f (m.over q).program = .ok handle q from
      CompileOptions.compile_of_contains hclosed hcompile hq]
    rfl
  | error e r =>
    rw [hcompile] at h
    cases e <;> cases h

/-- The heap only gets longer. -/
theorem lasting_target (start : Nat) (operand : UInt32) : (target start operand).Lasting := by
  have hlinks : (target start operand).LinksOnly := by
    refine .bind .get fun m => ?_
    split
    · exact .pure _
    · exact .fail _
  refine ⟨hlinks, fun {setup m m' a q} h _ hq _ => ?_⟩
  unfold target at h ⊢
  rw [bind_apply, get_apply] at h ⊢
  dsimp only at h ⊢
  split at h
  · rename_i hbounds
    cases h
    have hle := hq.grows.words_le
    rw [if_pos ⟨hbounds.1, show _ < ((m.over q).program.heap.words.size : Int) from by
      rw [show (m.over q).program = q from rfl]
      omega⟩]
    rfl
  · cases h

/-! ### Runs by computation.  Where machines are run in a proof, what they link is better appended
to the heap as a whole, and a word is better found by halving its address than by going through all
words before it. -/

/-- Every other element, from the first on. -/
def alternate {α : Type} : List α → List α
  | [] => []
  | [a] => [a]
  | a :: _ :: rest => a :: alternate rest

theorem getElem?_alternate {α : Type} (l : List α) (i : Nat) : (alternate l)[i]? = l[2 * i]? := by
  induction l using alternate.induct generalizing i with
  | case1 => rfl
  | case2 a => cases i <;> rfl
  | case3 a b rest ih =>
    cases i with
    | zero => rfl
    | succ i => exact ih i

/-- The element at a place, which is halved up to so many times. -/
def halving {α : Type} : Nat → Nat → List α → Option α
  | _, _, [] => none
  | 0, i, l => l[i]?
  | depth + 1, i, a :: rest =>
    bif i % 2 == 0 then halving depth (i / 2) (alternate (a :: rest)) else halving depth (i / 2)
      (alternate rest)

theorem halving_eq_getElem? {α : Type} (depth i : Nat) (l : List α) :
    halving depth i l = l[i]? := by
  induction depth generalizing i l with
  | zero => cases l <;> rfl
  | succ depth ih =>
    cases l with
    | nil => rfl
    | cons a rest =>
      unfold halving
      rw [ih, ih, getElem?_alternate, getElem?_alternate]
      obtain ⟨k, rfl | rfl⟩ : ∃ k, i = 2 * k ∨ i = 2 * k + 1 := ⟨i / 2, by omega⟩
      · rw [show 2 * k % 2 = 0 by omega, show 2 * k / 2 = k by omega]
        rfl
      · rw [show (2 * k + 1) % 2 = 1 by omega, show (2 * k + 1) / 2 = k by omega]
        rfl

/-- `Exec.link`, with the words of each block appended as a whole. -/
def linkWhole (f : Fragment) : Exec UInt32 := fun setup m =>
  let program := m.program
  let m := { m with program := {} }
  match setup.options.compileWhole f program with
  | .ok handle program => .ok handle { m with program }
  | .error (.fault e) program => .error (.fault (.compile e)) { m with program }
  | .error .outOfFuel program => .error .outOfFuel { m with program }

theorem link_eq_linkWhole : link = linkWhole := by
  funext f
  unfold link linkWhole
  exact CompileOptions.compile_eq_compileWhole ▸ rfl

def compileBlockWhole : Exec Unit := do
  match ← pop with
  | .fragment f => push (.handle (← linkWhole f))
  | v => if v.isNull || v.toHandle?.isSome then push v else mismatch "template"

def pushLayoutWhole (word : UInt32) : Exec Unit := do
  let c ← component word
  let layout ← orFail ((← read).options.lookup.layout? c.definition) (.unknownComponent c.name)
  let handle ← linkWhole layout
  push (.table layout.table)
  push (.handle handle)

/-- `Exec.perform`, with the words of each block appended as a whole; two instructions link. -/
def performWhole (start : Nat) (i : Instruction) : Exec Unit :=
  match i.op with
  | .compileBlock => compileBlockWhole
  | .getComponentLayout => pushLayoutWhole i.a
  | _ => perform start i

theorem perform_eq_performWhole : perform = performWhole := by
  funext start ⟨op, a, b, c⟩
  cases op with
  | compileBlock =>
    unfold performWhole compileBlockWhole
    rw [← link_eq_linkWhole]
    rfl
  | getComponentLayout =>
    unfold performWhole pushLayoutWhole
    rw [← link_eq_linkWhole]
    rfl
  | _ => rfl

/-- `Exec.word`, with the address halved ten times: the heaps of the proofs have no more than a
thousand words. -/
def wordWhole (address : Nat) : Exec UInt32 := do
  orFail (halving 10 address (← get).program.heap.words.toList) (.pcOutOfBounds address)

theorem word_eq_wordWhole : word = wordWhole := by
  funext address
  simp only [word, wordWhole, halving_eq_getElem?, Array.getElem?_toList]
  rfl

def instructionWhole (address : Nat) : Exec Instruction := do
  let number ← wordWhole address
  let op ← orFail (Opcode.ofNumber? number) (.unknownOpcode address number)
  return ⟨op, ← wordWhole (address + 1), ← wordWhole (address + 2), ← wordWhole (address + 3)⟩

theorem instruction_eq_instructionWhole : instruction = instructionWhole := by
  funext address
  unfold instructionWhole
  rw [← word_eq_wordWhole]
  rfl

def stepWhole : Exec Bool := do
  let start := (← get).pc
  let i ← instructionWhole start
  modify fun m => { m with pc := start + instructionWidth, current := (start, i.op) }
  performWhole start i
  if i.op = .ret ∧ (← get).pc = haltAddress then
    return false
  else
    checkStack
    return true

theorem step_eq_stepWhole : step = stepWhole := by
  unfold stepWhole
  rw [← perform_eq_performWhole, ← instruction_eq_instructionWhole]
  rfl

/-- `Exec.run`, by computation. -/
def runWhole : Nat → Exec Unit
  | 0 => throw .outOfFuel
  | fuel + 1 => do
    if ← stepWhole then runWhole fuel

theorem run_eq_runWhole : run = runWhole := by
  funext fuel
  induction fuel with
  | zero => rfl
  | succ fuel ih => simp only [run, runWhole, step_eq_stepWhole, ih]

end Exec

end TemplateMachine
