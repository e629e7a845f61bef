import Mathlib.Data.ENat.Basic
import TemplateMachine.Proofs.Program.Operand
import TemplateMachine.Proofs.Run.Path
import TemplateMachine.Proofs.Walk.Keep

/-! Runs of the machine, held against walks.  A machine leads to the outcome of a walk if it reaches
a state that stands for the value of the walk, fails where the walk fails, and runs for long where
the walk runs out of fuel. -/

namespace TemplateMachine

/-- The fault of a walk that an error of the machine is. -/
def RuntimeError.fault? : RuntimeError → Option Fault
  | .compile _ => some .uncompilable
  | .helperFailed message => some (.helperFailed message)
  | .managerFailed message => some (.managerFailed message)
  | .noOpenElement operation => some (.noOpenElement operation)
  | .notAComponent shown => some (.notAComponent shown)
  | .unknownComponent name => some (.unknownComponent name)
  | _ => none

/-- The fault of a walk that a stop of the machine is.  A block whose linking runs out of fuel
cannot be compiled. -/
def Stop.fault? : Stop RuntimeError → Option Fault
  | .fault e => e.fault?
  | .outOfFuel => some .uncompilable

/-- The program stays small enough for its words and keeps its lists of strings, and the stack stays
within its limit. -/
def Bounded (setup : Setup) (m : Machine) : Prop :=
  ∀ k m', Reaches setup k m m' →
    m'.program.Fits ∧ m'.program.constants.Closed ∧ m'.stack.size ≤ setup.maxStack

/-- Stops that have no counterpart in a walk: the stack is too small, or a layout that is only
looked up at run time cannot be linked together with all it refers to. -/
def Setup.Allows (setup : Setup) : Stop RuntimeError → Prop
  | .fault (.stackOverflow ..) => True
  | .fault (.compile _) | .outOfFuel =>
    setup.options.strategy = .eager ∧ ∃ handle d, setup.host.component? handle = some d
  | _ => False

/-- Operations after which all is settled about an instance, or about an invocation. -/
@[simp] def Opcode.settles : Opcode → Bool
  | .registerComponentDestructor | .didRenderLayout | .commitComponentTransaction => true
  | _ => false

/-- Some fragment cannot be linked for lack of fuel; eagerly it is a layout. -/
def Setup.Hangs (setup : Setup) : Prop :=
  ∃ f p q, p.constants.Closed ∧
    (setup.options.strategy = .eager → ∃ handle, setup.options.lookup.layout? handle = some f) ∧
    setup.options.compile f p = .error .outOfFuel q

/-- The next instruction fails.  It is not one that registers an instance or ends an invocation, and
the creation of an instance, of the current component, fails only if the manager refuses.  Fuel is
only needed to link. -/
structure Breaks (setup : Setup) (m : Machine) (e : Stop RuntimeError) (m' : Machine) : Prop where
  step : Exec.step setup m = .error e m'
  fuel : e = .outOfFuel → setup.Hangs
  next : ∃ i, m.next? = some i ∧ i.op.settles = false ∧
    (i.op = .createComponent → i.b = Emit.current ∧ ∃ message, e = .fault (.managerFailed message))

/-- The machine stops in a way that has no counterpart in a walk. -/
def Escapes (setup : Setup) (phase : Phase) (floor : Nat) (m : Machine) : Prop :=
  ∃ k m' e m'', Path setup false phase floor k m m' ∧ Breaks setup m' e m'' ∧ setup.Allows e

/-- A failed machine has called its host as often as a walk, and has the same instances. -/
structure Machine.Unwinds (m : Machine) (w : World) : Prop where
  events : m.events = w.events
  transactions : m.transactions = w.transactions
  destructors : m.destructors = w.destructors

/-- The machine fails where the walk fails. -/
def Fails (setup : Setup) (phase : Phase) (floor : Nat) (m : Machine) (fault : Fault) (w : World) :
    Prop :=
  ∃ k m' e m'', Path setup false phase floor k m m' ∧ Breaks setup m' e m'' ∧
    e.fault? = some fault ∧ m''.Unwinds w

/-- The machine has a run for the outcome of a walk; a walk without an outcome stands for a run that
takes at least `n` steps, so there is none if `n` is infinite. -/
def Meets {α : Type} (setup : Setup) (phase : Phase) (floor : Nat) (n : ENat) (m : Machine)
    (out : EStateM.Result (Stop Fault) World α) (final : α → World → Machine → Prop) : Prop :=
  match out with
  | .ok a w => ∃ k m', Path setup true phase floor k m m' ∧ final a w m'
  | .error (.fault e) w => Fails setup phase floor m e w
  | .error .outOfFuel _ => ∃ (k : Nat) (m' : Machine), n ≤ k ∧ Path setup false phase floor k m m'

/-- The machine leads to the outcome of a walk, if the program stays small and the stack within its
limit. -/
def Leads {α : Type} (setup : Setup) (phase : Phase) (floor : Nat) (n : ENat) (m : Machine)
    (out : EStateM.Result (Stop Fault) World α) (final : α → World → Machine → Prop) : Prop :=
  Bounded setup m → Escapes setup phase floor m ∨ Meets setup phase floor n m out final

section

variable {setup : Setup} {phase phase' : Phase} {floor k : Nat} {n : ENat} {m m' m'' : Machine}

theorem Bounded.fits (h : Bounded setup m) : m.program.Fits := (h 0 m (.refl m)).1

theorem Bounded.closed (h : Bounded setup m) : m.program.constants.Closed := (h 0 m (.refl m)).2.1

theorem Bounded.stack (h : Bounded setup m) : m.stack.size ≤ setup.maxStack := (h 0 m (.refl m)).2.2

theorem Bounded.of_reaches (h : Bounded setup m) (hr : Reaches setup k m m') : Bounded setup m' :=
  fun j m'' hj => h (k + j) m'' (hr.trans hj)

variable {α β : Type} {out : EStateM.Result (Stop Fault) World α}
variable {final : α → World → Machine → Prop}

/-- A run that comes before others of the machine. -/
def Prolongs (setup : Setup) (phase phase' : Phase) (floor floor' k : Nat)
    (m m' : Machine) : Prop :=
  ∀ complete j m'', Path setup complete phase' floor' j m' m'' →
    Path setup complete phase floor (k + j) m m''

theorem Path.prolongs (h : Path setup true phase floor k m m') :
    Prolongs setup phase .free floor floor k m m' := fun _ _ _ h' => h.trans h'

theorem Escapes.prolong (h : Escapes setup phase' floor m')
    (hr : Prolongs setup phase phase' floor floor k m m') : Escapes setup phase floor m := by
  obtain ⟨j, m₁, e, m₂, hj, hbreaks, hallows⟩ := h
  exact ⟨k + j, m₁, e, m₂, hr _ _ _ hj, hbreaks, hallows⟩

theorem Meets.prolong (h : Meets setup phase' floor n m' out final)
    (hr : Prolongs setup phase phase' floor floor k m m') :
    Meets setup phase floor (k + n) m out final := by
  cases out with
  | ok a w =>
    obtain ⟨j, m₁, hj, hfinal⟩ := h
    exact ⟨k + j, m₁, hr _ _ _ hj, hfinal⟩
  | error e w =>
    cases e with
    | fault e =>
      obtain ⟨j, m₁, e', m₂, hj, hfails⟩ := h
      exact ⟨k + j, m₁, e', m₂, hr _ _ _ hj, hfails⟩
    | outOfFuel =>
      obtain ⟨j, m₁, hn, hj⟩ := h
      refine ⟨k + j, m₁, ?_, hr _ _ _ hj⟩
      rw [Nat.cast_add]
      exact add_le_add_right hn _

theorem Meets.le {n' : ENat} (h : Meets setup phase floor n m out final) (hn : n' ≤ n) :
    Meets setup phase floor n' m out final := by
  cases out with
  | ok a w => exact h
  | error e w =>
    cases e with
    | fault e => exact h
    | outOfFuel =>
      obtain ⟨j, m₁, hj, hr⟩ := h
      exact ⟨j, m₁, hn.trans hj, hr⟩

namespace Leads

theorem done {a : α} {w : World} (h : final a w m) : Leads setup .free floor n m (.ok a w) final :=
  fun _ => .inr ⟨0, m, .refl m, h⟩

/-- The program may be taken to be small, and the stack to be within its limit. -/
theorem of_bounded
    (h : m.program.Fits → m.stack.size ≤ setup.maxStack → Leads setup phase floor n m out final) :
    Leads setup phase floor n m out final :=
  fun hbounded => h hbounded.fits hbounded.stack hbounded

/-- The program may be taken to be small, with all its lists of strings. -/
theorem of_program
    (h : m.program.Fits → m.program.constants.Closed → Leads setup phase floor n m out final) :
    Leads setup phase floor n m out final :=
  fun hbounded => h hbounded.fits hbounded.closed hbounded

/-- The program may be taken to be small. -/
theorem of_fits (h : m.program.Fits → Leads setup phase floor n m out final) :
    Leads setup phase floor n m out final :=
  of_bounded fun hfits _ => h hfits

theorem exhausted {w : World} : Leads setup .free floor 0 m (.error .outOfFuel w) final :=
  fun _ => .inr ⟨0, m, zero_le, .refl m⟩

theorem le {n' : ENat} (h : Leads setup phase floor n m out final) (hn : n' ≤ n) :
    Leads setup phase floor n' m out final :=
  fun hbounded => (h hbounded).imp_right fun hmeets => hmeets.le hn

theorem prolong (hreaches : Reaches setup k m m')
    (hr : Prolongs setup phase phase' floor floor k m m')
    (h : Leads setup phase' floor n m' out final) :
    Leads setup phase floor (k + n) m out final := by
  intro hbounded
  exact (h (hbounded.of_reaches hreaches)).imp (fun he => he.prolong hr) fun hm => hm.prolong hr

theorem of_path (hr : Path setup true phase floor k m m')
    (h : Leads setup .free floor n m' out final) : Leads setup phase floor (k + n) m out final :=
  prolong hr.reaches hr.prolongs h

/-- The scope is full. -/
theorem filled {s : Beginning} (hyield : m.CanYield setup.options.strategy)
    (h : Leads setup .free floor n m out final) : Leads setup (.filling s) floor n m out final := by
  have hr : Prolongs setup (.filling s) .free floor floor 0 m m := fun complete j m'' hpath => by
    rw [Nat.zero_add]
    exact .filled hyield hpath
  have := prolong (.refl m) hr h
  rwa [Nat.cast_zero, zero_add] at this

/-- What follows the outcome. -/
theorem andThen {final' : α → World → Machine → Prop} (h : Leads setup phase floor n m out final)
    (hnext : ∀ a w m', final a w m' → Leads setup .free floor n m' (.ok a w) final') :
    Leads setup phase floor n m out final' := by
  intro hbounded
  rcases h hbounded with hescapes | hmeets
  · exact .inl hescapes
  · cases out with
    | ok a w =>
      obtain ⟨j, m₁, hj, ha⟩ := hmeets
      exact (of_path hj (hnext a w m₁ ha)).le le_add_self hbounded
    | error e w => cases e <;> exact .inr hmeets

theorem mono {final' : α → World → Machine → Prop} (h : Leads setup phase floor n m out final)
    (hfinal : ∀ a w m', final a w m' → final' a w m') : Leads setup phase floor n m out final' :=
  andThen h fun a w m' ha => done (hfinal a w m' ha)

theorem bind {x : Walk α} {f : α → Walk β} {w : World} {final' : β → World → Machine → Prop}
    (hx : Leads setup phase floor n m (x w) final)
    (hf : ∀ a w' m', x w = .ok a w' → final a w' m' →
      Leads setup .free floor n m' (f a w') final') :
    Leads setup phase floor n m ((x >>= f) w) final' := by
  intro hbounded
  rcases hx hbounded with hescapes | hmeets
  · exact .inl hescapes
  · rw [Walk.bind_apply]
    cases hout : x w with
    | ok a w' =>
      rw [hout] at hmeets
      obtain ⟨j, m₁, hj, ha⟩ := hmeets
      exact (of_path hj (hf a w' m₁ hout ha)).le le_add_self hbounded
    | error e w' =>
      rw [hout] at hmeets
      cases e <;> exact .inr hmeets

/-- A call whose callee is left at a return. -/
theorem call {entered : Machine} {handle : UInt32} (hcallee : m.callee? = some handle)
    (hfloor : floor < entered.stack.size) (hstep : Exec.step setup m = .ok true entered)
    (hyield : entered.CanYield setup.options.strategy)
    {final' : α → World → Machine → Prop}
    (h : Leads setup .free entered.stack.size n entered out final)
    (hfinal : ∀ a w last, out = .ok a w → final a w last → last.stack.size ≤ setup.maxStack →
      ∃ i left, last.next? = some i ∧ i.op = .ret ∧ Exec.step setup last = .ok true left ∧
        entered.Returned left ∧ final' a w left) :
    Leads setup .free floor (n + 1) m out final' := by
  intro hbounded
  have hbounded' := hbounded.of_reaches (.step hstep (.refl entered))
  rcases h hbounded' with ⟨k, m₁, e, m₂, hpath, hbreaks, hallows⟩ | hmeets
  · exact .inl ⟨k + 1, m₁, e, m₂, .inside hcallee hfloor hstep hyield hpath, hbreaks, hallows⟩
  · refine .inr ?_
    cases out with
    | ok a w =>
      obtain ⟨k, last, hpath, ha⟩ := hmeets
      obtain ⟨i, left, hi, hop, hret, hreturned, hleft⟩ :=
        hfinal a w last rfl ha (hbounded'.of_reaches hpath.reaches).stack
      exact ⟨k + 0 + 2, left, .call hcallee hfloor hstep hyield hpath hi hop hret hreturned
        (.refl left), hleft⟩
    | error e w =>
      cases e with
      | fault e =>
        obtain ⟨k, m₁, e', m₂, hpath, hfails⟩ := hmeets
        exact ⟨k + 1, m₁, e', m₂, .inside hcallee hfloor hstep hyield hpath, hfails⟩
      | outOfFuel =>
        obtain ⟨k, m₁, hn, hpath⟩ := hmeets
        refine ⟨k + 1, m₁, ?_, .inside hcallee hfloor hstep hyield hpath⟩
        rw [Nat.cast_succ]
        exact add_le_add_left hn 1

end Leads

end

end TemplateMachine
