import TemplateMachine.Proofs.Walk.Keep

/-! The lives of instances.  An instance lives from its creation to the end of its layout, and other
instances live within that time: those whose invocations are in the layout, or in a block that the
layout yields to.  So the lives of a render are a forest, and the order of destruction is an order
of that forest. -/

namespace TemplateMachine

/-- The life of an instance, with the lives within it, the earliest first. -/
inductive Life where
  | mk (own : Destructor) (offered : Bool) (inner : List Life)

namespace Life

mutual

/-- The instances to be destroyed, as they are registered: each before those
that live within its life. -/
def registered : Life → List Destructor
  | mk own offered inner => (if offered then [own] else []) ++ allRegistered inner

def allRegistered : List Life → List Destructor
  | [] => []
  | life :: rest => life.registered ++ allRegistered rest

end

mutual

/-- The instances to be destroyed, as they are destroyed.  Of two lives after one another that is
the latter first, but of two within one another it is the outer. -/
def destroyed : Life → List Destructor
  | mk own offered inner => (if offered then [own] else []) ++ allDestroyed inner

def allDestroyed : List Life → List Destructor
  | [] => []
  | life :: rest => allDestroyed rest ++ life.destroyed

end

mutual

/-- No instance to be destroyed lives within the life of another. -/
def isFlat : Life → Bool
  | mk _ offered inner => (!offered || (allRegistered inner).isEmpty) && allFlat inner

def allFlat : List Life → Bool
  | [] => true
  | life :: rest => life.isFlat && allFlat rest

end

theorem allDestroyed_append (lives more : List Life) :
    allDestroyed (lives ++ more) = allDestroyed more ++ allDestroyed lives := by
  induction lives with
  | nil => exact (List.append_nil _).symm
  | cons life rest ih => simp only [List.cons_append, allDestroyed, ih, List.append_assoc]

mutual

theorem destroyed_of_isFlat : (life : Life) → life.isFlat → life.destroyed = life.registered.reverse
  | mk own offered inner, h => by
    rw [isFlat, Bool.and_eq_true] at h
    obtain ⟨halone, hinner⟩ := h
    rw [destroyed, registered, allDestroyed_of_allFlat inner hinner, List.reverse_append]
    cases offered with
    | false => exact (List.append_nil _).symm
    | true =>
      rw [List.isEmpty_iff.mp halone]
      rfl

/-- Where no instance lives within the life of another, the last one to be registered is the first
one to be destroyed. -/
theorem allDestroyed_of_allFlat :
    (lives : List Life) → allFlat lives → allDestroyed lives = (allRegistered lives).reverse
  | [], _ => rfl
  | life :: rest, h => by
    rw [allFlat, Bool.and_eq_true] at h
    rw [allDestroyed, allRegistered, List.reverse_append, destroyed_of_isFlat life h.1,
      allDestroyed_of_allFlat rest h.2]

end

end Life

/-- The lives that calls after others tell of. -/
inductive Host.Tells (host : Host) (cells : Cells) : History → List Event → List Life → Prop where
  | nil {history : History} : host.Tells cells history [] []
  | quiet {history : History} {e : Event} {rest : List Event} {lives : List Life} :
    e.isQuiet = true → host.Tells cells (history.push e) rest lives →
    host.Tells cells history (e :: rest) lives
  | life {history creation beginning : History} {d : Destructor} {asked : Instance}
    {inside rest : List Event} {inner lives : List Life} :
    creation = history.push (.create d.definition asked) →
    host.created? cells creation d.definition asked = some d.inst →
    beginning = creation.push (.hasDestructor d.definition d.inst) →
    host.Tells cells beginning inside inner →
    host.Tells cells ((beginning ++ inside.toArray).push (.layoutRendered d.definition d.inst))
      rest lives →
    host.Tells cells history
      (.create d.definition asked :: .hasDestructor d.definition d.inst ::
        (inside ++ .layoutRendered d.definition d.inst :: rest))
      (⟨d, host.offers creation d, inner⟩ :: lives)

namespace Host.Tells

variable {host : Host} {cells : Cells} {history : History} {calls more : List Event}
variable {lives others : List Life}

theorem of_quiet (hquiet : ∀ e ∈ calls, e.isQuiet = true) : host.Tells cells history calls [] := by
  induction calls generalizing history with
  | nil => exact .nil
  | cons e rest ih => exact .quiet (hquiet e (.head _)) (ih fun e he => hquiet e (.tail _ he))

theorem append (h : host.Tells cells history calls lives)
    (hmore : host.Tells cells (history ++ calls.toArray) more others) :
    host.Tells cells history (calls ++ more) (lives ++ others) := by
  induction h with
  | nil => simpa using hmore
  | quiet hquiet _ ih => exact .quiet hquiet (ih (by simpa using hmore))
  | life hcreation hcreated hbeginning hinside _ _ ih =>
    subst hcreation hbeginning
    have hrest := ih (by simpa using hmore)
    simpa using Host.Tells.life rfl hcreated rfl hinside hrest

end Host.Tells

namespace Walk

/-- From one world to another some lives begin and end. -/
def Lives (s : Scene) (w w' : World) : Prop :=
  ∃ calls lives, w'.events = w.events ++ calls.toArray ∧ s.host.Tells s.cells w.events calls lives ∧
    w'.transactions = w.transactions ∧ w'.destructors = Life.allDestroyed lives ++ w.destructors

theorem maintains_lives (s : Scene) : s.Maintains (Lives s) where
  refl w := ⟨[], [], by simp, .nil, rfl, rfl⟩
  trans u v w := by
    rintro ⟨calls, lives, hevents, htells, htransactions, hdestructors⟩
    rintro ⟨more, others, hevents', htells', htransactions', hdestructors'⟩
    refine ⟨calls ++ more, lives ++ others, ?_, htells.append (hevents ▸ htells'),
      htransactions'.trans htransactions, ?_⟩
    · rw [hevents', hevents]
      simp
    · rw [hdestructors', hdestructors, Life.allDestroyed_append, List.append_assoc]
  called w calls hquiet := ⟨calls, [], rfl, .of_quiet hquiet, rfl, rfl⟩
  written w _ := ⟨[], [], by simp, .nil, rfl, rfl⟩
  lived w w' asked d hcreated := by
    rintro ⟨inside, inner, hevents, htells, htransactions, hdestructors⟩
    refine ⟨_, [⟨d, s.host.offers (w.events.push (.create d.definition asked)) d, inner⟩], ?_,
      .life rfl hcreated rfl htells .nil, ?_, ?_⟩
    · simp [World.ended, htransactions, World.began, hevents]
    · simp [World.ended, htransactions, World.began]
    · simp [World.ended, htransactions, World.began, hdestructors, Life.allDestroyed,
        Life.destroyed]

/-- Rendering a fragment is a part of the life of its component, in which
other lives begin and end. -/
theorem lives_call (s : Scene) (depth : Nat) (body : Fragment) (slots : Slots)
    (c : Option Current) :
    (call s depth body slots c).Keeps (Lives s) :=
  keeps_call (maintains_lives s) depth body slots c

end Walk

end TemplateMachine
