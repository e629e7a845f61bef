import TemplateMachine.Machine.Host

/-! Tags.  A sink writes an opening tag when the attributes of an element are complete, and a
closing tag when the element is closed, unless it is one of those that have none.  What it writes is
properly nested as soon as no element is open any more. -/

namespace TemplateMachine

/-- A tag that a sink writes. -/
inductive ElementTag where
  | opening (e : PendingElement)
  | closing (name : String)

def ElementTag.text : ElementTag → String
  | .opening e => e.text
  | .closing name => "</" ++ name ++ ">"

/-- Every opening tag has its closing tag, unless its element is void, and what is between the two
is nested as well. -/
inductive Nested : List ElementTag → Prop
  | nil : Nested []
  | void {e : PendingElement} {rest : List ElementTag} : voidElements.contains e.tag = true →
    Nested rest → Nested (.opening e :: rest)
  | element {e : PendingElement} {inner rest : List ElementTag} : voidElements.contains e.tag =
    false → Nested inner → Nested rest → Nested (.opening e :: (inner ++ .closing e.tag :: rest))

theorem Nested.append {tags more : List ElementTag} (h : Nested tags) (hmore : Nested more) :
    Nested (tags ++ more) := by
  induction h with
  | nil => exact hmore
  | void hvoid _ ih => exact .void hvoid ih
  | @element e inner rest hvoid hinner _ _ ih =>
    have := Nested.element hvoid hinner ih
    simpa using this

/-- A markup is made of tags, in this order, with something between them. -/
def Spells : List ElementTag → String → Prop
  | [], _ => True
  | tag :: rest, markup =>
    ∃ before after, markup = before ++ (tag.text ++ after) ∧ Spells rest after

theorem Spells.prepend {tags : List ElementTag} {markup : String} (h : Spells tags markup)
    (before : String) :
    Spells tags (before ++ markup) := by
  cases tags with
  | nil => trivial
  | cons tag rest =>
    obtain ⟨between, after, rfl, hafter⟩ := h
    exact ⟨before ++ between, after, by rw [String.append_assoc], hafter⟩

/-- What closes the open elements, the innermost first: before the closing tag of each there may be
nested tags, and so there may be after the last. -/
inductive Closes : List String → List ElementTag → Prop
  | done {tags : List ElementTag} : Nested tags → Closes [] tags
  | void {tag : String} {opened : List String} {inner rest : List ElementTag} :
    voidElements.contains tag = true → Nested inner → Closes opened rest →
    Closes (tag :: opened) (inner ++ rest)
  | element {tag : String} {opened : List String} {inner rest : List ElementTag} :
    voidElements.contains tag = false → Nested inner → Closes opened rest →
    Closes (tag :: opened) (inner ++ .closing tag :: rest)

theorem Closes.prepend {opened : List String} {tags inner : List ElementTag}
    (h : Closes opened tags) (hinner : Nested inner) : Closes opened (inner ++ tags) := by
  cases h with
  | done h => exact .done (hinner.append h)
  | void hvoid h hrest =>
    rw [← List.append_assoc]
    exact .void hvoid (hinner.append h) hrest
  | element hvoid h hrest =>
    rw [← List.append_assoc]
    exact .element hvoid (hinner.append h) hrest

/-- What closes an element closes what it was opened in, together with its opening tag. -/
theorem Closes.opening {opened : List String} {tags : List ElementTag} {e : PendingElement}
    (h : Closes (e.tag :: opened) tags) : Closes opened (.opening e :: tags) := by
  cases h with
  | void hvoid hinner hrest => exact hrest.prepend (.void hvoid hinner)
  | element hvoid hinner hrest =>
    have := hrest.prepend (Nested.element hvoid hinner .nil)
    simpa using this

namespace Sink

/-- Whether an element is pending, and which are open. -/
def At (pending : Bool) (opened : List String) (s : Sink) : Prop :=
  s.hasPending = pending ∧ s.stack = opened

/-- Where no element is pending, and none is open. -/
theorem eq_of_at {s : Sink} (h : s.At false []) : s = ⟨s.output, none, []⟩ := by
  obtain ⟨output, pending, stack⟩ := s
  obtain ⟨hpending, rfl⟩ := h
  cases pending with
  | none => rfl
  | some e => cases hpending

/-- Nothing is written but what may stand between tags. -/
structure Filled (s s' : Sink) : Prop where
  stack : s'.stack = s.stack
  output : ∃ text, s'.output = s.output ++ text

theorem Filled.refl (s : Sink) : s.Filled s := ⟨rfl, "", by simp⟩

theorem Filled.trans {s s' s'' : Sink} (h : s.Filled s') (h' : s'.Filled s'') : s.Filled s'' := by
  obtain ⟨text, htext⟩ := h.output
  obtain ⟨more, hmore⟩ := h'.output
  exact ⟨h'.stack.trans h.stack, text ++ more, by rw [hmore, htext, String.append_assoc]⟩

theorem filled_append (s : Sink) (markup : String) : s.Filled (s.append markup) :=
  ⟨rfl, markup, rfl⟩

theorem filled_openElement (s : Sink) (tag : String) : s.Filled (s.openElement tag) :=
  ⟨rfl, "", by simp [openElement]⟩

/-- What is written from one sink to another. -/
inductive Marks (s : Sink) : List ElementTag → Sink → Prop
  | content {s' : Sink} : s.Filled s' → Marks s [] s'
  | opening {s' : Sink} {e : PendingElement} : s'.stack = e.tag :: s.stack →
    s'.output = s.output ++ e.text → Marks s [.opening e] s'
  | void {s' : Sink} {tag : String} : voidElements.contains tag = true → s.stack = tag :: s'.stack →
    s'.output = s.output → Marks s [] s'
  | closing {s' : Sink} {tag : String} : voidElements.contains tag = false →
    s.stack = tag :: s'.stack → s'.output = s.output ++ (ElementTag.closing tag).text →
    Marks s [.closing tag] s'

/-- The opening tag that is written if the pending element is complete. -/
def openingTag (s : Sink) : List ElementTag :=
  match s.pending with
  | some e => [.opening e]
  | none => []

/-- The closing tag that is written if the innermost open element is closed. -/
def closingTag (s : Sink) : List ElementTag :=
  match s.stack with
  | tag :: _ => if voidElements.contains tag then [] else [.closing tag]
  | [] => []

theorem marks_flushElement {s s' : Sink} (h : s.flushElement = .ok s') :
    s.Marks s.openingTag s' := by
  obtain ⟨output, pending, stack⟩ := s
  cases pending with
  | none => cases h
  | some e =>
    cases h
    exact .opening rfl rfl

theorem marks_closeElement {s s' : Sink} (h : s.closeElement = .ok s') :
    s.Marks s.closingTag s' := by
  obtain ⟨output, pending, stack⟩ := s
  cases stack with
  | nil => cases h
  | cons tag stack =>
    cases h
    unfold closingTag
    by_cases hvoid : voidElements.contains tag = true
    · simp only [hvoid, if_true]
      exact .void hvoid rfl (by simp)
    · rw [Bool.not_eq_true] at hvoid
      simp only [hvoid, Bool.false_eq_true, if_false]
      exact .closing hvoid rfl rfl

/-- What is written next to what closes the elements that are open then. -/
theorem Marks.closes {s s' : Sink} {tags more : List ElementTag} (h : s.Marks tags s')
    (hmore : Closes s'.stack more) : Closes s.stack (tags ++ more) := by
  cases h with
  | content h => exact h.stack ▸ hmore
  | opening hstack => exact Closes.opening (hstack ▸ hmore)
  | void hvoid hstack =>
    rw [hstack]
    exact Closes.void hvoid .nil hmore
  | closing hvoid hstack =>
    rw [hstack]
    exact Closes.element hvoid .nil hmore

/-- What is written comes after what there is, and is spelled with its tags. -/
theorem Marks.spells {s s' : Sink} {tags more : List ElementTag} (h : s.Marks tags s')
    {after : String} (hmore : Spells more after) :
    ∃ written, s'.output ++ after = s.output ++ written ∧ Spells (tags ++ more) written := by
  cases h with
  | content h =>
    obtain ⟨text, houtput⟩ := h.output
    exact ⟨text ++ after, by rw [houtput, String.append_assoc], hmore.prepend text⟩
  | @opening _ e _ houtput =>
    exact ⟨e.text ++ after, by rw [houtput, String.append_assoc],
      "", after, String.empty_append.symm, hmore⟩
  | void _ _ houtput => exact ⟨after, by rw [houtput], hmore⟩
  | @closing _ tag _ _ houtput =>
    exact ⟨(ElementTag.closing tag).text ++ after, by rw [houtput, String.append_assoc],
      "", after, String.empty_append.symm, hmore⟩

/-! ### Attributes -/

/-- Only the pending element is another. -/
structure Adorned (s s' : Sink) : Prop where
  hasPending : s'.hasPending = s.hasPending
  stack : s'.stack = s.stack
  output : s'.output = s.output

theorem Adorned.trans {s s' s'' : Sink} (h : s.Adorned s') (h' : s'.Adorned s'') : s.Adorned s'' :=
  ⟨h'.hasPending.trans h.hasPending, h'.stack.trans h.stack, h'.output.trans h.output⟩

theorem Adorned.at {s s' : Sink} (h : s.Adorned s') {pending : Bool} {opened : List String}
    (hs : s.At pending opened) : s'.At pending opened :=
  ⟨h.hasPending.trans hs.1, h.stack.trans hs.2⟩

theorem Adorned.filled {s s' : Sink} (h : s.Adorned s') : s.Filled s' :=
  ⟨h.stack, "", by simp [h.output]⟩

theorem adorned_onPending {s s' : Sink} {operation : ElementOp}
    {change : PendingElement → PendingElement}
    (h : s.onPending operation change = .ok s') : s.Adorned s' := by
  unfold onPending at h
  split at h
  · rename_i hpending
    cases h
    exact ⟨by simp [hasPending, hpending], rfl, rfl⟩
  · cases h

/-- A pending element can be given attributes. -/
theorem onPending_ok {s : Sink} (h : s.hasPending = true) (operation : ElementOp)
    (change : PendingElement → PendingElement) : ∃ s', s.onPending operation change = .ok s' := by
  obtain ⟨e, he⟩ := Option.isSome_iff_exists.mp h
  exact ⟨_, by simp only [onPending, he]; rfl⟩

/-- The attributes of the pending element are set, and nothing else is done. -/
inductive Decorates : Sink → Sink → Prop
  | refl (s : Sink) : Decorates s s
  | element {s s' s'' : Sink} {name : String} {value space : Option String} :
    s.setAttribute name value space = .ok s' → Decorates s' s'' → Decorates s s''
  | component {s s' s'' : Sink} {name : String} {value space : Option String} :
    s.setComponentAttribute name value space = .ok s' → Decorates s' s'' → Decorates s s''

theorem Decorates.adorned {s s' : Sink} (h : s.Decorates s') : s.Adorned s' := by
  induction h with
  | refl s => exact ⟨rfl, rfl, rfl⟩
  | element h _ ih => exact (adorned_onPending h).trans ih
  | component h _ ih => exact (adorned_onPending h).trans ih

end Sink

/-- When the managers of a host are told about an element, they do
nothing but set its attributes. -/
def Host.Decorates (host : Host) : Prop :=
  ∀ handle d, host.component? handle = some d → ∀ history inst sink,
    Sink.Decorates sink ((d.manager history).elementCreated inst sink)

end TemplateMachine
