import TemplateMachine.Proofs.Run.Origin

/-! The tags that a run writes.  An opening tag is written by the instruction that completes an
element, and a closing tag by the one that closes it; no other instruction writes tags, if managers
do no more to an element than set its attributes. -/

namespace TemplateMachine

/-- Operations that may write tags, or call a manager about an element. -/
def Opcode.marks : Opcode → Bool
  | .flushElement | .closeElement | .didCreateElement => true
  | _ => false

/-- The tags that the next instruction writes, unless it fails. -/
def Machine.tags (m : Machine) : List ElementTag :=
  match m.next? with
  | some ⟨.flushElement, _, _, _⟩ => m.sink.openingTag
  | some ⟨.closeElement, _, _, _⟩ => m.sink.closingTag
  | _ => []

/-- The tags that a run writes, as far as the fuel allows. -/
def Exec.tags (setup : Setup) : Nat → Machine → List ElementTag
  | 0, _ => []
  | fuel + 1, m =>
    match Exec.step setup m with
    | .ok true m' => m.tags ++ tags setup fuel m'
    | .ok false _ => m.tags
    | .error .. => []

namespace Exec

/-! ### Instructions about the life of instances -/

theorem tagless_componentNumber (word : UInt32) : (componentNumber word).Tagless :=
  (quiet_componentNumber word : Exec.IsQuiet true true _).tags rfl

theorem tagless_componentState (number : Nat) : (componentState number).Tagless :=
  (quiet_componentState number : Exec.IsQuiet true true _).tags rfl

theorem tagless_component (word : UInt32) : (component word).Tagless :=
  (quiet_component word : Exec.IsQuiet true true _).tags rfl

theorem tagless_create (flags word : UInt32) : (create flags word).Tagless := by
  refine .bind (tagless_componentNumber word) fun number => .bind (tagless_componentState number)
    fun c => .bind .get fun m => .bind (.modify fun _ => rfl) fun _ => .bind .get fun m' => ?_
  split
  · exact .modify fun _ => rfl
  · exact .fail _

theorem tagless_registerComponentDestructor (word : UInt32) :
    (registerComponentDestructor word).Tagless := by
  refine .bind (tagless_component word) fun c => ?_
  split
  · refine .bind (.modify fun _ => rfl) fun _ => .bind .get fun m => ?_
    split
    · refine .bind .get fun m' => ?_
      split
      · exact .modify fun _ => rfl
      · exact .fail _
    · exact .pure _
  · exact .pure _

theorem tagless_commitTransaction : commitTransaction.Tagless := by
  refine .bind .get fun m => ?_
  split
  · exact .modify fun _ => rfl
  · exact .fail _

theorem tagless_layoutRendered (word : UInt32) : (layoutRendered word).Tagless :=
  .bind (tagless_component word) fun _ => .bind (.orFail _ _) fun _ => .modify fun _ => rfl

theorem tagless_perform (start : Nat) {i : Instruction} (h : i.op.marks = false) :
    (perform start i).Tagless := by
  cases hquiet : i.op.isQuiet false true with
  | true => exact (quiet_perform start hquiet).tags rfl
  | false =>
    obtain ⟨op, a, b, c⟩ := i
    cases op with
    | beginComponentTransaction => exact .modify fun _ => rfl
    | createComponent => exact tagless_create a b
    | registerComponentDestructor => exact tagless_registerComponentDestructor a
    | didRenderLayout => exact tagless_layoutRendered a
    | commitComponentTransaction => exact tagless_commitTransaction
    | flushElement | closeElement | didCreateElement => cases h
    | _ => cases hquiet

/-! ### Steps -/

variable {setup : Setup} {m m' : Machine} {i : Instruction} {more : Bool}

theorem onElement_ok (setup : Setup) {change : Sink → Sink.Result}
    (h : onElement change setup m = .ok () m') :
    change m.sink = .ok m'.sink := by
  unfold onElement at h
  simp only at h
  cases hchange : change m.sink with
  | ok sink =>
    rw [hchange] at h
    cases h
    rfl
  | error e =>
    rw [hchange] at h
    cases h

/-- A manager that is told about an element does no more than set its attributes. -/
theorem filled_elementCreated (hhost : setup.host.Decorates) (hmanaged : m.Managed setup.host)
    {word : UInt32} (h : elementCreated word setup m = .ok () m') : m.sink.Filled m'.sink := by
  obtain ⟨r, m₁, hr, h⟩ := bind_ok h
  obtain ⟨v, m₂, hv, h⟩ := bind_ok h
  obtain ⟨-, rfl⟩ := orFail_ok hr
  obtain ⟨-, rfl⟩ := orFail_ok (m := m₁) hv
  cases v with
  | component number =>
    obtain ⟨c, m₃, hc, hcreated⟩ := bind_ok h
    obtain ⟨hstate, rfl⟩ := componentState_ok hc
    cases hinst : c.created with
    | none =>
      simp only [hinst] at hcreated
      cases hcreated
      exact .refl _
    | some inst =>
      simp only [hinst] at hcreated
      cases hcreated
      obtain ⟨d, hd, hmanager⟩ := hmanaged number c hstate
      rw [hmanager]
      exact (hhost _ d hd _ _ _).adorned.filled
  | _ =>
    cases h
    exact .refl _

/-- A step writes the tags of its instruction. -/
theorem marks_step (hhost : setup.host.Decorates) (hmanaged : m.Managed setup.host)
    (hs : Exec.step setup m = .ok more m') : m.sink.Marks m.tags m'.sink := by
  obtain ⟨i, hi⟩ := next?_of_step hs
  have hperform := perform_of_step hi hs
  obtain ⟨op, a, b, c⟩ := i
  cases hop : op.marks with
  | false =>
    have htags : m.tags = [] := by
      unfold Machine.tags
      rw [hi]
      cases op <;> first | rfl | cases hop
    rw [htags]
    have hfilled := tagless_perform m.pc hop setup (m.fetched ⟨op, a, b, c⟩) () m' hperform
    exact .content hfilled
  | true =>
    cases op <;> first | cases hop
    · rw [show m.tags = m.sink.openingTag by simp only [Machine.tags, hi]]
      have hflush : (m.fetched ⟨.flushElement, a, b, c⟩).sink.flushElement = .ok m'.sink :=
        onElement_ok setup hperform
      exact Sink.marks_flushElement hflush
    · rw [show m.tags = m.sink.closingTag by simp only [Machine.tags, hi]]
      have hclose : (m.fetched ⟨.closeElement, a, b, c⟩).sink.closeElement = .ok m'.sink :=
        onElement_ok setup hperform
      exact Sink.marks_closeElement hclose
    · rw [show m.tags = [] by simp only [Machine.tags, hi]]
      have hfilled : (m.fetched ⟨.didCreateElement, a, b, c⟩).sink.Filled m'.sink :=
        filled_elementCreated hhost hmanaged hperform
      exact .content hfilled

end Exec

/-- What a run that comes to an end writes, when no element is open any more. -/
theorem Reaches.closes {setup : Setup} {k : Nat} {m last final : Machine}
    (hhost : setup.host.Decorates) (hr : Reaches setup k m last)
    (hmanaged : ∀ j m', Reaches setup j m m' → j ≤ k → m'.Managed setup.host)
    (hlast : Exec.step setup last = .ok false final) (hstack : final.sink.stack = []) {fuel : Nat}
    (hfuel : k < fuel) :
    Closes m.sink.stack (Exec.tags setup fuel m) ∧ ∃ written,
      final.sink.output = m.sink.output ++ written ∧ Spells (Exec.tags setup fuel m) written := by
  induction hr generalizing fuel with
  | refl m =>
    obtain ⟨fuel, rfl⟩ : ∃ n, fuel = n + 1 := ⟨fuel - 1, by omega⟩
    have hmarks := Exec.marks_step hhost (hmanaged 0 m (.refl m) (Nat.le_refl 0)) hlast
    have hcloses : Closes final.sink.stack [] := hstack ▸ .done .nil
    have hnothing : Spells [] "" := trivial
    obtain ⟨written, hwritten, hspells⟩ := hmarks.spells hnothing
    rw [Exec.tags, hlast]
    rw [List.append_nil] at hspells
    rw [String.append_empty] at hwritten
    exact ⟨List.append_nil m.tags ▸ hmarks.closes hcloses, written, hwritten, hspells⟩
  | @step k m m' last hs hr ih =>
    obtain ⟨fuel, rfl⟩ : ∃ n, fuel = n + 1 := ⟨fuel - 1, by omega⟩
    have hmarks := Exec.marks_step hhost (hmanaged 0 m (.refl m) (Nat.zero_le _)) hs
    have hfuel : k < fuel := by omega
    obtain ⟨hcloses, rest, hrest, hspells⟩ := ih
      (fun j m'' hj hle => hmanaged (j + 1) m'' (.step hs hj) (by omega)) hlast hfuel
    obtain ⟨written, hwritten, hspells⟩ := hmarks.spells hspells
    rw [Exec.tags, hs]
    exact ⟨hmarks.closes hcloses, written, hrest.trans hwritten, hspells⟩

end TemplateMachine
