import TemplateMachine.Proofs.Run.Perform
import TemplateMachine.Proofs.Shape.Statement

/-! Frames and jumps.  What is pushed within a frame is dropped with it. -/

namespace TemplateMachine

/-- The pose within a frame, with values in it and another address to return to. -/
def Pose.within (p : Pose) (ra : Nat) (vs : List Value) : Pose :=
  { p with
    stack := (p.stack.push (.address p.ra)).push (.address p.fp) ++ vs.toArray
    ra
    fp := p.stack.size }

@[simp] theorem Pose.within_push (p : Pose) (ra : Nat) (vs : List Value) (v : Value) :
    (p.within ra vs).push v = p.within ra (vs ++ [v]) := by
  simp [Pose.within, Pose.push]

@[simp] theorem Pose.within_returning (p : Pose) (ra ra' : Nat) (vs : List Value) :
    (p.within ra vs).returning ra' = p.within ra' vs := rfl

@[simp] theorem Pose.size_within (p : Pose) (ra : Nat) (vs : List Value) :
    (p.within ra vs).stack.size = p.stack.size + 2 + vs.length := by
  simp [Pose.within]
  omega

theorem Pose.size_lt_within (p : Pose) (ra : Nat) (vs : List Value) :
    p.stack.size < (p.within ra vs).stack.size := by
  rw [Pose.size_within]
  omega

theorem Pose.size_lt_within_push (p : Pose) (ra : Nat) (vs : List Value) (v : Value) :
    p.stack.size < ((p.within ra vs).push v).stack.size :=
  Nat.lt_trans (p.size_lt_within ra vs) (by simp only [Pose.size_push, Nat.lt_succ_self])

/-- The value just below a frame. -/
theorem Pose.getElem?_below_frame (p : Pose) (ra : Nat) (v : Value) :
    ((p.push v).within ra []).stack[((p.push v).within ra []).fp - 1]? = some v := by
  simp only [Pose.within, Pose.push, Array.append_empty, Array.getElem?_push, Array.size_push]
  rw [if_neg (by omega), if_neg (by omega), if_pos (Nat.add_sub_cancel ..)]

/-- The pose in a block of instructions. -/
def Pose.deeper (p : Pose) : Pose := { p with blockDepth := p.blockDepth + 1 }

/-- The pose in a list whose items are worked through from here on. -/
def Pose.marked (p : Pose) : Pose := { p with listMarks := p.stack.size :: p.listMarks }

section

variable {setup : Setup} {cells : Cells} {a floor : Nat} {n : ENat} {p : Pose}
variable {w : World} {t : Store} {m : Machine} {rest : List Instruction} {α : Type}
variable {out : EStateM.Result (Stop Fault) World α} {final : α → World → Machine → Prop}

open Exec (bind_apply pure_apply get_apply read_apply modify_apply orFail_some pop_of)

/-! ### Frames -/

theorem Exec.pushFrame_of {u : Store} {current : Nat × Opcode} {pc : Nat} :
    Exec.pushFrame setup (.of cells pc p w u current) =
      .ok () (.of cells pc (p.within p.ra []) w u current) := by
  simp only [Exec.pushFrame, modify_apply, Machine.of, Pose.within, Array.append_empty]

theorem leads_pushFrame_succ {b c d : UInt32} (hm : Stands setup cells a p w t m)
    (hcode : t.HasCode a (⟨.pushFrame, b, c, d⟩ :: rest))
    (h : ∀ m', Stands setup cells (a + 4) (p.within p.ra []) w t m' →
      Leads setup .free floor n m' out final) :
    Leads setup .free floor (n + 1) m out final :=
  hm.next_succ hcode (by simp) (fun _ _ _ => Exec.pushFrame_of) h

theorem leads_pushFrame {b c d : UInt32} (hm : Stands setup cells a p w t m)
    (hcode : t.HasCode a (⟨.pushFrame, b, c, d⟩ :: rest))
    (h : ∀ m', Stands setup cells (a + 4) (p.within p.ra []) w t m' →
      Leads setup .free floor n m' out final) :
    Leads setup .free floor n m out final :=
  (leads_pushFrame_succ hm hcode h).le le_self_add

theorem Exec.popFrame_of {ra : Nat} {vs : List Value} {u : Store} {current : Nat × Opcode}
    {pc : Nat} : Exec.popFrame setup (.of cells pc (p.within ra vs) w u current) =
      .ok () (.of cells pc p w u current) := by
  have hra : (p.within ra vs).stack[p.stack.size]? = some (.address p.ra) := by
    simp [Pose.within]
  have hfp : (p.within ra vs).stack[p.stack.size + 1]? = some (.address p.fp) := by
    simp [Pose.within]
  have hshrink : (p.within ra vs).stack.shrink p.stack.size = p.stack := by
    simp [Pose.within]
  simp only [Exec.popFrame, bind_apply, get_apply]
  rw [show (Machine.of cells pc (p.within ra vs) w u current).stack = (p.within ra vs).stack from
    rfl, show (Machine.of cells pc (p.within ra vs) w u current).fp = p.stack.size from rfl, hra,
    hfp]
  refine congrArg (EStateM.Result.ok ()) (Eq.trans (b := Machine.of cells pc
    { p with stack := (p.within ra vs).stack.shrink p.stack.size } w u current) rfl ?_)
  rw [hshrink]

theorem leads_popFrame {ra : Nat} {vs : List Value} {b c d : UInt32}
    (hm : Stands setup cells a (p.within ra vs) w t m)
    (hcode : t.HasCode a (⟨.popFrame, b, c, d⟩ :: rest))
    (h : ∀ m', Stands setup cells (a + 4) p w t m' → Leads setup .free floor n m' out final) :
    Leads setup .free floor n m out final :=
  hm.next hcode (by simp) (fun _ _ _ => Exec.popFrame_of) h

/-! ### Jumps -/

theorem relativeOffset_distance {k : Nat} (h : 4 * k < 0x80000000) :
    relativeOffset (Emit.distance 0 k) = 4 * (k : Int) := by
  have htoNat : (Emit.distance 0 k).toNat = 4 * k := by
    unfold Emit.distance instructionWidth
    have hint : ((k : Int) - (0 : Nat)) * (4 : Nat) = ((4 * k : Nat) : Int) := by omega
    have hmod : (((4 * k : Nat) : Int) % 4294967296).toNat = 4 * k := by omega
    have hlt : 4 * k < UInt32.size := Nat.lt_trans h (by decide)
    rw [hint]
    exact (congrArg (fun x => (UInt32.ofNat x).toNat) hmod).trans (UInt32.toNat_ofNat_of_lt' hlt)
  rw [relativeOffset, htoNat, if_pos h]
  omega

/-- An instruction behind others is within the heap. -/
theorem Store.HasCode.lt_size {code : List Instruction} {i j : Instruction}
    (h : t.HasCode a (i :: code ++ j :: rest)) :
    a + 4 * (1 + code.length) < t.linkage.program.heap.words.size := by
  have hsize := Heap.Holds.le_size h (by simp)
  simp only [List.length_append, List.length_cons] at hsize
  omega

/-- The code behind the target of a jump. -/
theorem Store.HasCode.skipped {code : List Instruction} {i : Instruction}
    (h : t.HasCode a (i :: code ++ rest)) : t.HasCode (a + 4 * (1 + code.length)) rest := by
  have := h.append.2
  rwa [List.length_cons, Nat.add_comm code.length] at this

theorem Exec.target_of {u : Store} {current : Nat × Opcode} {pc k : Nat}
    (hfits : u.linkage.program.Fits) (hk : a + 4 * k < u.linkage.program.heap.words.size) :
    Exec.target a (Emit.distance 0 k) setup (.of cells pc p w u current) =
      .ok (a + 4 * k) (.of cells pc p w u current) := by
  have hwords := hfits.words
  have hoffset := relativeOffset_distance (k := k) (by omega)
  simp only [Exec.target, bind_apply, get_apply, hoffset]
  rw [show (Machine.of cells pc p w u current).program = u.linkage.program from rfl,
    if_pos (by omega)]
  rw [show ((a : Int) + 4 * (k : Int)).toNat = a + 4 * k by omega]
  rfl

theorem Store.HasCode.target {code : List Instruction} {i j : Instruction} {u : Store}
    {current : Nat × Opcode} {pc : Nat} (h : t.HasCode a (i :: code ++ j :: rest))
    (hu : setup.Later t u) :
    Exec.target a (Emit.distance 0 (1 + code.length)) setup (.of cells pc p w u current) =
      .ok (a + 4 * (1 + code.length)) (.of cells pc p w u current) :=
  Exec.target_of hu.fits (Nat.lt_of_lt_of_le h.lt_size
    (Program.Grows.words_le (Linkage.Grows.program (Store.Grows.linkage hu.le))))

theorem leads_jump {code : List Instruction} {j : Instruction} (hm : Stands setup cells a p w t m)
    (hcode : t.HasCode a (.skip .jump code :: code ++ j :: rest))
    (h : ∀ m', Stands setup cells (a + 4 * (1 + code.length)) p w t m' →
      Leads setup .free floor n m' out final) : Leads setup .free floor n m out final := by
  refine hm.next hcode (by simp [Instruction.skip]) (fun u current hu => ?_) h
  simp only [Instruction.skip, Exec.perform, Exec.jump, bind_apply, hcode.target hu]
  rfl

/-- A jump if the value on the stack is as true as it should be. -/
theorem leads_jumpWhen {op : Opcode} {expected : Bool} {code : List Instruction} {j : Instruction}
    {r : Reference} (hop : op = if expected then .jumpIf else .jumpUnless)
    (hm : Stands setup cells a (p.push (.ref r)) w t m)
    (hcode : t.HasCode a (.skip op code :: code ++ j :: rest))
    (hjump : (r.value cells).isTruthy = expected → ∀ m',
      Stands setup cells (a + 4 * (1 + code.length)) p w t m' →
      Leads setup .free floor n m' out final)
    (hgo : (r.value cells).isTruthy ≠ expected → ∀ m',
      Stands setup cells (a + 4) p w t m' → Leads setup .free floor n m' out final) :
    Leads setup .free floor n m out final := by
  have hperform (u : Store) (current : Nat × Opcode) (hu : setup.Later t u) :
      Exec.perform a (.skip op code) setup (.of cells (a + 4) (p.push (.ref r)) w u current) =
        .ok () (.of cells (if (r.value cells).isTruthy = expected then a + 4 * (1 + code.length)
          else a + 4) p w u current) := by
    subst hop
    simp only [Instruction.skip, Exec.perform_jumpWhen, Exec.jumpWhen, bind_apply,
      Exec.popDatum_of]
    by_cases htrue : (r.value cells).isTruthy = expected
    · simp only [if_pos htrue, Exec.jump, bind_apply, hcode.target hu]
      rfl
    · simp only [if_neg htrue]
      rfl
  have hplain : (Instruction.skip op code).op.isPlain = true := by
    subst hop
    cases expected <;> simp [Instruction.skip]
  by_cases htrue : (r.value cells).isTruthy = expected
  · refine hm.next hcode hplain (fun u current hu => hperform u current hu) ?_
    rw [if_pos htrue]
    exact hjump htrue
  · refine hm.next hcode hplain (fun u current hu => hperform u current hu) ?_
    rw [if_neg htrue]
    exact hgo htrue

theorem leads_returnTo {ra : Nat} {vs : List Value} {code : List Instruction} {j : Instruction}
    (hm : Stands setup cells a (p.within ra vs) w t m)
    (hcode : t.HasCode a (.skip .returnTo code :: code ++ j :: rest))
    (h : ∀ m', Stands setup cells (a + 4) (p.within (a + 4 * (1 + code.length)) vs) w t m' →
      Leads setup .free floor n m' out final) : Leads setup .free floor n m out final := by
  refine hm.next hcode (by simp [Instruction.skip]) (fun u current hu => ?_) h
  simp only [Instruction.skip, Exec.perform, Exec.returnTo, bind_apply, hcode.target hu]
  rfl

/-- Leaving a frame by its end, which is not the end of the block. -/
theorem leads_ret {b c d : UInt32} (hm : Stands setup cells a p w t m) (hra : p.ra ≠ haltAddress)
    (hfloor : floor < p.stack.size) (hcode : t.HasCode a (⟨.ret, b, c, d⟩ :: rest))
    (h : ∀ m', Stands setup cells p.ra p w t m' → Leads setup .free floor n m' out final) :
    Leads setup .free floor n m out final := by
  have hholds := hm.hasCode hcode
  obtain ⟨u, current, hu, hvalid, rfl⟩ := hm
  refine Leads.le (n := n + 1) ?_ le_self_add
  have hperform : Exec.perform a ⟨.ret, b, c, d⟩ setup (.of cells (a + 4) p w u (a, .ret)) =
      .ok () (.of cells p.ra p w u (a, .ret)) := rfl
  exact Leads.turn hholds (.stay (.leave rfl hfloor)) ⟨by simp, by simp, by simp⟩
    (fun hhalt => hra hhalt.2) hperform fun _ => h _ ⟨u, _, hu, hvalid, rfl⟩

/-! ### Blocks of instructions -/

theorem leads_enter {b c d : UInt32} (hm : Stands setup cells a p w t m)
    (hcode : t.HasCode a (⟨.enter, b, c, d⟩ :: rest))
    (h : ∀ m', Stands setup cells (a + 4) p.deeper w t m' →
      Leads setup .free floor n m' out final) :
    Leads setup .free floor n m out final :=
  hm.next hcode (by simp) (fun _ _ _ => rfl) h

theorem leads_exit {b c d : UInt32} (hm : Stands setup cells a p.deeper w t m)
    (hcode : t.HasCode a (⟨.exit, b, c, d⟩ :: rest))
    (h : ∀ m', Stands setup cells (a + 4) p w t m' → Leads setup .free floor n m' out final) :
    Leads setup .free floor n m out final := by
  refine hm.next hcode (by simp) (fun u current _ => ?_) h
  simp only [Exec.perform, Exec.exitBlock, bind_apply, get_apply]
  rfl

/-- Leaving the instructions of a frame. -/
theorem leads_exitFrame (hm : Stands setup cells a p.deeper w t m) (hra : p.ra ≠ haltAddress)
    (hfloor : floor < p.stack.size) (hcode : t.HasCode a (Coding.exitFrame ++ rest))
    (h : ∀ m', Stands setup cells p.ra p w t m' → Leads setup .free floor n m' out final) :
    Leads setup .free floor n m out final :=
  leads_exit hm hcode fun _ hm => leads_ret hm hra hfloor hcode.tail h

/-! ### Values -/

theorem leads_dup_sp {v : Value} {c : UInt32} (hm : Stands setup cells a (p.push v) w t m)
    (hcode : t.HasCode a (⟨.dup, Register.sp.number, 0, c⟩ :: rest))
    (h : ∀ m', Stands setup cells (a + 4) ((p.push v).push v) w t m' →
      Leads setup .free floor n m' out final) :
    Leads setup .free floor n m out final := by
  refine hm.next hcode (by simp) (fun u current _ => ?_) h
  have hsize : (p.push v).stack.size = p.stack.size + 1 := by simp [Pose.push]
  have hget : (p.push v).stack[p.stack.size]? = some v := by simp [Pose.push]
  simp only [Exec.perform, Exec.dup, bind_apply, get_apply, Exec.register,
    show Register.ofNumber? Register.sp.number = some .sp from rfl, orFail_some, pure_apply]
  rw [show (Machine.of cells (a + 4) (p.push v) w u current).stack = (p.push v).stack from rfl,
    hsize, if_neg (Nat.succ_ne_zero _)]
  simp only [Nat.add_sub_cancel, Option.bind_some, UInt32.toNat_zero, Nat.zero_le, if_true,
    Nat.sub_zero, hget]
  rfl

/-- The value below the top of the stack. -/
theorem leads_dup_below {v v' : Value} {c : UInt32}
    (hm : Stands setup cells a ((p.push v).push v') w t m)
    (hcode : t.HasCode a (⟨.dup, Register.sp.number, 1, c⟩ :: rest))
    (h : ∀ m', Stands setup cells (a + 4) (((p.push v).push v').push v) w t m' →
      Leads setup .free floor n m' out final) : Leads setup .free floor n m out final := by
  refine hm.next hcode (by simp) (fun u current _ => ?_) h
  have hsize : ((p.push v).push v').stack.size = p.stack.size + 1 + 1 := by simp [Pose.push]
  have hget : ((p.push v).push v').stack[p.stack.size]? = some v := by
    simp only [Pose.push, Array.getElem?_push, Array.size_push, if_pos,
      if_neg (Nat.succ_ne_self p.stack.size).symm]
  simp only [Exec.perform, Exec.dup, bind_apply, get_apply, Exec.register,
    show Register.ofNumber? Register.sp.number = some .sp from rfl, orFail_some, pure_apply]
  rw [show (Machine.of cells (a + 4) ((p.push v).push v') w u current).stack =
    ((p.push v).push v').stack from rfl, hsize, if_neg (Nat.succ_ne_zero _)]
  simp only [Nat.add_sub_cancel, Option.bind_some, UInt32.toNat_one, Nat.le_add_left, if_true, hget]
  rfl

theorem leads_dup_fp {v : Value} {depth c : UInt32} (hm : Stands setup cells a p w t m)
    (hcode : t.HasCode a (⟨.dup, Register.fp.number, depth, c⟩ :: rest))
    (hdepth : depth.toNat ≤ p.fp) (hv : p.stack[p.fp - depth.toNat]? = some v)
    (h : ∀ m', Stands setup cells (a + 4) (p.push v) w t m' →
      Leads setup .free floor n m' out final) :
    Leads setup .free floor n m out final :=
  hm.next hcode (by simp) (fun _ _ _ => Exec.dup_fp_of hdepth hv) h

theorem leads_pop {vs : List Value} {count c d : UInt32}
    (hm : Stands setup cells a (p.pushAll vs) w t m) (hcount : count.toNat = vs.length)
    (hcode : t.HasCode a (⟨.pop, count, c, d⟩ :: rest))
    (h : ∀ m', Stands setup cells (a + 4) p w t m' → Leads setup .free floor n m' out final) :
    Leads setup .free floor n m out final := by
  refine hm.next hcode (by simp) (fun u current _ => ?_) h
  simp only [Exec.perform, hcount, Exec.drop_of]

theorem leads_toBoolean {r : Reference} {b c d : UInt32}
    (hm : Stands setup cells a (p.push (.ref r)) w t m)
    (hcode : t.HasCode a (⟨.toBoolean, b, c, d⟩ :: rest))
    (h : ∀ m', Stands setup cells (a + 4) (p.push (.ref (.truth r))) w t m' →
      Leads setup .free floor n m' out final) : Leads setup .free floor n m out final := by
  refine hm.next hcode (by simp) (fun u current _ => ?_) h
  simp only [Exec.perform, bind_apply, Exec.popRef_of]
  rfl

theorem leads_isComponent {r : Reference} {b c d : UInt32}
    (hm : Stands setup cells a (p.push (.ref r)) w t m)
    (hcode : t.HasCode a (⟨.isComponent, b, c, d⟩ :: rest))
    (h : ∀ m', Stands setup cells (a + 4) (p.push (.ref (.isComponent r))) w t m' →
      Leads setup .free floor n m' out final) : Leads setup .free floor n m out final := by
  refine hm.next hcode (by simp) (fun u current _ => ?_) h
  simp only [Exec.perform, bind_apply, Exec.popRef_of]
  rfl

end

/-! ### Iteration.  An iterator is in the store, and is used up while its list is open. -/

section

variable {setup : Setup} {cells : Cells} {a floor : Nat} {n : ENat} {p : Pose}
variable {w : World} {t u : Store} {m : Machine} {rest : List Instruction} {α : Type}
variable {out : EStateM.Result (Stop Fault) World α} {final : α → World → Machine → Prop}
variable {number : Nat} {item : IterationItem} {items : List IterationItem}

open Exec (bind_apply pure_apply get_apply modify_apply pop_of)

/-- An iterator that no older store has, and what it still has to give. -/
def Store.Iterates (t u : Store) (number : Nat) (items : List IterationItem) : Prop :=
  t ≤ u ∧ t.iterators.size ≤ number ∧ u.iterators[number]? = some items

theorem Store.Iterates.mono {v : Store} (h : t.Iterates u number items) (hv : u ≤ v) :
    t.Iterates v number items :=
  ⟨Store.le_trans h.1 hv, h.2.1, hv.iterators _ _ h.2.2⟩

/-- The iterator may give less. -/
theorem Store.Iterates.set (h : t.Iterates u number items) (left : List IterationItem) :
    t.Iterates { u with iterators := u.iterators.set! number left } number left := by
  obtain ⟨hu, hnumber, hitems⟩ := h
  have hlt := (Array.getElem?_eq_some_iff.mp hitems).1
  refine ⟨⟨hu.linkage, hu.scopes, hu.components, hu.iterators.set hnumber left⟩, hnumber, ?_⟩
  rw [Array.set!_eq_setIfInBounds, Array.getElem?_setIfInBounds_self_of_lt hlt]

theorem leads_putIterator {key list : Reference} {b c d : UInt32}
    (hm : Stands setup cells a ((p.push (.ref key)).push (.ref list)) w t m)
    (hcode : t.HasCode a (⟨.putIterator, b, c, d⟩ :: rest))
    (h : ∀ m' u number,
      t.Iterates u number (Iteration.items ⟨list, .ofDatum (key.value cells)⟩ cells) →
      Stands setup cells (a + 4) ((p.push (.iterator number)).push (.ref (.presence list))) w u m' →
      Leads setup .free floor n m' out final) : Leads setup .free floor n m out final := by
  refine hm.change hcode (by simp) fun u current hu => ?_
  let items := Iteration.items ⟨list, .ofDatum (key.value cells)⟩ cells
  let v : Store := { u with iterators := u.iterators.push items }
  have hv : u ≤ v := ⟨u.linkage.le_refl, .refl _, .refl _, keeps_push _ _⟩
  refine ⟨.of cells (a + 4) ((p.push (.iterator u.iterators.size)).push (.ref (.presence list))) w v
    current, ?_, fun _ => h _ v u.iterators.size ⟨Store.le_trans hu.le hv, hu.le.iterators.size_le,
      Array.getElem?_push_size⟩ ⟨v, current, v.le_refl, hu.valid, rfl⟩⟩
  simp only [Exec.perform, Exec.putIterator, bind_apply, Exec.popRef_of, Exec.popDatum_of]
  rfl

theorem Exec.iterator_of {current : Nat × Opcode} {pc : Nat} :
    Exec.iterator setup (.of cells pc (p.push (.iterator number)) w u current) =
      .ok number (.of cells pc (p.push (.iterator number)) w u current) := by
  have hback : (Machine.of cells pc (p.push (.iterator number)) w u current).stack.back? =
      some (.iterator number) := Array.back?_push
  simp only [Exec.iterator, bind_apply, get_apply, hback, pure_apply]

theorem leads_enterList {code : List Instruction} {j : Instruction}
    (hm : Stands setup cells a (p.push (.iterator number)) w t m)
    (hcode : t.HasCode a (.skip .enterList code :: code ++ j :: rest))
    (h : ∀ m', Stands setup cells (a + 4) (p.push (.iterator number)).marked w t m' →
      Leads setup .free floor n m' out final) : Leads setup .free floor n m out final := by
  refine hm.next hcode (by simp [Instruction.skip]) (fun u current hu => ?_) h
  simp only [Instruction.skip, Exec.perform, Exec.enterList, bind_apply, Exec.iterator_of,
    hcode.target hu]
  rfl

theorem leads_exitList {b c d : UInt32} (hm : Stands setup cells a p.marked w t m)
    (hcode : t.HasCode a (⟨.exitList, b, c, d⟩ :: rest))
    (h : ∀ m', Stands setup cells (a + 4) p w t m' → Leads setup .free floor n m' out final) :
    Leads setup .free floor n m out final := by
  refine hm.next hcode (by simp) (fun u current _ => ?_) h
  simp only [Exec.perform, Exec.exitList, bind_apply, get_apply]
  rw [show (Machine.of cells (a + 4) p.marked w u current).listMarks =
    p.stack.size :: p.listMarks from rfl]
  simp only
  rw [if_pos
    (show (Machine.of cells (a + 4) p.marked w u current).stack.size = p.stack.size from rfl)]
  rfl

/-- The next item is pushed. -/
theorem leads_iterate {operand c d : UInt32}
    (hm : Stands setup cells a (p.push (.iterator number)).marked w u m)
    (hitems : t.Iterates u number (item :: items))
    (hcode : t.HasCode a (⟨.iterate, operand, c, d⟩ :: rest))
    (h : ∀ m' v, t.Iterates v number items →
      Stands setup cells (a + 4)
        ((p.push (.iterator number)).marked.pushAll
          [.ref item.value, .ref item.memo]).deeper w v m' →
      Leads setup .free floor n m' out final) : Leads setup .free floor (n + 1) m out final := by
  refine hm.change_succ (hcode.mono hitems.1) (by simp) fun v current hv => ?_
  have hitems' := hitems.mono hv.le
  let v' : Store := { v with iterators := v.iterators.set! number items }
  refine ⟨.of cells (a + 4)
    ((p.push (.iterator number)).marked.pushAll [.ref item.value, .ref item.memo]).deeper w v'
    current, ?_, fun _ => h _ v' (hitems'.set items) ⟨v', current, v'.le_refl, hv.valid, rfl⟩⟩
  have hget : v.iterators.getD number [] = item :: items := by
    rw [Array.getD_eq_getD_getElem?, hitems'.2.2, Option.getD_some]
  rw [show (p.push (.iterator number)).marked = Pose.push { p with listMarks :=
    (p.push (.iterator number)).stack.size :: p.listMarks } (.iterator number) from rfl]
  simp only [Exec.perform, Exec.iterate, bind_apply, Exec.iterator_of, get_apply]
  rw [show ∀ q, (Machine.of cells (a + 4) q w v current).iterators = v.iterators from fun _ => rfl,
    hget, Pose.pushAll_cons, Pose.pushAll_cons, Pose.pushAll_nil]
  rfl

/-- There are no more items. -/
theorem leads_iterate_done {code : List Instruction} {j : Instruction}
    (hm : Stands setup cells a (p.push (.iterator number)).marked w u m)
    (hitems : t.Iterates u number [])
    (hcode : t.HasCode a (.skip .iterate code :: code ++ j :: rest))
    (h : ∀ m', Stands setup cells (a + 4 * (1 + code.length)) (p.push (.iterator number)).marked w t
      m' → Leads setup .free floor n m' out final) : Leads setup .free floor n m out final := by
  refine hm.next (hcode.mono hitems.1) (by simp [Instruction.skip]) (fun v current hv => ?_)
    fun m hm => h m (hm.weaken hitems.1)
  have hget : v.iterators.getD number [] = [] := by
    rw [Array.getD_eq_getD_getElem?, hv.le.iterators _ _ hitems.2.2, Option.getD_some]
  rw [show (p.push (.iterator number)).marked = Pose.push { p with listMarks :=
    (p.push (.iterator number)).stack.size :: p.listMarks } (.iterator number) from rfl]
  simp only [Instruction.skip, Exec.perform, Exec.iterate, bind_apply, Exec.iterator_of, get_apply]
  rw [show ∀ q, (Machine.of cells (a + 4) q w v current).iterators = v.iterators from fun _ => rfl,
    hget]
  simp only [Exec.jump, bind_apply, (hcode.mono hitems.1).target hv]
  rfl

end

end TemplateMachine
