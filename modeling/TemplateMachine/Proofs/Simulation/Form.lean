import TemplateMachine.Proofs.Run.Frame
import TemplateMachine.Proofs.Run.Markup
import TemplateMachine.Proofs.Simulation.Invocation

/-! The code of block forms.  Each runs in a frame of its own, which is left through its end; a
branch that is done returns to that end. -/

namespace TemplateMachine

/-- The block statement with the bodies of its blocks. -/
def BlockCall.bodies (b : BlockCall) : BlockCall :=
  { b with template := b.template.map Fragment.body, inverse := b.inverse.map Fragment.body }

section

variable {setup : Setup} {cells : Cells} {a floor : Nat} {n : ENat} {p q : Pose}
variable {w : World} {t u : Store} {m : Machine} {rest : List Instruction} {call : Call}
variable {out : EStateM.Result (Stop Fault) World Unit}
variable {k : Coding} {code : List Instruction} {site : Site}

/-! ### Frames -/

/-- Code in a frame, which is left through its end. -/
theorem leads_frame {body : List Instruction} (hm : Stands setup cells a p w t m)
    (hcode : t.HasCode a (Coding.frame body))
    (h : ∀ m' ra, ra = a + 8 + 4 * body.length → ra ≠ haltAddress →
      Stands setup cells (a + 8) (p.within ra []) w t m' →
      Leads setup .free floor n m' out fun _ w' m' =>
        ∃ ra' vs, Stands setup cells ra (p.within ra' vs) w' t m') :
    Leads setup .free floor n m out fun _ w' m' =>
      Stands setup cells (a + 4 * (Coding.frame body).length) p w' t m' := by
  refine Leads.of_fits fun hfits => ?_
  have hend : a + 8 + 4 * body.length ≠ haltAddress :=
    hm.ne_haltAddress hfits hcode (by simp [Coding.frame])
      (by simp only [Coding.frame, List.length_cons, List.length_append]; omega)
  refine leads_pushFrame hm hcode fun m hm => ?_
  refine leads_returnTo hm hcode.tail fun m hm => ?_
  rw [show a + 4 + 4 * (1 + body.length) = a + 8 + 4 * body.length by omega] at hm
  refine (h m _ rfl hend hm).andThen fun _ w' m' hm => ?_
  obtain ⟨ra', vs, hm⟩ := hm
  have hpop : t.HasCode (a + 8 + 4 * body.length) [⟨.popFrame, 0, 0, 0⟩] :=
    hcode.tail.tail.append.2.at (by omega)
  refine leads_popFrame hm hpop fun m hm => Leads.done (hm.at ?_)
  simp only [Coding.frame, List.length_cons, List.length_append, List.length_nil]
  omega

/-! ### Branches -/

/-- The code of an inverse, if there is one. -/
theorem leads_inverse (hserves : setup.Serves) (hsim : Simulates setup cells (floor + 1) n call)
    {f : Fragment} {b : BlockCall} (hb : b.inverse = some f) (hm : Stands setup cells a p w t m)
    (hsite : site.Renders setup k t p floor) (hshape : k.staticBlock f 0 code)
    (hcode : t.HasCode a code) :
    Leads setup .free floor (n + 1) m (Walk.inverse site call b.bodies w) fun _ w' m' =>
      Stands setup cells (a + 4 * code.length) p w' t m' := by
  unfold Walk.inverse BlockCall.bodies
  rw [hb]
  exact leads_plainBlock hserves hsim hm hsite.within hshape hcode hsite.sees
    hsite.current hsite.floor

/-- A value decides between code and the inverse, and then the frame is left. -/
theorem leads_otherwise (hserves : setup.Serves) (hsim : Simulates setup cells (floor + 1) n call)
    {op : Opcode} {expected : Bool} {r : Reference} {b : BlockCall} {main : List Instruction}
    {x : Walk Unit} (hop : op = if expected then .jumpUnless else .jumpIf)
    (hm : Stands setup cells a (q.deeper.push (.ref r)) w u m) (hu : t ≤ u)
    (hsite : site.Renders setup k t q.deeper floor) (hra : q.ra ≠ haltAddress)
    (hfloor : floor < q.stack.size) (hshape : k.otherwise op b.inverse main code)
    (hcode : t.HasCode a code)
    (hmain : (r.value cells).isTruthy = expected → t.HasCode (a + 4) main → ∀ m',
      Stands setup cells (a + 4) q.deeper w u m' → Leads setup .free floor (n + 1) m' (x w)
        fun _ w' m' => Stands setup cells (a + 4 + 4 * main.length) q.deeper w' t m') :
    Leads setup .free floor (n + 1) m
      ((if (r.value cells).isTruthy = expected then x else Walk.inverse site call b.bodies) w)
      fun _ w' m' => Stands setup cells q.ra q w' t m' := by
  have hop' : op = if !expected then .jumpIf else .jumpUnless := by
    subst hop
    cases expected <;> rfl
  have hno : (r.value cells).isTruthy = !expected → ¬(r.value cells).isTruthy = expected := by
    cases (r.value cells).isTruthy <;> cases expected <;> simp
  have hyes : ¬(r.value cells).isTruthy = !expected → (r.value cells).isTruthy = expected := by
    cases (r.value cells).isTruthy <;> cases expected <;> simp
  have hleave {m : Machine} {w : World} {b : Nat} (hm : Stands setup cells b q.deeper w t m)
      (hcode : t.HasCode b (Coding.exitFrame ++ [])) :
      Leads setup .free floor (n + 1) m (.ok () w) fun _ w' m' =>
      Stands setup cells q.ra q w' t m' :=
    leads_exitFrame hm hra hfloor hcode fun _ hm => Leads.done hm
  unfold Coding.otherwise at hshape
  cases hinverse : b.inverse with
  | none =>
    rw [hinverse] at hshape
    obtain rfl := hshape
    have hexit : t.HasCode (a + 4 + 4 * main.length) (Coding.exitFrame ++ []) :=
      hcode.tail.append.2.append_nil
    refine leads_jumpWhen hop' hm (hcode.mono hu) (fun h m hm => ?_) fun h m hm => ?_
    · rw [if_neg (hno h)]
      unfold Walk.inverse BlockCall.bodies
      rw [hinverse]
      exact hleave ((hm.weaken hu).at (by omega)) hexit
    · rw [if_pos (hyes h)]
      exact (hmain (hyes h) hcode.tail.append.1 m hm).andThen fun _ w m hm => hleave hm hexit
  | some f =>
    rw [hinverse] at hshape
    obtain ⟨other, hother, rfl⟩ := hshape
    obtain ⟨j, more, hmore⟩ : ∃ j more, other ++ Coding.exitFrame = j :: more := by
      cases other <;> exact ⟨_, _, rfl⟩
    have hcode' : t.HasCode a (.skip op (main ++ [.skip .jump other]) ::
        (main ++ [.skip .jump other]) ++ (other ++ Coding.exitFrame)) := by
      simpa using hcode
    have hother' := hcode'.skipped
    have hexit := hother'.append.2.append_nil
    have hjump : t.HasCode (a + 4 + 4 * main.length)
        (.skip .jump other :: other ++ Coding.exitFrame) := by
      simp only [List.cons_append, List.append_assoc] at hcode
      exact hcode.tail.append.2
    rw [hmore] at hcode'
    refine leads_jumpWhen hop' hm (hcode'.mono hu) (fun h m hm => ?_) fun h m hm => ?_
    · rw [if_neg (hno h)]
      exact (leads_inverse hserves hsim hinverse (hm.weaken hu) hsite hother
        hother'.append.1).andThen fun _ w m hm => hleave hm hexit
    · rw [if_pos (hyes h)]
      refine (hmain (hyes h) hcode'.tail.append.1.append.1 m hm).andThen fun _ w m hm => ?_
      refine leads_jump hm hjump fun m hm => hleave hm (hexit.at ?_)
      simp only [List.length_append, List.length_cons, List.length_nil]
      omega

/-! ### Conditions -/

theorem Walk.single_bodies {b : BlockCall} {param : Expression} {main : Fragment}
    (hparams : b.params = some [param]) (htemplate : b.template = some main) :
    Walk.single b.bodies = pure (param, main.body) := by
  unfold Walk.single BlockCall.bodies
  rw [hparams, htemplate]
  rfl

theorem leads_conditional (hserves : setup.Serves) (hsim : Simulates setup cells (floor + 1) n call)
    {op : Opcode} {expected : Bool} {b : BlockCall} {param : Expression} {main : Fragment}
    (hop : op = if expected then .jumpUnless else .jumpIf)
    (hparams : b.params = some [param]) (htemplate : b.template = some main)
    (hm : Stands setup cells a p w t m) (hsite : site.Renders setup k t p floor)
    (hshape : k.conditional op param main b.inverse code) (hcode : t.HasCode a code) :
    Leads setup .free floor (n + 1) m
      (Walk.conditional (setup.scene cells) site call expected b.bodies w) fun _ w' m' =>
        Stands setup cells (a + 4 * code.length) p w' t m' := by
  obtain ⟨value, body, hvalue, hbody, branches, hbranches, rfl⟩ := hshape
  unfold Walk.conditional
  rw [Walk.single_bodies hparams htemplate, pure_bind]
  refine leads_frame hm hcode fun m ra hra hhalt hm => ?_
  have hinner := hcode.tail.tail.append.1
  simp only [List.append_assoc, List.cons_append, List.nil_append] at hinner
  obtain ⟨hcode₁, hcode₂⟩ := hinner.append
  have hsite₁ : site.Renders setup k t (p.within ra []) floor :=
    hsite.of_pose rfl rfl (by simp)
  refine (leads_expression hserves param hm hsite₁.toReads hvalue hcode₁).bind fun r w m _ hm => ?_
  refine leads_toBoolean hm hcode₂ fun m hm => ?_
  refine leads_enter hm hcode₂.tail fun m hm => ?_
  have hsite₂ : site.Renders setup k t (p.within ra []).deeper floor :=
    hsite₁.of_pose rfl rfl (Nat.le_refl _)
  refine (leads_otherwise (q := p.within ra []) (r := .truth r) (u := t) (b := b)
    (x := Walk.staticBlock site call main.body [])
    hserves hsim hop hm t.le_refl hsite₂ hhalt
    (Nat.lt_of_le_of_lt hsite.floor (by simp)) hbranches hcode₂.tail.tail
    fun _ hcode₃ m hm => ?_).mono fun _ w' m' hm => ⟨ra, [], hm⟩
  exact leads_plainBlock hserves hsim hm hsite.within hbody hcode₃ hsite₂.sees hsite₂.current
    hsite₂.floor

theorem leads_withBlock (hserves : setup.Serves) (hsim : Simulates setup cells (floor + 1) n call)
    {b : BlockCall} {param : Expression} {main : Fragment}
    (hparams : b.params = some [param]) (htemplate : b.template = some main)
    (hm : Stands setup cells a p w t m) (hsite : site.Renders setup k t p floor)
    (hshape : k.withBlock param main b.inverse code) (hcode : t.HasCode a code) :
    Leads setup .free floor (n + 1) m (Walk.withBlock (setup.scene cells) site call b.bodies w)
      fun _ w' m' => Stands setup cells (a + 4 * code.length) p w' t m' := by
  obtain ⟨push, body, hpush, hbody, branches, hbranches, rfl⟩ := hshape
  unfold Walk.withBlock
  rw [Walk.single_bodies hparams htemplate, pure_bind]
  refine leads_frame hm hcode fun m ra hra hhalt hm => ?_
  have hinner := hcode.tail.tail.append.1
  simp only [List.append_assoc, List.cons_append, List.nil_append] at hinner
  obtain ⟨hcode₁, hcode₂⟩ := hinner.append
  have hsite₁ : site.Renders setup k t (p.within ra []) floor :=
    hsite.of_pose rfl rfl (by simp)
  refine (leads_expression hserves param hm hsite₁.toReads hpush hcode₁).bind fun r w m _ hm => ?_
  refine leads_dup_sp hm hcode₂ fun m hm => ?_
  refine leads_toBoolean hm hcode₂.tail fun m hm => ?_
  refine leads_enter hm hcode₂.tail.tail fun m hm => ?_
  have hsite₂ : site.Renders setup k t (p.within ra []).deeper floor :=
    hsite₁.of_pose rfl rfl (Nat.le_refl _)
  refine (leads_otherwise (q := (p.within ra []).push (.ref r)) (r := .truth r) (u := t) (b := b)
    (x := Walk.staticBlock site call main.body [r])
    hserves hsim (show Opcode.jumpUnless = if true then .jumpUnless else .jumpIf from rfl) hm
    t.le_refl (hsite₂.of_pose rfl rfl (by simp [Pose.deeper, Pose.push])) hhalt
    (Nat.lt_of_le_of_lt hsite.floor (p.size_lt_within_push ..)) hbranches hcode₂.tail.tail.tail
    fun _ hcode₃ m hm => ?_).mono fun _ w' m' hm => ⟨ra, [.ref r], ?_⟩
  · have hpose : ((p.within ra []).push (.ref r)).deeper =
        (p.within ra []).deeper.pushAll ([r].map .ref) := by
      rw [List.map_singleton, Pose.pushAll_cons, Pose.pushAll_nil]
      rfl
    rw [hpose] at hm ⊢
    exact leads_staticBlock hserves hsim hm hsite.within hbody rfl hcode₃ hsite₂.sees hsite₂.current
      hsite₂.floor
  · rw [← List.nil_append [Value.ref r], ← Pose.within_push]
    exact hm

/-! ### Lists -/

/-- The items that are left are gone through. -/
theorem leads_items (hserves : setup.Serves) (hsim : Simulates setup cells (floor + 1) n call)
    {main : Fragment} {number : Nat} {items : List IterationItem} {body : List Instruction}
    (hm : Stands setup cells a (p.push (.iterator number)).marked w u m)
    (hitems : t.Iterates u number items) (hsite : site.Renders setup k t p floor)
    (hra : p.ra = a) (hhalt : a ≠ haltAddress) (hfloor : floor < p.stack.size)
    (hbody : k.staticBlock main 2 body)
    (hcode : t.HasCode a (.skip .iterate (body ++ ⟨.pop, 2, 0, 0⟩ :: Coding.exitFrame) ::
      (body ++ ⟨.pop, 2, 0, 0⟩ :: Coding.exitFrame) ++ ⟨.exitList, 0, 0, 0⟩ :: rest)) :
    Leads setup .free floor (n + 1) m (Walk.eachItem site call main.body items w) fun _ w' m' =>
      Stands setup cells (a + 4 * (body.length + 4))
        (p.push (.iterator number)).marked w' t m' := by
  induction items generalizing u w m with
  | nil =>
    refine leads_iterate_done hm hitems hcode fun m hm => Leads.done (hm.at ?_)
    simp only [List.length_append, List.length_cons, Coding.exitFrame, List.length_nil]
    omega
  | cons item items ih =>
    have hinner := hcode
    simp only [List.cons_append, List.append_assoc] at hinner
    refine Leads.le (n := n + 1 + 1) (leads_iterate hm hitems hinner fun m v hv hm => ?_)
      le_self_add
    have hsite' : site.Renders setup k t (p.push (.iterator number)).marked.deeper floor :=
      hsite.of_pose rfl rfl (by simp [Pose.deeper, Pose.marked, Pose.push])
    have hstack : floor < (p.push (.iterator number)).marked.stack.size :=
      Nat.lt_of_lt_of_le hfloor (by simp [Pose.marked, Pose.push])
    have hpop := hinner.tail.append.2
    refine Leads.bind (leads_staticBlock hserves hsim hm (hsite'.within.mono hv.1) hbody rfl
      (hinner.tail.append.1.mono hv.1) (hsite'.sees.mono hv.1) (hsite'.current.mono hv.1)
      hsite'.floor) fun _ w m _ hm => ?_
    refine leads_pop hm rfl (hpop.mono hv.1) fun m hm => ?_
    refine leads_exitFrame hm (fun h => hhalt (hra ▸ h)) hstack (hpop.tail.mono hv.1) fun m hm => ?_
    exact ih (hm.at hra) hv

/-- The loop, with the jumps over what follows them. -/
theorem Coding.loop_eq (body : List Instruction) :
    ∃ iterate, iterate = .skip .iterate (body ++ ⟨.pop, 2, 0, 0⟩ :: exitFrame) ∧
      loop body = ⟨.pushFrame, 0, 0, 0⟩ ::
        (.skip .returnTo [⟨.dup, Register.fp.number, 1, 0⟩, .skip .enterList [iterate]] ::
          [⟨.dup, Register.fp.number, 1, 0⟩, .skip .enterList [iterate]] ++ iterate ::
            ((body ++ ⟨.pop, 2, 0, 0⟩ :: exitFrame) ++
              [⟨.exitList, 0, 0, 0⟩, ⟨.popFrame, 0, 0, 0⟩])) := by
  refine ⟨_, rfl, ?_⟩
  simp only [loop, List.cons_append, List.nil_append, List.append_assoc]
  rfl

theorem leads_loop (hserves : setup.Serves) (hsim : Simulates setup cells (floor + 1) n call)
    {main : Fragment} {number : Nat} {items : List IterationItem} {body : List Instruction}
    (hm : Stands setup cells a (p.push (.iterator number)) w u m)
    (hitems : t.Iterates u number items) (hsite : site.Renders setup k t p floor)
    (hbody : k.staticBlock main 2 body) (hcode : t.HasCode a (Coding.loop body)) :
    Leads setup .free floor (n + 1) m (Walk.eachItem site call main.body items w) fun _ w' m' =>
      Stands setup cells (a + 4 * (Coding.loop body).length)
        (p.push (.iterator number)) w' t m' := by
  refine Leads.of_fits fun hfits => ?_
  have hhalt : a + 16 ≠ haltAddress :=
    hm.ne_haltAddress hfits (hcode.mono hitems.1) (by simp [Coding.loop])
      (by simp only [Coding.loop, List.length_cons, List.length_append]; omega)
  obtain ⟨iterate, hiterate, hloop⟩ := Coding.loop_eq body
  have hlength : (Coding.loop body).length = body.length + 10 := by
    simp only [Coding.loop, Coding.exitFrame, List.length_append, List.length_cons, List.length_nil]
    omega
  rw [hlength]
  rw [hloop] at hcode
  refine leads_pushFrame hm (hcode.mono hitems.1) fun m hm => ?_
  refine leads_returnTo hm (hcode.tail.mono hitems.1) fun m hm => ?_
  refine leads_dup_fp (v := .iterator number) hm
    (hcode.tail.tail.mono hitems.1) ?_ ?_ fun m hm => ?_
  · simp [Pose.within, Pose.push]
  · exact Pose.getElem?_below_frame ..
  obtain ⟨j, more, hmore⟩ := List.exists_cons_of_ne_nil (show (body ++ ⟨.pop, 2, 0, 0⟩ ::
    Coding.exitFrame) ++ [⟨.exitList, 0, 0, 0⟩, ⟨.popFrame, 0, 0, 0⟩] ≠ [] by simp)
  have hlist : t.HasCode (a + 4 + 4 + 4) (.skip .enterList [iterate] :: [iterate] ++
      j :: more) := by
    rw [← hmore]
    exact hcode.tail.tail.tail
  refine leads_enterList hm (hlist.mono hitems.1) fun m hm => ?_
  have hitem := hcode.tail.tail.tail.tail
  rw [hiterate] at hitem
  have hinside (v : Value) (ra : Nat) : p.stack.size < ((p.push v).within ra []).stack.size :=
    Nat.lt_trans (Nat.lt_of_succ_le (Nat.le_of_eq (Pose.size_push p v).symm))
      ((p.push v).size_lt_within ra [])
  refine (leads_items hserves hsim hm hitems (hsite.of_pose rfl rfl (Nat.le_of_lt (hinside _ _)))
    ?_ ?_ ?_ hbody hitem).andThen fun _ w m hm => ?_
  · simp only [Pose.within, List.length_cons, List.length_nil]
  · exact hhalt
  · exact Nat.lt_of_le_of_lt hsite.floor (hinside _ _)
  have hexit := hitem.skipped.at (b := a + 4 + 4 + 4 + 4 + 4 * (body.length + 4)) (by
    simp only [Coding.exitFrame, List.length_append, List.length_cons, List.length_nil]
    omega)
  refine leads_exitList hm hexit fun m hm => ?_
  rw [Pose.within_push] at hm
  refine leads_popFrame hm hexit.tail fun m hm => Leads.done (hm.at (by omega))

/-- A list is present if there is something to be gone through. -/
theorem Iteration.isTruthy_presence (cells : Cells) (i : Iteration) :
    ((Reference.presence i.list).value cells).isTruthy = !(i.items cells).isEmpty := by
  unfold Iteration.items
  simp only [Reference.value, Datum.isTruthy]
  cases (i.list.value cells).items <;> rfl

theorem leads_eachBlock (hserves : setup.Serves) (hsim : Simulates setup cells (floor + 1) n call)
    {b : BlockCall} {param : Expression} {main : Fragment}
    (hparams : b.params = some [param]) (htemplate : b.template = some main)
    (hm : Stands setup cells a p w t m) (hsite : site.Renders setup k t p floor)
    (hshape : k.eachBlock (Compilable.key? b) param main b.inverse code)
    (hcode : t.HasCode a code) :
    Leads setup .free floor (n + 1) m (Walk.eachBlock (setup.scene cells) site call b.bodies w)
      fun _ w' m' => Stands setup cells (a + 4 * code.length) p w' t m' := by
  obtain ⟨keys, push, body, hkeys, hpush, hbody, branches, hbranches, rfl⟩ := hshape
  unfold Walk.eachBlock
  rw [Walk.single_bodies hparams htemplate, pure_bind]
  refine leads_frame hm hcode fun m ra hra hhalt hm => ?_
  have hinner := hcode.tail.tail.append.1
  simp only [List.append_assoc, List.cons_append, List.nil_append] at hinner
  obtain ⟨hcode₁, hcode₂⟩ := hinner.append
  obtain ⟨hcode₂, hcode₃⟩ := hcode₂.append
  have hsite₁ : site.Renders setup k t (p.within ra []) floor :=
    hsite.of_pose rfl rfl (by simp)
  have hkey : Leads setup .free floor (n + 1) m
      (Walk.keyValue (setup.scene cells) site b.bodies w) fun r w' m' =>
        Stands setup cells (a + 8 + 4 * keys.length) ((p.within ra []).push (.ref r)) w' t m' := by
    unfold Coding.keyCode at hkeys
    unfold Walk.keyValue
    rw [show Compilable.key? b.bodies = Compilable.key? b from rfl]
    cases hkey : Compilable.key? b with
    | none =>
      rw [hkey] at hkeys
      exact leads_reference hm hsite.within.linkage hkeys hcode₁ fun m hm => Leads.done hm
    | some key =>
      rw [hkey] at hkeys
      exact leads_expression hserves key hm hsite₁.toReads hkeys hcode₁
  refine hkey.bind fun key w m _ hm => ?_
  refine (leads_expression hserves param hm (hsite₁.toReads.of_scopeStack rfl) hpush hcode₂).bind
    fun list w m _ hm => ?_
  refine leads_enter hm hcode₃ fun m hm => ?_
  refine leads_putIterator (p := (p.within ra []).deeper) hm hcode₃.tail
    fun m u number hitems hm => ?_
  have hsite₂ : site.Renders setup k t (p.within ra []).deeper floor :=
    hsite₁.of_pose rfl rfl (Nat.le_refl _)
  have hpresent (x y : Walk Unit) :
      (if (Iteration.items ⟨list, .ofDatum (key.value cells)⟩ cells).isEmpty = true then x else y) =
        if ((Reference.presence list).value cells).isTruthy = true then y else x := by
    have htruthy := Iteration.isTruthy_presence cells ⟨list, .ofDatum (key.value cells)⟩
    by_cases hempty : (Iteration.items ⟨list, .ofDatum (key.value cells)⟩ cells).isEmpty = true
    · rw [if_pos hempty, if_neg (by simp [htruthy, hempty])]
    · rw [if_neg hempty, if_pos (by simpa [htruthy] using hempty)]
  rw [show (setup.scene cells).cells = cells from rfl, hpresent]
  refine (leads_otherwise (q := (p.within ra []).push (.iterator number)) (r := .presence list)
    (b := b) hserves hsim
    (show Opcode.jumpUnless = if true then .jumpUnless else .jumpIf from rfl) hm hitems.1
    (hsite₂.of_pose rfl rfl (by simp [Pose.deeper, Pose.push])) hhalt
    (Nat.lt_of_le_of_lt hsite.floor (p.size_lt_within_push ..)) hbranches hcode₃.tail.tail
    fun _ hloop m hm => ?_).mono fun _ w' m' hm => ⟨ra, [.iterator number], ?_⟩
  · exact leads_loop (p := (p.within ra []).deeper) hserves hsim hm hitems hsite₂ hbody hloop
  · rw [← List.nil_append [Value.iterator number], ← Pose.within_push]
    exact hm

end

end TemplateMachine
