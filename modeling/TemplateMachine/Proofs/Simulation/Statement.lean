import TemplateMachine.Proofs.Run.Yield
import TemplateMachine.Proofs.Simulation.Form

/-! The code of statements renders them. -/

namespace TemplateMachine

section

variable {setup : Setup} {cells : Cells} {a floor : Nat} {n : ENat} {p q : Pose}
variable {w : World} {t u : Store} {m : Machine} {rest : List Instruction} {call : Call}
variable {k : Coding} {code : List Instruction} {site : Site} {i : Invocation}

/-! ### Components that values give -/

/-- An expression that may give a component, which is then invoked. -/
theorem leads_dynamicForm (hserves : setup.Serves) (hsim : Simulates setup cells (floor + 1) n call)
    {definition : Expression} (hm : Stands setup cells a p w t m)
    (hsite : site.Renders setup k t p floor) (hshape : k.dynamicComponent definition i code)
    (hcode : t.HasCode a code) :
    Leads setup .free floor (n + 1) m ((do
        let value ← Walk.expression (setup.scene cells) site definition
        if (value.value cells).isTruthy then
          Walk.dynamicComponent (setup.scene cells) site call value i.bodies : Walk Unit) w)
      fun _ w' m' => Stands setup cells (a + 4 * code.length) p w' t m' := by
  obtain ⟨push, find, invoke, hpush, hfind, hinvoke, rfl⟩ := hshape
  refine leads_frame (n := n + 1) hm hcode fun m ra hra hhalt hm => ?_
  have hinner := hcode.tail.tail.append.1
  simp only [List.append_assoc, List.cons_append, List.nil_append] at hinner
  obtain ⟨hcode₁, hcode₂⟩ := hinner.append
  have hsite₁ : site.Renders setup k t (p.within ra []) floor := hsite.of_pose rfl rfl (by simp)
  have hstack (v : Value) : floor < ((p.within ra []).push v).stack.size :=
    Nat.lt_of_le_of_lt hsite.floor (p.size_lt_within_push ..)
  refine (leads_expression hserves definition hm hsite₁.toReads hpush hcode₁).bind
    fun r w m _ hm => ?_
  refine leads_dup_sp hm hcode₂ fun m hm => ?_
  refine leads_enter hm hcode₂.tail fun m hm => ?_
  have hjump : t.HasCode (a + 8 + 4 * push.length + 4 + 4) (.skip .jumpUnless (find ++ invoke) ::
      (find ++ invoke) ++ ⟨.exit, 0, 0, 0⟩ :: [⟨.ret, 0, 0, 0⟩]) := by
    have := hcode₂.tail.tail
    simpa [Coding.exitFrame] using this
  have hexit := hjump.skipped
  have hleave {v : Value} {b : Nat} {m : Machine} {w : World}
    (hb : b = a + 8 + 4 * push.length + 4 + 4 +
      4 * (1 + (find ++ invoke).length))
      (hm : Stands setup cells b ((p.within ra []).push v).deeper w t m) :
      Leads setup .free floor (n + 1) m (.ok () w) fun _ w' m' =>
        ∃ ra' vs, Stands setup cells ra (p.within ra' vs) w' t m' := by
    subst hb
    refine leads_exitFrame hm hhalt (hstack v) hexit fun m hm => Leads.done ⟨ra, [v], ?_⟩
    rw [← List.nil_append [v], ← Pose.within_push]
    exact hm
  refine leads_jumpWhen (p := ((p.within ra []).push (.ref r)).deeper)
    (show Opcode.jumpUnless = if false then .jumpIf else .jumpUnless from rfl) hm hjump
    (fun hfalse m hm => ?_) fun htrue m hm => ?_
  · rw [if_neg (by simp [hfalse])]
    exact hleave rfl hm
  · rw [if_pos (by simpa using htrue)]
    refine (leads_dynamicComponent (p := (p.within ra []).deeper) hserves hsim hm
      (hsite₁.of_pose rfl rfl (Nat.le_refl _)) hfind hinvoke hjump.tail.append.1).andThen ?_
    rintro - w' m ⟨number, hm⟩
    exact hleave (v := .component number) (by rw [List.length_append]; omega) hm

theorem leads_componentForm (hserves : setup.Serves)
    (hsim : Simulates setup cells (floor + 1) n call) {params : Option (List Expression)}
    {invocation : List Expression → Invocation} (hm : Stands setup cells a p w t m)
    (hsite : site.Renders setup k t p floor) (hshape : k.componentForm params invocation code)
    (hcode : t.HasCode a code) : Leads setup .free floor (n + 1) m
      (Walk.componentForm (setup.scene cells) site call params (fun es => (invocation es).bodies) w)
      fun _ w' m' => Stands setup cells (a + 4 * code.length) p w' t m' := by
  rcases params with _ | ⟨_ | ⟨definition, rest⟩⟩
  · exact hshape.elim
  · exact hshape.elim
  · dsimp only [Coding.componentForm] at hshape
    dsimp only [Walk.componentForm]
    rw [hsite.lookup cells, hsite.referer] at hshape
    cases hliteral : Compilable.literalComponent? (setup.scene cells).lookup site.referer
      definition with
    | some handle =>
      rw [hliteral] at hshape
      exact leads_component hserves hsim hm hsite hshape hcode
    | none =>
      rw [hliteral] at hshape
      exact leads_dynamicForm hserves hsim hm hsite hshape hcode

/-- A value that is appended, or invoked if it is a component. -/
theorem leads_guardedAppend (hserves : setup.Serves)
    (hsim : Simulates setup cells (floor + 1) n call) {value : Expression} {trusting : Bool}
    (hm : Stands setup cells a p w t m) (hsite : site.Renders setup k t p floor)
    (hshape : k.guardedAppend value trusting code) (hcode : t.HasCode a code) :
    Leads setup .free floor (n + 1) m
      (Walk.guardedAppend (setup.scene cells) site call value trusting w) fun _ w' m' =>
        Stands setup cells (a + 4 * code.length) p w' t m' := by
  obtain ⟨push, find, invoke, hpush, hfind, hinvoke, rfl⟩ := hshape
  unfold Walk.guardedAppend
  refine leads_frame (n := n + 1) hm hcode fun m ra hra hhalt hm => ?_
  have hinner := hcode.tail.tail.append.1
  simp only [List.append_assoc, List.cons_append, List.nil_append] at hinner
  obtain ⟨hcode₁, hcode₂⟩ := hinner.append
  have hsite₁ : site.Renders setup k t (p.within ra []) floor := hsite.of_pose rfl rfl (by simp)
  have hstack (v : Value) : floor < ((p.within ra []).push v).stack.size :=
    Nat.lt_of_le_of_lt hsite.floor (p.size_lt_within_push ..)
  refine (leads_expression hserves value hm hsite₁.toReads hpush hcode₁).bind fun r w m _ hm => ?_
  refine leads_dup_sp hm hcode₂ fun m hm => ?_
  refine leads_isComponent hm hcode₂.tail fun m hm => ?_
  refine leads_enter hm hcode₂.tail.tail fun m hm => ?_
  have hjump : t.HasCode (a + 8 + 4 * push.length + 4 + 4 + 4)
      (.skip .jumpUnless (find ++ invoke ++ Coding.exitFrame) ::
        (find ++ invoke ++ Coding.exitFrame) ++
          ⟨.dynamicContent, trusting.toUInt32, 0, 0⟩ :: Coding.exitFrame) := by
    have := hcode₂.tail.tail.tail
    simpa using this
  have hcontent := hjump.skipped
  refine leads_jumpWhen (p := ((p.within ra []).push (.ref r)).deeper)
    (show Opcode.jumpUnless = if false then .jumpIf else .jumpUnless from rfl) hm hjump
    (fun hfalse m hm => ?_) fun htrue m hm => ?_
  · have hplain : (r.value cells).isComponent = false := hfalse
    rw [if_neg (by simp [Setup.scene, hplain])]
    have hwrite : Leads setup .free floor (n + 1) m _ _ :=
      leads_dynamicContent (p := (p.within ra []).deeper)
        (show (trusting.toUInt32 != 0) = trusting by cases trusting <;> rfl) hm hcontent
    refine hwrite.andThen fun _ w m hm => ?_
    refine leads_exitFrame hm hhalt (Nat.lt_of_le_of_lt hsite.floor (by simp))
      hcontent.tail.append_nil fun m hm => Leads.done ⟨ra, [], hm⟩
  · have hcomponent : (r.value cells).isComponent = true := eq_true_of_ne_false htrue
    rw [if_pos (show (r.value (setup.scene cells).cells).isComponent = true from hcomponent)]
    have hinvoked := leads_dynamicComponent (i := {}) (p := (p.within ra []).deeper) hserves hsim hm
      (hsite₁.of_pose rfl rfl (Nat.le_refl _)) hfind hinvoke hjump.tail.append.1.append.1
    refine Leads.andThen hinvoked ?_
    rintro - w' m ⟨number, hm⟩
    have hexit := hjump.tail.append.1.append.2.append_nil
    refine leads_exitFrame (p := (p.within ra []).push (.component number)) (hm.at ?_)
      hhalt (hstack _) hexit fun m hm => Leads.done ⟨ra, [.component number], ?_⟩
    · rw [List.length_append]
    · rw [← List.nil_append [Value.component number], ← Pose.within_push]
      exact hm

/-! ### Block statements -/

/-- A block form has its parameter and its main block. -/
theorem Coding.single_elim {b : BlockCall} {form : Expression → Fragment → Prop}
    (h : Coding.single b form) :
    ∃ param main, b.params = some [param] ∧ b.template = some main ∧ form param main := by
  unfold Coding.single at h
  split at h
  · rename_i param main hparams htemplate
    exact ⟨param, main, hparams, htemplate, h⟩
  · exact h.elim

theorem BlockCall.invocation_bodies (b : BlockCall) :
    b.bodies.invocation = fun es => (b.invocation es).bodies := rfl

theorem leads_blockCall (hserves : setup.Serves) (hsim : Simulates setup cells (floor + 1) n call)
    {b : BlockCall} (hm : Stands setup cells a p w t m) (hsite : site.Renders setup k t p floor)
    (hshape : k.blockCall b code) (hcode : t.HasCode a code) :
    Leads setup .free floor (n + 1) m (Walk.blockCall (setup.scene cells) site call b.bodies w)
      fun _ w' m' => Stands setup cells (a + 4 * code.length) p w' t m' := by
  unfold Coding.blockCall at hshape
  generalize hwalk : Walk.blockCall (setup.scene cells) site call b.bodies = x
  unfold Walk.blockCall at hwalk
  rw [show b.bodies.name = b.name from rfl] at hwalk
  split at hwalk <;> subst hwalk
  · rename_i hname
    rw [if_pos hname] at hshape
    obtain ⟨param, main, hparams, htemplate, hform⟩ := Coding.single_elim hshape
    exact leads_conditional hserves hsim rfl hparams htemplate hm hsite hform hcode
  · rename_i hname
    rw [if_neg (by simp [hname]), if_pos hname] at hshape
    obtain ⟨param, main, hparams, htemplate, hform⟩ := Coding.single_elim hshape
    exact leads_conditional hserves hsim rfl hparams htemplate hm hsite hform hcode
  · rename_i hname
    rw [if_neg (by simp [hname]), if_neg (by simp [hname]), if_pos hname] at hshape
    obtain ⟨param, main, hparams, htemplate, hform⟩ := Coding.single_elim hshape
    exact leads_withBlock hserves hsim hparams htemplate hm hsite hform hcode
  · rename_i hname
    rw [if_neg (by simp [hname]), if_neg (by simp [hname]), if_neg (by simp [hname]), if_pos hname]
      at hshape
    obtain ⟨param, main, hparams, htemplate, hform⟩ := Coding.single_elim hshape
    exact leads_eachBlock hserves hsim hparams htemplate hm hsite hform hcode
  · rename_i hname
    rw [if_neg (by simp [hname]), if_neg (by simp [hname]), if_neg (by simp [hname]),
      if_neg (by simp [hname]), if_pos hname] at hshape
    rw [b.invocation_bodies, show b.bodies.params = b.params from rfl]
    exact leads_componentForm hserves hsim hm hsite hshape hcode
  · rename_i hif hunless hwith heach hcomponent
    rw [if_neg hif, if_neg hunless, if_neg hwith, if_neg heach, if_neg hcomponent] at hshape
    obtain ⟨handle, hhandle, hform⟩ := hshape
    rw [hsite.lookup cells, hsite.referer] at hhandle
    rw [hhandle, Walk.orUndefined_some, b.invocation_bodies,
      show b.bodies.params = b.params from rfl]
    exact leads_component hserves hsim hm hsite hform hcode

/-! ### Appended values -/

theorem leads_partialForm (hserves : setup.Serves) (hsim : Simulates setup cells (floor + 1) n call)
    {params : Option (List Expression)} (hm : Stands setup cells a p w t m)
    (hsite : site.Renders setup k t p floor) (hshape : k.partialForm params code)
    (hcode : t.HasCode a code) :
    Leads setup .free floor (n + 1) m
      (Walk.partialForm (setup.scene cells) site call params w) fun _ w' m' =>
        Stands setup cells (a + 4 * code.length) p w' t m' := by
  unfold Coding.partialForm at hshape
  split at hshape
  · rename_i name
    obtain ⟨f, table, called, hpartial, hcalled, rfl⟩ := hshape
    rw [hsite.lookup cells, hsite.referer] at hpartial
    have hwalk : Walk.partialForm (setup.scene cells) site call (some [.value (.str name)]) =
        call f.body (Slots.empty.bind 0 (.value (site.slots.value 0))) site.current := by
      simp only [Walk.partialForm, hpartial, Walk.orUndefined_some]
    rw [hwalk]
    simp only [List.cons_append, List.nil_append] at hcode
    obtain ⟨number, others, scope, hstack, -, -⟩ := id hsite.sees
    refine leads_getVariable hm hsite.sees hcode fun m hm => ?_
    refine leads_rootScope hm (show _ = number :: others from hstack) hcode.tail fun m hm => ?_
    refine hm.setVariable hcode.tail.tail fun m hm => ?_
    obtain ⟨u, inner, hu, hinner, hm⟩ := hm.stands
    have hcode := hcode.tail.tail.tail.mono hu
    have hholds : u.Holds setup.options.strategy _
        (Slots.empty.bind 0 (.value (site.slots.value 0))) :=
      (Store.holds_root (UInt32.ofNat table.symbols.length + 1).toNat none).bindValue 0 _
    have hsees : u.Sees setup.options.strategy (p.enter inner) _ :=
      ⟨inner, _, _, rfl, hinner, hholds⟩
    refine Leads.filled (hm.canYield hsees) (leads_pushFrame_succ hm hcode fun m hm => ?_)
    refine (leads_staticCall hserves hsim hm (hsite.within.mono hu) hcalled hcode.tail.append.1
      ⟨inner, _, _, rfl, hinner, hholds⟩ (hsite.current.mono hu)
      (Nat.lt_of_le_of_lt hsite.floor (by simp))).andThen ?_
    rintro - w' m ⟨ra, hm⟩
    have hleave := hcode.tail.append.2
    have hm : Stands setup cells _ ((p.enter inner).within ra []) w' u m := hm
    refine leads_popFrame hm hleave fun m hm => ?_
    refine leads_popScope hm hleave.tail fun m hm => Leads.done ((hm.weaken hu).at ?_)
    simp only [List.length_append, List.length_cons, List.length_nil]
    omega
  · exact hshape.elim

theorem leads_append (hserves : setup.Serves) (hsim : Simulates setup cells (floor + 1) n call)
    {value : Expression} {trusted : Bool} (hm : Stands setup cells a p w t m)
    (hsite : site.Renders setup k t p floor) (hshape : k.append value trusted code)
    (hcode : t.HasCode a code) :
    Leads setup .free floor (n + 1) m (Walk.append (setup.scene cells) site call value trusted w)
      fun _ w' m' => Stands setup cells (a + 4 * code.length) p w' t m' := by
  unfold Coding.append at hshape
  rw [hsite.lookup cells, hsite.referer] at hshape
  generalize hwalk : Walk.append (setup.scene cells) site call value trusted = x
  unfold Walk.append at hwalk
  cases hinline : Compilable.inline? (setup.scene cells).lookup site.referer value with
  | some form =>
    rw [hinline] at hshape hwalk
    cases form with
    | component params hash =>
      -- an inline form passes no blocks
      have hbodies : x = Walk.componentForm (setup.scene cells) site call params
          fun es => (Compilable.inlineInvocation hash es).bodies := hwalk.symm
      rw [hbodies]
      exact leads_componentForm hserves hsim hm hsite hshape hcode
    | part params =>
      subst hwalk
      exact leads_partialForm hserves hsim hm hsite hshape hcode
    | named handle params hash =>
      subst hwalk
      exact leads_component (i := Compilable.inlineInvocation hash params) hserves hsim
        hm hsite hshape hcode
  | none =>
    rw [hinline] at hshape hwalk
    simp only at hshape hwalk
    by_cases htrusted : (trusted || value.isGet) = true
    · rw [if_pos htrusted] at hshape hwalk
      subst hwalk
      exact leads_guardedAppend hserves hsim hm hsite hshape hcode
    · rw [if_neg htrusted] at hshape hwalk
      subst hwalk
      obtain ⟨push, hpush, rfl⟩ := hshape
      obtain ⟨hcode₁, hcode₂⟩ := hcode.append
      refine (leads_expression hserves value hm hsite.toReads hpush hcode₁).bind
        fun r w m _ hm => ?_
      have hwrite : Leads setup .free floor (n + 1) m _ _ :=
        leads_dynamicContent (show ((0 : UInt32) != 0) = false from rfl) hm hcode₂
      refine hwrite.mono fun _ w' m' hm => hm.at ?_
      simp only [List.length_append, List.length_cons, List.length_nil]
      omega

end

end TemplateMachine
