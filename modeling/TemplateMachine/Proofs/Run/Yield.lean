import TemplateMachine.Proofs.Run.Block

/-! Blocks in slots.  A block is called with the slots of the place it was written in, which are
those of the caller of the current scope. -/

namespace TemplateMachine

section

variable {setup : Setup} {cells : Cells} {a floor : Nat} {n : ENat} {p : Pose}
variable {w : World} {t : Store} {m : Machine} {rest : List Instruction} {α : Type}
variable {out : EStateM.Result (Stop Fault) World α} {final : α → World → Machine → Prop}
variable {k : Coding} {code : List Instruction} {site : Site} {body : Fragment} {written : Slots}

open Exec (bind_apply pure_apply get_apply read_apply modify_apply orFail_some pop_of)

/-! ### Reading blocks -/

theorem leads_getBlock {symbol b c : UInt32} (hm : Stands setup cells a p w t m)
    (hsees : t.Sees setup.options.strategy p site.slots)
    (hslot : site.slots symbol = .block body written)
    (hcode : t.HasCode a (⟨.getBlock, symbol, b, c⟩ :: rest))
    (h : ∀ m' u v, t ≤ u → u.IsBlock setup.options.strategy v body →
      Stands setup cells (a + 4) ((p.push (.table body.table)).push v) w u m' →
      Leads setup .free floor n m' out final) : Leads setup .free floor (n + 1) m out final := by
  obtain ⟨number, others, scope, hstack, hscope, hslots⟩ := hsees
  have hfills := hslots symbol
  rw [hslot] at hfills
  obtain ⟨⟨v, hget, hblock⟩, -⟩ := hfills
  refine hm.next_succ hcode (by simp) (q := (p.push (.table body.table)).push v)
    (fun u current hu => ?_) fun m' hm' => h m' t v t.le_refl hblock hm'
  simp only [Exec.perform, Exec.getBlock, bind_apply,
    Exec.slot_of hstack (hu.le.scopes _ _ hscope), hget]
  rfl

/-- There is no block in a slot. -/
theorem leads_getBlock_none {symbol b c : UInt32} (hm : Stands setup cells a p w t m)
    (hsees : t.Sees setup.options.strategy p site.slots)
    (hslot : ∀ body written, site.slots symbol ≠ .block body written)
    (hcode : t.HasCode a (⟨.getBlock, symbol, b, c⟩ :: rest))
    (h : ∀ m', Stands setup cells (a + 4) ((p.push .null).push .null) w t m' →
      Leads setup .free floor n m' out final) : Leads setup .free floor (n + 1) m out final := by
  obtain ⟨number, others, scope, hstack, hscope, hslots⟩ := hsees
  have hfills := hslots symbol
  refine hm.next_succ hcode (by simp) (fun u current hu => ?_) h
  simp only [Exec.perform, Exec.getBlock, bind_apply, Exec.slot_of hstack (hu.le.scopes _ _ hscope)]
  cases hb : site.slots symbol with
  | empty =>
    rw [hb] at hfills
    rcases hfills with heq | heq <;> rw [heq] <;> rfl
  | value r =>
    rw [hb] at hfills
    rw [show scope.get symbol = .value r from hfills]
    rfl
  | block body written => exact absurd hb (hslot body written)

/-- Null stays null. -/
theorem leads_resolve_null (hm : Stands setup cells a (p.push .null) w t m)
    (hcode : t.HasCode a (k.resolve ++ rest))
    (h : ∀ m', Stands setup cells (a + 4 * k.resolve.length) (p.push .null) w t m' →
      Leads setup .free floor n m' out final) : Leads setup .free floor n m out final := by
  unfold Coding.resolve at hcode h
  cases hs : k.strategy with
  | lazy =>
    simp only [hs] at hcode h
    refine hm.next hcode (by simp) (fun u current _ => ?_) h
    simp only [Exec.perform, Exec.compileBlock, bind_apply, pop_of]
    rfl
  | eager =>
    simp only [hs] at h
    exact h m hm

theorem leads_hasBlockParams (hserves : setup.Serves) {symbol : UInt32}
    (hm : Stands setup cells a p w t m) (hk : k.Within setup t)
    (hsees : t.Sees setup.options.strategy p site.slots)
    (hcode : t.HasCode a
      (⟨.getBlock, symbol, 0, 0⟩ :: (k.resolve ++ [⟨.hasBlockParams, 0, 0, 0⟩]))) :
    Leads setup .free floor n m (Walk.hasBlockParams (setup.scene cells) site symbol w)
      fun r w' m' =>
      Stands setup cells (a + 4 * (k.resolve.length + 2)) (p.push (.ref r)) w' t m' := by
  have hend : a + 4 * (k.resolve.length + 2) = a + 4 + 4 * k.resolve.length + 4 := by omega
  have hrest := hcode.tail.append.2
  rw [hend]
  by_cases hslot : ∃ body written, site.slots symbol = .block body written
  · obtain ⟨body, written, hslot⟩ := hslot
    have hwalk : Walk.hasBlockParams (setup.scene cells) site symbol =
        if body.isCompilable setup.options.lookup then
          pure (.ofJson (.bool !body.table.parameters.isEmpty))
        else Walk.fail .uncompilable := by
      unfold Walk.hasBlockParams
      rw [hslot]
      rfl
    rw [hwalk]
    refine Leads.le (n := n + 1) ?_ le_self_add
    refine leads_getBlock hm hsees hslot hcode fun m u v hu hblock hm => ?_
    refine leads_resolve hserves hm (hk.mono hu) hblock (hcode.mono hu).tail ?_ ?_
    · intro hnot
      rw [if_neg (by simp [hnot])]
      exact .inr rfl
    · rintro m u' v' f handle hu' - hm rfl hnull hcompiled
      rw [if_pos (show f.body.isCompilable setup.options.lookup from hcompiled.isCompilable)]
      refine hm.next ((hrest.mono hu).mono hu') (by simp) (fun u'' current _ => ?_)
        fun m' hm' => Leads.done ((hm'.weaken hu').weaken hu)
      simp only [Exec.perform, Exec.hasBlockParams, bind_apply, Exec.popBlock_of,
        ScopeBlock.isPresent, hnull, Bool.not_false, Bool.true_and]
      rfl
  · have hnone : ∀ body written, site.slots symbol ≠ .block body written :=
      fun body written h => hslot ⟨body, written, h⟩
    have hwalk : Walk.hasBlockParams (setup.scene cells) site symbol =
        pure (.ofJson (.bool false)) := by
      unfold Walk.hasBlockParams
      split
      · rename_i body written h
        exact absurd h (hnone body written)
      · rfl
    rw [hwalk]
    refine Leads.le (n := n + 1) ?_ le_self_add
    refine leads_getBlock_none hm hsees hnone hcode fun m hm => ?_
    refine leads_resolve_null hm hcode.tail fun m hm => ?_
    refine hm.next hrest (by simp) (fun u current _ => ?_) fun m' hm' => Leads.done hm'
    simp only [Exec.perform, Exec.hasBlockParams, bind_apply, Exec.popBlock_of]
    rfl

/-! ### Calling blocks -/

/-- Entering the scope that a block was written in, with values for its parameters. -/
theorem Exec.enterCallerScope_of {u : Store} {symbol : UInt32} (parameters : List UInt32)
    (args : Arguments) (hvalid : setup.Valid u)
    (hsees : u.Sees setup.options.strategy p site.slots)
    (hslot : site.slots symbol = .block body written) :
    ∃ v number, u ≤ v ∧ setup.Valid v ∧
      (∀ cells pc w current,
        Exec.enterCallerScope parameters args setup (.of cells pc p w u current) =
          .ok () (.of cells pc ((p.within p.ra []).enter number) w v current)) ∧
      v.Sees setup.options.strategy ((p.within p.ra []).enter number)
        (written.bindValues parameters args.positional) := by
  obtain ⟨number, others, scope, hstack, hscope, hslots⟩ := hsees
  have hfills := hslots symbol
  rw [hslot] at hfills
  obtain ⟨-, caller, outer, hcaller, houter, hwritten⟩ := hfills
  have hholds : u.Holds setup.options.strategy outer written := hwritten
  have hget : (u.scopes.get number).caller = some caller := by rw [Exec.scopes_get hscope, hcaller]
  cases parameters with
  | nil =>
    refine ⟨u, caller, u.le_refl, hvalid, fun cells pc w current => ?_, caller, _,
      outer, rfl, houter, hholds⟩
    simp only [Exec.enterCallerScope, bind_apply, Exec.currentScope_of hstack, get_apply]
    rw [show (Machine.of cells pc p w u current).scopes = u.scopes from rfl, hget]
    simp only [orFail_some, List.isEmpty_nil, if_true, bind_apply, Exec.pushFrame_of]
    rfl
  | cons parameter parameters =>
    let bound := Exec.bindParameters outer (parameter :: parameters) args.positional
    let v : Store := { u with scopes := ⟨u.scopes.entries.push bound⟩ }
    have hv : u ≤ v := ⟨u.linkage.le_refl, keeps_push _ _, .refl _, .refl _⟩
    refine ⟨v, u.scopes.entries.size, hv, hvalid, fun cells pc w current => ?_, _, _, bound, rfl,
      Array.getElem?_push_size, (hholds.mono hv).bindParameters _ _⟩
    simp only [Exec.enterCallerScope, bind_apply, Exec.currentScope_of hstack, get_apply]
    rw [show (Machine.of cells pc p w u current).scopes = u.scopes from rfl, hget]
    simp only [orFail_some, List.isEmpty_cons, Bool.false_eq_true, if_false, bind_apply,
      Exec.pushFrame_of, Exec.scopes_get houter]
    rfl

/-- The block that a yield calls is on the stack, above its symbols. -/
theorem Machine.callee?_yield {b c d : UInt32} {table block : Value}
    (hnext : m.next? = some ⟨.invokeYield, b, c, d⟩)
    (hstack : m.stack = ((p.push table).push block).stack) :
    m.callee? = match table with | .table _ => block.toHandle? | _ => none := by
  have htable : ((p.stack.push table).push block)[p.stack.size]? = some table := by
    rw [Array.getElem?_push, if_neg (by simp), Array.getElem?_push_size]
  have hsize : ((p.stack.push table).push block).size - 2 = p.stack.size := by simp
  simp only [Machine.callee?, hnext, hstack, Pose.push, hsize, htable, Array.back?_push,
    Option.bind_some]
  cases table <;> rfl

theorem leads_invokeYield {call : Call} (hsim : Simulates setup cells (floor + 1) n call)
    {f : Fragment} {symbol handle b c d : UInt32} {v : Value} {args : Arguments}
    (hm : Stands setup cells a (((p.push (.args args)).push (.table f.body.table)).push v) w t m)
    (hv : v.toHandle? = some handle)
    (hcompiled : t.linkage.Compiled setup.options.lookup setup.options.strategy f handle)
    (hsees : t.Sees setup.options.strategy p site.slots)
    (hcurrent : t.IsCurrent p.registers.s0 site.current)
    (hslot : site.slots symbol = .block f.body written)
    (hcode : t.HasCode a (⟨.invokeYield, b, c, d⟩ :: rest)) (hfloor : floor ≤ p.stack.size) :
    Leads setup .free floor n m
      (call f.body (written.bindValues f.body.table.parameters args.positional) site.current w)
      fun _ w' m' => ∃ ra number,
        Stands setup cells (a + 4) ((p.within ra []).enter number) w' t m' := by
  have hholds := hm.hasCode hcode
  obtain ⟨u, current, hu, hvalid, rfl⟩ := hm
  obtain ⟨v', number, hv', hvalid', henter, hsees'⟩ :=
    Exec.enterCallerScope_of f.body.table.parameters args hvalid (hsees.mono hu) hslot
  have htv := Store.le_trans hu hv'
  refine (Stands.calls hsim (p := (p.within p.ra []).enter number) hvalid (hcode.mono hu)
    ((Machine.callee?_yield hholds.next? rfl).trans hv) ?_ hvalid'
    (hcompiled.mono (Store.Grows.linkage htv)) hsees' (hcurrent.mono htv) (by simp; omega)).mono
    fun _ _ _ h => ⟨a + 4, number, h.weaken htv⟩
  obtain ⟨_, others, _, hstack, -⟩ := hsees
  simp only [Exec.perform, Exec.invokeYield, bind_apply, pop_of, Exec.popArgs_of,
    Exec.currentScope_of hstack, hv, henter]

/-- Without a block there is only the frame and the scope to be left. -/
theorem leads_invokeYield_none {args : Arguments} {b c d : UInt32}
    (hm : Stands setup cells a (((p.push (.args args)).push .null).push .null) w t m)
    (hsees : t.Sees setup.options.strategy p site.slots)
    (hcode : t.HasCode a (⟨.invokeYield, b, c, d⟩ :: rest))
    (h : ∀ m' number, Stands setup cells (a + 4) ((p.within p.ra []).enter number) w t m' →
      Leads setup .free floor n m' out final) : Leads setup .free floor n m out final := by
  obtain ⟨number, others, scope, hstack, -⟩ := hsees
  have hholds := hm.hasCode hcode
  obtain ⟨u, current, hu, hvalid, rfl⟩ := hm
  refine Leads.le (n := n + 1) ?_ le_self_add
  refine Leads.turn hholds (.stay (.absent rfl (Machine.callee?_yield hholds.next? rfl)))
    ⟨by simp, by simp, by simp⟩ (by simp)
    (?_ : Exec.perform _ _ _ _ = .ok ()
      (.of cells (a + 4) ((p.within p.ra []).enter number) w u (a, .invokeYield)))
    fun _ => h _ number ⟨u, _, hu, hvalid, rfl⟩
  rw [show (Machine.of cells a (((p.push (.args args)).push .null).push .null) w u current).fetched
    ⟨.invokeYield, b, c, d⟩ = .of cells (a + 4) (((p.push (.args args)).push .null).push .null) w u
      (a, .invokeYield) from rfl]
  simp only [Exec.perform, Exec.invokeYield, bind_apply, pop_of, Exec.popArgs_of,
    Exec.currentScope_of hstack]
  simp only [show Value.toHandle? .null = none from rfl, bind_apply, Exec.pushFrame_of]
  rfl

/-- The code of a yield behind its arguments. -/
theorem leads_yield (hserves : setup.Serves) {call : Call}
    (hsim : Simulates setup cells (floor + 1) n call) {symbol : UInt32} {args : Arguments}
    (hm : Stands setup cells a (p.push (.args args)) w t m) (hk : k.Within setup t)
    (hsees : t.Sees setup.options.strategy p site.slots)
    (hcurrent : t.IsCurrent p.registers.s0 site.current)
    (hcode : t.HasCode a (⟨.getBlock, symbol, 0, 0⟩ :: (k.resolve ++
      [⟨.invokeYield, 0, 0, 0⟩, ⟨.popScope, 0, 0, 0⟩, ⟨.popFrame, 0, 0, 0⟩])))
    (hfloor : floor ≤ p.stack.size) :
    Leads setup .free floor (n + 1) m
      ((match site.slots symbol with
        | .block body written =>
          call body (Slots.bindValues written body.table.parameters args.positional) site.current
        | _ => pure ()) w)
      fun _ w' m' => Stands setup cells (a + 4 * (k.resolve.length + 4)) p w' t m' := by
  have hrest := hcode.tail.append.2
  have hend : a + 4 * (k.resolve.length + 4) = a + 4 + 4 * k.resolve.length + 4 + 4 + 4 := by omega
  have hleave {m : Machine} {w : World} {ra number : Nat}
      (hm : Stands setup cells (a + 4 + 4 * k.resolve.length + 4)
        ((p.within ra []).enter number) w t
        m) :
      Leads setup .free floor n m (.ok () w) fun _ w' m' =>
        Stands setup cells (a + 4 * (k.resolve.length + 4)) p w' t m' :=
    leads_popScope hm hrest.tail fun _ hm => leads_popFrame hm hrest.tail.tail fun _ hm =>
      Leads.done (hm.at hend.symm)
  have hsees' : t.Sees setup.options.strategy (p.push (.args args)) site.slots := hsees
  have hnone (hslot : ∀ body written, site.slots symbol ≠ .block body written) :
      Leads setup .free floor (n + 1) m (.ok () w) fun _ w' m' =>
        Stands setup cells (a + 4 * (k.resolve.length + 4)) p w' t m' :=
    leads_getBlock_none hm hsees' hslot hcode fun _ hm => leads_resolve_null hm hcode.tail
      fun _ hm => leads_invokeYield_none hm hsees hrest fun _ _ hm => hleave hm
  cases hslot : site.slots symbol with
  | empty => exact hnone (by simp [hslot])
  | value r => exact hnone (by simp [hslot])
  | block body written =>
    refine leads_getBlock hm hsees' hslot hcode fun m u v hu hblock hm => ?_
    refine leads_resolve hserves hm (hk.mono hu) hblock (hcode.mono hu).tail
      (hsim.fails hm (by simp only [Pose.size_push]; omega)) ?_
    rintro m u' v' f handle hu' hv hm rfl - hcompiled
    have hut := Store.le_trans hu hu'
    refine (leads_invokeYield hsim hm hv hcompiled (hsees.mono hut) (hcurrent.mono hut) hslot
      (hrest.mono hut) hfloor).andThen ?_
    rintro - w' m ⟨ra, number, hm⟩
    exact hleave (hm.weaken hut)

end

end TemplateMachine
