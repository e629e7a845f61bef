import TemplateMachine.Proofs.Shape.Silent

/-! The whole templates that code calls: those whose layout is known when the code is emitted, each
by its handle. -/

namespace TemplateMachine

/-! ### Invocations of whole templates -/

namespace Compilable

/-- The layout of a component, if it is known when the code is emitted. -/
def knownLayout (l : Lookup) (handle : UInt32) : List Fragment :=
  (if (l.capabilities handle).dynamicLayout then none else l.layout? handle).toList

/-- The layout of the component that the first parameter of a component form names. -/
def formTargets (l : Lookup) (referer : String) : Option (List Expression) → List Fragment
  | some (definition :: _) =>
    match literalComponent? l referer definition with
    | some handle => knownLayout l handle
    | none => []
  | _ => []

def partialTargets (l : Lookup) (referer : String) : Option (List Expression) → List Fragment
  | some [.value (.str name)] => ((partial? l referer name).map Prod.fst).toList
  | _ => []

def appendTargets (l : Lookup) (referer : String) (value : Expression) : List Fragment :=
  match inline? l referer value with
  | some (.component params _) => formTargets l referer params
  | some (.part params) => partialTargets l referer params
  | some (.named handle _ _) => knownLayout l handle
  | none => []

def blockTargets (l : Lookup) (referer name : String) (params : Option (List Expression)) :
    List Fragment :=
  if name = "if" then []
  else if name = "unless" then []
  else if name = "with" then []
  else if name = "each" then []
  else if name = "component" then formTargets l referer params
  else (l.component? name referer).toList.flatMap (knownLayout l)

mutual

/-- The layouts and partials that a statement itself invokes, known when its code is emitted.  Its
blocks, and the attributes of its invocations, are fragments of their own. -/
def targets (l : Lookup) (referer : String) : Statement → List Fragment
  | .append value _ => appendTargets l referer value
  | .block name params _ _ _ => blockTargets l referer name params
  | .component tag attrs _ _ =>
    match l.component? tag referer with
    | some handle => knownLayout l handle
    | none => allTargets l referer attrs
  | _ => []

def allTargets (l : Lookup) (referer : String) : List Statement → List Fragment
  | [] => []
  | s :: rest => targets l referer s ++ allTargets l referer rest

end

end Compilable

/-- The layouts and partials that a fragment invokes, known when its code is emitted. -/
def Fragment.targets (f : Fragment) (lookup : Lookup) : List Fragment :=
  Compilable.allTargets lookup f.layout.referer f.statements

/-! ### Code and invocations -/

/-- Each call in the code names the handle of one of the fragments, in order. -/
structure Linkage.Calls (l : Linkage) (fs : List Fragment) (code : List Instruction) : Prop where
  begins : Begins code
  names : l.program.constants.calls code = fs.map fun f => l.program.linked? f.id
  linked : ∀ f ∈ fs, (l.program.linked? f.id).isSome

section

variable {l : Linkage} {fs gs : List Fragment} {first second code : List Instruction}

theorem Silent.calls (h : Silent code) : l.Calls [] code :=
  ⟨h.begins, Constants.calls_of_silent h, nofun⟩

theorem Linkage.Calls.append (hfirst : l.Calls fs first) (hsecond : l.Calls gs second) :
    l.Calls (fs ++ gs) (first ++ second) where
  begins := hfirst.begins.append hsecond.begins
  names := by
    rw [Constants.calls_append hsecond.begins, hfirst.names, hsecond.names, List.map_append]
  linked f hf := (List.mem_append.mp hf).elim (hfirst.linked f) (hsecond.linked f)

/-- Silent code around calls. -/
theorem Linkage.Calls.between (h : l.Calls fs code)
    (hfirst : Silent first) (hsecond : Silent second) :
    l.Calls fs (first ++ code ++ second) := by
  simpa using (hfirst.calls.append h).append hsecond.calls

end

namespace Coding

variable {k : Coding} {l : Linkage} {code : List Instruction}

/-! ### Calls -/

theorem calls_staticCall (heager : k.strategy = .eager) (hl : k.linkage ≤ l) {f : Fragment}
    (h : k.staticCall f code) : l.Calls [f] code := by
  unfold Coding.staticCall at h
  rw [heager] at h
  obtain ⟨handle, -, hlinked, rfl⟩ := h
  have hlinked := Linkage.Grows.linked hl hlinked
  refine ⟨begins_cons nofun, ?_, fun g hg => ?_⟩
  · rw [List.map_singleton, hlinked]
    rfl
  · rw [List.mem_singleton.mp hg, hlinked, Option.isSome_some]

/-- The call of a layout names the layout that is known. -/
theorem calls_layoutCode (heager : k.strategy = .eager) (hl : k.linkage ≤ l)
    {layout : Option Fragment} (h : k.layoutCode layout code) :
    l.Calls layout.toList (code ++ [⟨.invokeComponentLayout, Emit.current, 0, 0⟩]) := by
  cases layout with
  | none =>
    obtain rfl : code = [⟨.getComponentLayout, Emit.current, 0, 0⟩] := h
    exact ⟨begins_cons nofun, rfl, nofun⟩
  | some f =>
    obtain ⟨table, push, htable, hpush, rfl⟩ := h
    unfold Coding.block at hpush
    simp only [heager] at hpush
    obtain ⟨handle, -, hlinked, w, hw, rfl⟩ := hpush
    have hlinked := Linkage.Grows.linked hl hlinked
    have hdecode := Primitive.decode?_mono (Linkage.Grows.constants hl) hw
    have hresolve : k.resolve = [] := by
      unfold Coding.resolve
      rw [heager]
    have hcall : l.Calls [f]
        [⟨.primitive, w, 0, 0⟩, ⟨.invokeComponentLayout, Emit.current, 0, 0⟩] := by
      refine ⟨begins_cons nofun, ?_, fun g hg => ?_⟩
      · have hhandle : l.program.constants.handle? w = some handle := by
          rw [Constants.handle?, hdecode]
          exact Binary64.toWord?_ofNat handle
        rw [List.map_singleton, hlinked, ← hhandle]
        rfl
      · rw [List.mem_singleton.mp hg, hlinked, Option.isSome_some]
    rw [hresolve, List.append_nil, List.append_assoc]
    exact (silent_symbolTable htable).calls.append hcall

theorem calls_genericComponent (heager : k.strategy = .eager) (hl : k.linkage ≤ l) {i : Invocation}
    {layout : Option Fragment} (h : k.genericComponent i layout code) :
    l.Calls layout.toList code := by
  obtain ⟨passed, found, hpassed, hfound, rfl⟩ := h
  have hbefore : Silent (enterComponent ++ passed ++ ⟨.prepareArgs, Emit.current, 0, 0⟩ ::
      createComponent i ++ registerComponent) := by
    simp [silent_enterComponent, silent_passes hpassed, silent_createComponent,
      silent_registerComponent]
  have hcalls := (calls_layoutCode heager hl hfound).between hbefore silent_leaveComponent
  simpa only [List.append_assoc, List.cons_append, List.nil_append] using hcalls

theorem calls_boundComponent (heager : k.strategy = .eager) (hl : k.linkage ≤ l) {createArgs : Bool}
    {layout : Fragment} {table : ProgramTable} {i : Invocation}
    (h : k.boundComponent createArgs layout table i code) : l.Calls [layout] code := by
  obtain ⟨created, pushed, binders, called, hcreated, hpushed, hcalled, rfl⟩ := h
  obtain ⟨hpushed, hbinders⟩ := silent_symbolsCode (by simp [bindSymbols]) hpushed
  have hbefore : Silent (enterComponent ++ created ++ registerComponent ++ pushed ++
      ⟨.rootScope, UInt32.ofNat table.symbols.length + 1, i.hasBlocks.toUInt32, 0⟩ ::
      bindSymbols binders ++ [⟨.pushFrame, 0, 0, 0⟩]) := by
    simp [silent_enterComponent, silent_creates hcreated, silent_registerComponent,
      hpushed, hbinders]
  have hcalls := (calls_staticCall heager hl hcalled).between hbefore silent_leaveComponent
  simpa only [List.append_assoc, List.cons_append, List.nil_append] using hcalls

theorem calls_component (heager : k.strategy = .eager) (hl : k.linkage ≤ l) {handle : UInt32}
    {i : Invocation} (h : k.component handle i code) :
    l.Calls (Compilable.knownLayout k.lookup handle) code := by
  obtain ⟨push, invoke, hpush, hinvoke, rfl⟩ := h
  have hinvoke : l.Calls (Compilable.knownLayout k.lookup handle) invoke := by
    unfold Compilable.knownLayout
    generalize (if (k.lookup.capabilities handle).dynamicLayout then none
      else k.lookup.layout? handle) = layout at hinvoke ⊢
    cases layout with
    | none => exact calls_genericComponent heager hl hinvoke
    | some layout =>
      obtain ⟨table, -, hcode⟩ := hinvoke
      split at hcode
      · exact calls_genericComponent heager hl hcode
      · exact calls_boundComponent heager hl hcode
  exact hinvoke.between (silent_onHandle rfl hpush) (by simp)

/-- Code in a frame. -/
theorem calls_frame {fs : List Fragment} (h : l.Calls fs code) : l.Calls fs (frame code) := by
  have hbefore : Silent [⟨.pushFrame, 0, 0, 0⟩, .skip .returnTo code] := by simp
  have hafter : Silent [⟨.popFrame, 0, 0, 0⟩] := by simp
  simpa only [frame, List.cons_append, List.nil_append] using h.between hbefore hafter

/-- A component that is found at run time has no layout that is known. -/
theorem calls_guardedAppend (heager : k.strategy = .eager) (hl : k.linkage ≤ l) {value : Expression}
    {trusting : Bool} (h : k.guardedAppend value trusting code) : l.Calls [] code := by
  obtain ⟨push, find, invoke, hpush, hfind, hinvoke, rfl⟩ := h
  have hinvoke : l.Calls [] invoke := calls_genericComponent heager hl hinvoke
  have hbefore : Silent (push ++ [⟨.dup, Register.sp.number, 0, 0⟩, ⟨.isComponent, 0, 0, 0⟩,
      ⟨.enter, 2, 0, 0⟩, .skip .jumpUnless (find ++ invoke ++ exitFrame)] ++ find) := by
    simp [silent_expression value hpush, silent_onReferer rfl hfind]
  have hafter : Silent (exitFrame ++ ⟨.dynamicContent, trusting.toUInt32, 0, 0⟩ :: exitFrame) := by
    simp [silent_exitFrame]
  refine calls_frame ?_
  simpa only [List.append_assoc, List.cons_append, List.nil_append] using
    hinvoke.between hbefore hafter

theorem calls_dynamicComponent (heager : k.strategy = .eager) (hl : k.linkage ≤ l)
    {definition : Expression} {i : Invocation} (h : k.dynamicComponent definition i code) :
    l.Calls [] code := by
  obtain ⟨push, find, invoke, hpush, hfind, hinvoke, rfl⟩ := h
  have hinvoke : l.Calls [] invoke := calls_genericComponent heager hl hinvoke
  have hbefore : Silent (push ++ [⟨.dup, Register.sp.number, 0, 0⟩, ⟨.enter, 2, 0, 0⟩,
      .skip .jumpUnless (find ++ invoke)] ++ find) := by
    simp [silent_expression definition hpush, silent_onReferer rfl hfind]
  refine calls_frame ?_
  simpa only [List.append_assoc, List.cons_append, List.nil_append] using
    hinvoke.between hbefore silent_exitFrame

theorem calls_componentForm (heager : k.strategy = .eager) (hl : k.linkage ≤ l)
    {params : Option (List Expression)} {invocation : List Expression → Invocation}
    (h : k.componentForm params invocation code) :
    l.Calls (Compilable.formTargets k.lookup k.referer params) code := by
  rcases params with _ | _ | ⟨definition, rest⟩
  · exact h.elim
  · exact h.elim
  · unfold Coding.componentForm at h
    unfold Compilable.formTargets
    dsimp only at h ⊢
    generalize Compilable.literalComponent? k.lookup k.referer definition = found at h ⊢
    cases found with
    | some handle => exact calls_component heager hl h
    | none => exact calls_dynamicComponent heager hl h

theorem calls_partialForm (heager : k.strategy = .eager) (hl : k.linkage ≤ l)
    {params : Option (List Expression)} (h : k.partialForm params code) :
    l.Calls (Compilable.partialTargets k.lookup k.referer params) code := by
  unfold Coding.partialForm at h
  split at h
  · obtain ⟨f, table, call, hpart, hcall, rfl⟩ := h
    unfold Compilable.partialTargets
    simp only [hpart]
    exact (calls_staticCall heager hl hcall).between (by simp)
      (by simp)
  · exact h.elim

theorem calls_append (heager : k.strategy = .eager) (hl : k.linkage ≤ l) {value : Expression}
    {trusted : Bool} (h : k.append value trusted code) :
    l.Calls (Compilable.appendTargets k.lookup k.referer value) code := by
  unfold Coding.append at h
  unfold Compilable.appendTargets
  generalize Compilable.inline? k.lookup k.referer value = found at h ⊢
  rcases found with _ | ⟨params, hash⟩ | params | ⟨handle, params, hash⟩
  · dsimp only at h ⊢
    split at h
    · exact calls_guardedAppend heager hl h
    · obtain ⟨push, hpush, rfl⟩ := h
      exact Silent.calls (by simp [silent_expression value hpush])
  · exact calls_componentForm heager hl h
  · exact calls_partialForm heager hl h
  · exact calls_component heager hl h

/-! ### Statements -/

theorem calls_blockCall (heager : k.strategy = .eager) (hl : k.linkage ≤ l) {call : BlockCall}
    (h : k.blockCall call code) :
    l.Calls (Compilable.blockTargets k.lookup k.referer call.name call.params) code := by
  unfold Coding.blockCall at h
  unfold Compilable.blockTargets
  split at h
  · rw [if_pos ‹_›]
    exact (silent_single (fun _ _ => silent_conditional rfl) h).calls
  rw [if_neg ‹_›]
  split at h
  · rw [if_pos ‹_›]
    exact (silent_single (fun _ _ => silent_conditional rfl) h).calls
  rw [if_neg ‹_›]
  split at h
  · rw [if_pos ‹_›]
    exact (silent_single (fun _ _ => silent_withBlock) h).calls
  rw [if_neg ‹_›]
  split at h
  · rw [if_pos ‹_›]
    exact (silent_single (fun _ _ => silent_eachBlock) h).calls
  rw [if_neg ‹_›]
  split at h
  · rw [if_pos ‹_›]
    exact calls_componentForm heager hl h
  · rw [if_neg ‹_›]
    obtain ⟨handle, hhandle, hcomponent⟩ := h
    rw [hhandle]
    simpa using calls_component heager hl hcomponent

mutual

/-- The calls in the code of a statement are those of the layouts and partials that it invokes. -/
theorem calls_statement (heager : k.strategy = .eager) (hl : k.linkage ≤ l) (mode : AttrMode)
    (s : Statement) {code : List Instruction} (h : k.statement mode s code) :
    l.Calls (Compilable.targets k.lookup k.referer s) code := by
  cases s with
  | text s => exact (silent_onString rfl h).calls
  | comment s => exact (silent_onString rfl h).calls
  | append value trusted => exact calls_append heager hl h
  | openElement tag => exact (silent_onString rfl h).calls
  | flushElement =>
    obtain rfl : code = [⟨.flushElement, 0, 0, 0⟩] := h
    exact Silent.calls (by simp)
  | closeElement =>
    obtain rfl : code = [⟨.closeElement, 0, 0, 0⟩] := h
    exact Silent.calls (by simp)
  | staticAttr name value space => exact (silent_staticAttr h).calls
  | dynamicAttr name value space trusting => exact (silent_dynamicAttr h).calls
  | modifier name params hash =>
    obtain ⟨handle, given, call, -, hgiven, hcall, rfl⟩ := h
    exact Silent.calls (by simp [silent_args hgiven, silent_onHandle rfl hcall])
  | block name params hash template inverse =>
    obtain ⟨main, other, -, -, hcall⟩ := h
    exact calls_blockCall heager hl hcall
  | component tag attrs hash body =>
    obtain ⟨block, -, hform⟩ := h
    unfold Compilable.targets
    cases hcomponent : k.lookup.component? tag k.referer with
    | some handle =>
      rw [hcomponent] at hform
      obtain ⟨passed, -, hinvoke⟩ := hform
      exact calls_component heager hl hinvoke
    | none =>
      rw [hcomponent] at hform
      obtain ⟨opening, inner, content, hopening, hinner, hcontent, rfl⟩ := hform
      have hafter : Silent (⟨.flushElement, 0, 0, 0⟩ :: content ++
          [(⟨.closeElement, 0, 0, 0⟩ : Instruction)]) := by
        simp [silent_optionalCall hcontent]
      have hcalls := (calls_statements heager hl .element attrs hinner).between
        (silent_onString rfl hopening) hafter
      simpa only [List.append_assoc, List.cons_append, List.nil_append] using hcalls
  | yield slot params => exact (silent_yield h).calls
  | attrSplat slot =>
    obtain ⟨called, hcalled, rfl⟩ := h
    exact Silent.calls (by simp [silent_yield hcalled])
termination_by structural s

theorem calls_statements (heager : k.strategy = .eager) (hl : k.linkage ≤ l) (mode : AttrMode)
    (ss : List Statement) {code : List Instruction} (h : k.statements mode ss code) :
    l.Calls (Compilable.allTargets k.lookup k.referer ss) code := by
  cases ss with
  | nil =>
    obtain rfl : code = [] := h
    exact silent_nil.calls
  | cons s rest =>
    obtain ⟨first, more, hfirst, hmore, rfl⟩ := h
    exact (calls_statement heager hl mode s hfirst).append
      (calls_statements heager hl mode rest hmore)
termination_by structural ss

end

end Coding

/-- The calls in the code of a fragment are those of the layouts and partials that it invokes. -/
theorem Fragment.HasCode.calls {f : Fragment} {lookup : Lookup} {l m : Linkage}
    {code : List Instruction} (h : f.HasCode lookup .eager l code) (hm : l ≤ m) :
    m.Calls (f.targets lookup) code :=
  Coding.calls_statements rfl hm f.attrMode f.statements h

end TemplateMachine
