import TemplateMachine.Machine.Registry
import TemplateMachine.Machine.Render
import TemplateMachine.Proofs.Run.Frame
import TemplateMachine.Proofs.Run.Quiet
import TemplateMachine.Proofs.Verify.Fill

/-! Verification of programs that are reached.  What is known of a laid block is what the verifier
asks of it.  A program comes about by compiling fragments and by rendering blocks, which compiles
whatever is linked at run time.  As long as nothing fails to compile the verifier accepts it. -/

namespace TemplateMachine

/-! ### Laid code -/

namespace Program

variable {p : Program}

/-- A program whose handles are all finished supplies what the verifier looks for. -/
theorem Supplies.missingOperand? {i : Instruction} (h : p.Supplies i)
    (hfinished : ∀ handle : UInt32, handle.toNat < p.heap.blocks.size →
      (p.heap.block? handle).isSome) :
    p.missingOperand? i = none := by
  by_cases hop : i.op = .invokeStatic
  · obtain ⟨o, x, y, z⟩ := i
    obtain rfl : o = .invokeStatic := hop
    exact if_pos (hfinished x (h.block rfl))
  · exact (Constants.supplies_iff hop).mp h.constants

/-- A jump that leads ahead within its block leads to an instruction of the block. -/
theorem checkTarget_ok {b : Block} {i : Instruction} {k length : Nat} (h : i.LeadsAhead k length)
    (hsize : b.size.toNat = 4 * (length + 1)) (hbound : 4 * (length + 1) < 0x80000000) :
    checkTarget b (b.offset.toNat + 4 * k) i = .ok () := by
  obtain ⟨n, hpos, hlength, ha⟩ := h
  have hoffset : relativeOffset i.a = 4 * (n : Int) := by
    rw [ha]
    exact relativeOffset_distance (by omega)
  unfold checkTarget
  simp only [hoffset, hsize, instructionWidth]
  rw [if_neg (by omega), if_neg (by omega), if_neg (by omega)]

/-- Every instruction of supplied code whose jumps lead ahead is accepted. -/
theorem checkInstructions_ok {b : Block} {code : List Instruction} (start : Nat) {length : Nat}
    (hsize : b.size.toNat = 4 * (length + 1)) (hbound : 4 * (length + 1) < 0x80000000)
    (hholds : p.heap.Holds (b.offset.toNat + 4 * start) code)
    (hoperands : ∀ i ∈ code, p.missingOperand? i = none)
    (hjumps : ∀ (k : Nat) (i : Instruction), code[k]? = some i → i.op.isJump = true →
      i.LeadsAhead (start + k) length) (last : Option Opcode) :
    p.checkInstructions true b (b.offset.toNat + 4 * start) last code.length =
      .ok ((code.getLast?.map Instruction.op).or last) := by
  induction code generalizing start last with
  | nil => rfl
  | cons i rest ih =>
    obtain ⟨hnumber, ha, hb, hc, hrest⟩ := hholds
    obtain ⟨hoperand, hoperands⟩ := List.forall_mem_cons.mp hoperands
    have hword {n : Nat} {w : UInt32} (h : p.heap.word? (b.offset.toNat + 4 * start + n) = some w) :
        p.heap.words.getD (b.offset.toNat + 4 * start + n) 0 = w := by
      rw [Array.getD_eq_getD_getElem?, show p.heap.words[_]? = some w from h, Option.getD_some]
    have htarget : i.op.isJump = true → checkTarget b (b.offset.toNat + 4 * start) i = .ok () :=
      fun hop => checkTarget_ok (hjumps 0 i rfl hop) hsize hbound
    have hcheck : p.checkInstruction true b (b.offset.toNat + 4 * start) = .ok i.op := by
      unfold checkInstruction
      simp only [hword (n := 0) hnumber, hword ha, hword hb, hword hc, Opcode.ofNumber?_number]
      cases hop : i.op.isJump with
      | true => simp only [htarget hop, if_true, hoperand]; rfl
      | false => simp only [hoperand]; rfl
    have hnext : b.offset.toNat + 4 * start + instructionWidth = b.offset.toNat + 4 *
        (start + 1) := by
      rw [instructionWidth]
      omega
    rw [List.length_cons, checkInstructions, hcheck]
    show checkInstructions p true b _ (some i.op) rest.length = _
    rw [hnext, ih (start + 1) (by rw [← hnext]; exact hrest) hoperands (fun k j hj hop => ?_)]
    · cases rest with
      | nil => rfl
      | cons j rest =>
        rw [List.getLast?_cons_cons, List.getLast?_eq_some_getLast (List.cons_ne_nil j rest)]
        rfl
    · have := hjumps (k + 1) j hj hop
      rwa [Nat.add_assoc, Nat.add_comm 1]

/-- A finished block of laid code is accepted. -/
theorem Lays.verify {handle : UInt32} {b : Block} (hb : p.heap.block? handle = some b)
    (h : p.Lays b) (hbounded : p.Bounded)
    (hfinished : ∀ handle : UInt32, handle.toNat < p.heap.blocks.size →
      (p.heap.block? handle).isSome) :
    ∃ n, p.verify true handle = .ok n := by
  obtain ⟨code, hholds, hsize, hsupplied, hjumps⟩ := h
  have hend : b.offset.toNat + 4 * (code ++ [(⟨.ret, 0, 0, 0⟩ : Instruction)]).length ≤
      p.heap.words.size := hholds.le_size (by simp)
  have hlength : (code ++ [(⟨.ret, 0, 0, 0⟩ : Instruction)]).length = code.length + 1 := by simp
  have hwords := hbounded.words
  rw [hlength] at hend
  have hcode := checkInstructions_ok 0 hsize (by omega) hholds
    (fun i hi => ?_) (fun k i hi hop => ?_) none
  · rw [hlength] at hcode
    have hcount : b.size.toNat / instructionWidth = code.length + 1 := by
      rw [hsize, instructionWidth]
      omega
    have hwhole : ¬(b.size.toNat = 0 ∨ b.size.toNat % instructionWidth ≠ 0 ∨
        p.heap.words.size < b.offset.toNat + b.size.toNat) := by
      rw [hsize, instructionWidth]
      omega
    refine ⟨code.length + 1, ?_⟩
    unfold Program.verify
    simp only [hb, hcount]
    rw [if_neg hwhole]
    show (p.checkInstructions true b (b.offset.toNat + 4 * 0) none (code.length + 1) >>= _) = _
    rw [hcode]
    simp
    rfl
  · rcases List.mem_append.mp hi with hi | hi
    · exact (hsupplied i hi).missingOperand? hfinished
    · rw [List.mem_singleton.mp hi]
      rfl
  · rw [Nat.zero_add]
    by_cases hk : k < code.length
    · rw [List.getElem?_append_left hk] at hi
      exact hjumps k i hi hop
    · rw [List.getElem?_append_right (by omega)] at hi
      have hmem := List.mem_of_getElem? hi
      rw [List.mem_singleton.mp hmem] at hop
      cases hop

/-- The verifier accepts a complete program. -/
theorem Complete.verifyAll (h : p.Complete) (hwords : p.heap.words.size < 0x80000000) :
    ∃ n, p.verifyAll true = .ok n := by
  have hbounded : p.Bounded := by
    refine ⟨hwords, ?_⟩
    have := h.words
    rw [UInt32.size]
    omega
  obtain ⟨hblocks, -⟩ := h.filled hbounded
  have hfinished (handle : UInt32) (hlt : handle.toNat < p.heap.blocks.size) :
      (p.heap.block? handle).isSome := by
    obtain ⟨hdone, -⟩ := (hblocks handle.toNat _ (Array.getElem?_eq_getElem hlt)).resolve_left nofun
    rw [Heap.block?, Array.getElem?_eq_getElem hlt, Option.filter_some, if_pos hdone]
    rfl
  have hlist (handles : List UInt32) (hall : ∀ handle ∈ handles, (p.heap.block? handle).isSome) :
      ∃ n, p.verifyList true handles = .ok n := by
    induction handles with
    | nil => exact ⟨0, rfl⟩
    | cons handle rest ih =>
      obtain ⟨hhandle, hrest⟩ := List.forall_mem_cons.mp hall
      obtain ⟨b, hb⟩ := Option.isSome_iff_exists.mp hhandle
      obtain ⟨hget, -⟩ := Option.filter_eq_some_iff.mp hb
      obtain ⟨-, hlays⟩ := (hblocks handle.toNat b hget).resolve_left nofun
      obtain ⟨m, hm⟩ := hlays.verify hb hbounded hfinished
      obtain ⟨n, hn⟩ := ih hrest
      exact ⟨m + n, by rw [verifyList, hm, hn]; rfl⟩
  exact hlist _ fun handle hhandle => (List.mem_filter.mp hhandle).2

end Program

/-! ### Reachable programs -/

namespace Exec

/-- Of the instructions that are about the life of instances none has to do with the program. -/
theorem lasting_create (flags word : UInt32) : (create flags word).Lasting := by
  refine .bind (quiet_componentNumber word : Exec.IsQuiet true true _).lasts fun number =>
    .bind (quiet_componentState number : Exec.IsQuiet true true _).lasts fun c =>
      .bind_get (fun _ _ => rfl) fun m => .bind (.modify (fun _ => rfl) fun _ _ => rfl) fun _ =>
        .bind_get (fun _ _ => rfl) fun m' => ?_
  split
  · exact .modify (fun _ => rfl) fun _ _ => rfl
  · exact .fail _

theorem lasting_registerDestructor (d : Destructor) : (registerDestructor d).Lasting := by
  refine .bind_get (fun _ _ => rfl) fun m => ?_
  split
  · exact .modify (fun _ => rfl) fun _ _ => rfl
  · exact .fail _

theorem lasting_registerComponentDestructor (word : UInt32) :
    (registerComponentDestructor word).Lasting := by
  refine .bind (quiet_component word : Exec.IsQuiet true true _).lasts fun c => ?_
  split
  · refine .bind (.modify (fun _ => rfl) fun _ _ => rfl) fun _ =>
      .bind_get (fun _ _ => rfl) fun m => ?_
    split
    · exact lasting_registerDestructor _
    · exact .pure _
  · exact .pure _

theorem lasting_commitTransaction : commitTransaction.Lasting := by
  refine .bind_get (fun _ _ => rfl) fun m => ?_
  split
  · exact .modify (fun _ => rfl) fun _ _ => rfl
  · exact .fail _

theorem lasting_layoutRendered (word : UInt32) : (layoutRendered word).Lasting :=
  .bind (quiet_component word : Exec.IsQuiet true true _).lasts fun _ =>
    .bind (.orFail _ _) fun _ =>
    .modify (fun _ => rfl) fun _ _ => rfl

/-- No instruction changes the program but by linking. -/
theorem lasting_perform (start : Nat) (i : Instruction) : (perform start i).Lasting := by
  cases hquiet : i.op.isQuiet false false with
  | true => exact (quiet_perform start hquiet).lasts
  | false =>
    obtain ⟨op, a, b, c⟩ := i
    cases op with
    | beginComponentTransaction => exact .modify (fun _ => rfl) fun _ _ => rfl
    | createComponent => exact lasting_create a b
    | registerComponentDestructor => exact lasting_registerComponentDestructor a
    | didRenderLayout => exact lasting_layoutRendered a
    | commitComponentTransaction => exact lasting_commitTransaction
    | _ => cases hquiet

theorem lasting_word (address : Nat) : (word address).Lasting :=
  .find (fun _ _ w hq => hq.grows.words address w)

theorem lasting_instruction (address : Nat) : (instruction address).Lasting :=
  .bind (lasting_word _) fun _ => .bind (.orFail _ _) fun _ => .bind (lasting_word _) fun _ =>
    .bind (lasting_word _) fun _ => .bind (lasting_word _) fun _ => .pure _

theorem lasting_checkStack : checkStack.Lasting := by
  refine .bind_get (fun _ _ => rfl) fun m => .bind .read fun setup => ?_
  simp only
  split
  · exact .fail _
  · exact .pure _

theorem lasting_step : step.Lasting := by
  refine .bind_get (fun _ _ => rfl) fun m => .bind (lasting_instruction _) fun i =>
    .bind (.modify (fun _ => rfl) fun _ _ => rfl) fun _ => .bind (lasting_perform _ i) fun _ =>
      .bind_get (fun _ _ => rfl) fun m' => ?_
  split
  · exact .pure _
  · exact .bind lasting_checkStack fun _ => .pure _

/-- A run changes the program only by linking, from instruction to instruction. -/
theorem lasting_run (fuel : Nat) : (run fuel).Lasting := by
  induction fuel with
  | zero => exact .outOfFuel
  | succ fuel ih =>
    refine .bind lasting_step fun continues => ?_
    split
    · exact ih
    · exact .pure _

end Exec

/-- Nothing failed to compile in a render, and it was not cut off. -/
def Render.isLinked (r : Render) : Bool :=
  match r.result with
  | .ok _ => true
  | .error e => !e.isUnlinked

theorem Setup.links_renderWithin (setup : Setup) (fuel : Nat) (p : Program) (entry : UInt32)
    (self : Json) (h : (setup.renderWithin fuel p entry self).isLinked = true) :
    setup.options.Links p (setup.renderWithin fuel p entry self).program := by
  unfold renderWithin at h ⊢
  cases hb : p.heap.block? entry with
  | none => exact .refl p
  | some b =>
    rw [hb] at h
    have hrun := (Exec.lasting_run fuel).links setup
      (.start p b.offset.toNat b.scopeSize.toNat self)
    revert h hrun
    simp only
    cases Exec.run fuel setup (.start p b.offset.toNat b.scopeSize.toNat self) with
    | ok _ m => exact fun _ hrun => hrun
    | error e m =>
      intro h hrun
      refine hrun.resolve_right ?_
      rintro ⟨he, -⟩
      simp [Render.isLinked, he] at h

/-- `Setup.renderWithin`, by computation. -/
def Setup.renderWhole (setup : Setup) (fuel : Nat) (program : Program) (entry : UInt32)
    (self : Json) : Render :=
  match program.heap.block? entry with
  | none => ⟨.error (.fault (.invalidHandle entry)), program, []⟩
  | some block =>
    match Exec.runWhole fuel setup
      (.start program block.offset.toNat block.scopeSize.toNat self) with
    | .ok _ m => ⟨.ok ⟨m.sink.output, m.destructors⟩, m.program, m.events.toList⟩
    | .error e m => ⟨.error e, m.program, m.events.toList ++ m.unwind⟩

theorem Setup.renderWithin_eq_renderWhole : Setup.renderWithin = Setup.renderWhole := by
  funext setup fuel program entry self
  unfold renderWithin renderWhole
  exact Exec.run_eq_runWhole ▸ rfl

namespace Program

/-- Programs that compiling fragments and rendering blocks lead to, with any options and any host,
as long as nothing fails to compile. -/
inductive Reachable : Program → Prop
  | new : Reachable {}
  | compile {p q : Program} {handle : UInt32} (options : CompileOptions) (f : Fragment) :
      Reachable p → options.compile f p = .ok handle q → Reachable q
  | render {p : Program} (setup : Setup) (fuel : Nat) (entry : UInt32) (self : Json) :
      Reachable p → (setup.renderWithin fuel p entry self).isLinked = true →
      Reachable (setup.renderWithin fuel p entry self).program

theorem Complete.links {options : CompileOptions} {p q : Program} (h : p.Complete)
    (hlinks : options.Links p q) : q.Complete := by
  induction hlinks with
  | refl => exact h
  | link _ hcompile ih => exact ih.compile hcompile

theorem Reachable.complete {p : Program} (h : p.Reachable) : p.Complete := by
  induction h with
  | new => exact complete_new
  | compile options f _ hcompile ih => exact ih.compile hcompile
  | render setup fuel entry self _ hlinked ih =>
    exact ih.links (setup.links_renderWithin fuel _ entry self hlinked)

/-- The verifier accepts every reachable program. -/
theorem Reachable.verifies {p : Program} (h : p.Reachable)
    (hwords : p.heap.words.size < 0x80000000) :
    ∃ n, p.verifyAll true = .ok n :=
  h.complete.verifyAll hwords

/-- A template that greets those whose name it is given. -/
def greeting : Fragment :=
  .ofLayout .entry
    ⟨{ statements := [.block "if" (some [.get 0 ["name"]]) none (some 0) none]
       symbols := []
       hasEval := false
       blocks := [⟨[.text "hello ", .append (.get 0 ["name"]) false], []⟩] },
     "main"⟩

def greetingSetup : Setup :=
  let registry : Registry := {}
  ⟨registry.options .lazy, registry.host, 100⟩

/-- The greeting is compiled, and rendered so that its block is linked at run time. -/
theorem greeting_verifies :
    let setup := greetingSetup
    let compiled := stateAfter (setup.options.compile greeting {})
    let rendered := setup.renderWithin 100 compiled 0 (.obj [("name", .str "Ada")])
    rendered.isLinked = true ∧ compiled.heap.blocks.size < rendered.program.heap.blocks.size ∧
      rendered.program.heap.words.size < 0x80000000 ∧
      ∃ n, rendered.program.verifyAll true = .ok n := by
  have hcomputed :
      let compiled := stateAfter (greetingSetup.options.compile greeting {})
      let rendered := greetingSetup.renderWithin 100 compiled 0 (.obj [("name", .str "Ada")])
      hasResult (greetingSetup.options.compile greeting {}) = true ∧ rendered.isLinked = true ∧
        compiled.heap.blocks.size < rendered.program.heap.blocks.size ∧
        rendered.program.heap.words.size < 0x80000000 := by
    rw [Setup.renderWithin_eq_renderWhole, CompileOptions.compile_eq_compileWhole]
    decide +kernel
  dsimp only at hcomputed ⊢
  obtain ⟨hresult, hlinked, hblocks, hwords⟩ := hcomputed
  obtain ⟨handle, hcompile⟩ := eq_ok_of_hasResult hresult
  have hreachable := Reachable.render greetingSetup 100 0 _ (.compile _ _ .new hcompile) hlinked
  exact ⟨hlinked, hblocks, hwords, hreachable.verifies hwords⟩

end Program

end TemplateMachine
