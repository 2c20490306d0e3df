import Stepwise.Proofs.Code.BehindCalls
import Stepwise.Proofs.Machine.Calling

/-!
# What a waiting machine shows

A debugger shows the statement of the next instruction. While the answer of the host is outstanding,
the next instruction is the one behind the call.

**Shown while waiting** (`waiting_shows_call`): what is shown is the statement that the call belongs
to and its line, except where the call is the last instruction of a statement. Then the function
that is called yields nothing, and what is shown is what comes next: the statement behind it, or the
loop that it is the last statement of (`waiting_shows_next`).
-/

set_option autoImplicit false

namespace Stepwise

variable {σ : Type}

/-- No instruction behind this one belongs to the same statement. -/
def FunctionCode.EndsStatement (code : FunctionCode) (here : Nat) : Prop :=
  ∀ info, code.lineInfos[here]? = some info → ∀ later next, here < later →
    code.lineInfos[later]? = some next →
    next.index ≠ info.index

variable {module : Module σ} {p : CheckedProgram σ}

/-- The instructions of a function carry the numbers of its tree. -/
theorem getElem?_marks {r : Registry} {index : Nat} {d : FunctionDecl} {code : FunctionCode}
    (made : emitFunction r index d = .ok code) (pc : Nat) :
    d.marks[pc]? = (code.lineInfos[pc]?).map (·.index) := by
  rw [← emitFunction_numbered made, List.getElem?_map, Array.getElem?_toList]

/-- **Behind a call the same statement is shown**, unless the function that is called yields nothing
and the call ends its statement. -/
theorem lineInfo_behind_call (made : emitModule p.functions p.environment = .ok module)
    (typed : p.Typed) {index : Nat} {code : FunctionCode}
    (hcode : module.function? index = some code) {here : Nat} {callee : Callee}
    (hI : code.instructions[here]? = some callee.instruction) :
    ∃ info, code.lineInfos[here]? = some info ∧
      (code.lineInfos[here + 1]? = some info ∨ module.yields callee = false ∧
        code.EndsStatement here) := by
  obtain ⟨d, hd, hmade⟩ := emitModule_made made hcode
  have compiled := emitFunction_compiled hmade
  have hfit : ∀ {pc : Nat} {info : LineInfo}, code.lineInfos[pc]? = some info →
      info.Fits d.startLines :=
    fun hinfo => emitFunction_lined hmade _ (Array.mem_toList_iff.mpr (Array.mem_of_getElem? hinfo))
  rw [compiled.getElem?] at hI
  have hinside : here < d.marks.length := by
    rw [FunctionDecl.length_marks, ← d.length_code p.environment.registry]
    exact (List.getElem?_eq_some_iff.mp hI).1
  have hmark := List.getElem?_eq_getElem hinside
  obtain ⟨info, hinfo, hindex⟩ :=
    Option.map_eq_some_iff.mp ((getElem?_marks hmade here).symm.trans hmark)
  refine ⟨info, hinfo, ?_⟩
  rcases FunctionDecl.behind_call (typed.functions d (List.mem_of_getElem? hd)) hI hmark
    with hnext | ⟨hnothing, hlater⟩
  · left
    obtain ⟨next, hnext, hsame⟩ :=
      Option.map_eq_some_iff.mp ((getElem?_marks hmade (here + 1)).symm.trans hnext)
    have hline : some next.line = some info.line := by
      rw [← hfit hnext, ← hfit hinfo, hsame, hindex]
    rw [hnext, show next = info from ?_]
    cases next
    cases info
    cases hline
    cases hsame.trans hindex.symm
    rfl
  · right
    refine ⟨(emitModule_compiles made).yields_eq_false hnothing, ?_⟩
    intro info' hinfo' later next hlt hnext heq
    cases hinfo.symm.trans hinfo'
    refine hlater later hlt ?_
    rw [getElem?_marks hmade, hnext, Option.map_some, heq, hindex]

/-- **A waiting machine shows its call.** However a compiled program is driven, while an answer of
the host is outstanding, the next instruction is the one behind the call. The number and the line
shown are those of the call, unless the function of the host yields nothing and the call is the last
instruction of its statement. -/
theorem waiting_shows_call {source : String} {host : HostTable σ}
    (hcompile : compile source host = .ok module) (limit : Nat) (world : World σ)
    (events : List Event) {call : PendingCall}
    (hpending : ((Machine.start module limit world).handleAll events).pending = some call) :
    ∃ frame callers code here info,
      ((Machine.start module limit world).handleAll events).frames = frame :: callers ∧
      module.function? frame.function = some code ∧ frame.pc = here + 1 ∧
      code.instructions[here]? = some (.callHost call.function) ∧
      code.lineInfos[here]? = some info ∧
      (((Machine.start module limit world).handleAll events).lineInfo? = some info ∨
        module.yields (.host call.function) = false ∧ code.EndsStatement here ∧
          ((Machine.start module limit world).handleAll events).lineInfo? =
            code.lineInfos[here + 1]?) := by
  obtain ⟨p, hcheck, made⟩ := compile_eq_ok.mp hcompile
  obtain ⟨typed, -⟩ := checkSource_typed hcheck
  have hstart : (Machine.start module limit world).Waits := Machine.waits_restart _
  obtain ⟨frame, callers, -, -, hframes, -⟩ := hstart.handleAll events call hpending
  have hframe : ((Machine.start module limit world).handleAll events).frame? callers.length =
      some frame := by
    rw [Machine.frame?, hframes, getElem?_reverse_of_suffix (List.suffix_refl _)]
  have hcall : ((Machine.start module limit world).handleAll events).InCall callers.length
      (.host call.function) :=
    ⟨by rw [Machine.depth, hframes, List.length_cons], call, hpending, rfl⟩
  obtain ⟨hmodule, code, here, hcode, hpc, hI⟩ := hcall.behind_compiled hcompile events hframe
  obtain ⟨info, hinfo, hshown⟩ := lineInfo_behind_call made typed hcode hI
  have hnext : ((Machine.start module limit world).handleAll events).lineInfo? =
      code.lineInfos[here + 1]? := by
    simp only [Machine.lineInfo?, hframes, hmodule, List.head?_cons, Option.bind_eq_bind,
      Option.bind_some, hcode, hpc]
  refine ⟨frame, callers, code, here, info, hframes, hcode, hpc, hI, hinfo, ?_⟩
  rcases hshown with hsame | ⟨hnothing, hends⟩
  · exact .inl (hnext.trans hsame)
  · exact .inr ⟨hnothing, hends, hnext⟩

/-- A program that waits for the host at the end of the first block of an `if`. -/
def waitingBlockSource : String := "var a = true\nif a then\n  wait()\nend\na = false\n"

/-- The jump behind the block belongs to the call, so that the call is shown. -/
theorem waiting_shows_call_block : ∃ (module : Module Unit) (call : PendingCall),
    compile waitingBlockSource pausingHost = .ok module ∧
    let m := (Machine.start module 1000 (.initial ())).handleAll [.act (.run 100)]
    m.pending = some call ∧ m.lineInfo? = some ⟨2, 3⟩ ∧
      ∃ frame callers code here info, m.frames = frame :: callers ∧
        module.function? frame.function = some code ∧
        frame.pc = here + 1 ∧ code.instructions[here]? = some (.callHost call.function) ∧
        code.lineInfos[here]? = some info ∧ (m.lineInfo? = some info ∨
          module.yields (.host call.function) = false ∧ code.EndsStatement here ∧
            m.lineInfo? = code.lineInfos[here + 1]?) := by
  have heval : ((compile waitingBlockSource pausingHost).map fun module =>
      (((Machine.start module 1000 (.initial ())).handleAll [.act (.run 100)]).pending.isSome,
        ((Machine.start module 1000 (.initial ())).handleAll [.act (.run 100)]).lineInfo?)) =
      .ok (true, some ⟨2, 3⟩) := by decide +kernel
  obtain ⟨module, hmodule, heval⟩ := Diagnosed.map_eq_ok.mp heval
  simp only [Prod.mk.injEq, Option.isSome_iff_exists] at heval
  obtain ⟨⟨call, hpending⟩, hshown⟩ := heval
  exact ⟨module, call, hmodule, hpending, hshown, waiting_shows_call hmodule 1000 _ _ hpending⟩

/-- A program that waits for the host in a statement in front of another. -/
def waitingFirstSource : String := "wait()\nvar b = true\n"

/-- While the first statement waits, the second is shown. -/
theorem waiting_shows_next : ∃ (module : Module Unit) (frame : Frame) (code : FunctionCode),
    compile waitingFirstSource pausingHost = .ok module ∧
    let m := (Machine.start module 1000 (.initial ())).stepInto
    m.pending.isSome = true ∧ m.frames = [frame] ∧ module.function? frame.function = some code ∧
      code.instructions[frame.pc - 1]? = some (.callHost 0) ∧
      code.lineInfos[frame.pc - 1]? = some ⟨0, 1⟩ ∧
      m.lineInfo? = some ⟨1, 2⟩ := by
  have heval : ((compile waitingFirstSource pausingHost).map fun module =>
      ((Machine.start module 1000 (.initial ())).stepInto.pending.isSome,
        (Machine.start module 1000 (.initial ())).stepInto.frames.map fun f => (f.function, f.pc),
        (Machine.start module 1000 (.initial ())).stepInto.lineInfo?)) =
      .ok (true, [(0, 1)], some ⟨1, 2⟩) := by decide +kernel
  have hcode : ((compile waitingFirstSource pausingHost).map fun module =>
      (module.function? 0).map fun code : FunctionCode =>
      (code.instructions[0]?, code.lineInfos[0]?)) =
      .ok (some (some (.callHost 0), some ⟨0, 1⟩)) := by decide +kernel
  obtain ⟨module, hmodule, heval⟩ := Diagnosed.map_eq_ok.mp heval
  rw [hmodule, Except.map, Except.ok.injEq] at hcode
  simp only [Prod.mk.injEq, Option.map_eq_some_iff, List.map_eq_singleton_iff] at heval hcode
  obtain ⟨hpending, ⟨frame, hframes, hfunction, hpc⟩, hshown⟩ := heval
  obtain ⟨code, hcode, hcalls, hline⟩ := hcode
  refine ⟨module, frame, code, hmodule, hpending, hframes, hfunction ▸ hcode, ?_, ?_, hshown⟩
  · rwa [hpc]
  · rwa [hpc]

end Stepwise
