import Stepwise.Proofs.Code.Numbering
import Stepwise.Proofs.Machine.Framing

/-!
# How activations move

An instruction lets the uppermost activation end, or go on where its code leads, perhaps under a new
activation (`Machine.step_moves`). This holds of any code.

Compiled code is closed: its functions are known by their numbers, it never leads out of a function,
and every instruction belongs to a statement (`emitModule_closed`). So wherever a machine on such
code comes, each of its activations is at an instruction (`Moves.locates`), whatever functions its
host has.
-/

set_option autoImplicit false

namespace Stepwise

variable {σ : Type}

/-! ## How activations move -/

/-- What an instruction does to the activations, the uppermost first. -/
inductive Machine.Moves (module : Module σ) : List Frame → List Frame → Prop
  | leaves {frame : Frame} {callers : List Frame} : Moves module (frame :: callers) callers
  | goes {frame : Frame} {callers : List Frame} {code : FunctionCode} {I : Instruction}
      {target : Nat}
      {slots : List Value} :
      module.function? frame.function = some code → code.instructions[frame.pc]? = some I →
      I.Leads frame.pc target →
      Moves module (frame :: callers) (⟨frame.function, target, slots, frame.base⟩ :: callers)
  | enters {frame entered : Frame} {callers : List Frame} {code callee : FunctionCode}
      {I : Instruction}
      {target index : Nat} {slots : List Value} :
      module.function? frame.function = some code → code.instructions[frame.pc]? = some I →
      I.Leads frame.pc target → module.function? index = some callee →
      entered.function = callee.index →
      entered.pc = 0 →
      Moves module (frame :: callers)
        (entered :: ⟨frame.function, target, slots, frame.base⟩ :: callers)

theorem Machine.leave_moves {m : Machine σ} {frame : Frame} {callers : List Frame}
    (h : m.frames = frame :: callers) (code : FunctionCode) : (m.leave code).frames = callers := by
  simp only [leave, h]

/-- Carrying out an instruction moves the activations as it leads. -/
theorem Machine.execute_moves {m : Machine σ} {frame : Frame} {callers : List Frame}
    {code : FunctionCode} {I : Instruction} (hcode : m.module.function? frame.function = some code)
    (hI : code.instructions[frame.pc]? = some I) :
    Moves m.module (frame :: callers)
      (m.execute code { frame with pc := frame.pc + 1 } callers I).frames := by
  cases I with
  | jump goal => exact .goes hcode hI rfl
  | jumpIfTrue goal =>
      simp only [execute]
      split
      · exact .goes hcode hI (.inl rfl)
      · exact .goes hcode hI (.inr rfl)
  | jumpIfFalse goal =>
      simp only [execute]
      split
      · exact .goes hcode hI (.inr rfl)
      · exact .goes hcode hI (.inl rfl)
  | call index =>
      simp only [execute]
      split
      · exact .goes hcode hI rfl
      · next callee hcallee => exact .enters hcode hI rfl hcallee rfl rfl
  | callHost index =>
      simp only [execute]
      split
      · exact .goes hcode hI rfl
      · unfold callHost
        dsimp only
        split <;> exact .goes hcode hI rfl
  | ret =>
      simp only [execute]
      rw [leave_moves rfl]
      exact .leaves
  | _ => exact .goes hcode hI rfl

/-- **An instruction moves the activations as its code leads.** -/
theorem Machine.step_moves {m : Machine σ} (h : m.frames ≠ []) :
    Moves m.module m.frames m.step.frames := by
  cases hframes : m.frames with
  | nil => exact absurd hframes h
  | cons frame callers =>
      simp only [step, hframes]
      cases hcode : m.module.function? frame.function with
      | none => exact .leaves
      | some code =>
          dsimp only
          cases hI : code.instructions[frame.pc]? with
          | none =>
              rw [leave_moves hframes]
              exact .leaves
          | some I => exact execute_moves hcode hI

/-! ## Closed code -/

/-- The functions of a module are known by their numbers, each has an instruction and a statement
for every instruction, and none is left but by `return`. -/
structure Module.Closed (module : Module σ) : Prop where
  index : ∀ {i : Nat} {code : FunctionCode}, module.function? i = some code → code.index = i
  nonempty : ∀ {i : Nat} {code : FunctionCode}, module.function? i = some code →
    0 < code.instructions.size
  shown : ∀ {i : Nat} {code : FunctionCode}, module.function? i = some code →
    code.lineInfos.size = code.instructions.size
  flow : ∀ {i pc target : Nat} {code : FunctionCode} {I : Instruction},
    module.function? i = some code →
    code.instructions[pc]? = some I → I.Leads pc target → target < code.instructions.size

theorem FunctionDecl.length_marks (d : FunctionDecl) : d.marks.length = d.size := by
  unfold marks size
  split <;> simp

theorem FunctionDecl.size_pos (d : FunctionDecl) : 0 < d.size := by
  unfold size
  cases hend : endsWithReturn d.body with
  | false => simp
  | true =>
      refine Nat.lt_of_lt_of_le (Nat.pos_of_ne_zero fun hzero => ?_) (Nat.le_add_right _ _)
      rw [endsWithReturn_of_all_comments (Stmt.all_comments_of_sizes hzero)] at hend
      cases hend

/-- **Compiled code is closed.** -/
theorem emitModule_closed {p : CheckedProgram σ} {module : Module σ}
    (h : emitModule p.functions p.environment = .ok module) : module.Closed := by
  refine ⟨?_, ?_, ?_, ?_⟩
  · intro i code hcode
    obtain ⟨d, -, hmade⟩ := emitModule_made h hcode
    exact (emitFunction_compiled hmade).index
  · intro i code hcode
    obtain ⟨d, -, hmade⟩ := emitModule_made h hcode
    rw [(emitFunction_compiled hmade).size]
    exact d.size_pos
  · intro i code hcode
    obtain ⟨d, -, hmade⟩ := emitModule_made h hcode
    rw [(emitFunction_compiled hmade).size, ← d.length_marks, ← emitFunction_numbered hmade,
      List.length_map, Array.length_toList]
  · intro i pc target code I hcode hI hleads
    obtain ⟨d, -, hmade⟩ := emitModule_made h hcode
    rw [(emitFunction_compiled hmade).getElem?] at hI
    rw [(emitFunction_compiled hmade).size]
    exact FunctionDecl.flows_closed ⟨I, ⟨pc, (Nat.zero_add _).symm, hI⟩, hleads⟩

/-- An activation is at an instruction of its function. -/
def Module.Locates (module : Module σ) (frame : Frame) : Prop :=
  ∃ code, module.function? frame.function = some code ∧ frame.pc < code.instructions.size

namespace Machine

variable {module : Module σ} {m : Machine σ}

/-- **Activations on closed code stay at instructions.** -/
theorem Moves.locates (closed : module.Closed) {frames frames' : List Frame}
    (hmoves : Moves module frames frames') (h : ∀ frame ∈ frames, module.Locates frame) :
    ∀ frame ∈ frames', module.Locates frame := by
  cases hmoves with
  | leaves => exact fun frame hframe => h frame (List.mem_cons_of_mem _ hframe)
  | goes hcode hI hleads =>
      intro frame hframe
      rcases List.mem_cons.mp hframe with rfl | hframe
      · exact ⟨_, hcode, closed.flow hcode hI hleads⟩
      · exact h frame (List.mem_cons_of_mem _ hframe)
  | enters hcode hI hleads hcallee hfunction hentered =>
      intro frame hframe
      rcases List.mem_cons.mp hframe with rfl | hframe
      · rw [← closed.index hcallee, ← hfunction] at hcallee
        refine ⟨_, hcallee, ?_⟩
        rw [hentered]
        exact closed.nonempty hcallee
      · rcases List.mem_cons.mp hframe with rfl | hframe
        · exact ⟨_, hcode, closed.flow hcode hI hleads⟩
        · exact h frame (List.mem_cons_of_mem _ hframe)

theorem locates_restart (closed : m.module.Closed) :
    ∀ frame ∈ m.restart.frames, m.module.Locates frame := by
  intro frame hframe
  simp only [restart, Option.mem_toList, Option.map_eq_some_iff, Module.main?] at hframe
  obtain ⟨code, hcode, rfl⟩ := hframe
  have hfirst : m.module.function? 0 = some code := by
    rw [Module.function?, ← List.head?_eq_getElem?, hcode]
  refine ⟨code, ?_, closed.nonempty hfirst⟩
  rw [Frame.enter, closed.index hfirst]
  exact hfirst

/-- Being at instructions survives every action. -/
theorem locates_invariant (closed : module.Closed) :
    Invariant fun _ (m : Machine σ) => m.module = module ∧ ∀ frame ∈ m.frames,
    module.Locates frame where
  step := by
    rintro xs m ⟨hmodule, h⟩ - hframes
    refine ⟨m.step_unchanged.1.trans hmodule, ?_⟩
    have hmoves := step_moves hframes
    rw [hmodule] at hmoves
    exact hmoves.locates closed h
  resume := by
    rintro xs m call h - hpending -
    rw [resume_of_pending hpending]
    exact h
  settle h _ := h
  breakpoints _ h := h

/-- A machine whose activations are at instructions shows a statement as long as there are any. -/
theorem isSome_statement? (closed : m.module.Closed)
    (h : ∀ frame ∈ m.frames, m.module.Locates frame) (hframes : m.frames ≠ []) :
    m.statement?.isSome = true := by
  cases hcons : m.frames with
  | nil => exact absurd hcons hframes
  | cons frame callers =>
      obtain ⟨code, hcode, hpc⟩ := h frame (by rw [hcons]; exact List.mem_cons_self)
      rw [← closed.shown hcode] at hpc
      simp [statement?, lineInfo?, hcons, hcode, Array.getElem?_eq_getElem hpc]

end Machine

end Stepwise
