import Stepwise.Machine.Breakpoints
import Stepwise.Machine.Step

/-!
# Running and stepping

Nothing here blocks: a machine is driven by calls that return control when a call of the host is
outstanding, when the next instruction has a breakpoint, or when enough instructions have been
executed.

* `Machine.run` executes up to a number of instructions.
* `Machine.stepOver` goes on to the next statement of the activation it began in, passing over
  calls. If it has to pause it yields where it began, with which it is to be called again.
* `Machine.stepInto` goes on to the next statement of any activation.
-/

set_option autoImplicit false

namespace Stepwise.Machine

variable {σ : Type}

/-- Takes note of the end of the program. -/
def settle (m : Machine σ) : Machine σ :=
  if m.frames.isEmpty then { m with phase := .completed } else m

/-- Takes the answer of the outstanding call, which has to be there, and pushes it if the function
yields a value. -/
def resume (m : Machine σ) : Machine σ :=
  match m.pending with
  | none => m
  | some call =>
    let (v, world) := m.world.takeValue call.future
    let yields := ((m.module.hostFunction? call.function).map (·.returnsValue)).getD false
    { m with stack := if yields then v :: m.stack else m.stack, pending := none, world }

/-! ## Running -/

/-- Executes up to `budget` instructions, none while a call is outstanding, and stops where a
breakpoint is reached. -/
def advance : Nat → Machine σ → Machine σ
  | 0, m => m
  | budget + 1, m =>
    if m.pending.isSome || m.frames.isEmpty then m
    else
      let next := m.step
      if next.atBreakpoint then next else advance budget next

/-- Takes the outstanding answer and executes up to `budget` instructions; does nothing while the
answer is not there. -/
def run (m : Machine σ) (budget : Nat) : Machine σ :=
  if m.frames.isEmpty then m.settle
  else if m.isSuspended then m
  else (advance budget m.resume).settle

/-! ## Stepping -/

/-- Why the instructions of a step ended. -/
inductive StepOutcome where
  /-- A call is outstanding or the limit is reached. -/
  | paused
  /-- The step has arrived, a breakpoint is reached, or the program has ended. -/
  | finished
  deriving Repr, DecidableEq

/-- Executes instructions until the machine has arrived, at most `budget`. -/
def stepUntil (arrived : Snapshot → Bool) : Nat → Machine σ → StepOutcome × Machine σ
  | budget, m =>
    if m.pending.isSome then (.paused, m)
    else
      match m.snapshot? with
      | none => (.finished, m)
      | some current =>
        if arrived current then (.finished, m)
        else
          match budget with
          | 0 => (.paused, m)
          | budget + 1 =>
            let next := m.step
            if next.atBreakpoint then (.finished, next) else stepUntil arrived budget next

/-- Whether a step over a statement is done: its activation has ended or has come to another
statement. -/
def Snapshot.passedBy (start current : Snapshot) : Bool :=
  current.frame <
    start.frame || (current.frame == start.frame && current.statement != start.statement)

/-- Steps over the statement where `last` began, or over the present one. The result is where the
step began if it is to be continued, and none if it is done. -/
def stepOver (m : Machine σ) (last : Option Snapshot) : Option Snapshot × Machine σ :=
  match m.snapshot? with
  | none => (none, m.settle)
  | some present =>
    let start := last.getD present
    if m.isSuspended then (some start, m)
    else
      match stepUntil (Snapshot.passedBy start) m.stepLimit m.resume with
      | (.paused, m) => (some start, m)
      | (.finished, m) => (none, m.settle)

/-- Steps to the next statement of any activation. -/
def stepInto (m : Machine σ) : Machine σ :=
  match m.snapshot? with
  | none => m.settle
  | some start =>
    if m.isSuspended then m
    else
      match stepUntil (· != start) m.stepLimit m.resume with
      | (.paused, m) => m
      | (.finished, m) => m.settle

/-- A machine without activations has completed once that is noted. -/
theorem settle_of_frames_nil (m : Machine σ) (h : m.frames = []) : m.settle.phase = .completed := by
  simp [settle, h]

end Stepwise.Machine
