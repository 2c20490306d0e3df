import Stepwise.Machine.State

/-!
# Breakpoints

A breakpoint stands at an instruction and remembers the line it was set for. Setting one on a line
sets it where the statements of that line begin.
-/

set_option autoImplicit false

namespace Stepwise.Machine

variable {σ : Type}

/-- The cell of an instruction in the table. -/
def breakpoint? (m : Machine σ) (function pc : Nat) : Option (Option Nat) := do
  let row ← m.breakpoints[function]?
  row[pc]?

/-- Whether an instruction has a breakpoint. -/
def hasBreakpoint (m : Machine σ) (function pc : Nat) : Bool :=
  ((m.breakpoint? function pc).bind id).isSome

/-- Whether the next instruction has a breakpoint. -/
def atBreakpoint (m : Machine σ) : Bool :=
  match m.frames with
  | [] => false
  | frame :: _ => m.hasBreakpoint frame.function frame.pc

/-- The machine with a cell of the table changed, if there is such a cell. -/
def writeBreakpoint (m : Machine σ) (function pc : Nat) (cell : Option Nat) : Machine σ :=
  { m with breakpoints := m.breakpoints.modify function fun row => row.setIfInBounds pc cell }

/-- Sets a breakpoint at an instruction, unless it belongs to no statement or has no cell; tells
whether it did. -/
def setBreakpoint (m : Machine σ) (function pc : Nat) : Bool × Machine σ :=
  let line := do
    let code ← m.module.function? function
    let info ← code.lineInfos[pc]?
    return info.line
  match line, m.breakpoint? function pc with
  | some line, some _ => (true, m.writeBreakpoint function pc (some line))
  | _, _ => (false, m)

/-- Sets breakpoints at instructions; tells how many were set. -/
def setBreakpoints (m : Machine σ) : List CodeLocation → Nat × Machine σ
  | [] => (0, m)
  | l :: rest =>
    let (done, m) := m.setBreakpoint l.function l.pc
    let (count, m) := m.setBreakpoints rest
    (count + (if done then 1 else 0), m)

/-- Sets breakpoints where the statements of a line begin; tells how many were set. -/
def setBreakpointsAtLine (m : Machine σ) (line : Nat) : Nat × Machine σ :=
  m.setBreakpoints (m.module.locationsAt line)

/-- Removes the breakpoint at an instruction. -/
def clearBreakpoint (m : Machine σ) (function pc : Nat) : Machine σ :=
  m.writeBreakpoint function pc none

/-- Removes all breakpoints. -/
def clearBreakpoints (m : Machine σ) : Machine σ :=
  { m with breakpoints := m.breakpoints.map fun row => row.map fun _ => none }

/-- Writing a cell leaves the number of rows alone. -/
@[simp] theorem size_writeBreakpoint (m : Machine σ) (function pc : Nat) (cell : Option Nat) :
    (m.writeBreakpoint function pc cell).breakpoints.size = m.breakpoints.size := by
  simp [writeBreakpoint]

end Stepwise.Machine
