import Stepwise.Code.Module

/-!
# The state of the machine

A machine executes a module. It has a stack of activations, a stack of operands that all activations
share, and, while an answer of the host is outstanding, the call that waits for it. Breakpoints
belong to the machine: it starts with those of the module, and they outlast a restart.

Both stacks have their top first. Activations are counted from below where they are shown, so that
the statements outside of functions are activation zero.
-/

set_option autoImplicit false

namespace Stepwise

/-- An activation of a function. -/
structure Frame where
  function : Nat
  /-- The next instruction. -/
  pc : Nat
  slots : List Value
  /-- The height of the operand stack below the operands of this activation. -/
  base : Nat
  deriving Repr

/-- The slots of a new activation: the arguments in order, then nothing. -/
def initialSlots (size : Nat) (arguments : List Value) : List Value :=
  (arguments ++ List.replicate size Value.nothing).take size

/-- An activation has the slots of its function, however many arguments there are. -/
@[simp] theorem length_initialSlots (size : Nat) (arguments : List Value) :
    (initialSlots size arguments).length = size := by
  simp [initialSlots]

/-- A new activation of a function. -/
def Frame.enter (code : FunctionCode) (base : Nat) (arguments : List Value) : Frame :=
  ⟨code.index, 0, initialSlots code.numSlots arguments, base⟩

/-- The value in a slot; nothing if there is no such slot. -/
def Frame.slot (f : Frame) (i : Nat) : Value := (f.slots[i]?).getD .nothing

/-- A call of the host whose answer is outstanding. -/
structure PendingCall where
  function : Nat
  future : Nat
  deriving Repr, DecidableEq

/-- Whether the program is still running. -/
inductive Phase where
  | running
  | completed
  deriving Repr, DecidableEq

/-- Where a step began: the activation, counted from below, and the statement in it. -/
structure Snapshot where
  frame : Nat
  statement : Nat
  deriving Repr, DecidableEq

/-- The statement number of an instruction that belongs to no statement. -/
def noStatement : Nat := 0xFFFFFFFFFFFFFFFF

/-- The line of the breakpoint at each instruction of each function, if it has one. -/
abbrev BreakpointTable := Array (Array (Option Nat))

/-- A machine that executes a module. -/
structure Machine (σ : Type) where
  module : Module σ
  /-- How many instructions a single step executes at most before it pauses. -/
  stepLimit : Nat
  phase : Phase
  frames : List Frame
  stack : List Value
  pending : Option PendingCall
  breakpoints : BreakpointTable
  world : World σ

namespace Machine

variable {σ : Type}

/-- The step limit of a machine for which none is chosen. -/
def defaultStepLimit : Nat := 1000

/-- The machine at the beginning of its program, with the breakpoints and the world as they are. -/
def restart (m : Machine σ) : Machine σ :=
  { m with
    phase := .running
    frames := (m.module.main?.map fun code => Frame.enter code 0 []).toList
    stack := []
    pending := none }

/-- A machine at the beginning of a module. -/
def start (module : Module σ) (stepLimit : Nat) (world : World σ) : Machine σ :=
  restart ⟨module, stepLimit, .running, [], [], none,
    (module.functions.map (·.breakpoints)).toArray, world⟩

/-! ## Looking at a machine -/

/-- The height of the operand stack. -/
def height (m : Machine σ) : Nat := m.stack.length

/-- The number of activations. -/
def depth (m : Machine σ) : Nat := m.frames.length

/-- The host function whose answer is outstanding. -/
def pendingFunction? (m : Machine σ) : Option (HostFunction σ) :=
  m.pending.bind fun call => m.module.hostFunction? call.function

/-- Whether the machine waits for an answer that is not there yet. -/
def isSuspended (m : Machine σ) : Bool :=
  match m.pending with
  | none => false
  | some call => !m.world.isCompleted call.future

/-- The statement that the next instruction belongs to. -/
def lineInfo? (m : Machine σ) : Option LineInfo := do
  let frame ← m.frames.head?
  let code ← m.module.function? frame.function
  code.lineInfos[frame.pc]?

/-- The line of the next instruction. -/
def line? (m : Machine σ) : Option Nat := m.lineInfo?.map (·.line)

/-- The number of the statement of the next instruction. -/
def statement? (m : Machine σ) : Option Nat := m.lineInfo?.map (·.index)

/-- Where a step that began now would begin. -/
def snapshot? (m : Machine σ) : Option Snapshot :=
  match m.frames with
  | [] => none
  | _ :: callers => some ⟨callers.length, m.statement?.getD noStatement⟩

/-- The activation of a number. -/
def frame? (m : Machine σ) (index : Nat) : Option Frame := m.frames.reverse[index]?

/-- The locals of an activation that hold a value, with their values. -/
def localsInScope (m : Machine σ) (index : Nat) : List (LocalInfo × Value) :=
  match m.frame? index with
  | none => []
  | some frame =>
    match m.module.function? frame.function with
    | none => []
    | some code => (code.localsAt frame.pc).map fun l => (l, frame.slot l.slot)

/-- The machine after the environment has delivered a value. -/
def complete (m : Machine σ) (future : Nat) (v : Value) : Machine σ :=
  { m with world := m.world.complete future v }

end Machine

end Stepwise
