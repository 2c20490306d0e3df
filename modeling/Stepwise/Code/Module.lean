import Stepwise.Code.Instruction
import Stepwise.Host.Function
import Stepwise.Types.Registry

/-!
# Compiled modules

A module holds the code of every function, the first being that of the statements outside of
functions, with the registry and the host functions that calls refer to. Beside each instruction
stands the statement it belongs to and that statement's line, which is what debuggers step by.

`Module.locationsAt` finds where the statements of a line begin.
-/

set_option autoImplicit false

namespace Stepwise

/-- The statement that an instruction belongs to, numbered within its function, and the line it
starts on. -/
structure LineInfo where
  index : Nat
  line : Nat
  deriving Repr, DecidableEq, Inhabited

/-- The instructions during which a local holds a value: from `start` to `stop`, both included. -/
structure LiveRange where
  start : Nat
  stop : Nat
  deriving Repr, DecidableEq

/-- Whether an instruction lies in the range. -/
def LiveRange.contains (r : LiveRange) (pc : Nat) : Bool := r.start ≤ pc && pc ≤ r.stop

/-- A parameter or variable of a function. -/
structure LocalInfo where
  name : String
  ty : Ty
  slot : Nat
  live : LiveRange
  isParameter : Bool
  span : Span
  deriving Repr, DecidableEq

/-- The code of a function. -/
structure FunctionCode where
  index : Nat
  name : String
  signature : String
  numParameters : Nat
  returnType : Ty
  locals : List LocalInfo
  instructions : Array Instruction
  /-- The statement of each instruction. -/
  lineInfos : Array LineInfo
  /-- The line of the breakpoint at each instruction, if it has one. -/
  breakpoints : Array (Option Nat)
  deriving Repr

namespace FunctionCode

/-- How many slots an activation has. -/
def numSlots (f : FunctionCode) : Nat := f.locals.length

/-- Whether a call leaves a value. -/
def returnsValue (f : FunctionCode) : Bool := f.returnType != .nothing

/-- The locals that hold a value at an instruction. -/
def localsAt (f : FunctionCode) (pc : Nat) : List LocalInfo := f.locals.filter (·.live.contains pc)

end FunctionCode

/-- An instruction of a module: the function and the instruction in it. -/
structure CodeLocation where
  function : Nat
  pc : Nat
  deriving Repr, DecidableEq

/-- A compiled program. -/
structure Module (σ : Type) where
  functions : List FunctionCode
  registry : Registry
  hostFunctions : HostTable σ

/-- Of the numbered statements, the first occurrence of each that is on a line and not seen yet,
with its place counted from `pc`. -/
def firstOccurrences (line : Nat) (seen : List Nat) (pc : Nat) : List LineInfo → List Nat
  | [] => []
  | info :: rest =>
    if info.line = line ∧ info.index ∉ seen then pc :: firstOccurrences line (info.index :: seen)
      (pc + 1) rest
    else firstOccurrences line seen (pc + 1) rest

/-- Where the statements of a line begin in a function. -/
def FunctionCode.locationsAt (f : FunctionCode) (line : Nat) : List CodeLocation :=
  (firstOccurrences line [] 0 f.lineInfos.toList).map fun pc => ⟨f.index, pc⟩

namespace Module

variable {σ : Type}

/-- The code of the statements outside of functions. -/
def main? (m : Module σ) : Option FunctionCode := m.functions.head?

/-- A function by its number. -/
def function? (m : Module σ) (index : Nat) : Option FunctionCode := m.functions[index]?

/-- A host function by its number. -/
def hostFunction? (m : Module σ) (index : Nat) : Option (HostFunction σ) := m.hostFunctions[index]?

/-- Where the statements of a line begin. -/
def locationsAt (m : Module σ) (line : Nat) : List CodeLocation :=
  m.functions.flatMap (·.locationsAt line)

end Module

end Stepwise
