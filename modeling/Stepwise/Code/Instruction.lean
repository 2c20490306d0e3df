import Stepwise.Operator
import Stepwise.Value.Display

/-!
# Instructions

What the machine executes. Instructions take their operands from a stack and leave their results on
it; jumps name the instruction to go on with by its number in the function.
-/

set_option autoImplicit false

namespace Stepwise

/-- An instruction of the machine. -/
inductive Instruction where
  | push (c : Constant)
  | pop
  /-- Copies the top of the stack. -/
  | dup
  | load (slot : Nat)
  | store (slot : Nat)
  /-- Takes a record and leaves one of its fields. -/
  | loadField (index : Nat)
  /-- Takes a record and below it a value, and sets a field of the record to the value. -/
  | storeField (index : Nat)
  | jump (target : Nat)
  | jumpIfTrue (target : Nat)
  | jumpIfFalse (target : Nat)
  /-- Calls a function of the program. -/
  | call (index : Nat)
  /-- Calls a function of the host. -/
  | callHost (index : Nat)
  | ret
  | binary (op : BinaryOp)
  | unary (op : UnaryOp)
  /-- Joins two texts. -/
  | concat
  deriving Repr, DecidableEq

/-- An instruction as listings write it. -/
def Instruction.display : Instruction → String
  | push c => "push " ++ c.display
  | pop => "pop"
  | dup => "dup"
  | load slot => s!"load {slot}"
  | store slot => s!"store {slot}"
  | loadField i => s!"loadField {i}"
  | storeField i => s!"storeField {i}"
  | jump target => s!"jump {target}"
  | jumpIfTrue target => s!"jumpIfTrue {target}"
  | jumpIfFalse target => s!"jumpIfFalse {target}"
  | call i => s!"call {i}"
  | callHost i => s!"callExt {i}"
  | ret => "return"
  | binary op => "binaryOp " ++ op.symbol
  | unary op => "unaryOp " ++ op.symbol
  | concat => "stringConcat"

end Stepwise
