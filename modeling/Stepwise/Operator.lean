/-!
# Operators

The operators of expressions and the signs or words that they are written with.
-/

set_option autoImplicit false

namespace Stepwise

/-- Operators before one operand. -/
inductive UnaryOp where
  | negate
  | not
  deriving Repr, DecidableEq

/-- Operators between two operands. -/
inductive BinaryOp where
  | add
  | subtract
  | multiply
  | divide
  | concat
  | less
  | lessEqual
  | greater
  | greaterEqual
  | equal
  | notEqual
  | and
  | or
  | xor
  deriving Repr, DecidableEq

/-- How a unary operator is written. -/
def UnaryOp.symbol : UnaryOp → String
  | .negate => "-"
  | .not => "not"

/-- How a binary operator is written. -/
def BinaryOp.symbol : BinaryOp → String
  | .add => "+"
  | .subtract => "-"
  | .multiply => "*"
  | .divide => "/"
  | .concat => ".."
  | .less => "<"
  | .lessEqual => "<="
  | .greater => ">"
  | .greaterEqual => ">="
  | .equal => "=="
  | .notEqual => "!="
  | .and => "and"
  | .or => "or"
  | .xor => "xor"

/-- The unary operators. -/
def UnaryOp.all : List UnaryOp := [.negate, .not]

/-- The binary operators. -/
def BinaryOp.all : List BinaryOp :=
  [.add, .subtract, .multiply, .divide, .concat, .less, .lessEqual, .greater, .greaterEqual, .equal,
    .notEqual, .and, .or, .xor]

/-- The unary operator written so, if there is one. -/
def UnaryOp.ofSymbol? (s : String) : Option UnaryOp := UnaryOp.all.find? (·.symbol == s)

/-- The binary operator written so, if there is one. -/
def BinaryOp.ofSymbol? (s : String) : Option BinaryOp := BinaryOp.all.find? (·.symbol == s)

end Stepwise
