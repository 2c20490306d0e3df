import Stepwise.Operator
import Stepwise.Value.Basic

/-!
# Operations on values

What the operators compute. Operands of the wrong kind count as the neutral value of the right one;
equality alone looks at the kinds.
-/

set_option autoImplicit false

namespace Stepwise

/-- The value of a unary operation. -/
def UnaryOp.apply : UnaryOp → Value → Value
  | .negate, v => .number (-v.asNumber)
  | .not, v => .boolean (!v.asBool)

/-- The value of a binary operation. -/
def BinaryOp.apply : BinaryOp → Value → Value → Value
  | .add, a, b => .number (a.asNumber + b.asNumber)
  | .subtract, a, b => .number (a.asNumber - b.asNumber)
  | .multiply, a, b => .number (a.asNumber * b.asNumber)
  | .divide, a, b => .number (a.asNumber / b.asNumber)
  | .concat, a, b => .string (a.asString ++ b.asString)
  | .less, a, b => .boolean (a.asNumber < b.asNumber)
  | .lessEqual, a, b => .boolean (a.asNumber ≤ b.asNumber)
  | .greater, a, b => .boolean (b.asNumber < a.asNumber)
  | .greaterEqual, a, b => .boolean (b.asNumber ≤ a.asNumber)
  | .equal, a, b => .boolean (a.equals b)
  | .notEqual, a, b => .boolean (!a.equals b)
  | .and, a, b => .boolean (a.asBool && b.asBool)
  | .or, a, b => .boolean (a.asBool || b.asBool)
  | .xor, a, b => .boolean (a.asBool != b.asBool)

end Stepwise
