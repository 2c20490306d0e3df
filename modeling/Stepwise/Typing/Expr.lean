import Stepwise.Diagnostic
import Stepwise.Scopes

/-!
# Typing of expressions

Checking gives every expression its type and writes it into the tree, together with the slots of
variables and the targets of calls. Operators have fixed types, except that any two values of one
type can be compared. Comparing two records goes through the program's own `equals` function on
them, if there is one that yields a truth value: `a == b` becomes `equals(a, b)` and `a != b`
becomes `not equals(a, b)`.
-/

set_option autoImplicit false

namespace Stepwise

/-- The type of a unary operation, if its operand's type allows it. -/
def UnaryOp.result? : UnaryOp → Ty → Option Ty
  | .negate, .number => some .number
  | .not, .boolean => some .boolean
  | _, _ => none

/-- The type of a binary operation, if its operands' types allow it. -/
def BinaryOp.result? (op : BinaryOp) (left right : Ty) : Option Ty :=
  match op with
  | .add | .subtract | .multiply | .divide =>
    if left = .number ∧ right = .number then some .number else none
  | .less | .lessEqual | .greater | .greaterEqual =>
    if left = .number ∧ right = .number then some .boolean else none
  | .concat => if left = .string ∧ right = .string then some .string else none
  | .and | .or | .xor => if left = .boolean ∧ right = .boolean then some .boolean else none
  | .equal | .notEqual => if left = right ∧ left ≠ .nothing then some .boolean else none

/-- The name of the functions that compare records. -/
def equalsName : String := "equals"

/-- The function that compares two values of a type, if the type is a record's and there is one. -/
def Registry.equality? (r : Registry) (ty : Ty) : Option Callee :=
  match ty with
  | .record _ =>
    ((r.resolveCall? equalsName [ty, ty]).filter fun f => f.result = .boolean).map (·.callee)
  | _ => none

/-- The call that compares two records. -/
def equalsCall (span : Span) (left right : Expr) (callee : Callee) : Expr :=
  .call ⟨span, some .boolean⟩ ⟨equalsName, span⟩ [left, right] (some callee)

/-- A checked binary operation on operands of the given type, with comparisons of records
replaced. -/
def checkedBinary (r : Registry) (info : ExprInfo) (op : BinaryOp) (left right : Expr)
    (operands : Ty) : Expr :=
  match op, r.equality? operands with
  | .equal, some callee => equalsCall info.span left right callee
  | .notEqual, some callee => .unary info .not (equalsCall info.span left right callee)
  | _, _ => .binary info op left right

mutual

/-- Checks an expression: the annotated expression and its type. -/
def checkExpr (r : Registry) (scopes : Scopes) : Expr → Diagnosed (Expr × Ty)
  | .number i v => .ok (.number { i with ty := some .number } v, .number)
  | .boolean i v => .ok (.boolean { i with ty := some .boolean } v, .boolean)
  | .string i v => .ok (.string { i with ty := some .string } v, .string)
  | .reference i name _ =>
    match scopes.find? name with
    | none => failAt i.span (.unknownVariable name)
    | some symbol =>
      .ok (.reference { i with ty := some symbol.ty } name (some symbol.slot), symbol.ty)
  | .call i name arguments _ => do
    let checked ← checkExprs r scopes arguments
    let tys := checked.map (·.2)
    match r.resolveCall? name.name tys with
    | none => failAt i.span (.unknownFunction (callSignature name.name tys))
    | some f =>
      return (.call { i with ty := some f.result } name (checked.map (·.1)) (some f.callee),
        f.result)
  | .field i record name => do
    let (record, ty) ← checkExpr r scopes record
    match ty with
    | .record recordName =>
      match (r.record? recordName).bind (·.field? name.name) with
      | none => failAt name.span (.unknownField recordName name.name)
      | some f => return (.field { i with ty := some f.ty } record name, f.ty)
    | other => failAt i.span (.fieldOfPrimitive name.name other)
  | .unary i op operand => do
    let (operand, ty) ← checkExpr r scopes operand
    match op.result? ty with
    | none => failAt i.span (.unaryMismatch op ty)
    | some result => return (.unary { i with ty := some result } op operand, result)
  | .binary i op left right => do
    let (left, leftTy) ← checkExpr r scopes left
    let (right, rightTy) ← checkExpr r scopes right
    match op.result? leftTy rightTy with
    | none => failAt i.span (.binaryMismatch op leftTy rightTy)
    | some result =>
      return (checkedBinary r { i with ty := some result } op left right leftTy, result)

/-- Checks expressions from left to right. -/
def checkExprs (r : Registry) (scopes : Scopes) : List Expr → Diagnosed (List (Expr × Ty))
  | [] => .ok []
  | e :: es => do
    let first ← checkExpr r scopes e
    let others ← checkExprs r scopes es
    return first :: others

end

end Stepwise
