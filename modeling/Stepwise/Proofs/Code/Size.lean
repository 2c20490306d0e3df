import Stepwise.Program.Tree

/-!
# The size of code

How many instructions the code of an expression or statement has. It follows from the tree alone, so
that the targets of jumps and the ends of blocks could be known before their code is made.
-/

set_option autoImplicit false

namespace Stepwise

mutual

/-- The number of instructions of an expression. -/
def Expr.size : Expr → Nat
  | .number .. | .boolean .. | .string .. | .reference .. => 1
  | .call _ _ arguments _ => Expr.sizes arguments + 1
  | .field _ record _ => record.size + 1
  | .unary _ _ operand => operand.size + 1
  | .binary _ _ left right => left.size + right.size + 1

/-- The number of instructions of expressions in a row. -/
def Expr.sizes : List Expr → Nat
  | [] => 0
  | e :: es => e.size + Expr.sizes es

end

/-- The number of instructions that set a target, behind those of the value. -/
def Expr.targetSize : Expr → Nat
  | .field _ record _ => record.size + 1
  | _ => 1

/-- The number of instructions that drop the value of an expression: none if there is no value. -/
def Expr.dropSize (e : Expr) : Nat := if e.ty? = some .nothing then 0 else 1

mutual

/-- The number of instructions of a statement. -/
def Stmt.size : Stmt → Nat
  | .expr e => e.size + e.dropSize
  | .var decl => decl.value.size + 1
  | .assign target value _ => value.size + target.targetSize
  | .cond condition thenBlock elseBlock _ =>
    condition.size + 1 + Stmt.sizes thenBlock + 1 + Stmt.sizes elseBlock
  | .whileLoop condition body _ => condition.size + 1 + Stmt.sizes body + 1
  | .repeatLoop count body _ => count.size + 4 + Stmt.sizes body + 4
  | .ret (some value) _ => value.size + 1
  | .ret none _ => 1
  | .breakLoop _ | .continueLoop _ => 1
  | .comment .. => 0

/-- The number of instructions of statements in a row. -/
def Stmt.sizes : List Stmt → Nat
  | [] => 0
  | s :: rest => s.size + Stmt.sizes rest

end

/-- The number of instructions of a function: its body, and a closing `return` if the body lacks
it. -/
def FunctionDecl.size (f : FunctionDecl) : Nat :=
  Stmt.sizes f.body + if endsWithReturn f.body then 0 else 1

end Stepwise
