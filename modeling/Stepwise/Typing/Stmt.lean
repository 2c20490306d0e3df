import Stepwise.Typing.Expr

/-!
# Typing of statements

Checking a statement checks its expressions, declares its variables and opens a block for each body.
Conditions are truth values, repeat counts numbers; what a variable or field holds is never nothing
and always of one type; a `return` has a value exactly if its function yields one; `break` and
`continue` stand in loops.
-/

set_option autoImplicit false

namespace Stepwise

/-- What checking a body needs to know about its function and the program. -/
structure BodyContext where
  registry : Registry
  functionName : String
  resultTy : Ty
  isMain : Bool

/-- Checks that a `break` or `continue` stands in a loop. -/
def checkInLoop (inLoop : Bool) (keyword : Terminal) (span : Span) : Diagnosed Unit :=
  if inLoop then .ok () else failAt span (.outsideLoop keyword)

/-- The type of a declared variable: the written one, which has to be that of the value, or else the
value's. -/
def variableTy (r : Registry) (decl : VarDecl) (valueTy : Ty) : Diagnosed Ty :=
  match decl.typeName with
  | none => .ok valueTy
  | some typeName =>
    match r.resolve? typeName.name with
    | none => failAt typeName.span (.unknownType typeName.name)
    | some declared =>
      if declared = valueTy then .ok declared
      else failAt decl.value.span (.initialiserMismatch decl.name.name declared valueTy)

/-- Declares a name, or reports the place where it is declared already. -/
def declareVariable (scopes : Scopes) (name : Ident) (ty : Ty) : Diagnosed (Nat × Scopes) :=
  match scopes.declare name ty with
  | (.ok slot, scopes) => .ok (slot, scopes)
  | (.error existing, _) => failAt name.span (.variableRedeclared name.name existing.span.start)

/-- Checks the declaration of a variable. -/
def checkVariable (ctx : BodyContext) (scopes : Scopes) (decl : VarDecl) :
    Diagnosed (VarDecl × Scopes) := do
  let (value, valueTy) ← checkExpr ctx.registry scopes decl.value
  if valueTy = .nothing then failAt decl.value.span (.variableOfNothing decl.name.name)
  else
    let ty ← variableTy ctx.registry decl valueTy
    let (slot, scopes) ← declareVariable scopes decl.name ty
    return ({ decl with value, ty := some ty, slot := some slot }, scopes)

/-- Checks a `return`. -/
def checkReturn (ctx : BodyContext) (scopes : Scopes) (value : Option Expr) (span : Span) :
    Diagnosed Stmt :=
  match value with
  | some value =>
    if ctx.isMain then failAt span .mainReturnsValue
    else do
      let (checked, ty) ← checkExpr ctx.registry scopes value
      if ctx.resultTy = .nothing then failAt span (.unexpectedValue ctx.functionName)
      else if ty = ctx.resultTy then return .ret (some checked) span
      else failAt value.span (.resultMismatch ctx.functionName ctx.resultTy ty)
  | none =>
    if ctx.resultTy = .nothing then .ok (.ret none span)
    else failAt span (.missingValue ctx.functionName ctx.resultTy)

/-- Checks a condition. -/
def checkCondition (r : Registry) (scopes : Scopes) (condition : Expr) : Diagnosed Expr := do
  let (checked, ty) ← checkExpr r scopes condition
  if ty = .boolean then return checked else failAt condition.span (.conditionMismatch ty)

/-- Checks a repeat count. -/
def checkCount (r : Registry) (scopes : Scopes) (count : Expr) : Diagnosed Expr := do
  let (checked, ty) ← checkExpr r scopes count
  if ty = .number then return checked else failAt count.span (.countMismatch ty)

/-- Checks an assignment, the value before the target. -/
def checkAssignment (r : Registry) (scopes : Scopes) (target value : Expr) (span : Span) :
    Diagnosed Stmt := do
  let (checkedValue, valueTy) ← checkExpr r scopes value
  let (checkedTarget, targetTy) ← checkExpr r scopes target
  if targetTy = valueTy then return .assign checkedTarget checkedValue span
  else failAt value.span (.assignmentMismatch targetTy valueTy)

mutual

/-- Checks a statement: the annotated statement and the scopes behind it. -/
def checkStmt (ctx : BodyContext) (inLoop : Bool) (scopes : Scopes) :
    Stmt → Diagnosed (Stmt × Scopes)
  | .expr e => do
    let (checked, _) ← checkExpr ctx.registry scopes e
    return (.expr checked, scopes)
  | .var decl => do
    let (checked, scopes) ← checkVariable ctx scopes decl
    return (.var checked, scopes)
  | .assign target value span => do
    let checked ← checkAssignment ctx.registry scopes target value span
    return (checked, scopes)
  | .cond condition thenBlock elseBlock span => do
    let condition ← checkCondition ctx.registry scopes condition
    let (thenBlock, afterThen) ← checkStmts ctx inLoop scopes.push thenBlock
    let (elseBlock, afterElse) ← checkStmts ctx inLoop afterThen.pop.push elseBlock
    return (.cond condition thenBlock elseBlock span, afterElse.pop)
  | .whileLoop condition body span => do
    let condition ← checkCondition ctx.registry scopes condition
    let (body, after) ← checkStmts ctx true scopes.push body
    return (.whileLoop condition body span, after.pop)
  | .repeatLoop count body span => do
    let count ← checkCount ctx.registry scopes count
    let (body, after) ← checkStmts ctx true scopes.push body
    return (.repeatLoop count body span, after.pop)
  | .ret value span => do
    let checked ← checkReturn ctx scopes value span
    return (checked, scopes)
  | .breakLoop span => do
    checkInLoop inLoop .breakWord span
    return (.breakLoop span, scopes)
  | .continueLoop span => do
    checkInLoop inLoop .continueWord span
    return (.continueLoop span, scopes)
  | .comment text span => .ok (.comment text span, scopes)

/-- Checks statements in order. -/
def checkStmts (ctx : BodyContext) (inLoop : Bool) (scopes : Scopes) :
    List Stmt → Diagnosed (List Stmt × Scopes)
  | [] => .ok ([], scopes)
  | s :: rest => do
    let (s, scopes) ← checkStmt ctx inLoop scopes s
    let (rest, scopes) ← checkStmts ctx inLoop scopes rest
    return (s :: rest, scopes)

end

end Stepwise
