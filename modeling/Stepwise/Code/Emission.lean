import Stepwise.Code.Emitter
import Stepwise.Typing.Program

/-!
# Making code

The code of an annotated program. The code of a statement is one stretch of instructions that
contains the stretches of the statements inside it. Jumps forward are made before it is known how
far they go, and patched behind the code that they pass.

The scopes of each function are followed once more, and an annotation that does not fit them is
reported as an internal fault, as are missing annotations. So is what checked programs do not
contain, a jump out of no loop or an assignment to a literal.

* `emitExpr` makes the code that leaves the value of an expression on the stack.
* `Emitter.stmt` appends the code of a statement, which leaves the stack as it was.
* `emitFunction` and `emitModule` make the code of functions.
-/

set_option autoImplicit false

namespace Stepwise

/-! ## Expressions -/

/-- The slot of a name, if it is visible and has the slot that checking noted. -/
def resolveSlot (scopes : Scopes) (name : String) (annotated : Option Nat) (span : Span) :
    Diagnosed Nat :=
  match scopes.find? name with
  | some symbol =>
    if annotated = some symbol.slot then .ok symbol.slot else failAt span (.variableUnresolved name)
  | none => failAt span (.variableUnresolved name)

/-- The place of a field in the record that an expression yields. -/
def resolveField (r : Registry) (record : Expr) (name : Ident) : Diagnosed Nat :=
  match record.ty? with
  | some (.record recordName) =>
    match (r.record? recordName).bind (·.fieldIndex? name.name) with
    | some index => .ok index
    | none => failAt name.span (.fieldUnresolved name.name)
  | _ => failAt record.span .fieldOfNonRecord

/-- The instruction of a call. -/
def callInstruction (span : Span) : Option Callee → Diagnosed Instruction
  | some (.user index) => .ok (.call index)
  | some (.host index) => .ok (.callHost index)
  | none => failAt span .callUnresolved

/-- The instruction of a binary operator. -/
def binaryInstruction : BinaryOp → Instruction
  | .concat => .concat
  | op => .binary op

mutual

/-- The code of an expression: operands from left to right, then the operation. -/
def emitExpr (r : Registry) (scopes : Scopes) : Expr → Diagnosed (List Instruction)
  | .number _ v => .ok [.push (.number v)]
  | .boolean _ v => .ok [.push (.boolean v)]
  | .string _ v => .ok [.push (.string v)]
  | .reference i name annotated => do
    let slot ← resolveSlot scopes name annotated i.span
    return [.load slot]
  | .call i _ arguments callee => do
    let code ← emitExprs r scopes arguments
    let call ← callInstruction i.span callee
    return code ++ [call]
  | .field _ record name => do
    let code ← emitExpr r scopes record
    let index ← resolveField r record name
    return code ++ [.loadField index]
  | .unary _ op operand => do
    let code ← emitExpr r scopes operand
    return code ++ [.unary op]
  | .binary _ op left right => do
    let first ← emitExpr r scopes left
    let second ← emitExpr r scopes right
    return first ++ second ++ [binaryInstruction op]

/-- The code of expressions in a row. -/
def emitExprs (r : Registry) (scopes : Scopes) : List Expr → Diagnosed (List Instruction)
  | [] => .ok []
  | e :: es => do
    let first ← emitExpr r scopes e
    let others ← emitExprs r scopes es
    return first ++ others

end

/-! ## Statements -/

/-- The instructions that set a target to the value on the stack. -/
def emitTarget (r : Registry) (scopes : Scopes) : Expr → Diagnosed (List Instruction)
  | .reference i name annotated => do
    let slot ← resolveSlot scopes name annotated i.span
    return [.store slot]
  | .field _ record name => do
    let code ← emitExpr r scopes record
    let index ← resolveField r record name
    return code ++ [.storeField index]
  | other => failAt other.span .invalidTarget

/-- The instructions of an expression whose value is not wanted. -/
def emitDropped (r : Registry) (scopes : Scopes) (e : Expr) : Diagnosed (List Instruction) := do
  let code ← emitExpr r scopes e
  match e.ty? with
  | none => failAt e.span .expressionUnchecked
  | some .nothing => return code
  | some _ => return code ++ [.pop]

/-- The instructions of the value of a `return`. -/
def emitResult (r : Registry) (scopes : Scopes) : Option Expr → Diagnosed (List Instruction)
  | none => .ok []
  | some value => emitExpr r scopes value

namespace Emitter

/-- Appends the code of the declaration of a variable, which holds its value behind the instruction
that sets it. -/
def varDecl (r : Registry) (E : Emitter) (decl : VarDecl) : Diagnosed Emitter := do
  let value ← emitExpr r E.scopes decl.value
  let E := E.emit value
  match decl.ty with
  | none => failAt decl.span .variableUnchecked
  | some ty =>
    let (slot, E) ← E.declare decl.name ty decl.slot (E.offset + 1) false
    return E.emit [.store slot]

mutual

/-- Appends the code of a statement. -/
def stmt (r : Registry) (E : Emitter) : Stmt → Diagnosed Emitter
  | .comment .. => .ok E
  | .expr e => do
    let E := E.enter e.span.line
    let code ← emitDropped r E.scopes e
    return E.emit code
  | .var decl => (E.enter decl.span.line).varDecl r decl
  | .assign target value span => do
    let E := E.enter span.line
    let first ← emitExpr r E.scopes value
    let second ← emitTarget r E.scopes target
    return E.emit (first ++ second)
  | .cond condition thenBlock elseBlock span => do
    let E := E.enter span.line
    let test ← emitExpr r E.scopes condition
    let E := E.emit test
    let pastThen := E.offset
    let E ← (E.emit [.jumpIfFalse 0]).openBlock.stmts r thenBlock
    let E := E.closeBlock
    let pastElse := E.offset
    let E := E.emit [.jump 0]
    let E ← E.patchJump E.offset pastThen
    let E ← E.openBlock.stmts r elseBlock
    let E := E.closeBlock
    E.patchJump E.offset pastElse
  | .whileLoop condition body span => do
    let E := E.enter span.line
    let start := E.offset
    let header := E.current
    let test ← emitExpr r E.scopes condition
    let E := E.emit test
    let toExit := E.offset
    let E ← (E.emit [.jumpIfFalse 0]).openLoop.stmts r body
    let (context, E) := E.closeLoop
    let E ← E.patchJumps start context.continues
    let E := { E with current := header }.emit [.jump start]
    let exit := E.offset
    let E ← E.patchJump exit toExit
    E.patchJumps exit context.breaks
  | .repeatLoop count body span => do
    let E := E.enter span.line
    let header := E.current
    let times ← emitExpr r E.scopes count
    let E := E.emit times
    let start := E.offset
    let E := E.emit [.dup, .push (.number 0), .binary .greater]
    let toExit := E.offset
    let E ← (E.emit [.jumpIfFalse 0]).openLoop.stmts r body
    let (context, E) := E.closeLoop
    let next := E.offset
    let E := { E with current := header }.emit [.push (.number 1)]
    let E ← E.patchJumps next context.continues
    let E := E.emit [.binary .subtract, .jump start]
    let exit := E.offset
    let E := E.emit [.pop]
    let E ← E.patchJump exit toExit
    E.patchJumps exit context.breaks
  | .ret value span => do
    let E := E.enter span.line
    let code ← emitResult r E.scopes value
    return E.emit (code ++ [.ret])
  | .breakLoop span => (E.enter span.line).leaveBody span LoopContext.noteBreak
  | .continueLoop span => (E.enter span.line).leaveBody span LoopContext.noteContinue

/-- Appends the code of statements in a row. -/
def stmts (r : Registry) (E : Emitter) : List Stmt → Diagnosed Emitter
  | [] => .ok E
  | s :: rest => do
    let E ← E.stmt r s
    E.stmts r rest

end

/-- Declares parameters in order; they hold values from the first instruction on. -/
def params (E : Emitter) : List Param → Diagnosed Emitter
  | [] => .ok E
  | p :: rest => do
    let (_, E) ← E.declare p.name (p.ty.getD .nothing) p.slot 0 true
    E.params rest

/-- Appends the `return` behind a body that lacks one. It belongs to the last statement, or to a
statement of its own on the function's line if there is none. -/
def closing (E : Emitter) (decl : FunctionDecl) : Emitter :=
  if endsWithReturn decl.body then E
  else if E.code.isEmpty then (E.enter decl.span.line).emit [.ret]
  else E.emit [.ret]

end Emitter

/-! ## Functions and modules -/

/-- The code of a function under its number. Parameters live from the first to the last
instruction. -/
def emitFunction (r : Registry) (index : Nat) (decl : FunctionDecl) : Diagnosed FunctionCode := do
  let E ← (Emitter.initial decl.span.line).params decl.params
  let params := List.range E.locals.length
  let E ← E.beginLocals.stmts r decl.body
  let E := (E.closing decl).endLocals
  return ⟨index, decl.name.name, signature decl.name.name decl.paramTys decl.resultTy,
    decl.params.length, decl.resultTy, endRanges (E.offset - 1) E.locals params,
    E.code.map (·.instruction), E.code.map (·.info),
    Array.replicate E.code.size none⟩

/-- The code of functions in order, numbered from `index`. -/
def emitFunctions (r : Registry) (index : Nat) : List FunctionDecl → Diagnosed (List FunctionCode)
  | [] => .ok []
  | decl :: rest => do
    let first ← emitFunction r index decl
    let others ← emitFunctions r (index + 1) rest
    return first :: others

/-- The module of annotated functions, the one of the statements outside of functions first. -/
def emitModule {σ : Type} (functions : List FunctionDecl) (environment : Environment σ) :
    Diagnosed (Module σ) := do
  let code ← emitFunctions environment.registry 0 functions
  return ⟨code, environment.registry, environment.hostFunctions⟩

end Stepwise
