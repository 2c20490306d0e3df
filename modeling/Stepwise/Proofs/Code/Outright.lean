import Stepwise.Code.Emission
import Stepwise.Proofs.Code.Size

/-!
# Making code outright

The code of a statement has a size that its tree tells, so the targets of its jumps and the ends of
its blocks could be known beforehand. Here code is made with this knowledge: every jump gets its
target at once and every local the whole of its range, and nothing is patched afterwards. This is
the form that code is reasoned about in; that the emitter makes the same code is shown apart from
it.

* `emitStmt` makes the code of a statement whose place, loop and block are known.
* `emitOutright` makes the code of a function.
-/

set_option autoImplicit false

namespace Stepwise

/-! ## Statements -/

/-- What has been made so far, as far as the next statement depends on it: the visible names, the
number of the next statement, and the statement that instructions belong to at the moment. -/
structure EmitState where
  scopes : Scopes
  nextIndex : Nat
  current : LineInfo
  deriving Repr

namespace EmitState

/-- The state in a statement that starts on a line. -/
def enter (st : EmitState) (line : Nat) : EmitState :=
  ⟨st.scopes, st.nextIndex + 1, ⟨st.nextIndex, line⟩⟩

/-- Instructions of the present statement. -/
def lines (st : EmitState) (code : List Instruction) : List CodeLine :=
  code.map fun i => ⟨i, st.current⟩

/-- The state in a new block. -/
def openBlock (st : EmitState) : EmitState := { st with scopes := st.scopes.push }

/-- The state behind a block. -/
def closeBlock (st : EmitState) : EmitState := { st with scopes := st.scopes.pop }

end EmitState

/-- The code of statements, the locals they declare in order, and the state behind them. -/
structure Emitted where
  code : List CodeLine
  locals : List LocalInfo
  state : EmitState
  deriving Repr

/-- Where `break` and `continue` of a loop go. -/
structure LoopTargets where
  exit : Nat
  next : Nat
  deriving Repr

/-- The code of the declaration of a variable at `pc`, in a block that ends with the instruction
`blockEnd`. -/
def emitVariable (r : Registry) (blockEnd pc : Nat) (st : EmitState) (decl : VarDecl) :
    Diagnosed Emitted := do
  let value ← emitExpr r st.scopes decl.value
  match decl.ty with
  | none => failAt decl.span .variableUnchecked
  | some ty =>
    let (slot, scopes) ← declareSlot st.scopes decl.name ty decl.slot
    return ⟨st.lines (value ++ [.store slot]),
      [⟨decl.name.name, ty, slot, ⟨pc + decl.value.size + 1, blockEnd⟩, false, decl.name.span⟩],
      { st with scopes }⟩

/-- The instructions of a `break` or `continue`, given where it goes. -/
def emitJump (st : EmitState) (span : Span) : Option Nat → Diagnosed Emitted
  | none => failAt span .strayJump
  | some target => .ok ⟨st.lines [.jump target], [], st⟩

mutual

/-- The code of a statement that starts at the instruction `pc`, in a block that ends with the
instruction `blockEnd` and in the given loop, if any. -/
def emitStmt (r : Registry) (loop : Option LoopTargets) (blockEnd pc : Nat) (before : EmitState) :
    Stmt → Diagnosed Emitted
  | .comment .. => .ok ⟨[], [], before⟩
  | .expr e => do
    let st := before.enter e.span.line
    let code ← emitDropped r st.scopes e
    return ⟨st.lines code, [], st⟩
  | .var decl => emitVariable r blockEnd pc (before.enter decl.span.line) decl
  | .assign target value span => do
    let st := before.enter span.line
    let first ← emitExpr r st.scopes value
    let second ← emitTarget r st.scopes target
    return ⟨st.lines (first ++ second), [], st⟩
  | .cond condition thenBlock elseBlock span => do
    let st := before.enter span.line
    let thenStart := pc + condition.size + 1
    let elseStart := thenStart + Stmt.sizes thenBlock + 1
    let exit := elseStart + Stmt.sizes elseBlock
    let test ← emitExpr r st.scopes condition
    let first ← emitStmts r loop (elseStart - 2) thenStart st.openBlock thenBlock
    let second ← emitStmts r loop (exit - 1) elseStart first.state.closeBlock.openBlock elseBlock
    return ⟨st.lines (test ++ [.jumpIfFalse elseStart]) ++ first.code ++ first.state.lines
      [.jump exit] ++ second.code, first.locals ++ second.locals, second.state.closeBlock⟩
  | .whileLoop condition body span => do
    let st := before.enter span.line
    let bodyStart := pc + condition.size + 1
    let exit := bodyStart + Stmt.sizes body + 1
    let test ← emitExpr r st.scopes condition
    let inner ← emitStmts r (some ⟨exit, pc⟩) (exit - 2) bodyStart st.openBlock body
    return ⟨st.lines (test ++ [.jumpIfFalse exit]) ++ inner.code ++ st.lines [.jump pc],
      inner.locals, { inner.state.closeBlock with current := st.current }⟩
  | .repeatLoop count body span => do
    let st := before.enter span.line
    let header := pc + count.size
    let bodyStart := header + 4
    let next := bodyStart + Stmt.sizes body
    let exit := next + 3
    let times ← emitExpr r st.scopes count
    let inner ← emitStmts r (some ⟨exit, next⟩) (next - 1) bodyStart st.openBlock body
    return ⟨st.lines (times ++ [.dup, .push (.number 0), .binary .greater, .jumpIfFalse exit]) ++
      inner.code ++ st.lines [.push (.number 1), .binary .subtract, .jump header, .pop],
      inner.locals,
      { inner.state.closeBlock with current := st.current }⟩
  | .ret value span => do
    let st := before.enter span.line
    let code ← emitResult r st.scopes value
    return ⟨st.lines (code ++ [.ret]), [], st⟩
  | .breakLoop span => emitJump (before.enter span.line) span (loop.map (·.exit))
  | .continueLoop span => emitJump (before.enter span.line) span (loop.map (·.next))

/-- The code of statements in a row. -/
def emitStmts (r : Registry) (loop : Option LoopTargets) (blockEnd pc : Nat) (st : EmitState) :
    List Stmt → Diagnosed Emitted
  | [] => .ok ⟨[], [], st⟩
  | s :: rest => do
    let first ← emitStmt r loop blockEnd pc st s
    let others ← emitStmts r loop blockEnd (pc + s.size) first.state rest
    return ⟨first.code ++ others.code, first.locals ++ others.locals, others.state⟩

end

/-! ## Functions -/

/-- Declares parameters in order; they live from the first to the last instruction. -/
def emitParams (scopes : Scopes) (last : Nat) : List Param → Diagnosed (List LocalInfo × Scopes)
  | [] => .ok ([], scopes)
  | p :: rest => do
    let ty := p.ty.getD .nothing
    let (slot, scopes) ← declareSlot scopes p.name ty p.slot
    let (others, scopes) ← emitParams scopes last rest
    return (⟨p.name.name, ty, slot, ⟨0, last⟩, true, p.name.span⟩ :: others, scopes)

/-- The closing `return` of a body that lacks one. It belongs to the last statement, or to a
statement of its own on the function's line if there is none. -/
def closingReturn (decl : FunctionDecl) (body : Emitted) : List CodeLine :=
  if endsWithReturn decl.body then []
  else if body.code.isEmpty then (body.state.enter decl.span.line).lines [.ret]
  else body.state.lines [.ret]

/-- The code of a function under its number. -/
def emitOutright (r : Registry) (index : Nat) (decl : FunctionDecl) : Diagnosed FunctionCode := do
  let last := decl.size - 1
  let (params, scopes) ← emitParams .initial last decl.params
  let body ← emitStmts r none last 0 ⟨scopes, 0, ⟨0, decl.span.line⟩⟩ decl.body
  let code := body.code ++ closingReturn decl body
  return ⟨index, decl.name.name, signature decl.name.name decl.paramTys decl.resultTy,
    decl.params.length, decl.resultTy, params ++ body.locals, (code.map (·.instruction)).toArray,
    (code.map (·.info)).toArray,
    Array.replicate code.length none⟩

end Stepwise
