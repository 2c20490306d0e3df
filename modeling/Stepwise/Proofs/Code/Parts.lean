import Stepwise.Proofs.Code.Outright
import Stepwise.Proofs.Diagnosed

/-!
# The parts of making code

Making the code of a tree succeeds exactly if making the code of its parts does, and then puts their
code together. There is one lemma for each form of tree that says what is put together in which
order, and what is shown of code elsewhere goes by these lemmas.
-/

set_option autoImplicit false

namespace Stepwise

open Diagnosed

variable {r : Registry}

/-! ## Expressions -/

section Expressions

variable {scopes : Scopes} {i : ExprInfo} {code : List Instruction}

theorem emitExpr_reference_eq_ok {name : String} {annotated : Option Nat} :
    emitExpr r scopes (.reference i name annotated) = .ok code ↔
      ∃ slot, resolveSlot scopes name annotated i.span = .ok slot ∧ code = [.load slot] := by
  simp only [emitExpr, bind_eq_ok, pure_eq_ok, @eq_comm _ code]

theorem emitExpr_call_eq_ok {name : Ident} {arguments : List Expr} {callee : Option Callee} :
    emitExpr r scopes (.call i name arguments callee) = .ok code ↔
      ∃ inner call, emitExprs r scopes arguments = .ok inner ∧
        callInstruction i.span callee = .ok call ∧
        code = inner ++ [call] := by
  simp only [emitExpr, bind_eq_ok, pure_eq_ok, exists_and_left, @eq_comm _ code]

theorem emitExpr_field_eq_ok {record : Expr} {name : Ident} :
    emitExpr r scopes (.field i record name) = .ok code ↔
      ∃ inner index, emitExpr r scopes record = .ok inner ∧ resolveField r record name = .ok index ∧
        code = inner ++ [.loadField index] := by
  simp only [emitExpr, bind_eq_ok, pure_eq_ok, exists_and_left, @eq_comm _ code]

theorem emitExpr_unary_eq_ok {op : UnaryOp} {operand : Expr} :
    emitExpr r scopes (.unary i op operand) = .ok code ↔
      ∃ inner, emitExpr r scopes operand = .ok inner ∧ code = inner ++ [.unary op] := by
  simp only [emitExpr, bind_eq_ok, pure_eq_ok, @eq_comm _ code]

theorem emitExpr_binary_eq_ok {op : BinaryOp} {left right : Expr} :
    emitExpr r scopes (.binary i op left right) = .ok code ↔
      ∃ first second, emitExpr r scopes left = .ok first ∧ emitExpr r scopes right = .ok second ∧
        code = first ++ second ++ [binaryInstruction op] := by
  simp only [emitExpr, bind_eq_ok, pure_eq_ok, exists_and_left, @eq_comm _ code]

theorem emitExprs_cons_eq_ok {e : Expr} {es : List Expr} :
    emitExprs r scopes (e :: es) = .ok code ↔
      ∃ first others, emitExpr r scopes e = .ok first ∧ emitExprs r scopes es = .ok others ∧
        code = first ++ others := by
  simp only [emitExprs, bind_eq_ok, pure_eq_ok, exists_and_left, @eq_comm _ code]

theorem emitTarget_reference_eq_ok {name : String} {annotated : Option Nat} :
    emitTarget r scopes (.reference i name annotated) = .ok code ↔
      ∃ slot, resolveSlot scopes name annotated i.span = .ok slot ∧ code = [.store slot] := by
  simp only [emitTarget, bind_eq_ok, pure_eq_ok, @eq_comm _ code]

theorem emitTarget_field_eq_ok {record : Expr} {name : Ident} :
    emitTarget r scopes (.field i record name) = .ok code ↔
      ∃ inner index, emitExpr r scopes record = .ok inner ∧ resolveField r record name = .ok index ∧
        code = inner ++ [.storeField index] := by
  simp only [emitTarget, bind_eq_ok, pure_eq_ok, exists_and_left, @eq_comm _ code]

end Expressions

/-! ## Statements -/

section Statements

variable {loop : Option LoopTargets} {blockEnd pc : Nat} {st : EmitState} {em : Emitted}
    {span : Span}

theorem emitVariable_eq_ok {decl : VarDecl} :
    emitVariable r blockEnd pc st decl = .ok em ↔
      ∃ value t slot scopes, emitExpr r st.scopes decl.value = .ok value ∧ decl.ty = some t ∧
        declareSlot st.scopes decl.name t decl.slot = .ok (slot, scopes) ∧
        em = ⟨st.lines (value ++ [.store slot]),
          [⟨decl.name.name, t, slot, ⟨pc + decl.value.size + 1, blockEnd⟩, false, decl.name.span⟩],
          { st with scopes }⟩ := by
  constructor
  · intro h
    obtain ⟨value, hvalue, h⟩ := bind_eq_ok.mp h
    split at h
    · simp at h
    · next t hty =>
        obtain ⟨⟨slot, scopes⟩, hdeclare, h⟩ := bind_eq_ok.mp h
        cases h
        exact ⟨value, t, slot, scopes, hvalue, hty, hdeclare, rfl⟩
  · rintro ⟨value, t, slot, scopes, hvalue, hty, hdeclare, rfl⟩
    refine bind_eq_ok.mpr ⟨value, hvalue, ?_⟩
    dsimp only
    rw [hty]
    exact bind_eq_ok.mpr ⟨_, hdeclare, rfl⟩

theorem emitJump_eq_ok {target : Option Nat} :
    emitJump st span target = .ok em ↔ ∃ pc, target = some pc ∧
    em = ⟨st.lines [.jump pc], [], st⟩ := by
  cases target with
  | none => simp [emitJump]
  | some pc => simp [emitJump, eq_comm]

theorem emitStmt_expr_eq_ok {e : Expr} :
    emitStmt r loop blockEnd pc st (.expr e) = .ok em ↔
      ∃ code, emitDropped r st.scopes e = .ok code ∧
        em = ⟨(st.enter e.span.line).lines code, [], st.enter e.span.line⟩ := by
  simp only [emitStmt, bind_eq_ok, pure_eq_ok, @eq_comm _ em]
  rfl

theorem emitStmt_assign_eq_ok {target value : Expr} :
    emitStmt r loop blockEnd pc st (.assign target value span) = .ok em ↔
      ∃ first second, emitExpr r st.scopes value = .ok first ∧
        emitTarget r st.scopes target = .ok second ∧
        em = ⟨(st.enter span.line).lines (first ++ second), [], st.enter span.line⟩ := by
  simp only [emitStmt, bind_eq_ok, pure_eq_ok, exists_and_left, @eq_comm _ em]
  rfl

theorem emitStmt_cond_eq_ok {condition : Expr} {thenBlock elseBlock : List Stmt} :
    emitStmt r loop blockEnd pc st (.cond condition thenBlock elseBlock span) = .ok em ↔
      ∃ test first second, emitExpr r st.scopes condition = .ok test ∧
        emitStmts r loop (pc + condition.size + 1 + Stmt.sizes thenBlock + 1 - 2)
          (pc + condition.size + 1) (st.enter span.line).openBlock thenBlock = .ok first ∧
        emitStmts r loop
          (pc + condition.size + 1 + Stmt.sizes thenBlock + 1 + Stmt.sizes elseBlock - 1)
            (pc + condition.size + 1 + Stmt.sizes thenBlock + 1) first.state.closeBlock.openBlock
              elseBlock =
            .ok second ∧
        em = ⟨(st.enter span.line).lines
              (test ++ [.jumpIfFalse (pc + condition.size + 1 + Stmt.sizes thenBlock + 1)]) ++
                first.code ++
            first.state.lines
              [.jump (pc + condition.size + 1 + Stmt.sizes thenBlock + 1 + Stmt.sizes elseBlock)] ++
            second.code,
          first.locals ++ second.locals, second.state.closeBlock⟩ := by
  simp only [emitStmt, bind_eq_ok, pure_eq_ok, exists_and_left, @eq_comm _ em]
  rfl

theorem emitStmt_whileLoop_eq_ok {condition : Expr} {body : List Stmt} :
    emitStmt r loop blockEnd pc st (.whileLoop condition body span) = .ok em ↔
      ∃ test inner, emitExpr r st.scopes condition = .ok test ∧
        emitStmts r (some ⟨pc + condition.size + 1 + Stmt.sizes body + 1, pc⟩)
          (pc + condition.size + 1 + Stmt.sizes body + 1 - 2) (pc + condition.size + 1)
          (st.enter span.line).openBlock body = .ok inner ∧
        em = ⟨(st.enter span.line).lines
              (test ++ [.jumpIfFalse (pc + condition.size + 1 + Stmt.sizes body + 1)]) ++
                inner.code ++
            (st.enter span.line).lines [.jump pc],
          inner.locals,
          { inner.state.closeBlock with current := (st.enter span.line).current }⟩ := by
  simp only [emitStmt, bind_eq_ok, pure_eq_ok, exists_and_left, @eq_comm _ em]
  rfl

theorem emitStmt_repeatLoop_eq_ok {count : Expr} {body : List Stmt} :
    emitStmt r loop blockEnd pc st (.repeatLoop count body span) = .ok em ↔
      ∃ times inner, emitExpr r st.scopes count = .ok times ∧
        emitStmts r
          (some ⟨pc + count.size + 4 + Stmt.sizes body + 3, pc + count.size + 4 + Stmt.sizes body⟩)
            (pc + count.size + 4 + Stmt.sizes body - 1) (pc + count.size + 4)
              (st.enter span.line).openBlock body =
            .ok inner ∧
        em = ⟨(st.enter span.line).lines (times ++ [.dup, .push (.number 0), .binary .greater,
              .jumpIfFalse (pc + count.size + 4 + Stmt.sizes body + 3)]) ++ inner.code ++
            (st.enter span.line).lines [.push (.number 1), .binary .subtract,
              .jump (pc + count.size), .pop],
          inner.locals,
          { inner.state.closeBlock with current := (st.enter span.line).current }⟩ := by
  simp only [emitStmt, bind_eq_ok, pure_eq_ok, exists_and_left, @eq_comm _ em]
  rfl

theorem emitStmt_ret_eq_ok {value : Option Expr} :
    emitStmt r loop blockEnd pc st (.ret value span) = .ok em ↔
      ∃ code, emitResult r st.scopes value = .ok code ∧
        em = ⟨(st.enter span.line).lines (code ++ [.ret]), [], st.enter span.line⟩ := by
  simp only [emitStmt, bind_eq_ok, pure_eq_ok, @eq_comm _ em]
  rfl

theorem emitStmts_cons_eq_ok {s : Stmt} {rest : List Stmt} :
    emitStmts r loop blockEnd pc st (s :: rest) = .ok em ↔
      ∃ first others, emitStmt r loop blockEnd pc st s = .ok first ∧
        emitStmts r loop blockEnd (pc + s.size) first.state rest = .ok others ∧
        em = ⟨first.code ++ others.code, first.locals ++ others.locals, others.state⟩ := by
  simp only [emitStmts, bind_eq_ok, pure_eq_ok, exists_and_left, @eq_comm _ em]

end Statements

/-! ## Parameters -/

theorem emitParams_cons_eq_ok {scopes after : Scopes} {last : Nat} {p : Param} {rest : List Param}
    {locals : List LocalInfo} :
    emitParams scopes last (p :: rest) = .ok (locals, after) ↔
      ∃ slot next others, declareSlot scopes p.name (p.ty.getD .nothing) p.slot = .ok (slot, next) ∧
        emitParams next last rest = .ok (others, after) ∧
        locals = ⟨p.name.name, p.ty.getD .nothing, slot, ⟨0, last⟩, true, p.name.span⟩ ::
          others := by
  constructor
  · intro h
    obtain ⟨⟨slot, next⟩, hdeclare, h⟩ := bind_eq_ok.mp h
    obtain ⟨⟨others, final⟩, hothers, h⟩ := bind_eq_ok.mp h
    cases h
    exact ⟨slot, next, others, hdeclare, hothers, rfl⟩
  · rintro ⟨slot, next, others, hdeclare, hothers, rfl⟩
    exact bind_eq_ok.mpr ⟨_, hdeclare, bind_eq_ok.mpr ⟨_, hothers, rfl⟩⟩

end Stepwise
