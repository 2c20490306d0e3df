import Stepwise.Proofs.Code.Parts
import Stepwise.Proofs.Typing.Programs

/-!
# The layout of code

The instructions of an annotated tree as a function of the tree: `Expr.code`, `Stmt.code` and
`FunctionDecl.code`. Making code follows the scopes of a function once more to see that the
annotations fit them; where it succeeds, what it makes is the code of the tree (`emitExpr_eq`,
`emitStmt_eq`), and code is as long as its size says.
-/

set_option autoImplicit false

namespace Stepwise

open Diagnosed

/-! ## The code of a tree -/

/-- The place of a field in records of a type. -/
def Registry.fieldPlace? (r : Registry) (t : Ty) (name : String) : Option Nat :=
  match t with
  | .record recordName => (r.record? recordName).bind (·.fieldIndex? name)
  | _ => none

/-- The instruction that goes to a function. -/
def Callee.instruction : Callee → Instruction
  | .user index => .call index
  | .host index => .callHost index

mutual

/-- The instructions of an expression. -/
def Expr.code (r : Registry) : Expr → List Instruction
  | .number _ v => [.push (.number v)]
  | .boolean _ v => [.push (.boolean v)]
  | .string _ v => [.push (.string v)]
  | .reference _ _ slot => [.load (slot.getD 0)]
  | .call _ _ arguments callee => Expr.codes r arguments ++ [(callee.getD (.user 0)).instruction]
  | .field _ record name =>
    record.code r ++ [.loadField ((r.fieldPlace? record.ty name.name).getD 0)]
  | .unary _ op operand => operand.code r ++ [.unary op]
  | .binary _ op left right => left.code r ++ right.code r ++ [binaryInstruction op]

/-- The instructions of expressions in a row. -/
def Expr.codes (r : Registry) : List Expr → List Instruction
  | [] => []
  | e :: es => e.code r ++ Expr.codes r es

end

/-- The instructions that set a target to the value on the stack. -/
def Expr.targetCode (r : Registry) : Expr → List Instruction
  | .reference _ _ slot => [.store (slot.getD 0)]
  | .field _ record name =>
    record.code r ++ [.storeField ((r.fieldPlace? record.ty name.name).getD 0)]
  | _ => [.pop]

/-- The instructions that drop the value of an expression, if it has one. -/
def Expr.dropCode (e : Expr) : List Instruction := if e.ty? = some .nothing then [] else [.pop]

/-- The test at the head of a repetition: whether the count on the stack is above zero. -/
def repeatTest (exit : Nat) : List Instruction :=
  [.dup, .push (.number 0), .binary .greater, .jumpIfFalse exit]

/-- The end of a repetition: the count on the stack goes down by one; behind the jump back it is
dropped. -/
def repeatBack (header : Nat) : List Instruction :=
  [.push (.number 1), .binary .subtract, .jump header, .pop]

mutual

/-- The instructions of a statement that starts at `pc`, in the given loop if any. -/
def Stmt.code (r : Registry) (loop : Option LoopTargets) (pc : Nat) : Stmt → List Instruction
  | .comment .. => []
  | .expr e => e.code r ++ e.dropCode
  | .var decl => decl.value.code r ++ [.store (decl.slot.getD 0)]
  | .assign target value _ => value.code r ++ target.targetCode r
  | .cond condition thenBlock elseBlock _ =>
    let thenStart := pc + condition.size + 1
    let elseStart := thenStart + Stmt.sizes thenBlock + 1
    let exit := elseStart + Stmt.sizes elseBlock
    condition.code r ++ [.jumpIfFalse elseStart] ++ Stmt.codes r loop thenStart thenBlock ++
      [.jump exit] ++
      Stmt.codes r loop elseStart elseBlock
  | .whileLoop condition body _ =>
    let bodyStart := pc + condition.size + 1
    let exit := bodyStart + Stmt.sizes body + 1
    condition.code r ++ [.jumpIfFalse exit] ++ Stmt.codes r (some ⟨exit, pc⟩) bodyStart body ++
      [.jump pc]
  | .repeatLoop count body _ =>
    let header := pc + count.size
    let bodyStart := header + 4
    let next := bodyStart + Stmt.sizes body
    let exit := next + 3
    count.code r ++ repeatTest exit ++ Stmt.codes r (some ⟨exit, next⟩) bodyStart body ++
      repeatBack header
  | .ret (some value) _ => value.code r ++ [.ret]
  | .ret none _ => [.ret]
  | .breakLoop _ => [.jump ((loop.map (·.exit)).getD 0)]
  | .continueLoop _ => [.jump ((loop.map (·.next)).getD 0)]

/-- The instructions of statements in a row. -/
def Stmt.codes (r : Registry) (loop : Option LoopTargets) (pc : Nat) : List Stmt → List Instruction
  | [] => []
  | s :: rest => s.code r loop pc ++ Stmt.codes r loop (pc + s.size) rest

end

/-- The `return` behind a body that lacks one. -/
def FunctionDecl.closing (d : FunctionDecl) : List Instruction :=
  if endsWithReturn d.body then [] else [.ret]

/-- The instructions of a function. -/
def FunctionDecl.code (r : Registry) (d : FunctionDecl) : List Instruction :=
  Stmt.codes r none 0 d.body ++ d.closing

/-! ## Code is as long as its size says -/

mutual

@[simp] theorem Expr.length_code (r : Registry) : ∀ e : Expr, (e.code r).length = e.size
  | .number .. | .boolean .. | .string .. | .reference .. => rfl
  | .call _ _ arguments _ => by simp [Expr.code, Expr.size, Expr.length_codes r arguments]
  | .field _ record _ => by simp [Expr.code, Expr.size, Expr.length_code r record]
  | .unary _ _ operand => by simp [Expr.code, Expr.size, Expr.length_code r operand]
  | .binary _ _ left right => by
      simp [Expr.code, Expr.size, Expr.length_code r left, Expr.length_code r right, Nat.add_assoc]

@[simp] theorem Expr.length_codes (r : Registry) :
    ∀ es : List Expr, (Expr.codes r es).length = Expr.sizes es
  | [] => rfl
  | e :: es => by simp [Expr.codes, Expr.sizes, Expr.length_code r e, Expr.length_codes r es]

end

@[simp] theorem Expr.length_targetCode (r : Registry) (e : Expr) :
    (e.targetCode r).length = e.targetSize := by
  cases e <;> simp [Expr.targetCode, Expr.targetSize]

@[simp] theorem Expr.length_dropCode (e : Expr) : e.dropCode.length = e.dropSize := by
  unfold Expr.dropCode Expr.dropSize
  split <;> rfl

mutual

@[simp] theorem Stmt.length_code (r : Registry) :
    ∀ (s : Stmt) (loop : Option LoopTargets) (pc : Nat),
    (s.code r loop pc).length = s.size
  | .comment .., loop, pc => rfl
  | .expr e, loop, pc => by simp [Stmt.code, Stmt.size]
  | .var decl, loop, pc => by simp [Stmt.code, Stmt.size]
  | .assign target value span, loop, pc => by simp [Stmt.code, Stmt.size]
  | .cond condition thenBlock elseBlock span, loop, pc => by
      simp [Stmt.code, Stmt.size, Stmt.length_codes r thenBlock, Stmt.length_codes r elseBlock]
      omega
  | .whileLoop condition body span, loop, pc => by
      simp [Stmt.code, Stmt.size, Stmt.length_codes r body]
      omega
  | .repeatLoop count body span, loop, pc => by
      simp [Stmt.code, Stmt.size, Stmt.length_codes r body, repeatTest, repeatBack]
      omega
  | .ret (some value) span, loop, pc => by simp [Stmt.code, Stmt.size]
  | .ret none span, loop, pc => rfl
  | .breakLoop span, loop, pc => rfl
  | .continueLoop span, loop, pc => rfl

@[simp] theorem Stmt.length_codes (r : Registry) : ∀ (ss : List Stmt) (loop : Option LoopTargets)
    (pc : Nat),
    (Stmt.codes r loop pc ss).length = Stmt.sizes ss
  | [], loop, pc => rfl
  | s :: rest, loop, pc => by
      simp [Stmt.codes, Stmt.sizes, Stmt.length_code r s, Stmt.length_codes r rest]

end

theorem FunctionDecl.length_code (r : Registry) (d : FunctionDecl) :
    (d.code r).length = d.size := by
  unfold FunctionDecl.code FunctionDecl.closing FunctionDecl.size
  split <;> simp

/-! ## What is made is the code of the tree -/

theorem resolveSlot_eq_ok {scopes : Scopes} {name : String} {annotated : Option Nat} {span : Span}
    {slot : Nat} (h : resolveSlot scopes name annotated span = .ok slot) :
    annotated = some slot := by
  unfold resolveSlot at h
  split at h
  · split at h
    · next heq =>
        cases h
        exact heq
    · simp at h
  · simp at h

theorem resolveField_eq_ok {r : Registry} {record : Expr} {name : Ident} {index : Nat}
    (h : resolveField r record name = .ok index) :
    r.fieldPlace? record.ty name.name = some index := by
  unfold resolveField at h
  split at h
  · next recordName hty =>
      split at h
      · next found hfound =>
          cases h
          rw [Expr.ty, hty, Option.getD_some]
          exact hfound
      · simp at h
  · simp at h

mutual

theorem emitExpr_eq {r : Registry} {scopes : Scopes} :
    ∀ (e : Expr) {code : List Instruction}, emitExpr r scopes e = .ok code → code = e.code r
  | .number i v, code, h => by
      cases h
      rfl
  | .boolean i v, code, h => by
      cases h
      rfl
  | .string i v, code, h => by
      cases h
      rfl
  | .reference i name annotated, code, h => by
      obtain ⟨slot, hslot, rfl⟩ := emitExpr_reference_eq_ok.mp h
      rw [resolveSlot_eq_ok hslot]
      rfl
  | .call i name arguments callee, code, h => by
      obtain ⟨inner, call, hinner, hcall, rfl⟩ := emitExpr_call_eq_ok.mp h
      rw [emitExprs_eq arguments hinner, Expr.code]
      unfold callInstruction at hcall
      split at hcall
      · cases hcall
        rfl
      · cases hcall
        rfl
      · simp at hcall
  | .field i record name, code, h => by
      obtain ⟨inner, index, hinner, hindex, rfl⟩ := emitExpr_field_eq_ok.mp h
      rw [emitExpr_eq record hinner, Expr.code, resolveField_eq_ok hindex, Option.getD_some]
  | .unary i op operand, code, h => by
      obtain ⟨inner, hinner, rfl⟩ := emitExpr_unary_eq_ok.mp h
      rw [emitExpr_eq operand hinner, Expr.code]
  | .binary i op left right, code, h => by
      obtain ⟨first, second, hfirst, hsecond, rfl⟩ := emitExpr_binary_eq_ok.mp h
      rw [emitExpr_eq left hfirst, emitExpr_eq right hsecond, Expr.code]

theorem emitExprs_eq {r : Registry} {scopes : Scopes} :
    ∀ (es : List Expr) {code : List Instruction}, emitExprs r scopes es = .ok code →
    code = Expr.codes r es
  | [], code, h => by
      cases h
      rfl
  | e :: es, code, h => by
      obtain ⟨first, others, hfirst, hothers, rfl⟩ := emitExprs_cons_eq_ok.mp h
      rw [emitExpr_eq e hfirst, emitExprs_eq es hothers, Expr.codes]

end

theorem emitTarget_eq {r : Registry} {scopes : Scopes} {target : Expr} {code : List Instruction}
    (h : emitTarget r scopes target = .ok code) : code = target.targetCode r := by
  cases target with
  | reference i name annotated =>
      obtain ⟨slot, hslot, rfl⟩ := emitTarget_reference_eq_ok.mp h
      rw [resolveSlot_eq_ok hslot]
      rfl
  | field i record name =>
      obtain ⟨inner, index, hinner, hindex, rfl⟩ := emitTarget_field_eq_ok.mp h
      rw [emitExpr_eq _ hinner, Expr.targetCode, resolveField_eq_ok hindex, Option.getD_some]
  | _ => simp [emitTarget] at h

theorem emitDropped_eq {r : Registry} {scopes : Scopes} {e : Expr} {code : List Instruction}
    (h : emitDropped r scopes e = .ok code) : code = e.code r ++ e.dropCode := by
  obtain ⟨inner, hinner, h⟩ := bind_eq_ok.mp h
  rw [emitExpr_eq e hinner] at h
  unfold Expr.dropCode
  split at h
  · simp at h
  · next hty =>
      cases h
      rw [if_pos hty, List.append_nil]
  · next t hne hty =>
      cases h
      rw [if_neg]
      intro hnothing
      rw [hty, Option.some.injEq] at hnothing
      exact hne hnothing

theorem declareSlot_eq_ok {scopes after : Scopes} {name : Ident} {t : Ty} {annotated : Option Nat}
    {slot : Nat} (h : declareSlot scopes name t annotated = .ok (slot, after)) :
    annotated = some slot := by
  unfold declareSlot at h
  split at h
  · simp at h
  · split at h
    · next heq =>
        cases h
        exact heq
    · simp at h

@[simp] theorem EmitState.map_instruction_lines (st : EmitState) (code : List Instruction) :
    (st.lines code).map (·.instruction) = code := by
  simp [EmitState.lines, Function.comp_def]

/-- The code and the locals that were made for a tree of the given code, which declares variables of
the given types. -/
def Emitted.Made (em : Emitted) (code : List Instruction) (declared : List Ty) : Prop :=
  em.code.map (·.instruction) = code ∧ em.locals.map (·.ty) = declared

theorem emitVariable_eq {r : Registry} {loop : Option LoopTargets} {blockEnd pc : Nat}
    {st : EmitState} {decl : VarDecl} {em : Emitted}
    (h : emitVariable r blockEnd pc st decl = .ok em) :
    em.Made ((Stmt.var decl).code r loop pc) (Stmt.var decl).declared := by
  obtain ⟨value, t, slot, scopes, hvalue, hty, hdeclare, rfl⟩ := emitVariable_eq_ok.mp h
  refine ⟨?_, ?_⟩
  · rw [EmitState.map_instruction_lines, emitExpr_eq _ hvalue, Stmt.code,
      declareSlot_eq_ok hdeclare]
    rfl
  · rw [Stmt.declared, hty]
    rfl

theorem emitJump_eq {st : EmitState} {span : Span} {target : Option Nat} {em : Emitted}
    (h : emitJump st span target = .ok em) : em.Made [.jump (target.getD 0)] [] := by
  obtain ⟨pc, rfl, rfl⟩ := emitJump_eq_ok.mp h
  exact ⟨rfl, rfl⟩

theorem emitResult_eq {r : Registry} {scopes : Scopes} {value : Option Expr}
    {code : List Instruction} (h : emitResult r scopes value = .ok code) (loop : Option LoopTargets)
    (pc : Nat) (span : Span) :
    code ++ [.ret] = (Stmt.ret value span).code r loop pc := by
  cases value with
  | none =>
      cases h
      rfl
  | some e => rw [emitExpr_eq e h, Stmt.code]

mutual

theorem emitStmt_eq {r : Registry} :
    ∀ (s : Stmt) {loop : Option LoopTargets} {blockEnd pc : Nat} {st : EmitState} {em : Emitted},
      emitStmt r loop blockEnd pc st s = .ok em → em.Made (s.code r loop pc) s.declared
  | .comment text span, loop, blockEnd, pc, st, em, h => by
      cases h
      exact ⟨rfl, rfl⟩
  | .expr e, loop, blockEnd, pc, st, em, h => by
      obtain ⟨code, hcode, rfl⟩ := emitStmt_expr_eq_ok.mp h
      exact ⟨by rw [EmitState.map_instruction_lines, emitDropped_eq hcode, Stmt.code], rfl⟩
  | .var decl, loop, blockEnd, pc, st, em, h => emitVariable_eq h
  | .assign target value span, loop, blockEnd, pc, st, em, h => by
      obtain ⟨first, second, hfirst, hsecond, rfl⟩ := emitStmt_assign_eq_ok.mp h
      exact ⟨by rw [EmitState.map_instruction_lines, emitExpr_eq value hfirst,
        emitTarget_eq hsecond, Stmt.code], rfl⟩
  | .cond condition thenBlock elseBlock span, loop, blockEnd, pc, st, em, h => by
      obtain ⟨test, first, second, htest, hfirst, hsecond, rfl⟩ := emitStmt_cond_eq_ok.mp h
      obtain ⟨hcode, hlocals⟩ := emitStmts_eq thenBlock hfirst
      obtain ⟨hcode', hlocals'⟩ := emitStmts_eq elseBlock hsecond
      refine ⟨?_, ?_⟩
      · simp only [List.map_append, EmitState.map_instruction_lines, hcode, hcode',
          emitExpr_eq condition htest, Stmt.code]
      · rw [List.map_append, hlocals, hlocals', Stmt.declared]
  | .whileLoop condition body span, loop, blockEnd, pc, st, em, h => by
      obtain ⟨test, inner, htest, hinner, rfl⟩ := emitStmt_whileLoop_eq_ok.mp h
      obtain ⟨hcode, hlocals⟩ := emitStmts_eq body hinner
      refine ⟨?_, hlocals⟩
      simp only [List.map_append, EmitState.map_instruction_lines, hcode,
        emitExpr_eq condition htest, Stmt.code]
  | .repeatLoop count body span, loop, blockEnd, pc, st, em, h => by
      obtain ⟨times, inner, htimes, hinner, rfl⟩ := emitStmt_repeatLoop_eq_ok.mp h
      obtain ⟨hcode, hlocals⟩ := emitStmts_eq body hinner
      refine ⟨?_, hlocals⟩
      simp only [List.map_append, EmitState.map_instruction_lines, hcode, emitExpr_eq count htimes,
        Stmt.code, repeatTest, repeatBack]
  | .ret value span, loop, blockEnd, pc, st, em, h => by
      obtain ⟨code, hcode, rfl⟩ := emitStmt_ret_eq_ok.mp h
      exact ⟨by rw [EmitState.map_instruction_lines, emitResult_eq hcode loop pc span],
        by rw [Stmt.declared]; rfl⟩
  | .breakLoop span, loop, blockEnd, pc, st, em, h => emitJump_eq h
  | .continueLoop span, loop, blockEnd, pc, st, em, h => emitJump_eq h

theorem emitStmts_eq {r : Registry} :
    ∀ (ss : List Stmt) {loop : Option LoopTargets} {blockEnd pc : Nat} {st : EmitState}
      {em : Emitted},
      emitStmts r loop blockEnd pc st ss = .ok em →
      em.Made (Stmt.codes r loop pc ss) (Stmt.declaredIn ss)
  | [], loop, blockEnd, pc, st, em, h => by
      cases h
      exact ⟨rfl, rfl⟩
  | s :: rest, loop, blockEnd, pc, st, em, h => by
      obtain ⟨first, others, hfirst, hothers, rfl⟩ := emitStmts_cons_eq_ok.mp h
      obtain ⟨hcode, hlocals⟩ := emitStmt_eq s hfirst
      obtain ⟨hcode', hlocals'⟩ := emitStmts_eq rest hothers
      refine ⟨?_, ?_⟩
      · rw [List.map_append, hcode, hcode', Stmt.codes]
      · rw [List.map_append, hlocals, hlocals', Stmt.declaredIn]

end

/-! ## Code inside code -/

/-- A stretch of code stands at a place in other code. -/
def CodeAt (code : List Instruction) (pc : Nat) (piece : List Instruction) : Prop :=
  ∀ (i : Nat) (I : Instruction), piece[i]? = some I → code[pc + i]? = some I

namespace CodeAt

variable {code first second : List Instruction} {pc : Nat}

theorem append (h : CodeAt code pc (first ++ second)) :
    CodeAt code pc first ∧ CodeAt code (pc + first.length) second := by
  refine ⟨?_, ?_⟩
  · intro i I hi
    exact h i I (by rw [List.getElem?_append_left (List.getElem?_eq_some_iff.mp hi).1, hi])
  · intro i I hi
    rw [Nat.add_assoc]
    exact h _ I
      (by rw [List.getElem?_append_right (Nat.le_add_right _ _), Nat.add_sub_cancel_left, hi])

theorem head {I : Instruction} {rest : List Instruction} (h : CodeAt code pc (I :: rest)) :
    code[pc]? = some I :=
  h 0 I rfl

theorem tail {I : Instruction} {rest : List Instruction} (h : CodeAt code pc (I :: rest)) :
    CodeAt code (pc + 1) rest := by
  intro i J hi
  rw [Nat.add_assoc, Nat.add_comm 1]
  exact h (i + 1) J hi

/-! What stands behind a tree is as far from its beginning as its size says. -/

section Trees

variable {r : Registry} {loop : Option LoopTargets} {span : Span} {rest : List Instruction}

theorem expr {e : Expr} (h : CodeAt code pc (e.code r ++ rest)) :
    CodeAt code pc (e.code r) ∧ CodeAt code (pc + e.size) rest := by
  have hparts := h.append
  rwa [Expr.length_code] at hparts

theorem exprs {es : List Expr} (h : CodeAt code pc (Expr.codes r es ++ rest)) :
    CodeAt code pc (Expr.codes r es) ∧ CodeAt code (pc + Expr.sizes es) rest := by
  have hparts := h.append
  rwa [Expr.length_codes] at hparts

theorem operands {left right : Expr} (h : CodeAt code pc (left.code r ++ right.code r ++ rest)) :
    CodeAt code pc (left.code r) ∧ CodeAt code (pc + left.size) (right.code r) ∧
      CodeAt code (pc + left.size + right.size) rest := by
  rw [List.append_assoc] at h
  exact ⟨h.expr.1, h.expr.2.expr⟩

theorem stmt {s : Stmt} {start : Nat} (h : CodeAt code pc (s.code r loop start ++ rest)) :
    CodeAt code pc (s.code r loop start) ∧ CodeAt code (pc + s.size) rest := by
  have hparts := h.append
  rwa [Stmt.length_code] at hparts

theorem stmts {ss : List Stmt} {start : Nat}
    (h : CodeAt code pc (Stmt.codes r loop start ss ++ rest)) :
    CodeAt code pc (Stmt.codes r loop start ss) ∧ CodeAt code (pc + Stmt.sizes ss) rest := by
  have hparts := h.append
  rwa [Stmt.length_codes] at hparts

theorem cond {condition : Expr} {thenBlock elseBlock : List Stmt}
    (h : CodeAt code pc ((Stmt.cond condition thenBlock elseBlock span).code r loop pc)) :
    let thenStart := pc + condition.size + 1
    let elseStart := thenStart + Stmt.sizes thenBlock + 1
    CodeAt code pc (condition.code r) ∧ code[pc + condition.size]? = some (.jumpIfFalse elseStart) ∧
      CodeAt code thenStart (Stmt.codes r loop thenStart thenBlock) ∧
      code[thenStart + Stmt.sizes thenBlock]? = some (.jump (elseStart + Stmt.sizes elseBlock)) ∧
      CodeAt code elseStart (Stmt.codes r loop elseStart elseBlock) := by
  simp only [Stmt.code, List.append_assoc] at h
  obtain ⟨htest, h⟩ := h.expr
  obtain ⟨hthen, h'⟩ := h.tail.stmts
  exact ⟨htest, h.head, hthen, h'.head, h'.tail⟩

theorem whileLoop {condition : Expr} {body : List Stmt}
    (h : CodeAt code pc ((Stmt.whileLoop condition body span).code r loop pc)) :
    let bodyStart := pc + condition.size + 1
    let exit := bodyStart + Stmt.sizes body + 1
    CodeAt code pc (condition.code r) ∧ code[pc + condition.size]? = some (.jumpIfFalse exit) ∧
      CodeAt code bodyStart (Stmt.codes r (some ⟨exit, pc⟩) bodyStart body) ∧
      code[bodyStart + Stmt.sizes body]? = some (.jump pc) := by
  simp only [Stmt.code, List.append_assoc] at h
  obtain ⟨htest, h⟩ := h.expr
  obtain ⟨hbody, h'⟩ := h.tail.stmts
  exact ⟨htest, h.head, hbody, h'.head⟩

theorem repeatLoop {count : Expr} {body : List Stmt}
    (h : CodeAt code pc ((Stmt.repeatLoop count body span).code r loop pc)) :
    let bodyStart := pc + count.size + 4
    let next := bodyStart + Stmt.sizes body
    CodeAt code pc (count.code r) ∧ CodeAt code (pc + count.size) (repeatTest (next + 3)) ∧
      CodeAt code bodyStart (Stmt.codes r (some ⟨next + 3, next⟩) bodyStart body) ∧
      CodeAt code next (repeatBack (pc + count.size)) := by
  simp only [Stmt.code, List.append_assoc] at h
  obtain ⟨hcount, h⟩ := h.expr
  obtain ⟨htest, h⟩ := h.append
  obtain ⟨hbody, hback⟩ := h.stmts
  exact ⟨hcount, htest, hbody, hback⟩

end Trees

end CodeAt

theorem FunctionDecl.codeAt_body (r : Registry) (d : FunctionDecl) :
    CodeAt (d.code r) 0 (Stmt.codes r none 0 d.body) := by
  intro i I hi
  rw [Nat.zero_add, FunctionDecl.code, List.getElem?_append_left
    (List.getElem?_eq_some_iff.mp hi).1, hi]

/-- The closing `return` stands behind the body. -/
theorem FunctionDecl.code_closing (r : Registry) (d : FunctionDecl)
    (h : endsWithReturn d.body = false) :
    (d.code r)[Stmt.sizes d.body]? = some .ret := by
  rw [FunctionDecl.code, FunctionDecl.closing, h, List.getElem?_append_right (by simp)]
  simp

end Stepwise
