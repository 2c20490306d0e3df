import Stepwise.Proofs.Diagnosed
import Stepwise.Typing.Stmt

/-!
# The parts of checking

Checking an expression or statement succeeds exactly if checking its parts does and what they turn
out to be fits together. There is one lemma for each form of expression and of statement that says
so, in both directions. What is shown of checking elsewhere, be it that what is checked keeps the
rules or that what keeps them is checked, goes by these lemmas and not by how the checker is
written.
-/

set_option autoImplicit false

namespace Stepwise

open Diagnosed

/-! ## Expressions -/

section Expressions

variable {r : Registry} {scopes : Scopes} {i : ExprInfo} {checked : Expr} {t : Ty}

theorem checkExpr_reference_eq_ok {name : String} {room : Option Nat} :
    checkExpr r scopes (.reference i name room) = .ok (checked, t) ↔
      ∃ symbol, scopes.find? name = some symbol ∧ t = symbol.ty ∧
        checked = .reference { i with ty := some t } name (some symbol.slot) := by
  rw [checkExpr]
  cases hfound : scopes.find? name with
  | none => simp
  | some symbol => grind

theorem checkExpr_call_eq_ok {name : Ident} {arguments : List Expr} {room : Option Callee} :
    checkExpr r scopes (.call i name arguments room) = .ok (checked, t) ↔
      ∃ all f, checkExprs r scopes arguments = .ok all ∧
        r.resolveCall? name.name (all.map (·.2)) = some f ∧
        t = f.result ∧
        checked = .call { i with ty := some t } name (all.map (·.1)) (some f.callee) := by
  constructor
  · intro h
    obtain ⟨all, hall, h⟩ := bind_eq_ok.mp h
    dsimp only at h
    split at h
    · simp at h
    · next f hfound =>
        cases h
        exact ⟨all, f, hall, hfound, rfl, rfl⟩
  · rintro ⟨all, f, hall, hfound, rfl, rfl⟩
    refine bind_eq_ok.mpr ⟨all, hall, ?_⟩
    dsimp only
    rw [hfound]
    rfl

theorem checkExpr_field_eq_ok {record : Expr} {name : Ident} :
    checkExpr r scopes (.field i record name) = .ok (checked, t) ↔
      ∃ inner recordName f, checkExpr r scopes record = .ok (inner, .record recordName) ∧
        (r.record? recordName).bind (·.field? name.name) = some f ∧ t = f.ty ∧
        checked = .field { i with ty := some t } inner name := by
  constructor
  · intro h
    obtain ⟨⟨inner, innerTy⟩, hinner, h⟩ := bind_eq_ok.mp h
    dsimp only at h
    split at h
    · next recordName =>
        split at h
        · simp at h
        · next f hfound =>
            cases h
            exact ⟨inner, recordName, f, hinner, hfound, rfl, rfl⟩
    · simp at h
  · rintro ⟨inner, recordName, f, hinner, hfound, rfl, rfl⟩
    refine bind_eq_ok.mpr ⟨_, hinner, ?_⟩
    dsimp only
    rw [hfound]
    rfl

theorem checkExpr_unary_eq_ok {op : UnaryOp} {operand : Expr} :
    checkExpr r scopes (.unary i op operand) = .ok (checked, t) ↔
      ∃ inner innerTy, checkExpr r scopes operand = .ok (inner, innerTy) ∧
        op.result? innerTy = some t ∧
        checked = .unary { i with ty := some t } op inner := by
  constructor
  · intro h
    obtain ⟨⟨inner, innerTy⟩, hinner, h⟩ := bind_eq_ok.mp h
    dsimp only at h
    split at h
    · simp at h
    · next hop =>
        cases h
        exact ⟨inner, innerTy, hinner, hop, rfl⟩
  · rintro ⟨inner, innerTy, hinner, hop, rfl⟩
    refine bind_eq_ok.mpr ⟨_, hinner, ?_⟩
    dsimp only
    rw [hop]
    rfl

theorem checkExpr_binary_eq_ok {op : BinaryOp} {left right : Expr} :
    checkExpr r scopes (.binary i op left right) = .ok (checked, t) ↔
      ∃ first firstTy second secondTy, checkExpr r scopes left = .ok (first, firstTy) ∧
        checkExpr r scopes right = .ok (second, secondTy) ∧ op.result? firstTy secondTy = some t ∧
        checked = checkedBinary r { i with ty := some t } op first second firstTy := by
  constructor
  · intro h
    obtain ⟨⟨first, firstTy⟩, hfirst, h⟩ := bind_eq_ok.mp h
    obtain ⟨⟨second, secondTy⟩, hsecond, h⟩ := bind_eq_ok.mp h
    dsimp only at h
    split at h
    · simp at h
    · next hop =>
        cases h
        exact ⟨first, firstTy, second, secondTy, hfirst, hsecond, hop, rfl⟩
  · rintro ⟨first, firstTy, second, secondTy, hfirst, hsecond, hop, rfl⟩
    refine bind_eq_ok.mpr ⟨_, hfirst, bind_eq_ok.mpr ⟨_, hsecond, ?_⟩⟩
    dsimp only
    rw [hop]
    rfl

theorem checkExprs_cons_eq_ok {e : Expr} {es : List Expr} {all : List (Expr × Ty)} :
    checkExprs r scopes (e :: es) = .ok all ↔
      ∃ first others, checkExpr r scopes e = .ok first ∧ checkExprs r scopes es = .ok others ∧
        all = first :: others := by
  constructor
  · intro h
    obtain ⟨first, hfirst, h⟩ := bind_eq_ok.mp h
    obtain ⟨others, hothers, h⟩ := bind_eq_ok.mp h
    cases h
    exact ⟨first, others, hfirst, hothers, rfl⟩
  · rintro ⟨first, others, hfirst, hothers, rfl⟩
    exact bind_eq_ok.mpr ⟨first, hfirst, bind_eq_ok.mpr ⟨others, hothers, rfl⟩⟩

end Expressions

/-! ## Declarations, assignments and conditions -/

/-- A declared variable gets the next slot. -/
theorem declareVariable_eq {scopes after : Scopes} {name : Ident} {t : Ty} {slot : Nat}
    (h : declareVariable scopes name t = .ok (slot, after)) :
    slot = scopes.nextSlot ∧
      after = ⟨⟨name.name, t, scopes.nextSlot, name.span⟩ :: scopes.innermost, scopes.enclosing,
      scopes.nextSlot + 1⟩ := by
  unfold declareVariable Scopes.declare at h
  cases hfound : scopes.find? name.name with
  | some existing =>
      rw [hfound] at h
      simp at h
  | none =>
      rw [hfound] at h
      cases h
      exact ⟨rfl, rfl⟩

/-- A declared variable has the type of its value, and this is the written one if there is one. -/
theorem variableTy_eq_ok {r : Registry} {decl : VarDecl} {valueTy t : Ty} :
    variableTy r decl valueTy = .ok t ↔
      t = valueTy ∧ ∀ written ∈ decl.typeName, r.resolve? written.name = some valueTy := by
  unfold variableTy
  cases htypeName : decl.typeName with
  | none => simp [eq_comm]
  | some written =>
      dsimp only
      cases hfound : r.resolve? written.name with
      | none => simp [hfound]
      | some declared =>
          dsimp only
          split
          · next hsame => simp [hfound, hsame, eq_comm]
          · next hother => simp [hfound, hother]

/-- The parts of checking a declaration of a variable. -/
theorem checkVariable_eq_ok {ctx : BodyContext} {scopes after : Scopes} {decl checked : VarDecl} :
    checkVariable ctx scopes decl = .ok (checked, after) ↔
      ∃ (value : Expr) (t : Ty), checkExpr ctx.registry scopes decl.value = .ok (value, t) ∧
        declareVariable scopes decl.name t = .ok (scopes.nextSlot, after) ∧ t ≠ .nothing ∧
        (∀ written ∈ decl.typeName, ctx.registry.resolve? written.name = some t) ∧
        checked = { decl with value, ty := some t, slot := some scopes.nextSlot } := by
  constructor
  · intro h
    obtain ⟨⟨value, valueTy⟩, hvalue, h⟩ := bind_eq_ok.mp h
    dsimp only at h
    split at h
    · simp at h
    · next hne =>
        obtain ⟨ty, hty, h⟩ := bind_eq_ok.mp h
        obtain ⟨⟨slot, next⟩, hdeclare, h⟩ := bind_eq_ok.mp h
        cases h
        obtain ⟨rfl, hwritten⟩ := variableTy_eq_ok.mp hty
        obtain ⟨rfl, -⟩ := declareVariable_eq hdeclare
        exact ⟨value, ty, hvalue, hdeclare, hne, hwritten, rfl⟩
  · rintro ⟨value, t, hvalue, hdeclare, hne, hwritten, rfl⟩
    refine bind_eq_ok.mpr ⟨_, hvalue, ?_⟩
    dsimp only
    rw [if_neg hne]
    exact bind_eq_ok.mpr
      ⟨t, variableTy_eq_ok.mpr ⟨rfl, hwritten⟩, bind_eq_ok.mpr ⟨_, hdeclare, rfl⟩⟩

/-- What a checked `return` is. -/
theorem checkReturn_eq_ok {ctx : BodyContext} {scopes : Scopes} {value : Option Expr} {span : Span}
    {checked : Stmt} :
    checkReturn ctx scopes value span = .ok checked ↔
      (∃ e inner, value = some e ∧ ctx.isMain = false ∧ checkExpr ctx.registry scopes e =
        .ok (inner, ctx.resultTy) ∧
        ctx.resultTy ≠ .nothing ∧ checked = .ret (some inner) span) ∨
      (value = none ∧ ctx.resultTy = .nothing ∧ checked = .ret none span) := by
  constructor
  · intro h
    unfold checkReturn at h
    split at h
    · split at h
      · simp at h
      · next hmain =>
          obtain ⟨⟨inner, innerTy⟩, hinner, h⟩ := bind_eq_ok.mp h
          dsimp only at h
          split at h
          · simp at h
          · next hne =>
              split at h
              · next hsame =>
                  cases h
                  exact .inl ⟨_, inner, rfl, Bool.eq_false_iff.mpr hmain, hsame ▸ hinner, hne, rfl⟩
              · simp at h
    · split at h
      · next hnothing =>
          cases h
          exact .inr ⟨rfl, hnothing, rfl⟩
      · simp at h
  · rintro (⟨e, inner, rfl, hmain, hinner, hne, rfl⟩ | ⟨rfl, hnothing, rfl⟩)
    · rw [checkReturn, hmain, if_neg Bool.false_ne_true]
      refine bind_eq_ok.mpr ⟨_, hinner, ?_⟩
      dsimp only
      rw [if_neg hne, if_pos rfl]
      rfl
    · rw [checkReturn, if_pos hnothing]

/-- The parts of checking an assignment. -/
theorem checkAssignment_eq_ok {r : Registry} {scopes : Scopes} {target value : Expr} {span : Span}
    {checked : Stmt} :
    checkAssignment r scopes target value span = .ok checked ↔
      ∃ first second t, checkExpr r scopes value = .ok (first, t) ∧
        checkExpr r scopes target = .ok (second, t) ∧
        checked = .assign second first span := by
  constructor
  · intro h
    obtain ⟨⟨first, firstTy⟩, hfirst, h⟩ := bind_eq_ok.mp h
    obtain ⟨⟨second, secondTy⟩, hsecond, h⟩ := bind_eq_ok.mp h
    dsimp only at h
    split at h
    · next hsame =>
        cases h
        exact ⟨first, second, firstTy, hfirst, hsame ▸ hsecond, rfl⟩
    · simp at h
  · rintro ⟨first, second, t, hfirst, hsecond, rfl⟩
    refine bind_eq_ok.mpr ⟨_, hfirst, bind_eq_ok.mpr ⟨_, hsecond, ?_⟩⟩
    dsimp only
    rw [if_pos rfl]
    rfl

/-- A checked condition is a checked truth value. -/
theorem checkCondition_eq_ok {r : Registry} {scopes : Scopes} {condition checked : Expr} :
    checkCondition r scopes condition = .ok checked ↔
    checkExpr r scopes condition = .ok (checked, .boolean) := by
  constructor
  · intro h
    obtain ⟨⟨inner, innerTy⟩, hinner, h⟩ := bind_eq_ok.mp h
    dsimp only at h
    split at h
    · next hty =>
        cases h
        exact hty ▸ hinner
    · simp at h
  · intro h
    exact bind_eq_ok.mpr ⟨_, h, rfl⟩

/-- A checked count is a checked number. -/
theorem checkCount_eq_ok {r : Registry} {scopes : Scopes} {count checked : Expr} :
    checkCount r scopes count = .ok checked ↔
    checkExpr r scopes count = .ok (checked, .number) := by
  constructor
  · intro h
    obtain ⟨⟨inner, innerTy⟩, hinner, h⟩ := bind_eq_ok.mp h
    dsimp only at h
    split at h
    · next hty =>
        cases h
        exact hty ▸ hinner
    · simp at h
  · intro h
    exact bind_eq_ok.mpr ⟨_, h, rfl⟩

theorem checkInLoop_eq_ok {inLoop : Bool} {keyword : Terminal} {span : Span} {u : Unit} :
    checkInLoop inLoop keyword span = .ok u ↔ inLoop = true := by
  cases inLoop <;> simp [checkInLoop]

/-! ## Statements -/

section Statements

variable {ctx : BodyContext} {inLoop : Bool} {scopes after : Scopes} {checked : Stmt} {span : Span}

theorem checkStmt_expr_eq_ok {e : Expr} :
    checkStmt ctx inLoop scopes (.expr e) = .ok (checked, after) ↔
      ∃ inner t, checkExpr ctx.registry scopes e = .ok (inner, t) ∧ checked = .expr inner ∧
      after = scopes := by
  constructor
  · intro h
    obtain ⟨⟨inner, t⟩, hinner, h⟩ := bind_eq_ok.mp h
    cases h
    exact ⟨inner, t, hinner, rfl, rfl⟩
  · rintro ⟨inner, t, hinner, rfl, rfl⟩
    exact bind_eq_ok.mpr ⟨_, hinner, rfl⟩

theorem checkStmt_var_eq_ok {decl : VarDecl} :
    checkStmt ctx inLoop scopes (.var decl) = .ok (checked, after) ↔
      ∃ inner, checkVariable ctx scopes decl = .ok (inner, after) ∧ checked = .var inner := by
  constructor
  · intro h
    obtain ⟨⟨inner, next⟩, hinner, h⟩ := bind_eq_ok.mp h
    cases h
    exact ⟨inner, hinner, rfl⟩
  · rintro ⟨inner, hinner, rfl⟩
    exact bind_eq_ok.mpr ⟨_, hinner, rfl⟩

theorem checkStmt_assign_eq_ok {target value : Expr} :
    checkStmt ctx inLoop scopes (.assign target value span) = .ok (checked, after) ↔
      ∃ first second t, checkExpr ctx.registry scopes value = .ok (first, t) ∧
        checkExpr ctx.registry scopes target = .ok (second, t) ∧
        checked = .assign second first span ∧
        after = scopes := by
  constructor
  · intro h
    obtain ⟨inner, hinner, h⟩ := bind_eq_ok.mp h
    cases h
    obtain ⟨first, second, t, hfirst, hsecond, rfl⟩ := checkAssignment_eq_ok.mp hinner
    exact ⟨first, second, t, hfirst, hsecond, rfl, rfl⟩
  · rintro ⟨first, second, t, hfirst, hsecond, rfl, rfl⟩
    exact bind_eq_ok.mpr
      ⟨_, checkAssignment_eq_ok.mpr ⟨first, second, t, hfirst, hsecond, rfl⟩, rfl⟩

theorem checkStmt_cond_eq_ok {condition : Expr} {thenBlock elseBlock : List Stmt} :
    checkStmt ctx inLoop scopes (.cond condition thenBlock elseBlock span) = .ok (checked, after) ↔
      ∃ test first afterThen second afterElse,
        checkExpr ctx.registry scopes condition = .ok (test, .boolean) ∧
        checkStmts ctx inLoop scopes.push thenBlock = .ok (first, afterThen) ∧
        checkStmts ctx inLoop afterThen.pop.push elseBlock = .ok (second, afterElse) ∧
        checked = .cond test first second span ∧ after = afterElse.pop := by
  constructor
  · intro h
    obtain ⟨test, htest, h⟩ := bind_eq_ok.mp h
    obtain ⟨⟨first, afterThen⟩, hfirst, h⟩ := bind_eq_ok.mp h
    obtain ⟨⟨second, afterElse⟩, hsecond, h⟩ := bind_eq_ok.mp h
    cases h
    exact ⟨test, first, afterThen, second, afterElse, checkCondition_eq_ok.mp htest, hfirst,
      hsecond, rfl, rfl⟩
  · rintro ⟨test, first, afterThen, second, afterElse, htest, hfirst, hsecond, rfl, rfl⟩
    exact bind_eq_ok.mpr ⟨_, checkCondition_eq_ok.mpr htest, bind_eq_ok.mpr ⟨_, hfirst,
      bind_eq_ok.mpr ⟨_, hsecond, rfl⟩⟩⟩

theorem checkStmt_whileLoop_eq_ok {condition : Expr} {body : List Stmt} :
    checkStmt ctx inLoop scopes (.whileLoop condition body span) = .ok (checked, after) ↔
      ∃ test inner afterBody, checkExpr ctx.registry scopes condition = .ok (test, .boolean) ∧
        checkStmts ctx true scopes.push body = .ok (inner, afterBody) ∧
        checked = .whileLoop test inner span ∧
        after = afterBody.pop := by
  constructor
  · intro h
    obtain ⟨test, htest, h⟩ := bind_eq_ok.mp h
    obtain ⟨⟨inner, afterBody⟩, hinner, h⟩ := bind_eq_ok.mp h
    cases h
    exact ⟨test, inner, afterBody, checkCondition_eq_ok.mp htest, hinner, rfl, rfl⟩
  · rintro ⟨test, inner, afterBody, htest, hinner, rfl, rfl⟩
    exact bind_eq_ok.mpr ⟨_, checkCondition_eq_ok.mpr htest, bind_eq_ok.mpr ⟨_, hinner, rfl⟩⟩

theorem checkStmt_repeatLoop_eq_ok {count : Expr} {body : List Stmt} :
    checkStmt ctx inLoop scopes (.repeatLoop count body span) = .ok (checked, after) ↔
      ∃ times inner afterBody, checkExpr ctx.registry scopes count = .ok (times, .number) ∧
        checkStmts ctx true scopes.push body = .ok (inner, afterBody) ∧
        checked = .repeatLoop times inner span ∧
        after = afterBody.pop := by
  constructor
  · intro h
    obtain ⟨times, htimes, h⟩ := bind_eq_ok.mp h
    obtain ⟨⟨inner, afterBody⟩, hinner, h⟩ := bind_eq_ok.mp h
    cases h
    exact ⟨times, inner, afterBody, checkCount_eq_ok.mp htimes, hinner, rfl, rfl⟩
  · rintro ⟨times, inner, afterBody, htimes, hinner, rfl, rfl⟩
    exact bind_eq_ok.mpr ⟨_, checkCount_eq_ok.mpr htimes, bind_eq_ok.mpr ⟨_, hinner, rfl⟩⟩

theorem checkStmt_ret_eq_ok {value : Option Expr} :
    checkStmt ctx inLoop scopes (.ret value span) = .ok (checked, after) ↔
      checkReturn ctx scopes value span = .ok checked ∧ after = scopes := by
  constructor
  · intro h
    obtain ⟨inner, hinner, h⟩ := bind_eq_ok.mp h
    cases h
    exact ⟨hinner, rfl⟩
  · rintro ⟨hinner, rfl⟩
    exact bind_eq_ok.mpr ⟨_, hinner, rfl⟩

theorem checkStmt_breakLoop_eq_ok :
    checkStmt ctx inLoop scopes (.breakLoop span) = .ok (checked, after) ↔
      inLoop = true ∧ checked = .breakLoop span ∧ after = scopes := by
  constructor
  · intro h
    obtain ⟨u, hin, h⟩ := bind_eq_ok.mp h
    cases h
    exact ⟨checkInLoop_eq_ok.mp hin, rfl, rfl⟩
  · rintro ⟨hin, rfl, rfl⟩
    exact bind_eq_ok.mpr ⟨(), checkInLoop_eq_ok.mpr hin, rfl⟩

theorem checkStmt_continueLoop_eq_ok :
    checkStmt ctx inLoop scopes (.continueLoop span) = .ok (checked, after) ↔
      inLoop = true ∧ checked = .continueLoop span ∧ after = scopes := by
  constructor
  · intro h
    obtain ⟨u, hin, h⟩ := bind_eq_ok.mp h
    cases h
    exact ⟨checkInLoop_eq_ok.mp hin, rfl, rfl⟩
  · rintro ⟨hin, rfl, rfl⟩
    exact bind_eq_ok.mpr ⟨(), checkInLoop_eq_ok.mpr hin, rfl⟩

theorem checkStmts_cons_eq_ok {s : Stmt} {rest all : List Stmt} :
    checkStmts ctx inLoop scopes (s :: rest) = .ok (all, after) ↔
      ∃ first next others, checkStmt ctx inLoop scopes s = .ok (first, next) ∧
        checkStmts ctx inLoop next rest = .ok (others, after) ∧ all = first :: others := by
  constructor
  · intro h
    obtain ⟨⟨first, next⟩, hfirst, h⟩ := bind_eq_ok.mp h
    obtain ⟨⟨others, last⟩, hothers, h⟩ := bind_eq_ok.mp h
    cases h
    exact ⟨first, next, others, hfirst, hothers, rfl⟩
  · rintro ⟨first, next, others, hfirst, hothers, rfl⟩
    exact bind_eq_ok.mpr ⟨_, hfirst, bind_eq_ok.mpr ⟨_, hothers, rfl⟩⟩

end Statements

end Stepwise
