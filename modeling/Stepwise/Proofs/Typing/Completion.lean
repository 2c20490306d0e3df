import Mathlib.Data.List.Forall2
import Stepwise.Proofs.Typing.Judgement

/-!
# What checking writes into a tree

A tree is read with room for what checking finds out. Checking fills all of it: every expression has
a type, every reference, parameter and variable a slot, every call a callee, and every declaration
its types (`Complete`).

It changes the tree in one way only (`Completed`): a comparison of two records for which the
registry has a function `equals` that yields a truth value becomes a call of this function, and no
such comparison is left at any depth. All other nodes stay what they are, with their names, spans
and parts.
-/

set_option autoImplicit false

namespace Stepwise

/-! ## Comparisons by functions -/

/-- Two values of a type are compared by a function: the type is a record's, and calling `equals` on
two such records goes to the function, which yields a truth value. -/
def Registry.Compares (r : Registry) (t : Ty) (callee : Callee) : Prop :=
  (∃ name, t = .record name) ∧
    ∃ f, r.resolveCall? equalsName [t, t] = some f ∧ f.result = .boolean ∧ f.callee = callee

theorem Registry.equality?_eq_some {r : Registry} {t : Ty} {callee : Callee} :
    r.equality? t = some callee ↔ r.Compares t callee := by
  cases t with
  | record name => simp [equality?, Compares, and_assoc]
  | _ => simp [equality?, Compares]

/-! ## Trees without room -/

mutual

/-- An expression in which every node has its type, every reference its slot and every call its
callee, and in which no values are compared that a function compares. -/
def Expr.Complete (r : Registry) : Expr → Prop
  | .number i _ | .boolean i _ | .string i _ => i.ty.isSome = true
  | .reference i _ slot => i.ty.isSome = true ∧ slot.isSome = true
  | .call i _ arguments callee =>
    i.ty.isSome = true ∧ callee.isSome = true ∧ Expr.AllComplete r arguments
  | .field i record _ => i.ty.isSome = true ∧ record.Complete r
  | .unary i _ operand => i.ty.isSome = true ∧ operand.Complete r
  | .binary i op left right => i.ty.isSome = true ∧ left.Complete r ∧ right.Complete r ∧
      (op = .equal ∨ op = .notEqual → ∀ t callee, left.ty? = some t → ¬ r.Compares t callee)

/-- Expressions of which each is complete. -/
def Expr.AllComplete (r : Registry) : List Expr → Prop
  | [] => True
  | e :: es => e.Complete r ∧ Expr.AllComplete r es

end

mutual

/-- A statement with complete expressions, in which every variable has its type and its slot. -/
def Stmt.Complete (r : Registry) : Stmt → Prop
  | .expr e => e.Complete r
  | .var decl => decl.ty.isSome = true ∧ decl.slot.isSome = true ∧ decl.value.Complete r
  | .assign target value _ => target.Complete r ∧ value.Complete r
  | .cond condition thenBlock elseBlock _ =>
    condition.Complete r ∧ Stmt.AllComplete r thenBlock ∧ Stmt.AllComplete r elseBlock
  | .whileLoop condition body _ => condition.Complete r ∧ Stmt.AllComplete r body
  | .repeatLoop count body _ => count.Complete r ∧ Stmt.AllComplete r body
  | .ret (some value) _ => value.Complete r
  | .ret none _ | .breakLoop _ | .continueLoop _ | .comment .. => True

/-- Statements of which each is complete. -/
def Stmt.AllComplete (r : Registry) : List Stmt → Prop
  | [] => True
  | s :: rest => s.Complete r ∧ Stmt.AllComplete r rest

end

/-! ## Trees before and behind checking -/

mutual

/-- An expression, and what is left of it when its room is filled and comparisons by functions are
made calls. -/
inductive Expr.Completed (r : Registry) : Expr → Expr → Prop
  | number {i : ExprInfo} {v : Float} {t : Ty} :
      Completed r (.number i v) (.number ⟨i.span, some t⟩ v)
  | boolean {i : ExprInfo} {v : Bool} {t : Ty} :
      Completed r (.boolean i v) (.boolean ⟨i.span, some t⟩ v)
  | string {i : ExprInfo} {v : String} {t : Ty} :
      Completed r (.string i v) (.string ⟨i.span, some t⟩ v)
  | reference {i : ExprInfo} {name : String} {room : Option Nat} {slot : Nat} {t : Ty} :
      Completed r (.reference i name room) (.reference ⟨i.span, some t⟩ name (some slot))
  | call {i : ExprInfo} {name : Ident} {arguments arguments' : List Expr} {room : Option Callee}
      {callee : Callee}
      {t : Ty} : AllCompleted r arguments arguments' →
      Completed r (.call i name arguments room)
        (.call ⟨i.span, some t⟩ name arguments' (some callee))
  | field {i : ExprInfo} {record record' : Expr} {name : Ident} {t : Ty} :
      Completed r record record' →
      Completed r (.field i record name) (.field ⟨i.span, some t⟩ record' name)
  | unary {i : ExprInfo} {op : UnaryOp} {operand operand' : Expr} {t : Ty} :
      Completed r operand operand' →
      Completed r (.unary i op operand) (.unary ⟨i.span, some t⟩ op operand')
  | binary {i : ExprInfo} {op : BinaryOp} {left right left' right' : Expr} {s t : Ty} :
      Completed r left left' → Completed r right right' → left'.ty? = some s →
      (op = .equal ∨ op = .notEqual → ∀ callee, ¬ r.Compares s callee) →
      Completed r (.binary i op left right) (.binary ⟨i.span, some t⟩ op left' right')
  | equal {i : ExprInfo} {left right left' right' : Expr} {s : Ty} {callee : Callee} :
      Completed r left left' → Completed r right right' → left'.ty? = some s → right'.ty? = some s →
      r.Compares s callee →
      Completed r (.binary i .equal left right)
        (.call ⟨i.span, some .boolean⟩ ⟨equalsName, i.span⟩ [left', right'] (some callee))
  | notEqual {i : ExprInfo} {left right left' right' : Expr} {s : Ty} {callee : Callee} :
      Completed r left left' → Completed r right right' → left'.ty? = some s → right'.ty? = some s →
      r.Compares s callee →
      Completed r (.binary i .notEqual left right) (.unary ⟨i.span, some .boolean⟩ .not
        (.call ⟨i.span, some .boolean⟩ ⟨equalsName, i.span⟩ [left', right'] (some callee)))

/-- Expressions before and behind checking. -/
inductive Expr.AllCompleted (r : Registry) : List Expr → List Expr → Prop
  | nil : AllCompleted r [] []
  | cons {e e' : Expr} {es es' : List Expr} :
      Completed r e e' → AllCompleted r es es' → AllCompleted r (e :: es) (e' :: es')

end

mutual

/-- A statement before and behind checking. -/
inductive Stmt.Completed (r : Registry) : Stmt → Stmt → Prop
  | expr {e e' : Expr} : e.Completed r e' → Completed r (.expr e) (.expr e')
  | var {decl : VarDecl} {value : Expr} {t : Ty} {slot : Nat} : decl.value.Completed r value →
      Completed r (.var decl) (.var { decl with value, ty := some t, slot := some slot })
  | assign {target target' value value' : Expr} {span : Span} : target.Completed r target' →
      value.Completed r value' →
      Completed r (.assign target value span) (.assign target' value' span)
  | cond {condition condition' : Expr} {thenBlock thenBlock' elseBlock elseBlock' : List Stmt}
      {span : Span} :
      condition.Completed r condition' → AllCompleted r thenBlock thenBlock' →
      AllCompleted r elseBlock elseBlock' →
      Completed r (.cond condition thenBlock elseBlock span)
        (.cond condition' thenBlock' elseBlock' span)
  | whileLoop {condition condition' : Expr} {body body' : List Stmt} {span : Span} :
      condition.Completed r condition' → AllCompleted r body body' →
      Completed r (.whileLoop condition body span) (.whileLoop condition' body' span)
  | repeatLoop {count count' : Expr} {body body' : List Stmt} {span : Span} :
      count.Completed r count' → AllCompleted r body body' →
      Completed r (.repeatLoop count body span) (.repeatLoop count' body' span)
  | retValue {value value' : Expr} {span : Span} : value.Completed r value' →
      Completed r (.ret (some value) span) (.ret (some value') span)
  | retNothing {span : Span} : Completed r (.ret none span) (.ret none span)
  | breakLoop {span : Span} : Completed r (.breakLoop span) (.breakLoop span)
  | continueLoop {span : Span} : Completed r (.continueLoop span) (.continueLoop span)
  | comment {text : String} {span : Span} : Completed r (.comment text span) (.comment text span)

/-- Statements before and behind checking. -/
inductive Stmt.AllCompleted (r : Registry) : List Stmt → List Stmt → Prop
  | nil : AllCompleted r [] []
  | cons {s s' : Stmt} {rest rest' : List Stmt} :
      Completed r s s' → AllCompleted r rest rest' → AllCompleted r (s :: rest) (s' :: rest')

end

section Expressions

variable {r : Registry} {scopes : Scopes}

mutual

/-- **What is completed is complete.** -/
theorem Expr.Completed.complete : ∀ {e e' : Expr}, e.Completed r e' → e'.Complete r
  | _, _, .number | _, _, .boolean | _, _, .string => rfl
  | _, _, .reference => ⟨rfl, rfl⟩
  | _, _, .call harguments => ⟨rfl, rfl, harguments.complete⟩
  | _, _, .field hrecord => ⟨rfl, hrecord.complete⟩
  | _, _, .unary hoperand => ⟨rfl, hoperand.complete⟩
  | _, _, .binary hleft hright hty hcompares => by
      refine ⟨rfl, hleft.complete, hright.complete, fun hop t callee ht => ?_⟩
      obtain rfl := Option.some.inj (ht.symm.trans hty)
      exact hcompares hop callee
  | _, _, .equal hleft hright _ _ _ => ⟨rfl, rfl, hleft.complete, hright.complete, trivial⟩
  | _, _, .notEqual hleft hright _ _ _ => ⟨rfl, rfl, rfl, hleft.complete, hright.complete, trivial⟩

theorem Expr.AllCompleted.complete : ∀ {es es' : List Expr}, Expr.AllCompleted r es es' →
    Expr.AllComplete r es'
  | _, _, .nil => trivial
  | _, _, .cons hfirst hrest => ⟨hfirst.complete, hrest.complete⟩

end

mutual

theorem Stmt.Completed.complete : ∀ {s s' : Stmt}, s.Completed r s' → s'.Complete r
  | _, _, .expr he => he.complete
  | _, _, .var hvalue => ⟨rfl, rfl, hvalue.complete⟩
  | _, _, .assign htarget hvalue => ⟨htarget.complete, hvalue.complete⟩
  | _, _, .cond hcondition hthen helse => ⟨hcondition.complete, hthen.complete, helse.complete⟩
  | _, _, .whileLoop hcondition hbody => ⟨hcondition.complete, hbody.complete⟩
  | _, _, .repeatLoop hcount hbody => ⟨hcount.complete, hbody.complete⟩
  | _, _, .retValue hvalue => hvalue.complete
  | _, _, .retNothing | _, _, .breakLoop | _, _, .continueLoop | _, _, .comment => trivial

theorem Stmt.AllCompleted.complete : ∀ {ss ss' : List Stmt}, Stmt.AllCompleted r ss ss' →
    Stmt.AllComplete r ss'
  | _, _, .nil => trivial
  | _, _, .cons hfirst hrest => ⟨hfirst.complete, hrest.complete⟩

end

/-! ## Checking expressions -/

/-- The operands of a comparison have one type, and the result is a truth value. -/
theorem BinaryOp.comparison_of_result? {op : BinaryOp} (hop : op = .equal ∨ op = .notEqual)
    {left right result : Ty} (h : op.result? left right = some result) :
    right = left ∧ result = .boolean := by
  rcases hop with rfl | rfl <;>
  · simp only [BinaryOp.result?] at h
    split at h
    · next hsame =>
        cases h
        exact ⟨hsame.1.symm, rfl⟩
    · cases h

/-- A checked binary operation is the operation itself, or its operands are compared by a function
and it is the call of the function, negated for `!=`. -/
theorem checkedBinary_cases (r : Registry) (i : ExprInfo) (op : BinaryOp) (left right : Expr)
    (t : Ty) :
    (checkedBinary r i op left right t = .binary i op left right ∧
      (op = .equal ∨ op = .notEqual → ∀ callee, ¬ r.Compares t callee)) ∨
    ∃ callee, r.Compares t callee ∧
      (op = .equal ∧ checkedBinary r i op left right t = equalsCall i.span left right callee ∨
        op = .notEqual ∧ checkedBinary r i op left right t =
          .unary i .not (equalsCall i.span left right callee)) := by
  unfold checkedBinary
  split
  · next callee hcallee =>
      exact .inr ⟨callee, Registry.equality?_eq_some.mp hcallee, .inl ⟨rfl, rfl⟩⟩
  · next callee hcallee =>
      exact .inr ⟨callee, Registry.equality?_eq_some.mp hcallee, .inr ⟨rfl, rfl⟩⟩
  · next hequal hnotEqual =>
      refine .inl ⟨rfl, fun hop callee hcompares => ?_⟩
      have hcallee := Registry.equality?_eq_some.mpr hcompares
      rcases hop with rfl | rfl
      · exact hequal callee rfl hcallee
      · exact hnotEqual callee rfl hcallee

theorem completed_checkedBinary {i : ExprInfo} {op : BinaryOp} {left right left' right' : Expr}
    {s s' result : Ty} (hleft : left.Completed r left') (hright : right.Completed r right')
    (hleftTy : left'.ty? = some s) (hrightTy : right'.ty? = some s')
    (hop : op.result? s s' = some result) :
    (Expr.binary i op left right).Completed r
      (checkedBinary r ⟨i.span, some result⟩ op left' right' s) := by
  obtain ⟨hsame, hcompares⟩ | ⟨callee, hcompares, ⟨rfl, hsame⟩ | ⟨rfl, hsame⟩⟩ :=
    checkedBinary_cases r ⟨i.span, some result⟩ op left' right' s
  · rw [hsame]
    exact .binary hleft hright hleftTy hcompares
  · obtain ⟨rfl, rfl⟩ := BinaryOp.comparison_of_result? (.inl rfl) hop
    rw [hsame]
    exact .equal hleft hright hleftTy hrightTy hcompares
  · obtain ⟨rfl, rfl⟩ := BinaryOp.comparison_of_result? (.inr rfl) hop
    rw [hsame]
    exact .notEqual hleft hright hleftTy hrightTy hcompares

mutual

/-- **Checking completes an expression.** -/
theorem completed_of_checkExpr : ∀ (e : Expr) {checked : Expr} {t : Ty},
    checkExpr r scopes e = .ok (checked, t) → e.Completed r checked
  | .number i v, checked, t, h => by
      cases h
      exact .number
  | .boolean i v, checked, t, h => by
      cases h
      exact .boolean
  | .string i v, checked, t, h => by
      cases h
      exact .string
  | .reference i name room, checked, t, h => by
      obtain ⟨symbol, -, rfl, rfl⟩ := checkExpr_reference_eq_ok.mp h
      exact .reference
  | .call i name arguments room, checked, t, h => by
      obtain ⟨checkedArguments, f, harguments, -, rfl, rfl⟩ := checkExpr_call_eq_ok.mp h
      exact .call (allCompleted_of_checkExprs arguments harguments)
  | .field i record name, checked, t, h => by
      obtain ⟨inner, recordName, f, hinner, -, rfl, rfl⟩ := checkExpr_field_eq_ok.mp h
      exact .field (completed_of_checkExpr record hinner)
  | .unary i op operand, checked, t, h => by
      obtain ⟨inner, innerTy, hinner, -, rfl⟩ := checkExpr_unary_eq_ok.mp h
      exact .unary (completed_of_checkExpr operand hinner)
  | .binary i op left right, checked, t, h => by
      obtain ⟨first, firstTy, second, secondTy, hfirst, hsecond, hop, rfl⟩ :=
        checkExpr_binary_eq_ok.mp h
      exact completed_checkedBinary (completed_of_checkExpr left hfirst)
        (completed_of_checkExpr right hsecond) (ty?_of_checkExpr hfirst)
          (ty?_of_checkExpr hsecond) hop

theorem allCompleted_of_checkExprs : ∀ (es : List Expr) {checked : List (Expr × Ty)},
    checkExprs r scopes es = .ok checked → Expr.AllCompleted r es (checked.map (·.1))
  | [], checked, h => by
      cases h
      exact .nil
  | e :: es, checked, h => by
      obtain ⟨first, others, hfirst, hothers, rfl⟩ := checkExprs_cons_eq_ok.mp h
      exact .cons (completed_of_checkExpr e hfirst) (allCompleted_of_checkExprs es hothers)

end

end Expressions

/-! ## Checking statements -/

section Statements

variable {ctx : BodyContext}

mutual

/-- **Checking completes a statement.** -/
theorem completed_of_checkStmt : ∀ (s : Stmt) {inLoop : Bool} {scopes after : Scopes}
    {checked : Stmt},
    checkStmt ctx inLoop scopes s = .ok (checked, after) → s.Completed ctx.registry checked
  | .expr e, inLoop, scopes, after, checked, h => by
      obtain ⟨inner, t, hinner, rfl, rfl⟩ := checkStmt_expr_eq_ok.mp h
      exact .expr (completed_of_checkExpr e hinner)
  | .var decl, inLoop, scopes, after, checked, h => by
      obtain ⟨inner, hinner, rfl⟩ := checkStmt_var_eq_ok.mp h
      obtain ⟨value, t, hvalue, -, -, -, rfl⟩ := checkVariable_eq_ok.mp hinner
      exact .var (completed_of_checkExpr decl.value hvalue)
  | .assign target value span, inLoop, scopes, after, checked, h => by
      obtain ⟨first, second, t, hfirst, hsecond, rfl, rfl⟩ := checkStmt_assign_eq_ok.mp h
      exact .assign (completed_of_checkExpr target hsecond) (completed_of_checkExpr value hfirst)
  | .cond condition thenBlock elseBlock span, inLoop, scopes, after, checked, h => by
      obtain ⟨test, first, afterThen, second, afterElse, htest, hfirst, hsecond, rfl, -⟩ :=
        checkStmt_cond_eq_ok.mp h
      exact .cond (completed_of_checkExpr condition htest)
        (allCompleted_of_checkStmts thenBlock hfirst) (allCompleted_of_checkStmts elseBlock hsecond)
  | .whileLoop condition body span, inLoop, scopes, after, checked, h => by
      obtain ⟨test, inner, afterBody, htest, hinner, rfl, -⟩ := checkStmt_whileLoop_eq_ok.mp h
      exact .whileLoop (completed_of_checkExpr condition htest)
        (allCompleted_of_checkStmts body hinner)
  | .repeatLoop count body span, inLoop, scopes, after, checked, h => by
      obtain ⟨times, inner, afterBody, htimes, hinner, rfl, -⟩ := checkStmt_repeatLoop_eq_ok.mp h
      exact .repeatLoop (completed_of_checkExpr count htimes)
        (allCompleted_of_checkStmts body hinner)
  | .ret value span, inLoop, scopes, after, checked, h => by
      obtain ⟨hchecked, -⟩ := checkStmt_ret_eq_ok.mp h
      obtain ⟨e, value', rfl, -, hvalue, -, rfl⟩ | ⟨rfl, -, rfl⟩ := checkReturn_eq_ok.mp hchecked
      · exact .retValue (completed_of_checkExpr e hvalue)
      · exact .retNothing
  | .breakLoop span, inLoop, scopes, after, checked, h => by
      obtain ⟨-, rfl, -⟩ := checkStmt_breakLoop_eq_ok.mp h
      exact .breakLoop
  | .continueLoop span, inLoop, scopes, after, checked, h => by
      obtain ⟨-, rfl, -⟩ := checkStmt_continueLoop_eq_ok.mp h
      exact .continueLoop
  | .comment text span, inLoop, scopes, after, checked, h => by
      cases h
      exact .comment

theorem allCompleted_of_checkStmts : ∀ (ss : List Stmt) {inLoop : Bool} {scopes after : Scopes}
    {checked : List Stmt},
    checkStmts ctx inLoop scopes ss = .ok (checked, after) →
    Stmt.AllCompleted ctx.registry ss checked
  | [], inLoop, scopes, after, checked, h => by
      cases h
      exact .nil
  | s :: rest, inLoop, scopes, after, checked, h => by
      obtain ⟨first, next, others, hfirst, hothers, rfl⟩ := checkStmts_cons_eq_ok.mp h
      exact .cons (completed_of_checkStmt s hfirst) (allCompleted_of_checkStmts rest hothers)

end

end Statements

/-! ## Programs -/

/-- A field before and behind checking. -/
def FieldDecl.Completed (f f' : FieldDecl) : Prop := ∃ t, f' = { f with ty := some t }

/-- A record before and behind checking. -/
def RecordDecl.Completed (d d' : RecordDecl) : Prop :=
  ∃ fields, List.Forall₂ FieldDecl.Completed d.fields fields ∧ d' = { d with fields }

/-- A parameter before and behind checking. -/
def Param.Completed (p p' : Param) : Prop :=
  ∃ t slot, p' = { p with ty := some t, slot := some slot }

/-- A function before and behind checking. -/
def FunctionDecl.Completed (r : Registry) (d d' : FunctionDecl) : Prop :=
  ∃ params t body, List.Forall₂ Param.Completed d.params params ∧ Stmt.AllCompleted r d.body body ∧
    d' = { d with params, returnType := some t, body }

/-- A checked program, seen from the records and functions that it was made of. -/
structure CheckedProgram.Completes {σ : Type} (p : CheckedProgram σ) (records : List RecordDecl)
    (functions : List FunctionDecl) : Prop where
  records : List.Forall₂ RecordDecl.Completed records p.records
  functions : List.Forall₂ (FunctionDecl.Completed p.environment.registry) functions p.functions

/-- A function without room. -/
structure FunctionDecl.Complete (r : Registry) (d : FunctionDecl) : Prop where
  params : ∀ p ∈ d.params, p.ty.isSome = true ∧ p.slot.isSome = true
  result : d.returnType.isSome = true
  body : Stmt.AllComplete r d.body

/-- A checked program without room. -/
structure CheckedProgram.Complete {σ : Type} (p : CheckedProgram σ) : Prop where
  records : ∀ d ∈ p.records, ∀ f ∈ d.fields, f.ty.isSome = true
  functions : ∀ d ∈ p.functions, d.Complete p.environment.registry

theorem FunctionDecl.Completed.complete {r : Registry} {d d' : FunctionDecl}
    (h : d.Completed r d') :
    d'.Complete r := by
  obtain ⟨params, t, body, hparams, hbody, rfl⟩ := h
  refine ⟨fun p hp => ?_, rfl, hbody.complete⟩
  obtain ⟨p, -, s, slot, rfl⟩ := exists_of_mem_forall₂_right hparams hp
  exact ⟨rfl, rfl⟩

theorem CheckedProgram.Completes.complete {σ : Type} {p : CheckedProgram σ}
    {records : List RecordDecl} {functions : List FunctionDecl}
    (h : p.Completes records functions) : p.Complete := by
  refine ⟨fun d hd f hf => ?_, fun d hd => ?_⟩
  · obtain ⟨d, -, fields, hfields, rfl⟩ := exists_of_mem_forall₂_right h.records hd
    obtain ⟨f, -, t, rfl⟩ := exists_of_mem_forall₂_right hfields hf
    rfl
  · obtain ⟨d, -, hcompleted⟩ := exists_of_mem_forall₂_right h.functions hd
    exact hcompleted.complete

/-! ## Checking programs -/

section Programs

variable {r : Registry}

theorem completed_of_resolveRecords {r' : Registry} {decls records : List RecordDecl}
    (h : resolveRecords r decls = .ok (records, r')) :
    List.Forall₂ RecordDecl.Completed decls records := by
  refine (resolved_of_resolveRecords h).imp ?_
  rintro d _ ⟨-, fields, hfields, rfl⟩
  refine ⟨fields, hfields.imp ?_, rfl⟩
  rintro f _ ⟨t, -, rfl⟩
  exact ⟨t, rfl⟩

/-- Parameters whose types were found and that then got their slots are completed. -/
theorem Param.completed_of_placed {params resolved checked : List Param}
    (hresolved : List.Forall₂ Param.Resolved params resolved)
    (hplaced : List.Forall₂ Param.Placed resolved checked) :
    List.Forall₂ Param.Completed params checked := by
  refine forall₂_trans hresolved hplaced ?_
  rintro p _ _ ⟨t, rfl⟩ ⟨slot, rfl⟩
  exact ⟨t, slot, rfl⟩

theorem Param.names_of_completed {params params' : List Param}
    (h : List.Forall₂ Param.Completed params params') :
    params'.map (·.name.name) = params.map (·.name.name) := by
  refine map_eq_of_forall₂ h ?_
  rintro p _ ⟨t, slot, rfl⟩
  rfl

/-- **Checking completes a function** whose types were found. -/
theorem completed_of_checkFunction {d d' checked : FunctionDecl} (hresolved : d.Resolved d')
    (h : checkFunction r d' = .ok checked) : d.Completed r checked := by
  obtain ⟨resolved, t, hparams, rfl⟩ := hresolved
  obtain ⟨params, scopes, body, last, hplaced, hbody, rfl⟩ := checkFunction_eq_ok.mp h
  exact ⟨params, t, body, Param.completed_of_placed hparams (placed_of_checkParams hplaced),
    allCompleted_of_checkStmts d.body hbody, rfl⟩

/-- **Checking completes a program.** -/
theorem completes_of_checkProgram {σ : Type} {records : List RecordDecl}
    {functions : List FunctionDecl} {host : HostTable σ} {p : CheckedProgram σ}
    (h : checkProgram records functions host = .ok p) :
    p.Completes records functions := by
  obtain ⟨named, withFields, withHost, resolved, passes⟩ := checkProgram_eq_ok.mp h
  refine ⟨completed_of_resolveRecords passes.fields, ?_⟩
  exact forall₂_trans (resolved_of_declareUsers passes.signatures)
    (checkFunctions_eq_ok.mp passes.bodies) fun _ _ _ => completed_of_checkFunction

end Programs

end Stepwise
