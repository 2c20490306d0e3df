import Mathlib.Data.List.Basic
import Stepwise.Proofs.Renaming.Trees
import Stepwise.Typing.Program

/-!
# Checking renamed programs

Under renamings that give different names to different variables, checking the renamed program finds
the renamed result of checking the program, or stops where it stops with a fault of the same kind
(`checkProgram_rename`). Scopes ask of two names only whether they are the same, and that is what
such a renaming keeps (`Scopes.find?_rename`).
-/

set_option autoImplicit false

namespace Stepwise

open Diagnosed

variable {σ : Type} {ρ : String → String}

/-! ## Scopes -/

/-- A symbol, renamed. -/
def Symbol.rename (ρ : String → String) (s : Symbol) : Symbol := { s with name := ρ s.name }

namespace Scopes

/-- Scopes with all names renamed. -/
def rename (ρ : String → String) (s : Scopes) : Scopes :=
  ⟨s.innermost.map (Symbol.rename ρ), s.enclosing.map (·.map (Symbol.rename ρ)), s.nextSlot⟩

variable (s : Scopes)

@[simp] theorem push_rename : (s.rename ρ).push = s.push.rename ρ := rfl

@[simp] theorem pop_rename : (s.rename ρ).pop = s.pop.rename ρ := by
  obtain ⟨innermost, enclosing, nextSlot⟩ := s
  cases enclosing <;> rfl

/-- **A renamed name is found where the name is found.** -/
theorem find?_rename (hρ : ρ.Injective) (name : String) :
    (s.rename ρ).find? (ρ name) = (s.find? name).map (Symbol.rename ρ) := by
  have hsame : (fun x : Symbol => x.name == ρ name) ∘ Symbol.rename ρ = fun x : Symbol =>
      x.name == name := by
    funext x
    rw [Bool.eq_iff_iff, Function.comp_apply, Symbol.rename, beq_iff_eq, beq_iff_eq, hρ.eq_iff]
  simp only [find?, visible, rename, ← List.map_flatten, ← List.map_append, List.find?_map, hsame]

theorem declare_rename (hρ : ρ.Injective) (name : Ident) (ty : Ty) :
    (s.rename ρ).declare (name.rename ρ) ty =
      ((s.declare name ty).1.mapError (·.rename ρ), (s.declare name ty).2.rename ρ) := by
  have hfind : (s.rename ρ).find? (name.rename ρ).name =
      (s.find? name.name).map (Symbol.rename ρ) :=
    find?_rename s hρ name.name
  unfold declare
  rw [hfind]
  cases s.find? name.name <;> rfl

end Scopes

/-! ## Expressions -/

section Expressions

variable (r : Registry) (scopes : Scopes)

theorem checkedBinary_rename (info : ExprInfo) (op : BinaryOp) (left right : Expr) (operands : Ty) :
    checkedBinary r info op (left.rename ρ) (right.rename ρ) operands =
      (checkedBinary r info op left right operands).rename ρ := by
  unfold checkedBinary
  cases op <;> cases r.equality? operands <;> rfl

mutual

/-- **Expressions are checked under other names.** -/
theorem checkExpr_rename (hρ : ρ.Injective) : ∀ e : Expr,
    Mirrors (fun a => (a.1.rename ρ, a.2)) (checkExpr r scopes e)
      (checkExpr r (scopes.rename ρ) (e.rename ρ))
  | .number .. | .boolean .. | .string .. => .ok rfl
  | .reference i name slot => by
      rw [Expr.rename, checkExpr, checkExpr, scopes.find?_rename hρ]
      cases scopes.find? name with
      | none => exact .failAt ⟨rfl, rfl⟩
      | some symbol => exact .ok rfl
  | .call i name arguments callee => by
      rw [Expr.rename, checkExpr, checkExpr]
      refine (checkExprs_rename hρ arguments).bind_image fun checked => ?_
      have htys : (checked.map fun a => (a.1.rename ρ, a.2)).map (·.2) = checked.map (·.2) := by
        rw [List.map_map]
        rfl
      simp only [htys]
      cases r.resolveCall? name.name (checked.map (·.2)) with
      | none => exact .failAt ⟨rfl, rfl⟩
      | some f =>
          refine .pure ?_
          simp only [Expr.rename, Expr.renameAll_eq_map, List.map_map]
          rfl
  | .field i record name => by
      rw [Expr.rename, checkExpr, checkExpr]
      refine (checkExpr_rename hρ record).bind_image ?_
      rintro ⟨checked, ty⟩
      cases ty with
      | record recordName =>
          dsimp only
          cases (r.record? recordName).bind (·.field? name.name) with
          | none => exact .failAt ⟨rfl, rfl⟩
          | some f => exact .pure rfl
      | _ => exact .failAt ⟨rfl, rfl⟩
  | .unary i op operand => by
      rw [Expr.rename, checkExpr, checkExpr]
      refine (checkExpr_rename hρ operand).bind_image ?_
      rintro ⟨checked, ty⟩
      dsimp only
      cases op.result? ty with
      | none => exact .failAt ⟨rfl, rfl⟩
      | some result => exact .pure rfl
  | .binary i op left right => by
      rw [Expr.rename, checkExpr, checkExpr]
      refine (checkExpr_rename hρ left).bind_image ?_
      rintro ⟨checkedLeft, leftTy⟩
      refine (checkExpr_rename hρ right).bind_image ?_
      rintro ⟨checkedRight, rightTy⟩
      dsimp only
      cases op.result? leftTy rightTy with
      | none => exact .failAt ⟨rfl, rfl⟩
      | some result =>
        exact .pure
          (congrArg (·, result) (checkedBinary_rename r _ op checkedLeft checkedRight leftTy))

theorem checkExprs_rename (hρ : ρ.Injective) : ∀ es : List Expr,
    Mirrors (fun a => a.map fun c => (c.1.rename ρ, c.2)) (checkExprs r scopes es)
      (checkExprs r (scopes.rename ρ) (Expr.renameAll ρ es))
  | [] => .ok rfl
  | e :: es => by
      rw [Expr.renameAll, checkExprs, checkExprs]
      refine (checkExpr_rename hρ e).bind_image fun first => ?_
      exact (checkExprs_rename hρ es).bind_image fun others => .pure rfl

end

end Expressions

/-! ## Statements -/

section Statements

variable (hρ : ρ.Injective) (ctx : BodyContext) (scopes : Scopes)

theorem variableTy_rename (r : Registry) (decl : VarDecl) (valueTy : Ty) :
    Mirrors id (variableTy r decl valueTy) (variableTy r (decl.rename ρ) valueTy) := by
  have htypeName : (decl.rename ρ).typeName = decl.typeName := rfl
  have hspan : (decl.rename ρ).value.span = decl.value.span := decl.value.span_rename ρ
  unfold variableTy
  rw [htypeName, hspan]
  cases decl.typeName with
  | none => exact .ok rfl
  | some typeName =>
      dsimp only
      cases r.resolve? typeName.name with
      | none => exact .failAt ⟨rfl, rfl⟩
      | some declared => exact .ite Iff.rfl (.ok rfl) (.failAt ⟨rfl, rfl⟩)

include hρ

theorem declareVariable_rename (name : Ident) (ty : Ty) :
    Mirrors (fun a => (a.1, a.2.rename ρ)) (declareVariable scopes name ty)
      (declareVariable (scopes.rename ρ) (name.rename ρ) ty) := by
  unfold declareVariable
  rw [scopes.declare_rename hρ]
  rcases scopes.declare name ty with ⟨existing | slot, after⟩
  · exact .failAt ⟨rfl, rfl⟩
  · exact .ok rfl

theorem checkVariable_rename (decl : VarDecl) :
    Mirrors (fun a => (a.1.rename ρ, a.2.rename ρ)) (checkVariable ctx scopes decl)
      (checkVariable ctx (scopes.rename ρ) (decl.rename ρ)) := by
  have hspan : (decl.rename ρ).value.span = decl.value.span := decl.value.span_rename ρ
  unfold checkVariable
  refine (checkExpr_rename ctx.registry scopes hρ decl.value).bind_image ?_
  rintro ⟨value, valueTy⟩
  dsimp only
  rw [hspan]
  refine .ite Iff.rfl (.failAt ⟨rfl, rfl⟩) ((variableTy_rename ctx.registry decl valueTy).bind_image
    fun ty => ?_)
  refine (declareVariable_rename hρ scopes decl.name ty).bind_image ?_
  rintro ⟨slot, after⟩
  exact .pure rfl

theorem checkReturn_rename (value : Option Expr) (span : Span) :
    Mirrors (Stmt.rename ρ) (checkReturn ctx scopes value span)
      (checkReturn ctx (scopes.rename ρ) (value.map (Expr.rename ρ)) span) := by
  cases value with
  | none => exact .ite Iff.rfl (.ok rfl) (.failAt ⟨rfl, rfl⟩)
  | some value =>
      simp only [Option.map_some, checkReturn, Expr.span_rename]
      refine .ite Iff.rfl (.failAt ⟨rfl, rfl⟩)
        ((checkExpr_rename ctx.registry scopes hρ value).bind_image ?_)
      rintro ⟨checked, ty⟩
      exact .ite Iff.rfl (.failAt ⟨rfl, rfl⟩) (.ite Iff.rfl (.pure rfl) (.failAt ⟨rfl, rfl⟩))

theorem checkCondition_rename (r : Registry) (condition : Expr) :
    Mirrors (Expr.rename ρ) (checkCondition r scopes condition)
      (checkCondition r (scopes.rename ρ) (condition.rename ρ)) := by
  unfold checkCondition
  rw [Expr.span_rename]
  refine (checkExpr_rename r scopes hρ condition).bind_image ?_
  rintro ⟨checked, ty⟩
  exact .ite Iff.rfl (.pure rfl) (.failAt ⟨rfl, rfl⟩)

theorem checkCount_rename (r : Registry) (count : Expr) :
    Mirrors (Expr.rename ρ) (checkCount r scopes count)
      (checkCount r (scopes.rename ρ) (count.rename ρ)) := by
  unfold checkCount
  rw [Expr.span_rename]
  refine (checkExpr_rename r scopes hρ count).bind_image ?_
  rintro ⟨checked, ty⟩
  exact .ite Iff.rfl (.pure rfl) (.failAt ⟨rfl, rfl⟩)

theorem checkAssignment_rename (r : Registry) (target value : Expr) (span : Span) :
    Mirrors (Stmt.rename ρ) (checkAssignment r scopes target value span)
      (checkAssignment r (scopes.rename ρ) (target.rename ρ) (value.rename ρ) span) := by
  unfold checkAssignment
  rw [Expr.span_rename]
  refine (checkExpr_rename r scopes hρ value).bind_image ?_
  rintro ⟨checkedValue, valueTy⟩
  refine (checkExpr_rename r scopes hρ target).bind_image ?_
  rintro ⟨checkedTarget, targetTy⟩
  exact .ite Iff.rfl (.pure rfl) (.failAt ⟨rfl, rfl⟩)

end Statements

mutual

/-- **Statements are checked under other names.** -/
theorem checkStmt_rename (hρ : ρ.Injective) (ctx : BodyContext) (inLoop : Bool) (scopes : Scopes) :
    ∀ s : Stmt,
    Mirrors (fun a => (a.1.rename ρ, a.2.rename ρ)) (checkStmt ctx inLoop scopes s)
      (checkStmt ctx inLoop (scopes.rename ρ) (s.rename ρ))
  | .expr e => by
      rw [Stmt.rename, checkStmt, checkStmt]
      refine (checkExpr_rename ctx.registry scopes hρ e).bind_image ?_
      rintro ⟨checked, ty⟩
      exact .pure rfl
  | .var decl => by
      rw [Stmt.rename, checkStmt, checkStmt]
      refine (checkVariable_rename hρ ctx scopes decl).bind_image ?_
      rintro ⟨checked, after⟩
      exact .pure rfl
  | .assign target value span => by
      rw [Stmt.rename, checkStmt, checkStmt]
      exact (checkAssignment_rename hρ scopes ctx.registry target value span).bind_image
        fun checked => .pure rfl
  | .cond condition thenBlock elseBlock span => by
      rw [Stmt.rename, checkStmt, checkStmt]
      refine (checkCondition_rename hρ scopes ctx.registry condition).bind_image fun checked => ?_
      refine (checkStmts_rename hρ ctx inLoop scopes.push thenBlock).bind_image ?_
      rintro ⟨first, afterThen⟩
      dsimp only
      rw [Scopes.pop_rename, Scopes.push_rename]
      refine (checkStmts_rename hρ ctx inLoop afterThen.pop.push elseBlock).bind_image ?_
      rintro ⟨second, afterElse⟩
      exact .pure (Prod.ext rfl (Scopes.pop_rename afterElse))
  | .whileLoop condition body span => by
      rw [Stmt.rename, checkStmt, checkStmt]
      refine (checkCondition_rename hρ scopes ctx.registry condition).bind_image fun checked => ?_
      refine (checkStmts_rename hρ ctx true scopes.push body).bind_image ?_
      rintro ⟨inner, after⟩
      exact .pure (Prod.ext rfl (Scopes.pop_rename after))
  | .repeatLoop count body span => by
      rw [Stmt.rename, checkStmt, checkStmt]
      refine (checkCount_rename hρ scopes ctx.registry count).bind_image fun checked => ?_
      refine (checkStmts_rename hρ ctx true scopes.push body).bind_image ?_
      rintro ⟨inner, after⟩
      exact .pure (Prod.ext rfl (Scopes.pop_rename after))
  | .ret value span => by
      rw [Stmt.rename, checkStmt, checkStmt]
      exact (checkReturn_rename hρ ctx scopes value span).bind_image fun checked => .pure rfl
  | .breakLoop span => by
      rw [Stmt.rename, checkStmt, checkStmt]
      exact (Mirrors.refl (checkInLoop inLoop .breakWord span)).bind_image fun _ => .pure rfl
  | .continueLoop span => by
      rw [Stmt.rename, checkStmt, checkStmt]
      exact (Mirrors.refl (checkInLoop inLoop .continueWord span)).bind_image fun _ => .pure rfl
  | .comment text span => .ok rfl

theorem checkStmts_rename (hρ : ρ.Injective) (ctx : BodyContext) (inLoop : Bool) (scopes : Scopes) :
    ∀ ss : List Stmt,
    Mirrors (fun a => (Stmt.renameAll ρ a.1, a.2.rename ρ)) (checkStmts ctx inLoop scopes ss)
      (checkStmts ctx inLoop (scopes.rename ρ) (Stmt.renameAll ρ ss))
  | [] => .ok rfl
  | s :: rest => by
      rw [Stmt.renameAll, checkStmts, checkStmts]
      refine (checkStmt_rename hρ ctx inLoop scopes s).bind_image ?_
      rintro ⟨first, after⟩
      refine (checkStmts_rename hρ ctx inLoop after rest).bind_image ?_
      rintro ⟨others, last⟩
      exact .pure rfl

end

/-! ## Functions of the program -/

section Declarations

variable (r : Registry)

theorem checkParamNames_rename (hρ : ρ.Injective) (params : List Param) : ∀ seen : List String,
    Mirrors id (checkParamNames seen params)
      (checkParamNames (seen.map ρ) (params.map (Param.rename ρ))) := by
  induction params with
  | nil => exact fun seen => .ok rfl
  | cons p rest ih =>
      intro seen
      have hseen : ρ p.name.name ∈ seen.map ρ ↔ p.name.name ∈ seen := List.mem_map_of_injective hρ
      rw [List.map_cons, checkParamNames, checkParamNames]
      simp only [Param.rename, Ident.rename, hseen]
      exact .ite Iff.rfl (.failAt ⟨rfl, rfl⟩) (ih (p.name.name :: seen))

/-- The cause that is reported for a type that is nothing makes a difference only by its kind. -/
theorem resolveStorable_mirrors (name : Ident) (ifNothing ifNothing' : Cause)
    (h : ifNothing'.kind = ifNothing.kind) :
    Mirrors id (resolveStorable r name ifNothing) (resolveStorable r name ifNothing') :=
  (Mirrors.refl (resolveType r name)).bind_image fun _ =>
  .ite Iff.rfl (.failAt ⟨h, rfl⟩) (.pure rfl)

theorem resolveParams_rename (params : List Param) :
    Mirrors (List.map (Param.rename ρ)) (resolveParams r params)
      (resolveParams r (params.map (Param.rename ρ))) := by
  induction params with
  | nil => exact .ok rfl
  | cons p rest ih =>
      rw [List.map_cons, resolveParams, resolveParams]
      refine (resolveStorable_mirrors r p.typeName (.parameterOfNothing p.name.name)
        (.parameterOfNothing (ρ p.name.name)) rfl).bind_image fun ty => ?_
      exact ih.bind_image fun others => .pure rfl

theorem resolveSignature_rename (hρ : ρ.Injective) (decl : FunctionDecl) :
    Mirrors (FunctionDecl.rename ρ) (resolveSignature r decl)
      (resolveSignature r (decl.rename ρ)) := by
  refine (checkParamNames_rename hρ decl.params []).bind_image fun _ => ?_
  refine (resolveParams_rename r decl.params).bind_image fun params => ?_
  exact (Mirrors.refl (resolveResult r decl.returnTypeName)).bind_image fun result => .pure rfl

theorem declareUser_rename (index : Nat) (decl : FunctionDecl) :
    declareUser r index (decl.rename ρ) = declareUser r index decl := by
  unfold declareUser
  rw [FunctionDecl.paramTys_rename]
  rfl

theorem declareUsers_rename {ρ : Nat → String → String} (hρ : ∀ i, (ρ i).Injective)
    (decls : List FunctionDecl) :
    ∀ (r : Registry) (index : Nat), Mirrors (fun a => (FunctionDecl.renameEach ρ index a.1, a.2))
      (declareUsers r index decls)
        (declareUsers r index (FunctionDecl.renameEach ρ index decls)) := by
  induction decls with
  | nil => exact fun r index => .ok rfl
  | cons decl rest ih =>
      intro r index
      rw [FunctionDecl.renameEach, declareUsers, declareUsers]
      refine (resolveSignature_rename r (hρ index) decl).bind_image fun resolved => ?_
      rw [declareUser_rename]
      refine (Mirrors.refl (declareUser r index resolved)).bind_image fun after => ?_
      refine (ih after (index + 1)).bind_image ?_
      rintro ⟨others, last⟩
      exact .pure rfl

end Declarations

/-! ## Programs -/

theorem checkParams_rename (hρ : ρ.Injective) (params : List Param) : ∀ scopes : Scopes,
    Mirrors (fun a => (a.1.map (Param.rename ρ), a.2.rename ρ)) (checkParams scopes params)
      (checkParams (scopes.rename ρ) (params.map (Param.rename ρ))) := by
  induction params with
  | nil => exact fun scopes => .ok rfl
  | cons p rest ih =>
      intro scopes
      refine (declareVariable_rename hρ scopes p.name (p.ty.getD .nothing)).bind_image ?_
      rintro ⟨slot, after⟩
      refine (ih after).bind_image ?_
      rintro ⟨others, last⟩
      exact .pure rfl

theorem checkFunction_rename (hρ : ρ.Injective) (r : Registry) (decl : FunctionDecl) :
    Mirrors (FunctionDecl.rename ρ) (checkFunction r decl) (checkFunction r (decl.rename ρ)) := by
  refine (checkParams_rename hρ decl.params .initial).bind_image ?_
  rintro ⟨params, scopes⟩
  refine (checkStmts_rename hρ ⟨r, decl.name.name, decl.resultTy, decl.isMain⟩ false scopes
    decl.body).bind_image ?_
  rintro ⟨body, last⟩
  exact .pure rfl

theorem checkFunctions_rename {ρ : Nat → String → String} (hρ : ∀ i, (ρ i).Injective) (r : Registry)
    (decls : List FunctionDecl) : ∀ index : Nat,
      Mirrors (FunctionDecl.renameEach ρ index) (checkFunctions r decls)
        (checkFunctions r (FunctionDecl.renameEach ρ index decls)) := by
  induction decls with
  | nil => exact fun index => .ok rfl
  | cons decl rest ih =>
      intro index
      refine (checkFunction_rename (hρ index) r decl).bind_image fun checked => ?_
      exact (ih (index + 1)).bind_image fun others => .pure rfl

/-- A checked program with the variables of each function renamed. -/
def CheckedProgram.rename (ρ : Nat → String → String) (p : CheckedProgram σ) : CheckedProgram σ :=
  { p with functions := FunctionDecl.renameEach ρ 0 p.functions }

/-- **A renamed program is checked as the renamed checked program**, or neither is. -/
theorem checkProgram_rename {ρ : Nat → String → String} (hρ : ∀ i, (ρ i).Injective)
    (records : List RecordDecl) (functions : List FunctionDecl) (host : HostTable σ) :
    Mirrors (CheckedProgram.rename ρ) (checkProgram records functions host)
      (checkProgram records (FunctionDecl.renameEach ρ 0 functions) host) := by
  refine (Mirrors.refl (declareRecords .initial records)).bind_image fun named => ?_
  refine (Mirrors.refl (resolveRecords named records)).bind_image ?_
  rintro ⟨resolved, withFields⟩
  refine (Mirrors.refl
    (declareHosts withFields 0 (host ++ resolved.map recordConstructor))).bind_image
      fun withHost => ?_
  refine (declareUsers_rename hρ functions withHost 0).bind_image ?_
  rintro ⟨signed, registry⟩
  exact (checkFunctions_rename hρ registry signed 0).bind_image fun checked => .pure rfl

end Stepwise
