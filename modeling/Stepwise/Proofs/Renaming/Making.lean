import Stepwise.Proofs.Code.Patching
import Stepwise.Proofs.Renaming.Checking

/-!
# Code of renamed programs

Under renamings that give different names to different variables, the code of a renamed program is
the code of the program, in which only the locals bear other names (`emitModule_rename`).
-/

set_option autoImplicit false

namespace Stepwise

open Diagnosed

variable {σ : Type} {ρ : String → String}

/-! ## Renamed code -/

/-- A local, renamed. -/
def LocalInfo.rename (ρ : String → String) (l : LocalInfo) : LocalInfo :=
  { l with name := ρ l.name }

/-- The code of a function with its locals renamed. -/
def FunctionCode.rename (ρ : String → String) (f : FunctionCode) : FunctionCode :=
  { f with locals := f.locals.map (LocalInfo.rename ρ) }

/-- The code of functions numbered from `index`, each with its own renaming. -/
def FunctionCode.renameEach (ρ : Nat → String → String) (index : Nat) :
    List FunctionCode → List FunctionCode
  | [] => []
  | f :: rest => f.rename (ρ index) :: FunctionCode.renameEach ρ (index + 1) rest

/-- A module with the locals of each function renamed. -/
def Module.rename (ρ : Nat → String → String) (m : Module σ) : Module σ :=
  { m with functions := FunctionCode.renameEach ρ 0 m.functions }

/-- What the next statement depends on, renamed. -/
def EmitState.rename (ρ : String → String) (st : EmitState) : EmitState :=
  { st with scopes := st.scopes.rename ρ }

/-- The code of statements, renamed. -/
def Emitted.rename (ρ : String → String) (e : Emitted) : Emitted :=
  ⟨e.code, e.locals.map (LocalInfo.rename ρ), e.state.rename ρ⟩

namespace EmitState

variable (st : EmitState)

theorem openBlock_rename : (st.rename ρ).openBlock = st.openBlock.rename ρ := rfl

theorem closeBlock_rename : (st.rename ρ).closeBlock = st.closeBlock.rename ρ := by
  simp only [closeBlock, rename, Scopes.pop_rename]

end EmitState

/-! ## Expressions -/

section Expressions

variable (r : Registry) (scopes : Scopes)

theorem resolveField_rename (record : Expr) (name : Ident) :
    resolveField r (record.rename ρ) name = resolveField r record name := by
  unfold resolveField
  rw [Expr.ty?_rename, Expr.span_rename]

theorem resolveSlot_rename (hρ : ρ.Injective) (name : String) (annotated : Option Nat)
    (span : Span) :
    Mirrors id (resolveSlot scopes name annotated span)
      (resolveSlot (scopes.rename ρ) (ρ name) annotated span) := by
  unfold resolveSlot
  rw [scopes.find?_rename hρ]
  cases scopes.find? name with
  | none => exact .failAt ⟨rfl, rfl⟩
  | some symbol => exact .ite Iff.rfl (.ok rfl) (.failAt ⟨rfl, rfl⟩)

mutual

/-- **Expressions have the same code under other names.** -/
theorem emitExpr_rename (hρ : ρ.Injective) : ∀ e : Expr,
    Mirrors id (emitExpr r scopes e) (emitExpr r (scopes.rename ρ) (e.rename ρ))
  | .number .. | .boolean .. | .string .. => .ok rfl
  | .reference i name annotated => by
      rw [Expr.rename, emitExpr, emitExpr]
      exact (resolveSlot_rename scopes hρ name annotated i.span).bind_image fun slot => .pure rfl
  | .call i name arguments callee => by
      rw [Expr.rename, emitExpr, emitExpr]
      refine (emitExprs_rename hρ arguments).bind_image fun code => ?_
      exact (Mirrors.refl (callInstruction i.span callee)).bind_image fun call => .pure rfl
  | .field i record name => by
      rw [Expr.rename, emitExpr, emitExpr, resolveField_rename]
      refine (emitExpr_rename hρ record).bind_image fun code => ?_
      exact (Mirrors.refl (resolveField r record name)).bind_image fun index => .pure rfl
  | .unary i op operand => by
      rw [Expr.rename, emitExpr, emitExpr]
      exact (emitExpr_rename hρ operand).bind_image fun code => .pure rfl
  | .binary i op left right => by
      rw [Expr.rename, emitExpr, emitExpr]
      refine (emitExpr_rename hρ left).bind_image fun first => ?_
      exact (emitExpr_rename hρ right).bind_image fun second => .pure rfl

theorem emitExprs_rename (hρ : ρ.Injective) : ∀ es : List Expr,
    Mirrors id (emitExprs r scopes es) (emitExprs r (scopes.rename ρ) (Expr.renameAll ρ es))
  | [] => .ok rfl
  | e :: es => by
      rw [Expr.renameAll, emitExprs, emitExprs]
      refine (emitExpr_rename hρ e).bind_image fun first => ?_
      exact (emitExprs_rename hρ es).bind_image fun others => .pure rfl

end

/-! ## Statements -/

section Statements

variable (hρ : ρ.Injective)

include hρ

theorem declareSlot_rename (name : Ident) (ty : Ty) (annotated : Option Nat) :
    Mirrors (fun a => (a.1, a.2.rename ρ)) (declareSlot scopes name ty annotated)
      (declareSlot (scopes.rename ρ) (name.rename ρ) ty annotated) := by
  unfold declareSlot
  rw [scopes.declare_rename hρ]
  rcases scopes.declare name ty with ⟨existing | slot, after⟩
  · exact .failAt ⟨rfl, rfl⟩
  · exact .ite Iff.rfl (.ok rfl) (.failAt ⟨rfl, rfl⟩)

theorem emitTarget_rename (target : Expr) :
    Mirrors id (emitTarget r scopes target) (emitTarget r (scopes.rename ρ) (target.rename ρ)) := by
  cases target with
  | reference i name annotated =>
      exact (resolveSlot_rename scopes hρ name annotated i.span).bind_image fun slot => .pure rfl
  | field i record name =>
      simp only [Expr.rename, emitTarget, resolveField_rename]
      refine (emitExpr_rename r scopes hρ record).bind_image fun code => ?_
      exact (Mirrors.refl (resolveField r record name)).bind_image fun index => .pure rfl
  | _ => exact .failAt ⟨rfl, rfl⟩

theorem emitDropped_rename (e : Expr) :
    Mirrors id (emitDropped r scopes e) (emitDropped r (scopes.rename ρ) (e.rename ρ)) := by
  unfold emitDropped
  rw [Expr.ty?_rename, Expr.span_rename]
  refine (emitExpr_rename r scopes hρ e).bind_image fun code => ?_
  rcases e.ty? with _ | ty
  · exact .failAt ⟨rfl, rfl⟩
  · cases ty <;> exact .pure rfl

theorem emitResult_rename (value : Option Expr) :
    Mirrors id (emitResult r scopes value)
      (emitResult r (scopes.rename ρ) (value.map (Expr.rename ρ))) := by
  cases value with
  | none => exact .ok rfl
  | some value => exact emitExpr_rename r scopes hρ value

theorem emitVariable_rename (blockEnd pc : Nat) (st : EmitState) (decl : VarDecl) :
    Mirrors (Emitted.rename ρ) (emitVariable r blockEnd pc st decl)
      (emitVariable r blockEnd pc (st.rename ρ) (decl.rename ρ)) := by
  unfold emitVariable
  refine (emitExpr_rename r st.scopes hρ decl.value).bind_image fun value => ?_
  cases hty : decl.ty with
  | none =>
      simp only [VarDecl.rename, hty]
      exact .failAt ⟨rfl, rfl⟩
  | some ty =>
      simp only [VarDecl.rename, hty, Expr.size_rename]
      refine (declareSlot_rename st.scopes hρ decl.name ty decl.slot).bind_image ?_
      rintro ⟨slot, scopes⟩
      exact .pure rfl

omit hρ in
theorem emitJump_rename (st : EmitState) (span : Span) (target : Option Nat) :
    Mirrors (Emitted.rename ρ) (emitJump st span target) (emitJump (st.rename ρ) span target) := by
  cases target with
  | none => exact .failAt ⟨rfl, rfl⟩
  | some target => exact .ok rfl

end Statements

end Expressions

mutual

/-- **Statements have the same code under other names.** -/
theorem emitStmt_rename (hρ : ρ.Injective) (r : Registry) (loop : Option LoopTargets)
    (blockEnd pc : Nat) (before : EmitState) :
      ∀ s : Stmt, Mirrors (Emitted.rename ρ) (emitStmt r loop blockEnd pc before s)
        (emitStmt r loop blockEnd pc (before.rename ρ) (s.rename ρ))
  | .comment .. => .ok rfl
  | .expr e => by
      rw [Stmt.rename, emitStmt, emitStmt, Expr.span_rename]
      exact (emitDropped_rename r before.scopes hρ e).bind_image fun code => .pure rfl
  | .var decl => by
      rw [Stmt.rename, emitStmt, emitStmt]
      exact emitVariable_rename r hρ blockEnd pc (before.enter decl.span.line) decl
  | .assign target value span => by
      rw [Stmt.rename, emitStmt, emitStmt]
      refine (emitExpr_rename r before.scopes hρ value).bind_image fun first => ?_
      exact (emitTarget_rename r before.scopes hρ target).bind_image fun second => .pure rfl
  | .cond condition thenBlock elseBlock span => by
      rw [Stmt.rename, emitStmt, emitStmt]
      simp only [Expr.size_rename, Stmt.sizes_renameAll]
      refine (emitExpr_rename r before.scopes hρ condition).bind_image fun test => ?_
      refine (emitStmts_rename hρ r loop _ _ (before.enter span.line).openBlock
        thenBlock).bind_image fun first => ?_
      have hbetween : (first.rename ρ).state.closeBlock.openBlock =
          first.state.closeBlock.openBlock.rename ρ := by
        rw [← EmitState.openBlock_rename, ← EmitState.closeBlock_rename]
        rfl
      rw [hbetween]
      refine (emitStmts_rename hρ r loop _ _ first.state.closeBlock.openBlock elseBlock).bind_image
        fun second => .pure ?_
      simp only [Emitted.rename, List.map_append, EmitState.closeBlock_rename]
      rfl
  | .whileLoop condition body span => by
      rw [Stmt.rename, emitStmt, emitStmt]
      simp only [Expr.size_rename, Stmt.sizes_renameAll]
      refine (emitExpr_rename r before.scopes hρ condition).bind_image fun test => ?_
      refine (emitStmts_rename hρ r _ _ _ (before.enter span.line).openBlock body).bind_image
        fun inner => .pure ?_
      simp only [Emitted.rename, EmitState.closeBlock_rename]
      rfl
  | .repeatLoop count body span => by
      rw [Stmt.rename, emitStmt, emitStmt]
      simp only [Expr.size_rename, Stmt.sizes_renameAll]
      refine (emitExpr_rename r before.scopes hρ count).bind_image fun times => ?_
      refine (emitStmts_rename hρ r _ _ _ (before.enter span.line).openBlock body).bind_image
        fun inner => .pure ?_
      simp only [Emitted.rename, EmitState.closeBlock_rename]
      rfl
  | .ret value span => by
      rw [Stmt.rename, emitStmt, emitStmt]
      exact (emitResult_rename r before.scopes hρ value).bind_image fun code => .pure rfl
  | .breakLoop span => by
      rw [Stmt.rename, emitStmt, emitStmt]
      exact emitJump_rename (before.enter span.line) span _
  | .continueLoop span => by
      rw [Stmt.rename, emitStmt, emitStmt]
      exact emitJump_rename (before.enter span.line) span _

theorem emitStmts_rename (hρ : ρ.Injective) (r : Registry) (loop : Option LoopTargets)
    (blockEnd pc : Nat) (st : EmitState) :
      ∀ ss : List Stmt, Mirrors (Emitted.rename ρ) (emitStmts r loop blockEnd pc st ss)
        (emitStmts r loop blockEnd pc (st.rename ρ) (Stmt.renameAll ρ ss))
  | [] => .ok rfl
  | s :: rest => by
      rw [Stmt.renameAll, emitStmts, emitStmts, Stmt.size_rename]
      refine (emitStmt_rename hρ r loop blockEnd pc st s).bind_image fun first => ?_
      refine (emitStmts_rename hρ r loop blockEnd (pc + s.size) first.state rest).bind_image
        fun others => .pure ?_
      simp only [Emitted.rename, List.map_append]

end

/-! ## Functions and modules -/

theorem emitParams_rename (hρ : ρ.Injective) (last : Nat) (params : List Param) : ∀ scopes : Scopes,
    Mirrors (fun a => (a.1.map (LocalInfo.rename ρ), a.2.rename ρ)) (emitParams scopes last params)
      (emitParams (scopes.rename ρ) last (params.map (Param.rename ρ))) := by
  induction params with
  | nil => exact fun scopes => .ok rfl
  | cons p rest ih =>
      intro scopes
      refine (declareSlot_rename scopes hρ p.name (p.ty.getD .nothing) p.slot).bind_image ?_
      rintro ⟨slot, after⟩
      refine (ih after).bind_image ?_
      rintro ⟨others, behind⟩
      exact .pure rfl

theorem closingReturn_rename (decl : FunctionDecl) (body : Emitted) :
    closingReturn (decl.rename ρ) (body.rename ρ) = closingReturn decl body := by
  have hends : endsWithReturn (decl.rename ρ).body = endsWithReturn decl.body :=
    endsWithReturn_renameAll ρ decl.body
  unfold closingReturn
  rw [hends]
  rfl

/-- **A function has the same code under other names.** -/
theorem emitFunction_rename (hρ : ρ.Injective) (r : Registry) (index : Nat) (decl : FunctionDecl) :
    Mirrors (FunctionCode.rename ρ) (emitFunction r index decl)
      (emitFunction r index (decl.rename ρ)) := by
  rw [emitFunction_eq_outright, emitFunction_eq_outright]
  unfold emitOutright
  rw [FunctionDecl.size_rename, FunctionDecl.paramTys_rename]
  refine (emitParams_rename hρ (decl.size - 1) decl.params .initial).bind_image ?_
  rintro ⟨params, scopes⟩
  refine (emitStmts_rename hρ r none (decl.size - 1) 0 ⟨scopes, 0, ⟨0, decl.span.line⟩⟩
    decl.body).bind_image fun body => ?_
  refine .pure ?_
  have hparams : (decl.rename ρ).params.length = decl.params.length := List.length_map _
  rw [closingReturn_rename, hparams]
  simp only [FunctionCode.rename, Emitted.rename, List.map_append]
  rfl

theorem emitFunctions_rename {ρ : Nat → String → String} (hρ : ∀ i, (ρ i).Injective) (r : Registry)
    (decls : List FunctionDecl) : ∀ index : Nat,
      Mirrors (FunctionCode.renameEach ρ index) (emitFunctions r index decls)
        (emitFunctions r index (FunctionDecl.renameEach ρ index decls)) := by
  induction decls with
  | nil => exact fun index => .ok rfl
  | cons decl rest ih =>
      intro index
      refine (emitFunction_rename (hρ index) r index decl).bind_image fun first => ?_
      exact (ih (index + 1)).bind_image fun others => .pure rfl

/-- **A renamed checked program has the renamed code of the program**, or neither has code. -/
theorem emitModule_rename {ρ : Nat → String → String} (hρ : ∀ i, (ρ i).Injective)
    (p : CheckedProgram σ) :
    Mirrors (Module.rename ρ) (emitModule p.functions p.environment)
      (emitModule (p.rename ρ).functions (p.rename ρ).environment) :=
  (emitFunctions_rename hρ p.environment.registry p.functions 0).bind_image fun _ => .pure rfl

end Stepwise
