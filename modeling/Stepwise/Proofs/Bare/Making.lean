import Stepwise.Proofs.Code.Patching
import Stepwise.Proofs.Bare.Checking

/-!
# Code of bare programs

The code of what is left of a checked program is the code of the program, but for the lines and
places noted beside it (`emitModule_bare`): comments make no instruction and take no number, so
instructions, the numbers of statements, the slots and the scopes of locals are the same.
-/

set_option autoImplicit false

namespace Stepwise

open Diagnosed

variable {σ : Type}

/-! ## Code without places -/

/-- The statement of an instruction, without its line. -/
def LineInfo.bare (i : LineInfo) : LineInfo := ⟨i.index, Span.origin.line⟩

/-- A local without its place. -/
def LocalInfo.bare (l : LocalInfo) : LocalInfo := { l with span := .origin }

/-- The code of a function without lines and places. -/
def FunctionCode.bare (f : FunctionCode) : FunctionCode :=
  { f with locals := f.locals.map LocalInfo.bare, lineInfos := f.lineInfos.map LineInfo.bare }

/-- A module without lines and places. -/
def Module.bare (m : Module σ) : Module σ :=
  ⟨m.functions.map FunctionCode.bare, m.registry.bare, m.hostFunctions.map HostFunction.bare⟩

/-- An instruction with its statement, without the line. -/
def CodeLine.bare (l : CodeLine) : CodeLine := ⟨l.instruction, l.info.bare⟩

/-- What the next statement depends on, without lines and places. -/
def EmitState.bare (st : EmitState) : EmitState := ⟨st.scopes.bare, st.nextIndex, st.current.bare⟩

/-- The code of statements without lines and places. -/
def Emitted.bare (e : Emitted) : Emitted :=
  ⟨e.code.map CodeLine.bare, e.locals.map LocalInfo.bare, e.state.bare⟩

namespace EmitState

variable (st : EmitState)

theorem bare_enter (line : Nat) : (st.enter line).bare = st.bare.enter Span.origin.line := rfl

theorem map_lines (code : List Instruction) :
    (st.lines code).map CodeLine.bare = st.bare.lines code := by
  rw [lines, lines, List.map_map]
  rfl

theorem bare_current (info : LineInfo) :
    { st with current := info }.bare = { st.bare with current := info.bare } := rfl

theorem bare_openBlock : st.openBlock.bare = st.bare.openBlock := rfl

theorem bare_closeBlock : st.closeBlock.bare = st.bare.closeBlock := by
  simp only [closeBlock, bare, Scopes.pop_bare]

end EmitState

/-! ## Sizes -/

namespace Expr

mutual

@[simp] theorem size_eraseSpans : ∀ e : Expr, e.eraseSpans.size = e.size
  | .number .. | .boolean .. | .string .. | .reference .. => rfl
  | .call _ _ arguments _ => by rw [eraseSpans, size, size, sizes_eraseAllSpans arguments]
  | .field _ record _ => by rw [eraseSpans, size, size, size_eraseSpans record]
  | .unary _ _ operand => by rw [eraseSpans, size, size, size_eraseSpans operand]
  | .binary _ _ left right =>
    by rw [eraseSpans, size, size, size_eraseSpans left, size_eraseSpans right]

@[simp] theorem sizes_eraseAllSpans : ∀ es : List Expr, sizes (eraseAllSpans es) = sizes es
  | [] => rfl
  | e :: es => by rw [eraseAllSpans, sizes, sizes, size_eraseSpans e, sizes_eraseAllSpans es]

end

@[simp] theorem targetSize_eraseSpans (e : Expr) : e.eraseSpans.targetSize = e.targetSize := by
  cases e <;> simp [eraseSpans, targetSize]

@[simp] theorem dropSize_eraseSpans (e : Expr) : e.eraseSpans.dropSize = e.dropSize := by
  simp only [dropSize, ty?_eraseSpans]

end Expr

namespace Stmt

mutual

theorem size_bare : ∀ s : Stmt, s.bare.size = s.size
  | .expr e => by simp only [bare, size, Expr.size_eraseSpans, Expr.dropSize_eraseSpans]
  | .var decl => by simp only [bare, size, VarDecl.eraseSpans, Expr.size_eraseSpans]
  | .assign target value _ =>
    by simp only [bare, size, Expr.size_eraseSpans, Expr.targetSize_eraseSpans]
  | .cond condition thenBlock elseBlock _ => by
      simp only [bare, size, Expr.size_eraseSpans, sizes_bareAll thenBlock, sizes_bareAll elseBlock]
  | .whileLoop condition body _ =>
    by simp only [bare, size, Expr.size_eraseSpans, sizes_bareAll body]
  | .repeatLoop count body _ => by simp only [bare, size, Expr.size_eraseSpans, sizes_bareAll body]
  | .ret none _ => rfl
  | .ret (some value) _ => by simp only [bare, size, Option.map_some, Expr.size_eraseSpans]
  | .breakLoop _ | .continueLoop _ | .comment .. => rfl

/-- Comments have no instructions. -/
theorem sizes_bareAll : ∀ ss : List Stmt, sizes (bareAll ss) = sizes ss
  | [] => rfl
  | s :: rest => by
      cases hcomment : s.isComment with
      | true =>
          cases s with
          | comment text span => rw [bareAll, sizes, size, sizes_bareAll rest, Nat.zero_add]
          | _ => cases hcomment
      | false => rw [bareAll_cons hcomment, sizes, sizes, size_bare s, sizes_bareAll rest]

end

end Stmt

/-- Comments behind a `return` make no difference. -/
theorem endsWithReturn_bareAll (body : List Stmt) :
    endsWithReturn (Stmt.bareAll body) = endsWithReturn body := by
  have hfind : (Stmt.bareAll body).reverse.find? (!·.isComment) =
      (body.reverse.find? (!·.isComment)).map Stmt.bare := by
    rw [Stmt.bareAll_eq, ← List.map_reverse, ← List.filter_reverse, List.find?_map,
      List.find?_filter]
    simp
  unfold endsWithReturn
  rw [hfind]
  cases body.reverse.find? (!·.isComment) with
  | none => rfl
  | some s => exact s.isReturn_bare

/-! ## Expressions -/

section Expressions

variable (r : Registry) (scopes : Scopes)

theorem resolveSlot_bare (name : String) (annotated : Option Nat) (span span' : Span) :
    Alike (fun a b => b = a) (resolveSlot scopes name annotated span)
      (resolveSlot scopes.bare name annotated span') := by
  unfold resolveSlot
  rw [Scopes.find?_bare]
  cases scopes.find? name with
  | none => exact .failAt rfl
  | some symbol => exact .ite Iff.rfl (.ok rfl) (.failAt rfl)

theorem resolveField_bare (record : Expr) (name : Ident) :
    Alike (fun a b => b = a) (resolveField r record name)
      (resolveField r.bare record.eraseSpans name.eraseSpans) := by
  unfold resolveField
  rw [Expr.ty?_eraseSpans]
  cases record.ty? with
  | none => exact .failAt rfl
  | some ty =>
      cases ty with
      | record recordName =>
          dsimp only
          rw [Registry.record?_bare]
          cases r.record? recordName with
          | none => exact .failAt rfl
          | some rec =>
              have hindex : rec.bare.fieldIndex? name.eraseSpans.name = rec.fieldIndex? name.name :=
                rfl
              simp only [Option.map_some, Option.bind_some]
              rw [hindex]
              cases rec.fieldIndex? name.name with
              | none => exact .failAt rfl
              | some index => exact .ok rfl
      | _ => exact .failAt rfl

theorem callInstruction_alike (span span' : Span) (callee : Option Callee) :
    Alike (fun a b => b = a) (callInstruction span callee) (callInstruction span' callee) := by
  rcases callee with _ | ⟨index⟩ | ⟨index⟩
  · exact .failAt rfl
  · exact .ok rfl
  · exact .ok rfl

mutual

/-- **Expressions have the same code without their places.** -/
theorem emitExpr_bare : ∀ e : Expr,
    Alike (fun a b => b = a) (emitExpr r scopes e) (emitExpr r.bare scopes.bare e.eraseSpans)
  | .number .. | .boolean .. | .string .. => .ok rfl
  | .reference i name annotated => by
      rw [Expr.eraseSpans, emitExpr, emitExpr]
      exact (resolveSlot_bare scopes name annotated i.span _).bind_image fun slot => .pure rfl
  | .call i name arguments callee => by
      rw [Expr.eraseSpans, emitExpr, emitExpr]
      refine (emitExprs_bare arguments).bind_image fun code => ?_
      exact (callInstruction_alike i.span _ callee).bind_image fun call => .pure rfl
  | .field i record name => by
      rw [Expr.eraseSpans, emitExpr, emitExpr]
      refine (emitExpr_bare record).bind_image fun code => ?_
      exact (resolveField_bare r record name).bind_image fun index => .pure rfl
  | .unary i op operand => by
      rw [Expr.eraseSpans, emitExpr, emitExpr]
      exact (emitExpr_bare operand).bind_image fun code => .pure rfl
  | .binary i op left right => by
      rw [Expr.eraseSpans, emitExpr, emitExpr]
      refine (emitExpr_bare left).bind_image fun first => ?_
      exact (emitExpr_bare right).bind_image fun second => .pure rfl

theorem emitExprs_bare : ∀ es : List Expr,
    Alike (fun a b => b = a) (emitExprs r scopes es)
      (emitExprs r.bare scopes.bare (Expr.eraseAllSpans es))
  | [] => .ok rfl
  | e :: es => by
      rw [Expr.eraseAllSpans, emitExprs, emitExprs]
      refine (emitExpr_bare e).bind_image fun first => ?_
      exact (emitExprs_bare es).bind_image fun others => .pure rfl

end

/-! ## Statements -/

theorem declareSlot_bare (name : Ident) (ty : Ty) (annotated : Option Nat) :
    Alike (fun a b => b = (a.1, a.2.bare)) (declareSlot scopes name ty annotated)
      (declareSlot scopes.bare name.eraseSpans ty annotated) := by
  unfold declareSlot
  rw [Scopes.declare_bare]
  rcases scopes.declare name ty with ⟨existing | slot, after⟩
  · exact .failAt rfl
  · exact .ite Iff.rfl (.ok rfl) (.failAt rfl)

theorem emitTarget_bare (target : Expr) :
    Alike (fun a b => b = a) (emitTarget r scopes target)
      (emitTarget r.bare scopes.bare target.eraseSpans) := by
  cases target with
  | reference i name annotated =>
      exact (resolveSlot_bare scopes name annotated i.span _).bind_image fun slot => .pure rfl
  | field i record name =>
      refine (emitExpr_bare r scopes record).bind_image fun code => ?_
      exact (resolveField_bare r record name).bind_image fun index => .pure rfl
  | _ => exact .failAt rfl

theorem emitDropped_bare (e : Expr) :
    Alike (fun a b => b = a) (emitDropped r scopes e)
      (emitDropped r.bare scopes.bare e.eraseSpans) := by
  unfold emitDropped
  refine (emitExpr_bare r scopes e).bind_image fun code => ?_
  rw [Expr.ty?_eraseSpans]
  rcases e.ty? with _ | ty
  · exact .failAt rfl
  · cases ty <;> exact .pure rfl

theorem emitResult_bare (value : Option Expr) :
    Alike (fun a b => b = a) (emitResult r scopes value)
      (emitResult r.bare scopes.bare (value.map Expr.eraseSpans)) := by
  cases value with
  | none => exact .ok rfl
  | some value => exact emitExpr_bare r scopes value

theorem emitVariable_bare (blockEnd pc : Nat) (st : EmitState) (decl : VarDecl) :
    Alike (fun a b => b = a.bare) (emitVariable r blockEnd pc st decl)
      (emitVariable r.bare blockEnd pc st.bare decl.eraseSpans) := by
  unfold emitVariable
  refine (emitExpr_bare r st.scopes decl.value).bind_image fun value => ?_
  cases hty : decl.ty with
  | none =>
      simp only [VarDecl.eraseSpans, hty]
      exact .failAt rfl
  | some ty =>
      simp only [VarDecl.eraseSpans, hty, Expr.size_eraseSpans]
      refine (declareSlot_bare st.scopes decl.name ty decl.slot).bind_image ?_
      rintro ⟨slot, scopes⟩
      refine .pure ?_
      simp only [Emitted.bare, EmitState.map_lines]
      rfl

theorem emitJump_bare (st : EmitState) (span span' : Span) (target : Option Nat) :
    Alike (fun a b => b = a.bare) (emitJump st span target) (emitJump st.bare span' target) := by
  cases target with
  | none => exact .failAt rfl
  | some target => exact .ok (by rw [Emitted.bare, EmitState.map_lines]; rfl)

end Expressions

mutual

/-- Statements have the same code without their places. -/
theorem emitStmt_bare (r : Registry) (loop : Option LoopTargets) (blockEnd pc : Nat)
    (before : EmitState) :
    ∀ s : Stmt, Alike (fun a b => b = a.bare) (emitStmt r loop blockEnd pc before s)
      (emitStmt r.bare loop blockEnd pc before.bare s.bare)
  | .comment .. => .ok rfl
  | .expr e => by
      rw [Stmt.bare, emitStmt, emitStmt, Expr.span_eraseSpans]
      refine (emitDropped_bare r before.scopes e).bind_image fun code => .pure ?_
      rw [Emitted.bare, EmitState.map_lines]
      rfl
  | .var decl => by
      rw [Stmt.bare, emitStmt, emitStmt]
      exact emitVariable_bare r blockEnd pc (before.enter decl.span.line) decl
  | .assign target value span => by
      rw [Stmt.bare, emitStmt, emitStmt]
      refine (emitExpr_bare r before.scopes value).bind_image fun first => ?_
      refine (emitTarget_bare r before.scopes target).bind_image fun second => .pure ?_
      rw [Emitted.bare, EmitState.map_lines]
      rfl
  | .cond condition thenBlock elseBlock span => by
      rw [Stmt.bare, emitStmt, emitStmt]
      simp only [Expr.size_eraseSpans, Stmt.sizes_bareAll]
      refine (emitExpr_bare r before.scopes condition).bind_image fun test => ?_
      refine (emitStmts_bare r loop _ _ (before.enter span.line).openBlock thenBlock).bind_image
        fun first => ?_
      have hbetween : first.bare.state.closeBlock.openBlock =
          first.state.closeBlock.openBlock.bare := by
        rw [EmitState.bare_openBlock, EmitState.bare_closeBlock]
        rfl
      rw [hbetween]
      refine (emitStmts_bare r loop _ _ first.state.closeBlock.openBlock elseBlock).bind_image
        fun second => .pure ?_
      simp only [Emitted.bare, List.map_append, EmitState.map_lines, EmitState.bare_enter,
        EmitState.bare_closeBlock]
  | .whileLoop condition body span => by
      rw [Stmt.bare, emitStmt, emitStmt]
      simp only [Expr.size_eraseSpans, Stmt.sizes_bareAll]
      refine (emitExpr_bare r before.scopes condition).bind_image fun test => ?_
      refine (emitStmts_bare r _ _ _ (before.enter span.line).openBlock body).bind_image
        fun inner => .pure ?_
      simp only [Emitted.bare, List.map_append, EmitState.map_lines, EmitState.bare_closeBlock,
        EmitState.bare_current]
      rfl
  | .repeatLoop count body span => by
      rw [Stmt.bare, emitStmt, emitStmt]
      simp only [Expr.size_eraseSpans, Stmt.sizes_bareAll]
      refine (emitExpr_bare r before.scopes count).bind_image fun times => ?_
      refine (emitStmts_bare r _ _ _ (before.enter span.line).openBlock body).bind_image
        fun inner => .pure ?_
      simp only [Emitted.bare, List.map_append, EmitState.map_lines, EmitState.bare_closeBlock,
        EmitState.bare_current]
      rfl
  | .ret value span => by
      rw [Stmt.bare, emitStmt, emitStmt]
      refine (emitResult_bare r before.scopes value).bind_image fun code => .pure ?_
      rw [Emitted.bare, EmitState.map_lines]
      rfl
  | .breakLoop span => by
      rw [Stmt.bare, emitStmt, emitStmt]
      exact emitJump_bare (before.enter span.line) span _ _
  | .continueLoop span => by
      rw [Stmt.bare, emitStmt, emitStmt]
      exact emitJump_bare (before.enter span.line) span _ _

/-- **Comments among statements make no code.** -/
theorem emitStmts_bare (r : Registry) (loop : Option LoopTargets) (blockEnd pc : Nat)
    (st : EmitState) :
    ∀ ss : List Stmt, Alike (fun a b => b = a.bare) (emitStmts r loop blockEnd pc st ss)
      (emitStmts r.bare loop blockEnd pc st.bare (Stmt.bareAll ss))
  | [] => .ok rfl
  | s :: rest => by
      cases hcomment : s.isComment with
      | true =>
          cases s with
          | comment text span =>
              rw [Stmt.bareAll, emitStmts, emitStmt]
              exact (emitStmts_bare r loop blockEnd pc st rest).map_left fun _ _ h => h
          | _ => cases hcomment
      | false =>
          rw [Stmt.bareAll_cons hcomment, emitStmts, emitStmts, Stmt.size_bare]
          refine (emitStmt_bare r loop blockEnd pc st s).bind_image fun first => ?_
          refine (emitStmts_bare r loop blockEnd (pc + s.size) first.state rest).bind_image
            fun others => .pure ?_
          simp only [Emitted.bare, List.map_append]

end

/-! ## Functions and modules -/

theorem emitParams_bare (last : Nat) (params : List Param) : ∀ scopes : Scopes,
    Alike (fun a b => b = (a.1.map LocalInfo.bare, a.2.bare)) (emitParams scopes last params)
      (emitParams scopes.bare last (params.map Param.eraseSpans)) := by
  induction params with
  | nil => exact fun scopes => .ok rfl
  | cons p rest ih =>
      intro scopes
      refine (declareSlot_bare scopes p.name (p.ty.getD .nothing) p.slot).bind_image ?_
      rintro ⟨slot, after⟩
      refine (ih after).bind_image ?_
      rintro ⟨others, behind⟩
      exact .pure rfl

/-- Whether a body is closed, and with which number, does not depend on its comments. -/
theorem closingReturn_bare (decl : FunctionDecl) (body : Emitted) :
    closingReturn decl.bare body.bare = (closingReturn decl body).map CodeLine.bare := by
  have hempty : body.bare.code.isEmpty = body.code.isEmpty := by simp [Emitted.bare]
  have hends : endsWithReturn decl.bare.body = endsWithReturn decl.body :=
    endsWithReturn_bareAll decl.body
  unfold closingReturn
  rw [hends, hempty]
  split
  · rfl
  · split
    · exact (EmitState.map_lines (body.state.enter decl.span.line) _).symm
    · exact (EmitState.map_lines body.state _).symm

theorem FunctionDecl.size_bare (decl : FunctionDecl) : decl.bare.size = decl.size := by
  have hends : endsWithReturn decl.bare.body = endsWithReturn decl.body :=
    endsWithReturn_bareAll decl.body
  have hsizes : Stmt.sizes decl.bare.body = Stmt.sizes decl.body := Stmt.sizes_bareAll decl.body
  rw [FunctionDecl.size, FunctionDecl.size, hends, hsizes]

theorem emitFunction_bare (r : Registry) (index : Nat) (decl : FunctionDecl) :
    Alike (fun a b => b = a.bare) (emitFunction r index decl)
      (emitFunction r.bare index decl.bare) := by
  rw [emitFunction_eq_outright, emitFunction_eq_outright]
  unfold emitOutright
  rw [FunctionDecl.size_bare, paramTys_bare]
  refine (emitParams_bare (decl.size - 1) decl.params .initial).bind_image ?_
  rintro ⟨params, scopes⟩
  refine (emitStmts_bare r none (decl.size - 1) 0 ⟨scopes, 0, ⟨0, decl.span.line⟩⟩
    decl.body).bind_image fun body => ?_
  refine .pure ?_
  have hcode : body.bare.code ++ closingReturn decl.bare body.bare =
      (body.code ++ closingReturn decl body).map CodeLine.bare := by
    rw [closingReturn_bare, List.map_append]
    rfl
  have hparams : decl.bare.params.length = decl.params.length := List.length_map _
  have hinstructions (code : List CodeLine) :
      (code.map CodeLine.bare).map (·.instruction) = code.map (·.instruction) := by
    rw [List.map_map]
    rfl
  have hinfos (code : List CodeLine) :
      (code.map CodeLine.bare).map (·.info) = (code.map (·.info)).map LineInfo.bare := by
    rw [List.map_map, List.map_map]
    rfl
  dsimp only
  rw [hcode]
  generalize body.code ++ closingReturn decl body = code
  simp only [hparams, hinstructions, hinfos, List.length_map, FunctionCode.bare, List.map_toArray,
    List.map_append]
  rfl

theorem emitFunctions_bare (r : Registry) (decls : List FunctionDecl) : ∀ index : Nat,
    Alike (fun a b => b = a.map FunctionCode.bare) (emitFunctions r index decls)
      (emitFunctions r.bare index (decls.map FunctionDecl.bare)) := by
  induction decls with
  | nil => exact fun index => .ok rfl
  | cons decl rest ih =>
      intro index
      refine (emitFunction_bare r index decl).bind_image fun first => ?_
      exact (ih (index + 1)).bind_image fun others => .pure rfl

/-- **What is left of a checked program has the code of the program** without lines and places, or
neither has. -/
theorem emitModule_bare (p : CheckedProgram σ) :
    Alike (fun a b => b = a.bare) (emitModule p.functions p.environment)
      (emitModule p.bare.functions p.bare.environment) :=
  (emitFunctions_bare p.environment.registry p.functions 0).bind_image fun _ => .pure rfl

end Stepwise
