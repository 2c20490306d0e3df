import Stepwise.Proofs.Code.Compiled
import Stepwise.Proofs.Source.Located
import Stepwise.Proofs.Typing.Programs

/-!
# Making code agrees with checking

Making code follows the scopes of a function a second time, and reports an internal fault where an
annotation does not fit them. For what checking has annotated this never happens: both walk through
the same scopes, in the same order (`emitStmt_of_checkStmt`), so every name is found in the slot
that was noted for it and every declaration gets the slot that it was given. Replacing comparisons
of records changes the tree between the two, but what is put in is a call with its target, and its
operands are the checked ones.

What checking has followed is what code made outright goes by; patching stops nowhere that this does
not (`emitFunction_eq_outright`). In particular every place that is patched has a jump, and every
`break` and `continue` a loop whose context notes it.

So a source text that passes the checks compiles, and no compilation ends with an internal fault
(`code_agrees_with_checking`).
-/

set_option autoImplicit false

namespace Stepwise

open Diagnosed

/-! ## Expressions -/

section Expressions

variable {r : Registry} {scopes : Scopes}

/-- A name is found in the slot that checking has noted. -/
theorem resolveSlot_of_find? {name : String} {symbol : Symbol} {span : Span}
    (h : scopes.find? name = some symbol) :
    resolveSlot scopes name (some symbol.slot) span = .ok symbol.slot := by
  rw [resolveSlot, h]
  exact if_pos rfl

/-- A field that checking has found has a place. -/
theorem resolveField_of_field? {record : Expr} {recordName : String} {name : Ident}
    {f : RecordField} (hty : record.ty? = some (.record recordName))
    (h : (r.record? recordName).bind (·.field? name.name) = some f) :
    ∃ index, resolveField r record name = .ok index := by
  obtain ⟨recordType, hrecord, hf⟩ := Option.bind_eq_some_iff.mp h
  obtain ⟨index, hindex, -⟩ := RecordType.fieldIndex?_of_field? hf
  refine ⟨index, ?_⟩
  simp only [resolveField, hty, hrecord, Option.bind_some, hindex]

theorem callInstruction_some (span : Span) (callee : Callee) :
    ∃ instruction, callInstruction span (some callee) = .ok instruction := by
  cases callee with
  | user index => exact ⟨_, rfl⟩
  | host index => exact ⟨_, rfl⟩

/-- There is code for a comparison of records where there is code for the records. -/
theorem emitExpr_equalsCall (span : Span) {left right : Expr} (callee : Callee)
    {first second : List Instruction} (hfirst : emitExpr r scopes left = .ok first)
    (hsecond : emitExpr r scopes right = .ok second) :
    ∃ code, emitExpr r scopes (equalsCall span left right callee) = .ok code := by
  obtain ⟨instruction, hcall⟩ := callInstruction_some span callee
  have hbehind : emitExprs r scopes [right] = .ok (second ++ []) :=
    emitExprs_cons_eq_ok.mpr ⟨second, [], hsecond, rfl, rfl⟩
  have harguments : emitExprs r scopes [left, right] = .ok (first ++ (second ++ [])) :=
    emitExprs_cons_eq_ok.mpr ⟨first, _, hfirst, hbehind, rfl⟩
  exact ⟨_, emitExpr_call_eq_ok.mpr ⟨_, instruction, harguments, hcall, rfl⟩⟩

theorem emitExpr_checkedBinary {info : ExprInfo} {op : BinaryOp} {left right : Expr} {t : Ty}
    {first second : List Instruction} (hfirst : emitExpr r scopes left = .ok first)
    (hsecond : emitExpr r scopes right = .ok second) :
    ∃ code, emitExpr r scopes (checkedBinary r info op left right t) = .ok code := by
  unfold checkedBinary
  split
  · exact emitExpr_equalsCall _ _ hfirst hsecond
  · next callee _ =>
      obtain ⟨code, hcode⟩ := emitExpr_equalsCall info.span callee hfirst hsecond
      exact ⟨_, emitExpr_unary_eq_ok.mpr ⟨code, hcode, rfl⟩⟩
  · exact ⟨_, emitExpr_binary_eq_ok.mpr ⟨first, second, hfirst, hsecond, rfl⟩⟩

mutual

/-- **There is code for every checked expression.** -/
theorem emitExpr_of_checkExpr :
    ∀ (e : Expr) {checked : Expr} {t : Ty}, checkExpr r scopes e = .ok (checked, t) →
      ∃ code, emitExpr r scopes checked = .ok code
  | .number i v, checked, t, h => by
      cases h
      exact ⟨_, rfl⟩
  | .boolean i v, checked, t, h => by
      cases h
      exact ⟨_, rfl⟩
  | .string i v, checked, t, h => by
      cases h
      exact ⟨_, rfl⟩
  | .reference i name slot, checked, t, h => by
      obtain ⟨symbol, hfound, rfl, rfl⟩ := checkExpr_reference_eq_ok.mp h
      exact ⟨_, emitExpr_reference_eq_ok.mpr ⟨_, resolveSlot_of_find? hfound, rfl⟩⟩
  | .call i name arguments callee, checked, t, h => by
      obtain ⟨all, f, hall, -, rfl, rfl⟩ := checkExpr_call_eq_ok.mp h
      obtain ⟨code, hcode⟩ := emitExprs_of_checkExprs arguments hall
      obtain ⟨instruction, hcall⟩ := callInstruction_some i.span f.callee
      exact ⟨_, emitExpr_call_eq_ok.mpr ⟨code, instruction, hcode, hcall, rfl⟩⟩
  | .field i record name, checked, t, h => by
      obtain ⟨inner, recordName, f, hinner, hfound, rfl, rfl⟩ := checkExpr_field_eq_ok.mp h
      obtain ⟨code, hcode⟩ := emitExpr_of_checkExpr record hinner
      obtain ⟨index, hindex⟩ := resolveField_of_field? (ty?_of_checkExpr hinner) hfound
      exact ⟨_, emitExpr_field_eq_ok.mpr ⟨code, index, hcode, hindex, rfl⟩⟩
  | .unary i op operand, checked, t, h => by
      obtain ⟨inner, innerTy, hinner, -, rfl⟩ := checkExpr_unary_eq_ok.mp h
      obtain ⟨code, hcode⟩ := emitExpr_of_checkExpr operand hinner
      exact ⟨_, emitExpr_unary_eq_ok.mpr ⟨code, hcode, rfl⟩⟩
  | .binary i op left right, checked, t, h => by
      obtain ⟨first, firstTy, second, secondTy, hfirst, hsecond, -, rfl⟩ :=
        checkExpr_binary_eq_ok.mp h
      obtain ⟨code, hcode⟩ := emitExpr_of_checkExpr left hfirst
      obtain ⟨code', hcode'⟩ := emitExpr_of_checkExpr right hsecond
      exact emitExpr_checkedBinary hcode hcode'

theorem emitExprs_of_checkExprs :
    ∀ (es : List Expr) {checked : List (Expr × Ty)}, checkExprs r scopes es = .ok checked →
      ∃ code, emitExprs r scopes (checked.map (·.1)) = .ok code
  | [], checked, h => by
      cases h
      exact ⟨_, rfl⟩
  | e :: es, checked, h => by
      obtain ⟨first, others, hfirst, hothers, rfl⟩ := checkExprs_cons_eq_ok.mp h
      obtain ⟨code, hcode⟩ := emitExpr_of_checkExpr e hfirst
      obtain ⟨code', hcode'⟩ := emitExprs_of_checkExprs es hothers
      exact ⟨_, emitExprs_cons_eq_ok.mpr ⟨code, code', hcode, hcode', rfl⟩⟩

end

/-- There is code that sets what a checked variable or field stands for. -/
theorem emitTarget_of_checkExpr {e checked : Expr} {t : Ty} (he : e.isAssignable = true)
    (h : checkExpr r scopes e = .ok (checked, t)) :
    ∃ code, emitTarget r scopes checked = .ok code := by
  cases e with
  | reference i name slot =>
      obtain ⟨symbol, hfound, rfl, rfl⟩ := checkExpr_reference_eq_ok.mp h
      exact ⟨_, emitTarget_reference_eq_ok.mpr ⟨_, resolveSlot_of_find? hfound, rfl⟩⟩
  | field i record name =>
      obtain ⟨inner, recordName, f, hinner, hfound, rfl, rfl⟩ := checkExpr_field_eq_ok.mp h
      obtain ⟨code, hcode⟩ := emitExpr_of_checkExpr record hinner
      obtain ⟨index, hindex⟩ := resolveField_of_field? (ty?_of_checkExpr hinner) hfound
      exact ⟨_, emitTarget_field_eq_ok.mpr ⟨code, index, hcode, hindex, rfl⟩⟩
  | _ => cases he

theorem emitDropped_of_checkExpr {e checked : Expr} {t : Ty}
    (h : checkExpr r scopes e = .ok (checked, t)) :
    ∃ code, emitDropped r scopes checked = .ok code := by
  obtain ⟨code, hcode⟩ := emitExpr_of_checkExpr e h
  simp only [emitDropped, hcode, ty?_of_checkExpr h]
  cases t <;> exact ⟨_, rfl⟩

end Expressions

/-! ## Statements -/

/-- A declaration gets the slot that checking has given it. -/
theorem declareSlot_of_declareVariable {scopes after : Scopes} {name : Ident} {t : Ty} {slot : Nat}
    (h : declareVariable scopes name t = .ok (slot, after)) :
    declareSlot scopes name t (some slot) = .ok (slot, after) := by
  unfold declareVariable at h
  unfold declareSlot
  split at h
  · next hdeclare =>
      cases h
      rw [hdeclare]
      exact if_pos rfl
  · simp at h

theorem emitVariable_of_checkVariable {ctx : BodyContext} {decl checked : VarDecl}
    {blockEnd pc : Nat} (st : EmitState) {after : Scopes}
    (h : checkVariable ctx st.scopes decl = .ok (checked, after)) :
    ∃ em, emitVariable ctx.registry blockEnd pc st checked = .ok em ∧ em.state.scopes = after := by
  obtain ⟨value, t, hvalue, hdeclare, -, -, rfl⟩ := checkVariable_eq_ok.mp h
  obtain ⟨code, hcode⟩ := emitExpr_of_checkExpr _ hvalue
  have hslot := declareSlot_of_declareVariable hdeclare
  exact ⟨_, emitVariable_eq_ok.mpr ⟨code, t, _, after, hcode, rfl, hslot, rfl⟩, rfl⟩

theorem emitJump_some (st : EmitState) (span : Span) {target : Option Nat}
    (h : target.isSome = true) :
    ∃ em, emitJump st span target = .ok em ∧ em.state.scopes = st.scopes := by
  obtain ⟨pc, rfl⟩ := Option.isSome_iff_exists.mp h
  exact ⟨_, emitJump_eq_ok.mpr ⟨pc, rfl, rfl⟩, rfl⟩

mutual

/-- **There is code for every checked statement, and behind it the scopes are those that checking
has left.** Where checking knows to be in a loop, there is one to jump out of. -/
theorem emitStmt_of_checkStmt {ctx : BodyContext} :
    ∀ (s : Stmt) (st : EmitState) (loop : Option LoopTargets) {inLoop : Bool} {after : Scopes}
      {checked : Stmt} {blockEnd pc : Nat}, s.TargetsAssignable →
      checkStmt ctx inLoop st.scopes s = .ok (checked, after) →
      (inLoop = true → loop.isSome = true) →
      ∃ em, emitStmt ctx.registry loop blockEnd pc st checked = .ok em ∧ em.state.scopes = after
  | .expr e, st, loop, inLoop, after, checked, blockEnd, pc, htargets, h, hloop => by
      obtain ⟨inner, t, hinner, rfl, rfl⟩ := checkStmt_expr_eq_ok.mp h
      obtain ⟨code, hcode⟩ := emitDropped_of_checkExpr hinner
      exact ⟨_, emitStmt_expr_eq_ok.mpr ⟨code, hcode, rfl⟩, rfl⟩
  | .var decl, st, loop, inLoop, after, checked, blockEnd, pc, htargets, h, hloop => by
      obtain ⟨inner, hinner, rfl⟩ := checkStmt_var_eq_ok.mp h
      exact emitVariable_of_checkVariable (st.enter inner.span.line) hinner
  | .assign target value span, st, loop, inLoop, after, checked, blockEnd, pc, htargets, h,
      hloop => by
      obtain ⟨first, second, t, hfirst, hsecond, rfl, rfl⟩ := checkStmt_assign_eq_ok.mp h
      obtain ⟨code, hcode⟩ := emitExpr_of_checkExpr value hfirst
      obtain ⟨code', hcode'⟩ := emitTarget_of_checkExpr htargets hsecond
      exact ⟨_, emitStmt_assign_eq_ok.mpr ⟨code, code', hcode, hcode', rfl⟩, rfl⟩
  | .cond condition thenBlock elseBlock span, st, loop, inLoop, after, checked, blockEnd, pc,
      htargets, h, hloop => by
      obtain ⟨test, first, afterThen, second, afterElse, htest, hfirst, hsecond, rfl, rfl⟩ :=
        checkStmt_cond_eq_ok.mp h
      obtain ⟨code, hcode⟩ := emitExpr_of_checkExpr condition htest
      obtain ⟨em, hem, hscopes⟩ :=
        emitStmts_of_checkStmts thenBlock (st.enter span.line).openBlock loop htargets.1
          hfirst hloop
      rw [← hscopes] at hsecond
      obtain ⟨em', hem', hscopes'⟩ :=
        emitStmts_of_checkStmts elseBlock em.state.closeBlock.openBlock loop htargets.2
          hsecond hloop
      exact ⟨_, emitStmt_cond_eq_ok.mpr ⟨code, em, em', hcode, hem, hem', rfl⟩,
        congrArg Scopes.pop hscopes'⟩
  | .whileLoop condition body span, st, loop, inLoop, after, checked, blockEnd, pc, htargets, h,
      hloop => by
      obtain ⟨test, inner, afterBody, htest, hinner, rfl, rfl⟩ := checkStmt_whileLoop_eq_ok.mp h
      obtain ⟨code, hcode⟩ := emitExpr_of_checkExpr condition htest
      obtain ⟨em, hem, hscopes⟩ :=
        emitStmts_of_checkStmts body (st.enter span.line).openBlock (some ⟨_, _⟩) htargets hinner
          fun _ => rfl
      exact ⟨_, emitStmt_whileLoop_eq_ok.mpr ⟨code, em, hcode, hem, rfl⟩,
        congrArg Scopes.pop hscopes⟩
  | .repeatLoop count body span, st, loop, inLoop, after, checked, blockEnd, pc, htargets, h,
      hloop => by
      obtain ⟨times, inner, afterBody, htimes, hinner, rfl, rfl⟩ := checkStmt_repeatLoop_eq_ok.mp h
      obtain ⟨code, hcode⟩ := emitExpr_of_checkExpr count htimes
      obtain ⟨em, hem, hscopes⟩ :=
        emitStmts_of_checkStmts body (st.enter span.line).openBlock (some ⟨_, _⟩) htargets hinner
          fun _ => rfl
      exact ⟨_, emitStmt_repeatLoop_eq_ok.mpr ⟨code, em, hcode, hem, rfl⟩,
        congrArg Scopes.pop hscopes⟩
  | .ret value span, st, loop, inLoop, after, checked, blockEnd, pc, htargets, h, hloop => by
      obtain ⟨hchecked, rfl⟩ := checkStmt_ret_eq_ok.mp h
      rcases checkReturn_eq_ok.mp hchecked with ⟨e, result, rfl, -, hresult, -, rfl⟩ | ⟨rfl, -, rfl⟩
      · obtain ⟨code, hcode⟩ := emitExpr_of_checkExpr e hresult
        exact ⟨_, emitStmt_ret_eq_ok.mpr ⟨code, hcode, rfl⟩, rfl⟩
      · exact ⟨_, rfl, rfl⟩
  | .breakLoop span, st, loop, inLoop, after, checked, blockEnd, pc, htargets, h, hloop => by
      obtain ⟨hin, rfl, rfl⟩ := checkStmt_breakLoop_eq_ok.mp h
      exact emitJump_some (st.enter span.line) span (by simpa using hloop hin)
  | .continueLoop span, st, loop, inLoop, after, checked, blockEnd, pc, htargets, h, hloop => by
      obtain ⟨hin, rfl, rfl⟩ := checkStmt_continueLoop_eq_ok.mp h
      exact emitJump_some (st.enter span.line) span (by simpa using hloop hin)
  | .comment text span, st, loop, inLoop, after, checked, blockEnd, pc, htargets, h, hloop => by
      cases h
      exact ⟨_, rfl, rfl⟩

theorem emitStmts_of_checkStmts {ctx : BodyContext} :
    ∀ (ss : List Stmt) (st : EmitState) (loop : Option LoopTargets) {inLoop : Bool} {after : Scopes}
      {checked : List Stmt} {blockEnd pc : Nat}, Stmt.AllTargetsAssignable ss →
      checkStmts ctx inLoop st.scopes ss = .ok (checked, after) →
      (inLoop = true → loop.isSome = true) →
      ∃ em, emitStmts ctx.registry loop blockEnd pc st checked = .ok em ∧ em.state.scopes = after
  | [], st, loop, inLoop, after, checked, blockEnd, pc, htargets, h, hloop => by
      cases h
      exact ⟨_, rfl, rfl⟩
  | s :: rest, st, loop, inLoop, after, checked, blockEnd, pc, htargets, h, hloop => by
      obtain ⟨first, next, others, hfirst, hothers, rfl⟩ := checkStmts_cons_eq_ok.mp h
      obtain ⟨em, hem, hscopes⟩ := emitStmt_of_checkStmt s st loop htargets.1 hfirst hloop
      rw [← hscopes] at hothers
      obtain ⟨em', hem', hscopes'⟩ :=
        emitStmts_of_checkStmts rest em.state loop htargets.2 hothers hloop
      exact ⟨_, emitStmts_cons_eq_ok.mpr ⟨em, em', hem, hem', rfl⟩, hscopes'⟩

end

/-! ## Functions and modules -/

theorem emitParams_of_checkParams {params : List Param} {last : Nat} :
    ∀ {scopes after : Scopes} {checked : List Param},
      checkParams scopes params = .ok (checked, after) →
      ∃ locals, emitParams scopes last checked = .ok (locals, after) := by
  induction params with
  | nil =>
      intro scopes after checked h
      cases h
      exact ⟨_, rfl⟩
  | cons p rest ih =>
      intro scopes after checked h
      obtain ⟨slot, next, others, hdeclare, hothers, rfl⟩ := checkParams_cons_eq_ok.mp h
      obtain ⟨locals, hlocals⟩ := ih hothers
      exact ⟨_, emitParams_cons_eq_ok.mpr ⟨slot, next, locals, declareSlot_of_declareVariable
        hdeclare, hlocals, rfl⟩⟩

theorem emitFunction_of_checkFunction {r : Registry} {decl checked : FunctionDecl}
    (htargets : Stmt.AllTargetsAssignable decl.body) (h : checkFunction r decl = .ok checked)
    (index : Nat) :
    ∃ code, emitFunction r index checked = .ok code := by
  obtain ⟨params, scopes, body, last, hparams, hbody, rfl⟩ := checkFunction_eq_ok.mp h
  obtain ⟨locals, hlocals⟩ := emitParams_of_checkParams hparams
  obtain ⟨em, hem, -⟩ :=
    emitStmts_of_checkStmts decl.body ⟨scopes, 0, ⟨0, decl.span.line⟩⟩ none htargets hbody nofun
  exact ⟨_, emitFunction_eq_ok.mpr ⟨locals, scopes, em, hlocals, hem, rfl⟩⟩

theorem exists_emitFunctions {r : Registry} {decls : List FunctionDecl}
    (h : ∀ d ∈ decls, ∀ index, ∃ code, emitFunction r index d = .ok code) :
    ∀ index, ∃ code, emitFunctions r index decls = .ok code := by
  induction decls with
  | nil => exact fun _ => ⟨_, rfl⟩
  | cons decl rest ih =>
      intro index
      rw [List.forall_mem_cons] at h
      obtain ⟨code, hcode⟩ := h.1 index
      obtain ⟨codes, hcodes⟩ := ih h.2 (index + 1)
      exact ⟨_, emitFunctions_cons_eq_ok.mpr ⟨code, codes, hcode, hcodes, rfl⟩⟩

variable {σ : Type}

/-- **There is code for every checked program.** -/
theorem emitModule_of_checkProgram {records : List RecordDecl} {functions : List FunctionDecl}
    {host : HostTable σ} {p : CheckedProgram σ}
    (htargets : ∀ d ∈ functions, Stmt.AllTargetsAssignable d.body)
    (h : checkProgram records functions host = .ok p) :
    ∃ module, emitModule p.functions p.environment = .ok module := by
  obtain ⟨named, withFields, withHost, resolved, passes⟩ := checkProgram_eq_ok.mp h
  have htargets' := forall_body_of_declareUsers passes.signatures htargets
  have hcodes : ∀ d ∈ p.functions, ∀ index, ∃ code,
      emitFunction p.environment.registry index d = .ok code := by
    intro d' hd'
    obtain ⟨d, hd, hchecked⟩ :=
      exists_of_mem_forall₂_right (checkFunctions_eq_ok.mp passes.bodies) hd'
    exact emitFunction_of_checkFunction (htargets' d hd) hchecked
  obtain ⟨code, hcode⟩ := exists_emitFunctions hcodes 0
  exact ⟨⟨code, _, _⟩, emitModule_eq_ok.mpr ⟨hcode, rfl, rfl⟩⟩

/-- **Making code never disagrees with checking.** If a source text can be read and passes the
checks, there is code for it, whatever the host; and a compilation that stops has found a fault in
the text, never one of its own. -/
theorem code_agrees_with_checking (source : String) (host : HostTable σ) :
    (∀ (ts : List SourceToken) (program : Program) (p : CheckedProgram σ), tokens source = .ok ts →
      Program.ofTokens ts = .ok program →
      checkProgram program.records program.allFunctions host = .ok p →
      ∃ module, emitModule p.functions p.environment = .ok module ∧
      compile source host = .ok module) ∧
    ∀ d : Diagnostic, compile source host = .error d → d.report.kind ≠ .internal := by
  have hcompiles : ∀ (program : Program) (p : CheckedProgram σ),
      Program.ofSource source = .ok program →
      checkProgram program.records program.allFunctions host = .ok p →
      ∃ module, emitModule p.functions p.environment = .ok module ∧
      compile source host = .ok module := by
    intro program p hprogram hp
    obtain ⟨module, hmodule⟩ :=
      emitModule_of_checkProgram (Program.targetsAssignable_of_ofSource hprogram) hp
    exact ⟨module, hmodule, bind_eq_ok.mpr ⟨program, hprogram, bind_eq_ok.mpr ⟨p, hp, hmodule⟩⟩⟩
  refine ⟨fun ts program p hts hprogram hp =>
    hcompiles program p (bind_eq_ok.mpr ⟨ts, hts, hprogram⟩) hp, ?_⟩
  intro d hd
  show d.cause.kind ≠ .internal
  cases hprogram : Program.ofSource source with
  | error e =>
      obtain ⟨hkind, -⟩ := (Program.ofSource_located source).of_error hprogram
      simp only [compile, hprogram, bind, Except.bind, Except.error.injEq] at hd
      rw [← hd, hkind]
      decide
  | ok program =>
      cases hp : checkProgram program.records program.allFunctions host with
      | error e =>
          obtain ⟨hkind, -⟩ :=
            (checkProgram_within program.within_anything trivial fun _ _ => trivial).of_error hp
          simp only [compile, hprogram, hp, bind, Except.bind, Except.error.injEq] at hd
          rw [← hd, hkind]
          decide
      | ok p =>
          obtain ⟨module, -, hmodule⟩ := hcompiles program p hprogram hp
          rw [hmodule] at hd
          cases hd

/-- A program that compares records in the test of a loop and declares a name in both blocks of an
`if`. -/
def revisitingSource : String :=
  "record R\n  b: boolean\nend\n" ++
    "fun equals(l: R, r: R): boolean\n  return l.b\nend\n" ++
    "var c = R(true)\nwhile c == c do\n  if c.b then\n    var x = c\n    break\n" ++
    "  else\n    var x = true\n  end\nend\n"

/-- Its code: the comparison is a call, each `x` has a slot of its own, and no jump has the target
0. -/
def revisitingCode : List (List Instruction) :=
  [[.push (.boolean true), .callHost 0, .store 0, .load 0, .load 0, .call 1, .jumpIfFalse 17,
      .load 0, .loadField 0, .jumpIfFalse 14, .load 0, .store 1, .jump 17, .jump 16,
      .push (.boolean true), .store 2, .jump 3, .ret],
    [.load 0, .loadField 0, .ret]]

theorem code_agrees_with_checking_revisiting :
    (∃ (ts : List SourceToken) (program : Program) (p : CheckedProgram Unit) (module : Module Unit),
      tokens revisitingSource = .ok ts ∧ Program.ofTokens ts = .ok program ∧
      checkProgram program.records program.allFunctions ([] : HostTable Unit) = .ok p ∧
      emitModule p.functions p.environment = .ok module ∧ compile revisitingSource [] = .ok module ∧
      (module.functions.map fun code : FunctionCode => code.instructions.toList) = revisitingCode) ∧
    ∃ d : Diagnostic, compile "break\n" ([] : HostTable Unit) = .error d ∧
    d.report.kind ≠ .internal := by
  have heval : ((compile revisitingSource ([] : HostTable Unit)).map fun module =>
      module.functions.map fun code : FunctionCode => code.instructions.toList) =
        .ok revisitingCode := by decide +kernel
  have hfails : (compile "break\n" ([] : HostTable Unit)).isOk = false := by decide +kernel
  refine ⟨?_, ?_⟩
  · obtain ⟨module, hcompile, heval⟩ := map_eq_ok.mp heval
    obtain ⟨program, hprogram, h⟩ := bind_eq_ok.mp hcompile
    obtain ⟨p, hp, -⟩ := bind_eq_ok.mp h
    obtain ⟨ts, hts, hprogram⟩ := bind_eq_ok.mp hprogram
    obtain ⟨module', hmodule, hcompile'⟩ :=
      (code_agrees_with_checking revisitingSource []).1 ts program p hts hprogram hp
    rw [hcompile] at hcompile'
    cases hcompile'
    exact ⟨ts, program, p, module, hts, hprogram, hp, hmodule, hcompile, heval⟩
  · cases hcompile : compile "break\n" ([] : HostTable Unit) with
    | ok module =>
        rw [hcompile] at hfails
        cases hfails
    | error d => exact ⟨d, rfl, (code_agrees_with_checking "break\n" []).2 d hcompile⟩

end Stepwise
