import Stepwise.Proofs.Typing.Completion
import Stepwise.Proofs.Typing.Decision

/-!
# Checking a checked program

Checking takes trees in which nothing is found out yet, but it never looks at the room that it
fills, and what it puts in the place of a comparison of records checks as it is. So a checked tree
checks again, with the same scopes, and comes out as it went in: expressions (`checkExpr_again`),
statements (`checkStmt_again`), declarations and whole programs. `checking_settles` puts this
together with what checking writes into a tree.
-/

set_option autoImplicit false

namespace Stepwise

open Diagnosed

/-! ## Expressions -/

section Expressions

variable {r : Registry} {scopes : Scopes}

/-- The call that compares two checked records checks as it is. -/
theorem checkExpr_equalsCall {span : Span} {left right : Expr} {s : Ty} {callee : Callee}
    (hleft : checkExpr r scopes left = .ok (left, s))
    (hright : checkExpr r scopes right = .ok (right, s)) (h : r.Compares s callee) :
    checkExpr r scopes (equalsCall span left right callee) =
      .ok (equalsCall span left right callee, .boolean) := by
  obtain ⟨-, f, hf, hresult, rfl⟩ := h
  have harguments : checkExprs r scopes [left, right] = .ok [(left, s), (right, s)] :=
    checkExprs_cons_eq_ok.mpr
      ⟨_, _, hleft, checkExprs_cons_eq_ok.mpr ⟨_, [], hright, rfl, rfl⟩, rfl⟩
  exact checkExpr_call_eq_ok.mpr ⟨_, f, harguments, hf, hresult.symm, rfl⟩

/-- A checked binary operation checks as it is. -/
theorem checkExpr_checkedBinary {span : Span} {op : BinaryOp} {left right : Expr} {s s' result : Ty}
    (hleft : checkExpr r scopes left = .ok (left, s))
    (hright : checkExpr r scopes right = .ok (right, s')) (hop : op.result? s s' = some result) :
    checkExpr r scopes (checkedBinary r ⟨span, some result⟩ op left right s) =
      .ok (checkedBinary r ⟨span, some result⟩ op left right s, result) := by
  obtain ⟨hsame, -⟩ | ⟨callee, hcompares, ⟨rfl, hsame⟩ | ⟨rfl, hsame⟩⟩ :=
    checkedBinary_cases r ⟨span, some result⟩ op left right s
  · have hagain : checkExpr r scopes (.binary ⟨span, some result⟩ op left right) =
        .ok (checkedBinary r ⟨span, some result⟩ op left right s, result) :=
      checkExpr_binary_eq_ok.mpr ⟨left, s, right, s', hleft, hright, hop, rfl⟩
    rwa [hsame] at hagain ⊢
  · obtain ⟨rfl, rfl⟩ := BinaryOp.comparison_of_result? (.inl rfl) hop
    rw [hsame]
    exact checkExpr_equalsCall hleft hright hcompares
  · obtain ⟨rfl, rfl⟩ := BinaryOp.comparison_of_result? (.inr rfl) hop
    rw [hsame]
    exact checkExpr_unary_eq_ok.mpr ⟨_, .boolean, checkExpr_equalsCall hleft hright hcompares,
      rfl, rfl⟩

mutual

/-- **A checked expression checks as it is.** -/
theorem checkExpr_again : ∀ (e : Expr) {checked : Expr} {t : Ty},
    checkExpr r scopes e = .ok (checked, t) → checkExpr r scopes checked = .ok (checked, t)
  | .number i v, checked, t, h | .boolean i v, checked, t, h | .string i v, checked, t, h => by
      cases h
      rfl
  | .reference i name room, checked, t, h => by
      obtain ⟨symbol, hsymbol, rfl, rfl⟩ := checkExpr_reference_eq_ok.mp h
      exact checkExpr_reference_eq_ok.mpr ⟨symbol, hsymbol, rfl, rfl⟩
  | .call i name arguments room, checked, t, h => by
      obtain ⟨checkedArguments, f, harguments, hf, rfl, rfl⟩ := checkExpr_call_eq_ok.mp h
      exact checkExpr_call_eq_ok.mpr ⟨_, f, checkExprs_again arguments harguments, hf, rfl, rfl⟩
  | .field i record name, checked, t, h => by
      obtain ⟨inner, recordName, f, hinner, hf, rfl, rfl⟩ := checkExpr_field_eq_ok.mp h
      exact checkExpr_field_eq_ok.mpr ⟨inner, recordName, f, checkExpr_again record hinner, hf,
        rfl, rfl⟩
  | .unary i op operand, checked, t, h => by
      obtain ⟨inner, innerTy, hinner, hop, rfl⟩ := checkExpr_unary_eq_ok.mp h
      exact checkExpr_unary_eq_ok.mpr ⟨inner, innerTy, checkExpr_again operand hinner, hop, rfl⟩
  | .binary i op left right, checked, t, h => by
      obtain ⟨first, firstTy, second, secondTy, hfirst, hsecond, hop, rfl⟩ :=
        checkExpr_binary_eq_ok.mp h
      exact checkExpr_checkedBinary (checkExpr_again left hfirst)
        (checkExpr_again right hsecond) hop

theorem checkExprs_again : ∀ (es : List Expr) {checked : List (Expr × Ty)},
    checkExprs r scopes es = .ok checked → checkExprs r scopes (checked.map (·.1)) = .ok checked
  | [], checked, h => by
      cases h
      rfl
  | e :: es, checked, h => by
      obtain ⟨first, others, hfirst, hothers, rfl⟩ := checkExprs_cons_eq_ok.mp h
      exact checkExprs_cons_eq_ok.mpr
        ⟨first, others, checkExpr_again e hfirst, checkExprs_again es hothers, rfl⟩

end

end Expressions

/-! ## Statements -/

section Statements

variable {ctx : BodyContext}

/-- A declaration of a variable checks as it is behind checking. -/
theorem checkVariable_again {scopes after : Scopes} {decl checked : VarDecl}
    (h : checkVariable ctx scopes decl = .ok (checked, after)) :
    checkVariable ctx scopes checked = .ok (checked, after) := by
  obtain ⟨value, t, hvalue, hdeclare, hne, hwritten, rfl⟩ := checkVariable_eq_ok.mp h
  exact checkVariable_eq_ok.mpr ⟨value, t, checkExpr_again decl.value hvalue, hdeclare, hne,
    hwritten, rfl⟩

mutual

/-- **A checked statement checks as it is.** -/
theorem checkStmt_again : ∀ (s : Stmt) {inLoop : Bool} {scopes after : Scopes} {checked : Stmt},
    checkStmt ctx inLoop scopes s = .ok (checked, after) →
    checkStmt ctx inLoop scopes checked = .ok (checked, after)
  | .expr e, inLoop, scopes, after, checked, h => by
      obtain ⟨inner, t, hinner, rfl, rfl⟩ := checkStmt_expr_eq_ok.mp h
      exact checkStmt_expr_eq_ok.mpr ⟨inner, t, checkExpr_again e hinner, rfl, rfl⟩
  | .var decl, inLoop, scopes, after, checked, h => by
      obtain ⟨inner, hinner, rfl⟩ := checkStmt_var_eq_ok.mp h
      exact checkStmt_var_eq_ok.mpr ⟨inner, checkVariable_again hinner, rfl⟩
  | .assign target value span, inLoop, scopes, after, checked, h => by
      obtain ⟨first, second, t, hfirst, hsecond, rfl, rfl⟩ := checkStmt_assign_eq_ok.mp h
      exact checkStmt_assign_eq_ok.mpr
        ⟨first, second, t, checkExpr_again value hfirst, checkExpr_again target hsecond, rfl, rfl⟩
  | .cond condition thenBlock elseBlock span, inLoop, scopes, after, checked, h => by
      obtain ⟨test, first, afterThen, second, afterElse, htest, hfirst, hsecond, rfl, rfl⟩ :=
        checkStmt_cond_eq_ok.mp h
      exact checkStmt_cond_eq_ok.mpr
        ⟨test, first, afterThen, second, afterElse, checkExpr_again condition htest,
          checkStmts_again thenBlock hfirst, checkStmts_again elseBlock hsecond, rfl, rfl⟩
  | .whileLoop condition body span, inLoop, scopes, after, checked, h => by
      obtain ⟨test, inner, afterBody, htest, hinner, rfl, rfl⟩ := checkStmt_whileLoop_eq_ok.mp h
      exact checkStmt_whileLoop_eq_ok.mpr
        ⟨test, inner, afterBody, checkExpr_again condition htest, checkStmts_again body hinner,
          rfl, rfl⟩
  | .repeatLoop count body span, inLoop, scopes, after, checked, h => by
      obtain ⟨times, inner, afterBody, htimes, hinner, rfl, rfl⟩ := checkStmt_repeatLoop_eq_ok.mp h
      exact checkStmt_repeatLoop_eq_ok.mpr
        ⟨times, inner, afterBody, checkExpr_again count htimes, checkStmts_again body hinner,
          rfl, rfl⟩
  | .ret value span, inLoop, scopes, after, checked, h => by
      obtain ⟨hchecked, rfl⟩ := checkStmt_ret_eq_ok.mp h
      obtain ⟨e, value', rfl, hmain, hvalue, hne, rfl⟩ | ⟨rfl, hnothing, rfl⟩ :=
        checkReturn_eq_ok.mp hchecked
      · have hagain : checkReturn ctx after (some value') span = .ok (.ret (some value') span) :=
          checkReturn_eq_ok.mpr (.inl ⟨_, value', rfl, hmain, checkExpr_again e hvalue, hne, rfl⟩)
        exact checkStmt_ret_eq_ok.mpr ⟨hagain, rfl⟩
      · exact checkStmt_ret_eq_ok.mpr ⟨hchecked, rfl⟩
  | .breakLoop span, inLoop, scopes, after, checked, h => by
      obtain ⟨rfl, rfl, rfl⟩ := checkStmt_breakLoop_eq_ok.mp h
      exact h
  | .continueLoop span, inLoop, scopes, after, checked, h => by
      obtain ⟨rfl, rfl, rfl⟩ := checkStmt_continueLoop_eq_ok.mp h
      exact h
  | .comment text span, inLoop, scopes, after, checked, h => by
      cases h
      rfl

theorem checkStmts_again : ∀ (ss : List Stmt) {inLoop : Bool} {scopes after : Scopes}
    {checked : List Stmt},
    checkStmts ctx inLoop scopes ss = .ok (checked, after) →
    checkStmts ctx inLoop scopes checked = .ok (checked, after)
  | [], inLoop, scopes, after, checked, h => by
      cases h
      rfl
  | s :: rest, inLoop, scopes, after, checked, h => by
      obtain ⟨first, next, others, hfirst, hothers, rfl⟩ := checkStmts_cons_eq_ok.mp h
      exact checkStmts_cons_eq_ok.mpr
        ⟨first, next, others, checkStmt_again s hfirst, checkStmts_again rest hothers, rfl⟩

end

end Statements

/-! ## Declarations -/

section Declaring

variable {r : Registry}

theorem FieldDecl.ResolvedIn.again {f f' : FieldDecl} (h : f.ResolvedIn r f') :
    f'.ResolvedIn r f' := by
  obtain ⟨t, ht, rfl⟩ := h
  exact ⟨t, ht, rfl⟩

theorem resolveFields_again {record : String} {decls fields : List FieldDecl}
    (h : resolveFields r record [] decls = .ok fields) :
    resolveFields r record [] fields = .ok fields := by
  obtain ⟨⟨hnames, -⟩, hall⟩ := resolveFields_eq_ok.mp h
  have hsame : fields.map (·.name.name) = decls.map (·.name.name) := by
    refine map_eq_of_forall₂ hall ?_
    rintro f _ ⟨t, -, rfl⟩
    rfl
  refine resolveFields_eq_ok.mpr
    ⟨⟨hsame ▸ hnames, fun _ _ => List.not_mem_nil⟩, List.forall₂_same.mpr ?_⟩
  intro f' hf'
  obtain ⟨f, -, hresolved⟩ := exists_of_mem_forall₂_right hall hf'
  exact hresolved.again

theorem resolveRecords_again {decls : List RecordDecl} :
    ∀ {r r' : Registry} {records : List RecordDecl}, resolveRecords r decls = .ok (records, r') →
      resolveRecords r records = .ok (records, r') := by
  induction decls with
  | nil =>
      intro r r' records h
      cases h
      rfl
  | cons decl rest ih =>
      intro r r' records h
      obtain ⟨fields, others, hfields, hothers, rfl⟩ := resolveRecords_cons_eq_ok.mp h
      exact resolveRecords_cons_eq_ok.mpr ⟨fields, others, resolveFields_again hfields,
        ih hothers, rfl⟩

/-- The names of records are declared alike before and behind checking. -/
theorem declareRecords_completed {decls records : List RecordDecl}
    (h : List.Forall₂ RecordDecl.Completed decls records) :
    ∀ r : Registry, declareRecords r records = declareRecords r decls := by
  induction h with
  | nil => exact fun _ => rfl
  | cons hfirst _ ih =>
      intro r
      obtain ⟨fields, -, rfl⟩ := hfirst
      simp only [declareRecords, ih]
      rfl

/-- Parameters whose types were found have them found again, whatever slots they got. -/
theorem resolveParams_again {params resolved checked : List Param}
    (hresolved : List.Forall₂ (Param.ResolvedIn r) params resolved)
    (hplaced : List.Forall₂ Param.Placed resolved checked) :
    List.Forall₂ (Param.ResolvedIn r) checked checked := by
  refine List.forall₂_same.mpr fun p'' hp'' => ?_
  obtain ⟨p', hp', slot, rfl⟩ := exists_of_mem_forall₂_right hplaced hp''
  obtain ⟨p, -, t, ht, rfl⟩ := exists_of_mem_forall₂_right hresolved hp'
  exact ⟨t, ht, rfl⟩

theorem checkParams_again {params : List Param} :
    ∀ {scopes after : Scopes} {checked : List Param},
      checkParams scopes params = .ok (checked, after) →
      checkParams scopes checked = .ok (checked, after) := by
  induction params with
  | nil =>
      intro scopes after checked h
      cases h
      rfl
  | cons p rest ih =>
      intro scopes after checked h
      obtain ⟨slot, next, others, hslot, hothers, rfl⟩ := checkParams_cons_eq_ok.mp h
      exact checkParams_cons_eq_ok.mpr ⟨slot, next, others, hslot, ih hothers, rfl⟩

/-- **A checked function checks as it is.** -/
theorem checkFunction_again {decl checked : FunctionDecl} (h : checkFunction r decl = .ok checked) :
    checkFunction r checked = .ok checked := by
  obtain ⟨params, scopes, body, last, hparams, hbody, rfl⟩ := checkFunction_eq_ok.mp h
  exact checkFunction_eq_ok.mpr
    ⟨params, scopes, body, last, checkParams_again hparams, checkStmts_again decl.body hbody, rfl⟩

theorem checkFunctions_again {decls checked : List FunctionDecl}
    (h : checkFunctions r decls = .ok checked) :
    checkFunctions r checked = .ok checked := by
  refine checkFunctions_eq_ok.mpr (List.forall₂_same.mpr fun d' hd' => ?_)
  obtain ⟨d, -, hchecked⟩ := exists_of_mem_forall₂_right (checkFunctions_eq_ok.mp h) hd'
  exact checkFunction_again hchecked

/-- The types of a checked function are found again. -/
theorem resolveSignature_again {r r' : Registry} {decl resolved checked : FunctionDecl}
    (h : resolveSignature r decl = .ok resolved)
    (hchecked : checkFunction r' resolved = .ok checked) :
    resolveSignature r checked = .ok checked := by
  obtain ⟨hnames, params, result, hparams, hresult, rfl⟩ := resolveSignature_eq_ok.mp h
  obtain ⟨placed, scopes, body, last, hplaced, -, rfl⟩ := checkFunction_eq_ok.mp hchecked
  have hslots := placed_of_checkParams hplaced
  have hsame : placed.map (·.name.name) = decl.params.map (·.name.name) :=
    Param.names_of_completed
      (Param.completed_of_placed (hparams.imp fun _ _ => Param.ResolvedIn.resolved) hslots)
  exact resolveSignature_eq_ok.mpr
    ⟨hsame ▸ hnames, placed, result, resolveParams_again hparams hslots, hresult, rfl⟩

/-- A function is declared alike before and behind checking its body. -/
theorem declareUser_checked {r r' : Registry} (index : Nat) {decl checked : FunctionDecl}
    (h : checkFunction r' decl = .ok checked) :
    declareUser r index checked = declareUser r index decl := by
  obtain ⟨params, scopes, body, last, hparams, -, rfl⟩ := checkFunction_eq_ok.mp h
  have htys : FunctionDecl.paramTys { decl with params, body } = decl.paramTys :=
    checkParams_tys hparams
  unfold declareUser
  rw [htys]
  rfl

theorem declareUsers_again {r₀ : Registry} {decls : List FunctionDecl} :
    ∀ {r r' : Registry} {index : Nat} {resolved checked : List FunctionDecl},
      declareUsers r index decls = .ok (resolved, r') → checkFunctions r₀ resolved = .ok checked →
      declareUsers r index checked = .ok (checked, r') := by
  induction decls with
  | nil =>
      intro r r' index resolved checked h hchecked
      cases h
      cases hchecked
      rfl
  | cons decl rest ih =>
      intro r r' index resolved checked h hchecked
      obtain ⟨first, next, others, hfirst, hnext, hothers, rfl⟩ := declareUsers_cons_eq_ok.mp h
      obtain ⟨head, tail, hhead, htail, rfl⟩ :=
        List.forall₂_cons_left_iff.mp (checkFunctions_eq_ok.mp hchecked)
      exact declareUsers_cons_eq_ok.mpr ⟨head, next, tail, resolveSignature_again hfirst hhead,
        (declareUser_checked index hhead).trans hnext,
        ih hothers (checkFunctions_eq_ok.mpr htail), rfl⟩

end Declaring

/-! ## Programs -/

section Programs

variable {σ : Type}

/-- **A checked program checks as it is.** -/
theorem checkProgram_again {records : List RecordDecl} {functions : List FunctionDecl}
    {host : HostTable σ} {p : CheckedProgram σ} (h : checkProgram records functions host = .ok p) :
    checkProgram p.records p.functions host = .ok p := by
  obtain ⟨named, withFields, withHost, resolved, passes⟩ := checkProgram_eq_ok.mp h
  have hagain :=
    (declareRecords_completed (completed_of_resolveRecords passes.fields) .initial).trans
      passes.names
  exact checkProgram_eq_ok.mpr
    ⟨named, withFields, withHost, p.functions, hagain, resolveRecords_again passes.fields,
      passes.hosts, declareUsers_again passes.signatures passes.bodies,
      checkFunctions_again passes.bodies, passes.hostFunctions⟩

/-- **Checking settles a tree.** Let records and functions be checked against any host. Then every
expression has its type, every reference, parameter and variable its slot, every call its callee and
every declaration its types, and no comparison is left of records that a function `equals` compares.
The trees are those that were checked, node by node, but for the comparisons that became calls of
such a function. And checking them again against the same host gives the same trees, the same
registry and the same functions of the host. -/
theorem checking_settles {records : List RecordDecl} {functions : List FunctionDecl}
    {host : HostTable σ} {p : CheckedProgram σ} (h : checkProgram records functions host = .ok p) :
    p.Complete ∧ p.Completes records functions ∧ checkProgram p.records p.functions host = .ok p :=
  have hcompletes := completes_of_checkProgram h
  ⟨hcompletes.complete, hcompletes, checkProgram_again h⟩

/-- The callee of a call that is negated, where a statement is such a call. -/
def Stmt.negatedCallee? : Stmt → Option Callee
  | .expr (.unary _ .not (.call _ _ _ callee)) => callee
  | _ => none

theorem checking_settles_comparing : ∃ (program : Program) (p : CheckedProgram Unit),
    Program.ofSource comparingSource = .ok program ∧
    checkProgram program.records program.allFunctions ([] : HostTable Unit) = .ok p ∧
    (p.functions.map fun d => d.body.map Stmt.negatedCallee?) = [[some (.user 1)], [none]] ∧
    p.Complete ∧ p.Completes program.records program.allFunctions ∧
    checkProgram p.records p.functions ([] : HostTable Unit) = .ok p := by
  have heval : ((checkSource comparingSource ([] : HostTable Unit)).map fun p =>
      p.functions.map fun d => d.body.map Stmt.negatedCallee?) = .ok [[some (.user 1)],
      [none]] := by decide +kernel
  obtain ⟨p, hchecked, heval⟩ := map_eq_ok.mp heval
  obtain ⟨program, hprogram, hp⟩ := bind_eq_ok.mp hchecked
  exact ⟨program, p, hprogram, hp, heval, checking_settles hp⟩

end Programs

end Stepwise
