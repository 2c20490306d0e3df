import Stepwise.Proofs.Program.Located
import Stepwise.Typing.Program

/-!
# Where faults of checking are reported

Checking reports a fault of typing at a span that the tree already has: of a node, or of a name in
it. Functions of the host have their place, which is in the tree for constructors and the beginning
of the source for all others. A property that all spans in a program have, and the beginning, is one
of every span at which checking stops (`checkProgram_within`).
-/

set_option autoImplicit false

namespace Stepwise

open Diagnosed

variable {Q : Span → Prop}

/-! ## Declarations -/

theorem resolveType_within (r : Registry) {name : Ident} (hname : Q name.span) :
    Keeps (Blames .typing Q) Anything (resolveType r name) := by
  unfold resolveType
  split
  · exact .ok trivial
  · exact .failAt ⟨rfl, hname⟩

theorem resolveStorable_within (r : Registry) {name : Ident} (hname : Q name.span) {cause : Cause}
    (h : cause.kind = .typing) :
    Keeps (Blames .typing Q) Anything (resolveStorable r name cause) := by
  refine .bind (resolveType_within r hname) fun ty _ => ?_
  split
  · exact .failAt ⟨h, hname⟩
  · exact .pure trivial

theorem declareRecord_within (r : Registry) {decl : RecordDecl} (hdecl : decl.Within Q) :
    Keeps (Blames .typing Q) Anything (declareRecord r decl) := by
  unfold declareRecord
  split
  · exact .failAt ⟨rfl, hdecl.1⟩
  · split
    · exact .failAt ⟨rfl, hdecl.1⟩
    · exact .ok trivial

theorem declareRecords_within {decls : List RecordDecl} (hdecls : ∀ d ∈ decls, d.Within Q) :
    ∀ r : Registry, Keeps (Blames .typing Q) Anything (declareRecords r decls) := by
  induction decls with
  | nil => exact fun r => .ok trivial
  | cons decl rest ih =>
      obtain ⟨hdecl, hrest⟩ := List.forall_mem_cons.mp hdecls
      exact fun r => .bind (declareRecord_within r hdecl) fun next _ => ih hrest next

theorem resolveFields_within (r : Registry) (record : String) {decls : List FieldDecl}
    (hdecls : ∀ f ∈ decls, f.Within Q) :
    ∀ seen : List String, Keeps (Blames .typing Q) (fun found => ∀ f ∈ found, f.Within Q)
      (resolveFields r record seen decls) := by
  induction decls with
  | nil => exact fun seen => .ok nofun
  | cons decl rest ih =>
      obtain ⟨hdecl, hrest⟩ := List.forall_mem_cons.mp hdecls
      intro seen
      rw [resolveFields]
      split
      · exact .failAt ⟨rfl, hdecl.1⟩
      · exact .bind (resolveStorable_within r hdecl.2 rfl) fun _ _ => .bind (ih hrest _)
            fun _ hothers =>
          .pure (List.forall_mem_cons.mpr ⟨hdecl, hothers⟩)

theorem resolveRecords_within {decls : List RecordDecl} (hdecls : ∀ d ∈ decls, d.Within Q) :
    ∀ r : Registry, Keeps (Blames .typing Q) (fun found => ∀ d ∈ found.1, d.Within Q)
      (resolveRecords r decls) := by
  induction decls with
  | nil => exact fun r => .ok nofun
  | cons decl rest ih =>
      obtain ⟨hdecl, hrest⟩ := List.forall_mem_cons.mp hdecls
      exact fun r => .bind (resolveFields_within r _ hdecl.2.1 _) fun _ hfields =>
          .bind (ih hrest _) fun _ hothers =>
        .pure (List.forall_mem_cons.mpr ⟨⟨hdecl.1, hfields, hdecl.2.2⟩, hothers⟩)

section Hosts

variable {σ : Type} {host : HostFunction σ}

theorem resolveHostType_within (r : Registry) (hhost : Q host.place) (name : String) :
    Keeps (Blames .typing Q) Anything (resolveHostType r host name) := by
  unfold resolveHostType
  split
  · exact .ok trivial
  · exact .failAt ⟨rfl, hhost⟩

theorem resolveHostParams_within (r : Registry) (hhost : Q host.place)
    (params : List HostParameter) :
    Keeps (Blames .typing Q) Anything (resolveHostParams r host params) := by
  induction params with
  | nil => exact .ok trivial
  | cons p rest ih =>
      refine .bind (resolveHostType_within r hhost _) fun ty _ => ?_
      split
      · exact .failAt ⟨rfl, hhost⟩
      · exact .bind ih fun others _ => .pure trivial

theorem declareHost_within (r : Registry) (index : Nat) (hhost : Q host.place) :
    Keeps (Blames .typing Q) Anything (declareHost r index host) := by
  refine .bind (resolveHostParams_within r hhost _) fun params _ =>
    .bind (resolveHostType_within r hhost _) fun result _ => ?_
  dsimp only
  split
  · exact .pure trivial
  · split
    · exact .failAt ⟨rfl, hhost⟩
    · exact .failAt ⟨rfl, hhost⟩

theorem declareHosts_within {hosts : HostTable σ} (hhosts : ∀ f ∈ hosts, Q f.place) :
    ∀ (r : Registry) (index : Nat),
    Keeps (Blames .typing Q) Anything (declareHosts r index hosts) := by
  induction hosts with
  | nil => exact fun r index => .ok trivial
  | cons host rest ih =>
      obtain ⟨hhost, hrest⟩ := List.forall_mem_cons.mp hhosts
      exact fun r index => .bind (declareHost_within r index hhost) fun next _ => ih hrest next _

end Hosts

theorem checkParamNames_within {params : List Param} (hparams : ∀ p ∈ params, p.Within Q) :
    ∀ seen : List String, Keeps (Blames .typing Q) Anything (checkParamNames seen params) := by
  induction params with
  | nil => exact fun seen => .ok trivial
  | cons p rest ih =>
      obtain ⟨hp, hrest⟩ := List.forall_mem_cons.mp hparams
      intro seen
      rw [checkParamNames]
      split
      · exact .failAt ⟨rfl, hp.1⟩
      · exact ih hrest _

theorem resolveParams_within (r : Registry) {params : List Param}
    (hparams : ∀ p ∈ params, p.Within Q) :
    Keeps (Blames .typing Q) (fun found => ∀ p ∈ found, p.Within Q) (resolveParams r params) := by
  induction params with
  | nil => exact .ok nofun
  | cons p rest ih =>
      obtain ⟨hp, hrest⟩ := List.forall_mem_cons.mp hparams
      exact .bind (resolveStorable_within r hp.2 rfl) fun _ _ => .bind (ih hrest) fun _ hothers =>
        .pure (List.forall_mem_cons.mpr ⟨hp, hothers⟩)

theorem resolveSignature_within (r : Registry) {decl : FunctionDecl} (hdecl : decl.Within Q) :
    Keeps (Blames .typing Q) (FunctionDecl.Within Q) (resolveSignature r decl) := by
  obtain ⟨hname, hparams, htype, hbody⟩ := hdecl
  refine .bind (checkParamNames_within hparams _) fun _ _ => .bind (resolveParams_within r hparams)
      fun _ hparams =>
    .bind (P := Anything) ?_ fun _ _ => .pure ⟨hname, hparams, htype, hbody⟩
  unfold resolveResult
  split
  · exact resolveType_within r (htype _ ‹_›)
  · exact .ok trivial

theorem declareUser_within (r : Registry) (index : Nat) {decl : FunctionDecl}
    (hdecl : decl.Within Q) :
    Keeps (Blames .typing Q) Anything (declareUser r index decl) := by
  unfold declareUser
  dsimp only
  split
  · exact .failAt ⟨rfl, hdecl.1⟩
  · split
    · exact .failAt ⟨rfl, hdecl.1⟩
    · exact .ok trivial

theorem declareUsers_within {decls : List FunctionDecl} (hdecls : ∀ f ∈ decls, f.Within Q) :
    ∀ (r : Registry) (index : Nat),
      Keeps (Blames .typing Q) (fun found => ∀ f ∈ found.1, f.Within Q)
        (declareUsers r index decls) := by
  induction decls with
  | nil => exact fun r index => .ok nofun
  | cons decl rest ih =>
      obtain ⟨hdecl, hrest⟩ := List.forall_mem_cons.mp hdecls
      exact fun r index => .bind (resolveSignature_within r hdecl) fun _ hfirst =>
        .bind (declareUser_within r index hfirst) fun _ _ => .bind (ih hrest _ _) fun _ hothers =>
          .pure (List.forall_mem_cons.mpr ⟨hfirst, hothers⟩)

/-! ## Expressions -/

mutual

theorem checkExpr_within (r : Registry) (scopes : Scopes) :
    ∀ {e : Expr}, e.Within Q → Keeps (Blames .typing Q) Anything (checkExpr r scopes e)
  | .number _ _, _ => .ok trivial
  | .boolean _ _, _ => .ok trivial
  | .string _ _, _ => .ok trivial
  | .reference i name slot, h => by
      rw [checkExpr]
      split
      · exact .failAt ⟨rfl, h⟩
      · exact .ok trivial
  | .call i name arguments callee, h => by
      refine .bind (checkExprs_within r scopes h.2.2) fun checked _ => ?_
      dsimp only
      split
      · exact .failAt ⟨rfl, h.1⟩
      · exact .pure trivial
  | .field i record name, h => by
      refine .bind (checkExpr_within r scopes h.2.1) fun checked _ => ?_
      dsimp only
      split
      · split
        · exact .failAt ⟨rfl, h.2.2⟩
        · exact .pure trivial
      · exact .failAt ⟨rfl, h.1⟩
  | .unary i op operand, h => by
      refine .bind (checkExpr_within r scopes h.2) fun checked _ => ?_
      dsimp only
      split
      · exact .failAt ⟨rfl, h.1⟩
      · exact .pure trivial
  | .binary i op left right, h => by
      refine .bind (checkExpr_within r scopes h.2.1) fun first _ =>
        .bind (checkExpr_within r scopes h.2.2) fun second _ => ?_
      dsimp only
      split
      · exact .failAt ⟨rfl, h.1⟩
      · exact .pure trivial

theorem checkExprs_within (r : Registry) (scopes : Scopes) :
    ∀ {es : List Expr}, Expr.AllWithin Q es →
    Keeps (Blames .typing Q) Anything (checkExprs r scopes es)
  | [], _ => .ok trivial
  | _ :: _, h =>
      .bind (checkExpr_within r scopes h.1) fun _ _ => .bind (checkExprs_within r scopes h.2)
        fun _ _ => .pure trivial

end

/-! ## Statements -/

theorem declareVariable_within (scopes : Scopes) {name : Ident} (hname : Q name.span) (t : Ty) :
    Keeps (Blames .typing Q) Anything (declareVariable scopes name t) := by
  unfold declareVariable
  split
  · exact .ok trivial
  · exact .failAt ⟨rfl, hname⟩

theorem checkVariable_within (ctx : BodyContext) (scopes : Scopes) {decl : VarDecl}
    (hdecl : decl.Within Q) :
    Keeps (Blames .typing Q) Anything (checkVariable ctx scopes decl) := by
  obtain ⟨hname, htype, hvalue⟩ := hdecl
  refine .bind (checkExpr_within _ _ hvalue) fun value _ => ?_
  dsimp only
  split
  · exact .failAt ⟨rfl, hvalue.span⟩
  · refine .bind (P := Anything) ?_ fun ty _ => .bind (declareVariable_within _ hname _) fun _ _ =>
      .pure trivial
    unfold variableTy
    split
    · exact .ok trivial
    · split
      · exact .failAt ⟨rfl, htype _ ‹_›⟩
      · split
        · exact .ok trivial
        · exact .failAt ⟨rfl, hvalue.span⟩

theorem checkReturn_within (ctx : BodyContext) (scopes : Scopes) {value : Option Expr} {span : Span}
    (hvalue : ∀ e ∈ value, e.Within Q) (hspan : Q span) :
    Keeps (Blames .typing Q) Anything (checkReturn ctx scopes value span) := by
  unfold checkReturn
  split
  · have hvalue := hvalue _ rfl
    split
    · exact .failAt ⟨rfl, hspan⟩
    · refine .bind (checkExpr_within _ _ hvalue) fun checked _ => ?_
      dsimp only
      split
      · exact .failAt ⟨rfl, hspan⟩
      · split
        · exact .pure trivial
        · exact .failAt ⟨rfl, hvalue.span⟩
  · split
    · exact .ok trivial
    · exact .failAt ⟨rfl, hspan⟩

theorem checkCondition_within (r : Registry) (scopes : Scopes) {condition : Expr}
    (h : condition.Within Q) :
    Keeps (Blames .typing Q) Anything (checkCondition r scopes condition) := by
  refine .bind (checkExpr_within _ _ h) fun checked _ => ?_
  dsimp only
  split
  · exact .pure trivial
  · exact .failAt ⟨rfl, h.span⟩

theorem checkCount_within (r : Registry) (scopes : Scopes) {count : Expr} (h : count.Within Q) :
    Keeps (Blames .typing Q) Anything (checkCount r scopes count) := by
  refine .bind (checkExpr_within _ _ h) fun checked _ => ?_
  dsimp only
  split
  · exact .pure trivial
  · exact .failAt ⟨rfl, h.span⟩

theorem checkAssignment_within (r : Registry) (scopes : Scopes) {target value : Expr}
    (htarget : target.Within Q) (hvalue : value.Within Q) (span : Span) :
    Keeps (Blames .typing Q) Anything (checkAssignment r scopes target value span) := by
  refine .bind (checkExpr_within _ _ hvalue) fun first _ => .bind (checkExpr_within _ _ htarget)
    fun second _ => ?_
  dsimp only
  split
  · exact .pure trivial
  · exact .failAt ⟨rfl, hvalue.span⟩

theorem checkInLoop_within (inLoop : Bool) (keyword : Terminal) {span : Span} (hspan : Q span) :
    Keeps (Blames .typing Q) Anything (checkInLoop inLoop keyword span) := by
  unfold checkInLoop
  split
  · exact .ok trivial
  · exact .failAt ⟨rfl, hspan⟩

mutual

theorem checkStmt_within (ctx : BodyContext) :
    ∀ {s : Stmt} {inLoop : Bool} {scopes : Scopes}, s.Within Q →
    Keeps (Blames .typing Q) Anything (checkStmt ctx inLoop scopes s)
  | .expr _, _, _, h => .bind (checkExpr_within _ _ h) fun _ _ => .pure trivial
  | .var _, _, _, h => .bind (checkVariable_within ctx _ h.1) fun _ _ => .pure trivial
  | .assign _ _ _, _, _, h =>
    .bind (checkAssignment_within _ _ h.1 h.2.1 _) fun _ _ => .pure trivial
  | .cond _ _ _ _, _, _, h =>
      .bind (checkCondition_within _ _ h.1) fun _ _ => .bind (checkStmts_within ctx h.2.1)
        fun _ _ =>
        .bind (checkStmts_within ctx h.2.2.1) fun _ _ => .pure trivial
  | .whileLoop _ _ _, _, _, h =>
      .bind (checkCondition_within _ _ h.1) fun _ _ => .bind (checkStmts_within ctx h.2.1)
        fun _ _ => .pure trivial
  | .repeatLoop _ _ _, _, _, h =>
      .bind (checkCount_within _ _ h.1) fun _ _ => .bind (checkStmts_within ctx h.2.1) fun _ _ =>
      .pure trivial
  | .ret _ _, _, _, h => .bind (checkReturn_within ctx _ h.1 h.2) fun _ _ => .pure trivial
  | .breakLoop _, _, _, h => .bind (checkInLoop_within _ _ h) fun _ _ => .pure trivial
  | .continueLoop _, _, _, h => .bind (checkInLoop_within _ _ h) fun _ _ => .pure trivial
  | .comment _ _, _, _, _ => .ok trivial

theorem checkStmts_within (ctx : BodyContext) :
    ∀ {ss : List Stmt} {inLoop : Bool} {scopes : Scopes}, Stmt.AllWithin Q ss →
      Keeps (Blames .typing Q) Anything (checkStmts ctx inLoop scopes ss)
  | [], _, _, _ => .ok trivial
  | _ :: _, _, _, h =>
      .bind (checkStmt_within ctx h.1) fun _ _ => .bind (checkStmts_within ctx h.2) fun _ _ =>
      .pure trivial

end

/-! ## Programs -/

theorem checkParams_within {params : List Param} (hparams : ∀ p ∈ params, p.Within Q) :
    ∀ scopes : Scopes, Keeps (Blames .typing Q) Anything (checkParams scopes params) := by
  induction params with
  | nil => exact fun scopes => .ok trivial
  | cons p rest ih =>
      obtain ⟨hp, hrest⟩ := List.forall_mem_cons.mp hparams
      exact fun scopes => .bind (declareVariable_within _ hp.1 _) fun _ _ => .bind (ih hrest _)
        fun _ _ => .pure trivial

theorem checkFunction_within (r : Registry) {decl : FunctionDecl} (hdecl : decl.Within Q) :
    Keeps (Blames .typing Q) Anything (checkFunction r decl) :=
  .bind (checkParams_within hdecl.2.1 _) fun _ _ => .bind (checkStmts_within _ hdecl.2.2.2)
    fun _ _ => .pure trivial

theorem checkFunctions_within (r : Registry) {decls : List FunctionDecl}
    (hdecls : ∀ f ∈ decls, f.Within Q) :
    Keeps (Blames .typing Q) Anything (checkFunctions r decls) := by
  induction decls with
  | nil => exact .ok trivial
  | cons decl rest ih =>
      obtain ⟨hdecl, hrest⟩ := List.forall_mem_cons.mp hdecls
      exact .bind (checkFunction_within r hdecl) fun _ _ => .bind (ih hrest) fun _ _ =>
        .pure trivial

/-- **Checking stops at a span of the program**, or at the place of a function that the environment
provides. -/
theorem checkProgram_within {σ : Type} {p : Program} (hp : p.Within Q) (horigin : Q .origin)
    {host : HostTable σ} (hhost : ∀ f ∈ host, Q f.place) :
    Keeps (Blames .typing Q) Anything (checkProgram p.records p.allFunctions host) := by
  obtain ⟨hrecords, hfunctions, hmain⟩ := hp
  have hall : ∀ f ∈ p.allFunctions, f.Within Q :=
    List.forall_mem_cons.mpr ⟨⟨horigin, nofun, nofun, hmain⟩, hfunctions⟩
  refine .bind (declareRecords_within hrecords _) fun _ _ =>
    .bind (resolveRecords_within hrecords _) fun found hfound =>
    .bind (declareHosts_within ?_ _ _) fun _ _ => .bind (declareUsers_within hall _ _) fun _ hall =>
      .bind (checkFunctions_within _ hall) fun _ _ => .pure trivial
  intro f hf
  rcases List.mem_append.mp hf with hf | hf
  · exact hhost f hf
  · obtain ⟨d, hd, rfl⟩ := List.mem_map.mp hf
    exact (hfound d hd).1

end Stepwise
