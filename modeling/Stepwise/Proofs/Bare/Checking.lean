import Stepwise.Proofs.Bare.Trees
import Stepwise.Typing.Program

/-!
# Checking bare programs

Checking what is left of a program finds what is left of what checking the program finds, or stops
where it stops (`checkProgram_bare`). Names, types and slots are what checking depends on; places
only go into reports, and a comment declares nothing.
-/

set_option autoImplicit false

namespace Stepwise

open Diagnosed

variable {σ : Type}

/-! ## Tables -/

namespace OrderedTable

variable {α β : Type}

/-- The table with something made of every entry. -/
def map (f : α → β) (t : OrderedTable α) : OrderedTable β := ⟨t.entries.map fun e => (e.1, f e.2)⟩

@[simp] theorem find?_map (f : α → β) (t : OrderedTable α) (key : String) :
    (t.map f).find? key = (t.find? key).map f := by
  obtain ⟨entries⟩ := t
  simp only [map, find?]
  induction entries with
  | nil => rfl
  | cons e rest ih =>
      simp only [List.map_cons, lookup, ih]
      split <;> rfl

@[simp] theorem has_map (f : α → β) (t : OrderedTable α) (key : String) :
    (t.map f).has key = t.has key := by
  simp [has]

theorem insert_map (f : α → β) (t : OrderedTable α) (key : String) (value : α) :
    (t.map f).insert key (f value) = (t.insert key value).map f := by
  obtain ⟨entries⟩ := t
  simp only [map, insert, OrderedTable.mk.injEq]
  induction entries with
  | nil => rfl
  | cons e rest ih =>
      simp only [List.map_cons, put]
      split
      · rfl
      · rw [ih, List.map_cons]

theorem adjust_map (f : α → β) {g : α → α} {g' : β → β} (h : ∀ v, g' (f v) = f (g v))
    (t : OrderedTable α) (key : String) : (t.map f).adjust key g' = (t.adjust key g).map f := by
  unfold adjust
  rw [find?_map]
  cases t.find? key with
  | none => rfl
  | some v => exact (congrArg _ (h v)).trans (insert_map f t key (g v))

end OrderedTable

/-! ## The registry -/

/-- A record without its place. -/
def RecordType.bare (r : RecordType) : RecordType := { r with span := .origin }

/-- A function without its place. -/
def FunctionType.bare (f : FunctionType) : FunctionType := { f with span := .origin }

namespace Registry

/-- The registry without places. -/
def bare (r : Registry) : Registry :=
  ⟨r.types, r.records.map RecordType.bare, r.userFunctions.map FunctionType.bare,
    r.hostFunctions.map FunctionType.bare⟩

variable (r : Registry)

@[simp] theorem resolve?_bare (name : String) : r.bare.resolve? name = r.resolve? name := rfl

@[simp] theorem record?_bare (name : String) :
    r.bare.record? name = (r.record? name).map RecordType.bare :=
  OrderedTable.find?_map _ _ _

@[simp] theorem field?_bare (record field : String) :
    (r.bare.record? record).bind (·.field? field) = (r.record? record).bind (·.field? field) := by
  rw [record?_bare]
  cases r.record? record <;> rfl

@[simp] theorem resolveCall?_bare (name : String) (arguments : List Ty) :
    r.bare.resolveCall? name arguments = (r.resolveCall? name arguments).map FunctionType.bare := by
  simp only [resolveCall?, bare, OrderedTable.find?_map]
  cases r.userFunctions.find? (callSignature name arguments) <;> rfl

theorem declareRecord_bare (name : String) (span : Span) :
    r.bare.declareRecord name .origin = (r.declareRecord name span).bare := by
  simp only [declareRecord, bare, Registry.mk.injEq, true_and, and_true]
  exact OrderedTable.insert_map RecordType.bare r.records name ⟨name, [], span⟩

theorem setFields_bare (name : String) (fields : List RecordField) :
    r.bare.setFields name fields = (r.setFields name fields).bare := by
  simp only [setFields, bare, Registry.mk.injEq, true_and, and_true]
  exact OrderedTable.adjust_map RecordType.bare (g := fun rec => { rec with fields }) (fun _ => rfl)
    r.records name

theorem insertUser_bare (f : FunctionType) : r.bare.insertUser f.bare = (r.insertUser f).bare := by
  simp only [insertUser, bare, Registry.mk.injEq, true_and, and_true]
  exact OrderedTable.insert_map FunctionType.bare r.userFunctions f.callSignature f

theorem insertHost_bare (f : FunctionType) : r.bare.insertHost f.bare = (r.insertHost f).bare := by
  simp only [insertHost, bare, Registry.mk.injEq, true_and]
  exact OrderedTable.insert_map FunctionType.bare r.hostFunctions f.callSignature f

end Registry

/-! ## Scopes -/

/-- A symbol without its place. -/
def Symbol.bare (s : Symbol) : Symbol := { s with span := .origin }

namespace Scopes

/-- Scopes without places. -/
def bare (s : Scopes) : Scopes :=
  ⟨s.innermost.map Symbol.bare, s.enclosing.map (·.map Symbol.bare), s.nextSlot⟩

variable (s : Scopes)

@[simp] theorem push_bare : s.bare.push = s.push.bare := rfl

@[simp] theorem pop_bare : s.bare.pop = s.pop.bare := by
  obtain ⟨innermost, enclosing, nextSlot⟩ := s
  cases enclosing <;> rfl

@[simp] theorem find?_bare (name : String) :
    s.bare.find? name = (s.find? name).map Symbol.bare := by
  simp only [find?, visible, bare, ← List.map_flatten, ← List.map_append, List.find?_map]
  rfl

theorem declare_bare (name : Ident) (ty : Ty) :
    s.bare.declare name.eraseSpans ty =
      ((s.declare name ty).1.mapError Symbol.bare, (s.declare name ty).2.bare) := by
  have hfind : s.bare.find? name.eraseSpans.name = (s.find? name.name).map Symbol.bare :=
    find?_bare s name.name
  unfold declare
  rw [hfind]
  cases s.find? name.name <;> rfl

end Scopes

/-! ## Expressions -/

section Expressions

variable (r : Registry) (scopes : Scopes)

theorem checkedBinary_bare (info : ExprInfo) (op : BinaryOp) (left right : Expr) (operands : Ty) :
    checkedBinary r.bare info.eraseSpans op left.eraseSpans right.eraseSpans operands =
      (checkedBinary r info op left right operands).eraseSpans := by
  have hequality : r.bare.equality? operands = r.equality? operands := by
    unfold Registry.equality?
    cases operands with
    | record name =>
        rw [Registry.resolveCall?_bare]
        cases r.resolveCall? equalsName [.record name, .record name] with
        | none => rfl
        | some f => simp [Option.filter, FunctionType.bare]
    | _ => rfl
  unfold checkedBinary
  rw [hequality]
  cases op <;> cases r.equality? operands <;> rfl

mutual

/-- **Expressions are checked without their places.** -/
theorem checkExpr_bare : ∀ e : Expr,
    Alike (fun a b => b = (a.1.eraseSpans, a.2)) (checkExpr r scopes e)
      (checkExpr r.bare scopes.bare e.eraseSpans)
  | .number .. | .boolean .. | .string .. => .ok rfl
  | .reference i name slot => by
      rw [Expr.eraseSpans, checkExpr, checkExpr, Scopes.find?_bare]
      cases scopes.find? name with
      | none => exact .failAt rfl
      | some symbol => exact .ok rfl
  | .call i name arguments callee => by
      rw [Expr.eraseSpans, checkExpr, checkExpr]
      refine (checkExprs_bare arguments).bind_image fun checked => ?_
      have htys : (checked.map fun a => (a.1.eraseSpans, a.2)).map (·.2) = checked.map (·.2) := by
        rw [List.map_map]
        rfl
      simp only [htys, Registry.resolveCall?_bare]
      show Alike _ (match r.resolveCall? name.name _ with | none => _ | some f => _)
        (match (r.resolveCall? name.name _).map FunctionType.bare with | none => _ | some f => _)
      cases r.resolveCall? name.name (checked.map (·.2)) with
      | none => exact .failAt rfl
      | some f =>
          refine .pure ?_
          simp only [Expr.eraseSpans, Expr.eraseAllSpans_eq_map, List.map_map]
          rfl
  | .field i record name => by
      rw [Expr.eraseSpans, checkExpr, checkExpr]
      refine (checkExpr_bare record).bind_image ?_
      rintro ⟨checked, ty⟩
      cases ty with
      | record recordName =>
          dsimp only
          rw [Registry.field?_bare]
          show Alike _
            (match (r.record? recordName).bind (·.field? name.name) with | none => _ | some f => _)
            (match (r.record? recordName).bind (·.field? name.name) with | none => _ | some f => _)
          cases (r.record? recordName).bind (·.field? name.name) with
          | none => exact .failAt rfl
          | some f => exact .pure rfl
      | _ => exact .failAt rfl
  | .unary i op operand => by
      rw [Expr.eraseSpans, checkExpr, checkExpr]
      refine (checkExpr_bare operand).bind_image ?_
      rintro ⟨checked, ty⟩
      dsimp only
      cases op.result? ty with
      | none => exact .failAt rfl
      | some result => exact .pure rfl
  | .binary i op left right => by
      rw [Expr.eraseSpans, checkExpr, checkExpr]
      refine (checkExpr_bare left).bind_image ?_
      rintro ⟨checkedLeft, leftTy⟩
      refine (checkExpr_bare right).bind_image ?_
      rintro ⟨checkedRight, rightTy⟩
      dsimp only
      cases op.result? leftTy rightTy with
      | none => exact .failAt rfl
      | some result =>
          have hchecked :=
            checkedBinary_bare r ⟨i.span, some result⟩ op checkedLeft checkedRight leftTy
          exact .pure (congrArg (·, result) hchecked)

theorem checkExprs_bare : ∀ es : List Expr,
    Alike (fun a b => b = a.map fun c => (c.1.eraseSpans, c.2)) (checkExprs r scopes es)
      (checkExprs r.bare scopes.bare (Expr.eraseAllSpans es))
  | [] => .ok rfl
  | e :: es => by
      rw [Expr.eraseAllSpans, checkExprs, checkExprs]
      refine (checkExpr_bare e).bind_image fun first => ?_
      exact (checkExprs_bare es).bind_image fun others => .pure rfl

end

end Expressions

/-! ## Statements -/

/-- What checking a body needs to know, without places. -/
def BodyContext.bare (ctx : BodyContext) : BodyContext := { ctx with registry := ctx.registry.bare }

section Statements

variable (ctx : BodyContext) (scopes : Scopes)

theorem declareVariable_bare (name : Ident) (ty : Ty) :
    Alike (fun a b => b = (a.1, a.2.bare)) (declareVariable scopes name ty)
      (declareVariable scopes.bare name.eraseSpans ty) := by
  unfold declareVariable
  rw [Scopes.declare_bare]
  rcases scopes.declare name ty with ⟨existing | slot, after⟩
  · exact .failAt rfl
  · exact .ok rfl

theorem variableTy_bare (r : Registry) (decl : VarDecl) (valueTy : Ty) :
    Alike (fun a b => b = a) (variableTy r decl valueTy)
      (variableTy r.bare decl.eraseSpans valueTy) := by
  unfold variableTy
  cases htypeName : decl.typeName with
  | none =>
      simp only [VarDecl.eraseSpans, htypeName, Option.map_none]
      exact .ok rfl
  | some typeName =>
      simp only [VarDecl.eraseSpans, htypeName, Option.map_some, Ident.eraseSpans,
        Registry.resolve?_bare]
      cases r.resolve? typeName.name with
      | none => exact .failAt rfl
      | some declared => exact .ite Iff.rfl (.ok rfl) (.failAt rfl)

theorem checkVariable_bare (decl : VarDecl) :
    Alike (fun a b => b = (a.1.eraseSpans, a.2.bare)) (checkVariable ctx scopes decl)
      (checkVariable ctx.bare scopes.bare decl.eraseSpans) := by
  refine (checkExpr_bare ctx.registry scopes decl.value).bind_image ?_
  rintro ⟨value, valueTy⟩
  refine .ite Iff.rfl (.failAt rfl)
    ((variableTy_bare ctx.registry decl valueTy).bind_image fun ty => ?_)
  refine (declareVariable_bare scopes decl.name ty).bind_image ?_
  rintro ⟨slot, after⟩
  exact .pure rfl

theorem checkReturn_bare (value : Option Expr) (span : Span) :
    Alike (fun a b => b = a.bare ∧ a.isComment = false) (checkReturn ctx scopes value span)
      (checkReturn ctx.bare scopes.bare (value.map Expr.eraseSpans) .origin) := by
  cases value with
  | none => exact .ite Iff.rfl (.ok ⟨rfl, rfl⟩) (.failAt rfl)
  | some value =>
      refine .ite Iff.rfl (.failAt rfl) ((checkExpr_bare ctx.registry scopes value).bind_image ?_)
      rintro ⟨checked, ty⟩
      exact .ite Iff.rfl (.failAt rfl) (.ite Iff.rfl (.pure ⟨rfl, rfl⟩) (.failAt rfl))

theorem checkCondition_bare (r : Registry) (condition : Expr) :
    Alike (fun a b => b = a.eraseSpans) (checkCondition r scopes condition)
      (checkCondition r.bare scopes.bare condition.eraseSpans) := by
  refine (checkExpr_bare r scopes condition).bind_image ?_
  rintro ⟨checked, ty⟩
  exact .ite Iff.rfl (.pure rfl) (.failAt rfl)

theorem checkCount_bare (r : Registry) (count : Expr) :
    Alike (fun a b => b = a.eraseSpans) (checkCount r scopes count)
      (checkCount r.bare scopes.bare count.eraseSpans) := by
  refine (checkExpr_bare r scopes count).bind_image ?_
  rintro ⟨checked, ty⟩
  exact .ite Iff.rfl (.pure rfl) (.failAt rfl)

theorem checkAssignment_bare (r : Registry) (target value : Expr) (span : Span) :
    Alike (fun a b => b = a.bare ∧ a.isComment = false) (checkAssignment r scopes target value span)
      (checkAssignment r.bare scopes.bare target.eraseSpans value.eraseSpans .origin) := by
  refine (checkExpr_bare r scopes value).bind_image ?_
  rintro ⟨checkedValue, valueTy⟩
  refine (checkExpr_bare r scopes target).bind_image ?_
  rintro ⟨checkedTarget, targetTy⟩
  exact .ite Iff.rfl (.pure ⟨rfl, rfl⟩) (.failAt rfl)

theorem checkInLoop_alike (inLoop : Bool) (keyword : Terminal) (span span' : Span) :
    Alike (fun a b => b = a) (checkInLoop inLoop keyword span) (checkInLoop inLoop keyword span') :=
  .ite Iff.rfl (.ok rfl) (.failAt rfl)

end Statements

mutual

/-- Statements are checked without their places, and none becomes a comment. -/
theorem checkStmt_bare (ctx : BodyContext) (inLoop : Bool) (scopes : Scopes) : ∀ s : Stmt,
    Alike (fun a b => b = (a.1.bare, a.2.bare) ∧ a.1.isComment = s.isComment)
      (checkStmt ctx inLoop scopes s) (checkStmt ctx.bare inLoop scopes.bare s.bare)
  | .expr e => by
      rw [Stmt.bare, checkStmt, checkStmt]
      refine (checkExpr_bare ctx.registry scopes e).bind_image ?_
      rintro ⟨checked, ty⟩
      exact .pure ⟨rfl, rfl⟩
  | .var decl => by
      rw [Stmt.bare, checkStmt, checkStmt]
      refine (checkVariable_bare ctx scopes decl).bind_image ?_
      rintro ⟨checked, after⟩
      exact .pure ⟨rfl, rfl⟩
  | .assign target value span => by
      rw [Stmt.bare, checkStmt, checkStmt]
      refine (checkAssignment_bare scopes ctx.registry target value span).bind ?_
      rintro checked _ ⟨rfl, hcomment⟩
      exact .pure ⟨rfl, hcomment⟩
  | .cond condition thenBlock elseBlock span => by
      rw [Stmt.bare, checkStmt, checkStmt]
      refine (checkCondition_bare scopes ctx.registry condition).bind_image fun checked => ?_
      refine (checkStmts_bare ctx inLoop scopes.push thenBlock).bind_image ?_
      rintro ⟨first, afterThen⟩
      dsimp only
      rw [Scopes.pop_bare, Scopes.push_bare]
      refine (checkStmts_bare ctx inLoop afterThen.pop.push elseBlock).bind_image ?_
      rintro ⟨second, afterElse⟩
      exact .pure ⟨Prod.ext rfl (Scopes.pop_bare afterElse), rfl⟩
  | .whileLoop condition body span => by
      rw [Stmt.bare, checkStmt, checkStmt]
      refine (checkCondition_bare scopes ctx.registry condition).bind_image fun checked => ?_
      refine (checkStmts_bare ctx true scopes.push body).bind_image ?_
      rintro ⟨inner, after⟩
      exact .pure ⟨Prod.ext rfl (Scopes.pop_bare after), rfl⟩
  | .repeatLoop count body span => by
      rw [Stmt.bare, checkStmt, checkStmt]
      refine (checkCount_bare scopes ctx.registry count).bind_image fun checked => ?_
      refine (checkStmts_bare ctx true scopes.push body).bind_image ?_
      rintro ⟨inner, after⟩
      exact .pure ⟨Prod.ext rfl (Scopes.pop_bare after), rfl⟩
  | .ret value span => by
      rw [Stmt.bare, checkStmt, checkStmt]
      refine (checkReturn_bare ctx scopes value span).bind ?_
      rintro checked _ ⟨rfl, hcomment⟩
      exact .pure ⟨rfl, hcomment⟩
  | .breakLoop span => by
      rw [Stmt.bare, checkStmt, checkStmt]
      exact (checkInLoop_alike inLoop .breakWord span .origin).bind fun _ _ _ => .pure ⟨rfl, rfl⟩
  | .continueLoop span => by
      rw [Stmt.bare, checkStmt, checkStmt]
      exact (checkInLoop_alike inLoop .continueWord span .origin).bind fun _ _ _ => .pure ⟨rfl, rfl⟩
  | .comment text span => .ok ⟨rfl, rfl⟩

/-- **Comments among statements make no difference to checking.** -/
theorem checkStmts_bare (ctx : BodyContext) (inLoop : Bool) (scopes : Scopes) : ∀ ss : List Stmt,
    Alike (fun a b => b = (Stmt.bareAll a.1, a.2.bare)) (checkStmts ctx inLoop scopes ss)
      (checkStmts ctx.bare inLoop scopes.bare (Stmt.bareAll ss))
  | [] => .ok rfl
  | s :: rest => by
      cases hcomment : s.isComment with
      | true =>
          cases s with
          | comment text span =>
              rw [Stmt.bareAll, checkStmts, checkStmt]
              exact (checkStmts_bare ctx inLoop scopes rest).map_left fun _ _ h => h
          | _ => cases hcomment
      | false =>
          rw [Stmt.bareAll_cons hcomment, checkStmts, checkStmts]
          refine (checkStmt_bare ctx inLoop scopes s).bind ?_
          rintro ⟨first, after⟩ _ ⟨rfl, hsame⟩
          refine (checkStmts_bare ctx inLoop after rest).bind_image ?_
          rintro ⟨others, last⟩
          exact .pure (Prod.ext (Stmt.bareAll_cons (hsame.trans hcomment) others).symm rfl)

end

/-! ## Declarations -/

/-- A host function without its place. -/
def HostFunction.bare (f : HostFunction σ) : HostFunction σ :=
  { f with span := f.span.map fun _ => .origin }

section Declarations

variable (r : Registry)

theorem resolveType_bare (name : Ident) :
    Alike (fun a b => b = a) (resolveType r name) (resolveType r.bare name.eraseSpans) := by
  have hresolve : r.bare.resolve? name.eraseSpans.name = r.resolve? name.name :=
    r.resolve?_bare name.name
  unfold resolveType
  rw [hresolve]
  cases r.resolve? name.name with
  | none => exact .failAt rfl
  | some ty => exact .ok rfl

theorem resolveStorable_bare (name : Ident) {ifNothing ifNothing' : Cause}
    (h : ifNothing'.kind = ifNothing.kind) :
    Alike (fun a b => b = a) (resolveStorable r name ifNothing)
      (resolveStorable r.bare name.eraseSpans ifNothing') :=
  (resolveType_bare r name).bind_image fun _ => .ite Iff.rfl (.failAt h) (.pure rfl)

theorem declareRecord_bare (decl : RecordDecl) :
    Alike (fun a b => b = a.bare) (declareRecord r decl)
      (declareRecord r.bare decl.eraseSpans) := by
  have hrecord : r.bare.record? decl.eraseSpans.name.name = (r.record? decl.name.name).map
      RecordType.bare :=
    r.record?_bare decl.name.name
  unfold declareRecord
  rw [hrecord]
  cases r.record? decl.name.name with
  | some existing => exact .failAt rfl
  | none => exact .ite Iff.rfl (.failAt rfl) (.ok (r.declareRecord_bare decl.name.name decl.span))

theorem declareRecords_bare (decls : List RecordDecl) : ∀ r : Registry,
    Alike (fun a b => b = a.bare) (declareRecords r decls)
      (declareRecords r.bare (decls.map RecordDecl.eraseSpans)) := by
  induction decls with
  | nil => exact fun r => .ok rfl
  | cons decl rest ih => exact fun r => (declareRecord_bare r decl).bind_image ih

theorem resolveFields_bare (record : String) (fields : List FieldDecl) : ∀ seen : List String,
    Alike (fun a b => b = a.map FieldDecl.eraseSpans) (resolveFields r record seen fields)
      (resolveFields r.bare record seen (fields.map FieldDecl.eraseSpans)) := by
  induction fields with
  | nil => exact fun seen => .ok rfl
  | cons f rest ih =>
      intro seen
      refine .ite Iff.rfl (.failAt rfl)
        ((resolveStorable_bare r f.typeName rfl).bind_image fun ty => ?_)
      exact (ih (f.name.name :: seen)).bind_image fun others => .pure rfl

theorem recordFields_bare (fields : List FieldDecl) :
    recordFields (fields.map FieldDecl.eraseSpans) = recordFields fields := by
  rw [recordFields, List.map_map]
  rfl

theorem resolveRecords_bare (decls : List RecordDecl) : ∀ r : Registry,
    Alike (fun a b => b = (a.1.map RecordDecl.eraseSpans, a.2.bare)) (resolveRecords r decls)
      (resolveRecords r.bare (decls.map RecordDecl.eraseSpans)) := by
  induction decls with
  | nil => exact fun r => .ok rfl
  | cons decl rest ih =>
      intro r
      rw [List.map_cons, resolveRecords, resolveRecords]
      refine (resolveFields_bare r decl.name.name decl.fields []).bind_image fun fields => ?_
      rw [recordFields_bare, Registry.setFields_bare]
      refine (ih _).bind_image ?_
      rintro ⟨others, after⟩
      exact .pure rfl

/-! ## Functions of the host -/

theorem recordConstructor_bare (decl : RecordDecl) :
    (recordConstructor decl.eraseSpans : HostFunction σ) = (recordConstructor decl).bare := by
  simp only [recordConstructor, HostFunction.bare, RecordDecl.eraseSpans, List.map_map,
    Option.map_some]
  rfl

theorem place_bare (host : HostFunction σ) : host.bare.place = .origin := by
  rw [HostFunction.place, HostFunction.bare]
  cases host.span <;> rfl

theorem resolveHostType_bare (host : HostFunction σ) (typeName : String) :
    Alike (fun a b => b = a) (resolveHostType r host typeName)
      (resolveHostType r.bare host.bare typeName) := by
  unfold resolveHostType
  rw [Registry.resolve?_bare]
  cases r.resolve? typeName with
  | none => exact .failAt rfl
  | some ty => exact .ok rfl

theorem resolveHostParams_bare (host : HostFunction σ) (params : List HostParameter) :
    Alike (fun a b => b = a) (resolveHostParams r host params)
      (resolveHostParams r.bare host.bare params) := by
  induction params with
  | nil => exact .ok rfl
  | cons p rest ih =>
      refine (resolveHostType_bare r host p.typeName).bind_image fun ty => ?_
      exact .ite Iff.rfl (.failAt rfl) (ih.bind_image fun others => .pure rfl)

theorem declareHost_bare (index : Nat) (host : HostFunction σ) :
    Alike (fun a b => b = a.bare) (declareHost r index host)
      (declareHost r.bare index host.bare) := by
  unfold declareHost
  refine (resolveHostParams_bare r host host.params).bind_image fun params => ?_
  refine (resolveHostType_bare r host host.resultName).bind_image fun result => ?_
  let f : FunctionType := ⟨host.name, params, result, .host index, host.place⟩
  have hbare : (⟨host.bare.name, params, result, .host index, host.bare.place⟩ : FunctionType) =
      f.bare := by
    rw [place_bare]
    rfl
  have hfind : r.bare.hostFunctions.find? f.callSignature =
      (r.hostFunctions.find? f.callSignature).map FunctionType.bare := OrderedTable.find?_map _ _ _
  dsimp only
  rw [hbare]
  show Alike _ (match r.hostFunctions.find? f.callSignature with | none => _ | some existing => _)
    (match r.bare.hostFunctions.find? f.callSignature with | none => _ | some existing => _)
  rw [hfind]
  cases r.hostFunctions.find? f.callSignature with
  | none => exact .pure (r.insertHost_bare f)
  | some existing =>
      simp only [Option.map_some, HostFunction.bare]
      cases host.span <;> exact .failAt rfl

theorem declareHosts_bare (hosts : HostTable σ) : ∀ (r : Registry) (index : Nat),
    Alike (fun a b => b = a.bare) (declareHosts r index hosts)
      (declareHosts r.bare index (hosts.map HostFunction.bare)) := by
  induction hosts with
  | nil => exact fun r index => .ok rfl
  | cons host rest ih =>
    exact fun r index => (declareHost_bare r index host).bind_image fun after => ih after _

/-! ## Functions of the program -/

theorem checkParamNames_bare (params : List Param) : ∀ seen : List String,
    Alike (fun a b => b = a) (checkParamNames seen params)
      (checkParamNames seen (params.map Param.eraseSpans)) := by
  induction params with
  | nil => exact fun seen => .ok rfl
  | cons p rest ih => exact fun seen => .ite Iff.rfl (.failAt rfl) (ih (p.name.name :: seen))

theorem resolveParams_bare (params : List Param) :
    Alike (fun a b => b = a.map Param.eraseSpans) (resolveParams r params)
      (resolveParams r.bare (params.map Param.eraseSpans)) := by
  induction params with
  | nil => exact .ok rfl
  | cons p rest ih =>
      refine (resolveStorable_bare r p.typeName rfl).bind_image fun ty => ?_
      exact ih.bind_image fun others => .pure rfl

theorem resolveResult_bare (name : Option Ident) :
    Alike (fun a b => b = a) (resolveResult r name)
      (resolveResult r.bare (name.map Ident.eraseSpans)) := by
  cases name with
  | none => exact .ok rfl
  | some name => exact resolveType_bare r name

theorem resolveSignature_bare (decl : FunctionDecl) :
    Alike (fun a b => b = a.bare) (resolveSignature r decl)
      (resolveSignature r.bare decl.bare) := by
  refine (checkParamNames_bare decl.params []).bind fun _ _ _ => ?_
  refine (resolveParams_bare r decl.params).bind_image fun params => ?_
  exact (resolveResult_bare r decl.returnTypeName).bind_image fun result => .pure rfl

theorem paramTys_bare (decl : FunctionDecl) : decl.bare.paramTys = decl.paramTys := by
  rw [FunctionDecl.paramTys, FunctionDecl.bare, List.map_map]
  rfl

theorem declareUser_bare (index : Nat) (decl : FunctionDecl) :
    Alike (fun a b => b = a.bare) (declareUser r index decl)
      (declareUser r.bare index decl.bare) := by
  let f : FunctionType :=
    ⟨decl.name.name, decl.paramTys, decl.resultTy, .user index, decl.name.span⟩
  have hbare :
      (⟨decl.bare.name.name, decl.bare.paramTys, decl.bare.resultTy, .user index,
        decl.bare.name.span⟩ : FunctionType) = f.bare := by
    rw [paramTys_bare]
    rfl
  have hfind : r.bare.userFunctions.find? f.bare.callSignature =
      (r.userFunctions.find? f.callSignature).map FunctionType.bare := OrderedTable.find?_map _ _ _
  have hhas : r.bare.hostFunctions.has f.callSignature = r.hostFunctions.has f.callSignature :=
    OrderedTable.has_map _ _ _
  unfold declareUser
  dsimp only
  rw [hbare, hfind]
  cases r.userFunctions.find? f.callSignature with
  | some existing => exact .failAt rfl
  | none => exact .ite (by rw [← hhas]; exact Iff.rfl) (.failAt rfl) (.ok (r.insertUser_bare f))

theorem declareUsers_bare (decls : List FunctionDecl) : ∀ (r : Registry) (index : Nat),
    Alike (fun a b => b = (a.1.map FunctionDecl.bare, a.2.bare)) (declareUsers r index decls)
      (declareUsers r.bare index (decls.map FunctionDecl.bare)) := by
  induction decls with
  | nil => exact fun r index => .ok rfl
  | cons decl rest ih =>
      intro r index
      refine (resolveSignature_bare r decl).bind_image fun resolved => ?_
      refine (declareUser_bare r index resolved).bind_image fun after => ?_
      refine (ih after (index + 1)).bind_image ?_
      rintro ⟨others, last⟩
      exact .pure rfl

end Declarations

/-! ## Programs -/

theorem checkParams_bare (params : List Param) : ∀ scopes : Scopes,
    Alike (fun a b => b = (a.1.map Param.eraseSpans, a.2.bare)) (checkParams scopes params)
      (checkParams scopes.bare (params.map Param.eraseSpans)) := by
  induction params with
  | nil => exact fun scopes => .ok rfl
  | cons p rest ih =>
      intro scopes
      refine (declareVariable_bare scopes p.name (p.ty.getD .nothing)).bind_image ?_
      rintro ⟨slot, after⟩
      refine (ih after).bind_image ?_
      rintro ⟨others, last⟩
      exact .pure rfl

theorem checkFunction_bare (r : Registry) (decl : FunctionDecl) :
    Alike (fun a b => b = a.bare) (checkFunction r decl) (checkFunction r.bare decl.bare) := by
  refine (checkParams_bare decl.params .initial).bind_image ?_
  rintro ⟨params, scopes⟩
  refine (checkStmts_bare ⟨r, decl.name.name, decl.resultTy, decl.isMain⟩ false scopes
    decl.body).bind_image ?_
  rintro ⟨body, last⟩
  exact .pure rfl

theorem checkFunctions_bare (r : Registry) (decls : List FunctionDecl) :
    Alike (fun a b => b = a.map FunctionDecl.bare) (checkFunctions r decls)
      (checkFunctions r.bare (decls.map FunctionDecl.bare)) := by
  induction decls with
  | nil => exact .ok rfl
  | cons decl rest ih =>
      refine (checkFunction_bare r decl).bind_image fun checked => ?_
      exact ih.bind_image fun others => .pure rfl

/-- What is left of a checked program. -/
def CheckedProgram.bare (p : CheckedProgram σ) : CheckedProgram σ :=
  ⟨p.records.map RecordDecl.eraseSpans, p.functions.map FunctionDecl.bare,
    ⟨p.environment.registry.bare, p.environment.hostFunctions.map HostFunction.bare⟩⟩

/-- **What is left of a program is checked as what is left of the checked program**, or neither
is. -/
theorem checkProgram_bare (records : List RecordDecl) (functions : List FunctionDecl)
    (host : HostTable σ) :
    Alike (fun a b => b = a.bare) (checkProgram records functions host)
      (checkProgram (records.map RecordDecl.eraseSpans) (functions.map FunctionDecl.bare)
        (host.map HostFunction.bare)) := by
  refine (declareRecords_bare records .initial).bind_image fun named => ?_
  refine (resolveRecords_bare records named).bind_image ?_
  rintro ⟨resolved, withFields⟩
  have hhosts : host.map HostFunction.bare ++ (resolved.map RecordDecl.eraseSpans).map
      recordConstructor = (host ++ resolved.map recordConstructor).map HostFunction.bare := by
    rw [List.map_append, List.map_map, List.map_map]
    exact congrArg _ (List.map_congr_left fun decl _ => recordConstructor_bare decl)
  dsimp only
  rw [hhosts]
  refine (declareHosts_bare _ withFields 0).bind_image fun withHost => ?_
  refine (declareUsers_bare functions withHost 0).bind_image ?_
  rintro ⟨signed, registry⟩
  exact (checkFunctions_bare registry signed).bind_image fun checked => .pure rfl

end Stepwise
