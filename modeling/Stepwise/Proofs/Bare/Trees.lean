import Stepwise.Proofs.Diagnosed
import Stepwise.Proofs.Program.Writing

/-!
# Programs without comments and places

A bare program is one of which only the words are left: its comments are dropped and all its spans
made the same. Every stage of compilation is compared with itself on what is left of its input:
either both stop, with faults of one kind, or the result of the second is what is left of the result
of the first (`Diagnosed.Alike`).

This module says what is left of tokens and trees.
-/

set_option autoImplicit false

namespace Stepwise

/-- Two compilations that both stop, with faults of one kind, or both come to a result, with results
that are related. -/
abbrev Diagnosed.Alike {α β : Type} (R : α → β → Prop) : Diagnosed α → Diagnosed β → Prop :=
  Related (fun d e => e.cause.kind = d.cause.kind) R

/-! ## Tokens -/

/-- The tokens without comments and places. -/
def uncommented (ts : List SourceToken) : List Token :=
  (ts.filter (!·.token.isComment)).map (·.token)

/-- A token without its place. -/
def SourceToken.bare (t : SourceToken) : SourceToken := ⟨t.token, .origin⟩

/-- The tokens that are no comments, without their places. -/
def bareTokens (ts : List SourceToken) : List SourceToken :=
  (ts.filter (!·.token.isComment)).map SourceToken.bare

theorem bareTokens_eq (ts : List SourceToken) :
    bareTokens ts = (uncommented ts).map fun t => ⟨t, .origin⟩ := by
  simp only [bareTokens, uncommented, List.map_map]
  rfl

theorem bareTokens_of_comment {t : SourceToken} (h : t.token.isComment = true)
    (rest : List SourceToken) :
    bareTokens (t :: rest) = bareTokens rest := by
  simp [bareTokens, h]

theorem bareTokens_of_not_comment {t : SourceToken} (h : t.token.isComment = false)
    (rest : List SourceToken) :
    bareTokens (t :: rest) = t.bare :: bareTokens rest := by
  simp [bareTokens, h]

/-! ## Trees -/

namespace Expr

@[simp] theorem info_eraseSpans (e : Expr) : e.eraseSpans.info = e.info.eraseSpans := by
  cases e <;> simp [eraseSpans, info]

@[simp] theorem span_eraseSpans (e : Expr) : e.eraseSpans.span = .origin := by
  rw [span, info_eraseSpans]
  rfl

@[simp] theorem ty?_eraseSpans (e : Expr) : e.eraseSpans.ty? = e.ty? := by
  rw [ty?, info_eraseSpans]
  rfl

@[simp] theorem isAssignable_eraseSpans (e : Expr) :
    e.eraseSpans.isAssignable = e.isAssignable := by
  cases e <;> simp [eraseSpans, isAssignable]

theorem withSpan_eraseSpans (e : Expr) : e.eraseSpans.withSpan .origin = e.eraseSpans := by
  cases e <;> simp [eraseSpans, withSpan, withInfo, info, ExprInfo.eraseSpans]

theorem eraseAllSpans_eq_map (es : List Expr) : eraseAllSpans es = es.map eraseSpans := by
  induction es with
  | nil => rfl
  | cons e es ih => rw [eraseAllSpans, ih, List.map_cons]

end Expr

namespace Stmt

mutual

/-- What is left of a statement that is no comment. -/
def bare : Stmt → Stmt
  | .expr e => .expr e.eraseSpans
  | .var decl => .var decl.eraseSpans
  | .assign target value _ => .assign target.eraseSpans value.eraseSpans .origin
  | .cond condition thenBlock elseBlock _ =>
    .cond condition.eraseSpans (bareAll thenBlock) (bareAll elseBlock) .origin
  | .whileLoop condition body _ => .whileLoop condition.eraseSpans (bareAll body) .origin
  | .repeatLoop count body _ => .repeatLoop count.eraseSpans (bareAll body) .origin
  | .ret value _ => .ret (value.map Expr.eraseSpans) .origin
  | .breakLoop _ => .breakLoop .origin
  | .continueLoop _ => .continueLoop .origin
  | .comment text _ => .comment text .origin

/-- What is left of statements, comments being dropped. -/
def bareAll : List Stmt → List Stmt
  | [] => []
  | .comment _ _ :: rest => bareAll rest
  | s :: rest => s.bare :: bareAll rest

end

theorem bareAll_cons {s : Stmt} (h : s.isComment = false) (rest : List Stmt) :
    bareAll (s :: rest) = s.bare :: bareAll rest := by
  cases s with
  | comment text span => cases h
  | _ => rw [bareAll]; simp

theorem bareAll_eq (ss : List Stmt) : bareAll ss = (ss.filter (!·.isComment)).map bare := by
  induction ss with
  | nil => rfl
  | cons s rest ih =>
      cases hcomment : s.isComment with
      | true =>
          cases s with
          | comment text span => rw [bareAll, ih, List.filter_cons_of_neg (by simp [hcomment])]
          | _ => cases hcomment
      | false =>
        rw [bareAll_cons hcomment, ih, List.filter_cons_of_pos (by simp [hcomment]), List.map_cons]

@[simp] theorem isComment_bare (s : Stmt) : s.bare.isComment = s.isComment := by
  cases s <;> simp [bare, isComment]

@[simp] theorem isReturn_bare (s : Stmt) : s.bare.isReturn = s.isReturn := by
  cases s <;> simp [bare, isReturn]

@[simp] theorem span_bare (s : Stmt) : s.bare.span = .origin := by
  cases s <;> simp [bare, span, VarDecl.eraseSpans]

end Stmt

/-- What is left of a function. -/
def FunctionDecl.bare (d : FunctionDecl) : FunctionDecl :=
  ⟨d.name.eraseSpans, d.params.map Param.eraseSpans, d.returnTypeName.map Ident.eraseSpans,
    d.returnType, Stmt.bareAll d.body, .origin⟩

/-- What is left of a program. -/
def Program.bare (p : Program) : Program :=
  ⟨p.records.map RecordDecl.eraseSpans, p.functions.map FunctionDecl.bare, Stmt.bareAll p.main⟩

end Stepwise
