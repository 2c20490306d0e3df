import Stepwise.Compile
import Stepwise.Proofs.Bare.Trees

/-!
# Reading bare programs

Reading the bare tokens of a program reads what is left of the program, or stops where reading the
program stops (`Program.ofTokens_bare`). Comments are passed over where no statement may start, and
are dropped as statements where one may.
-/

set_option autoImplicit false

namespace Stepwise

open Diagnosed

namespace Parser

variable {α β γ : Type} {m n : Nat}

/-- The reading `q` on bare tokens read what is left of what `p` read, and what is left of the
tokens behind. -/
def Leaves (image : α → β) (p : Parsed α m) (q : Parsed β n) : Prop :=
  q.value = image p.value ∧ q.rest = bareTokens p.rest

/-- Nothing comes next, or what comes next in bare tokens is what is left of what comes next. -/
def Beside (image : α → β) (x : Option (Parsed α m)) (y : Option (Parsed β n)) : Prop :=
  (x = none ∧ y = none) ∨
    ∃ (p : Parsed α m) (h : (bareTokens p.rest).length < n), x = some p ∧
    y = some ⟨image p.value, bareTokens p.rest, h⟩

/-- What follows a reading is alike if it is alike behind every reading. -/
theorem bind_leaves {image : α → β} {x : Diagnosed (Parsed α m)} {y : Diagnosed (Parsed β n)}
    (h : Alike (Leaves image) x y) {δ : Type} {S : γ → δ → Prop} {f : Parsed α m → Diagnosed γ}
    {g : Parsed β n → Diagnosed δ}
    (hnext : ∀ (p : Parsed α m) (hq : (bareTokens p.rest).length < n),
      Alike S (f p) (g ⟨image p.value, bareTokens p.rest, hq⟩)) :
    Alike S (x >>= f) (y >>= g) := by
  refine h.bind ?_
  rintro p ⟨value, rest, hq⟩ ⟨rfl, rfl⟩
  exact hnext p hq

/-! ## The next token -/

theorem next?_bare (ts : Tokens) : Beside SourceToken.bare (next? ts) (next? (bareTokens ts)) := by
  induction ts with
  | nil => exact .inl ⟨rfl, rfl⟩
  | cons t rest ih =>
      cases hcomment : t.token.isComment with
      | true =>
          rw [bareTokens_of_comment hcomment, next?, if_pos hcomment]
          rcases ih with ⟨hnone, hnone'⟩ | ⟨p, h, hp, hp'⟩
          · exact .inl ⟨by rw [hnone]; rfl, hnone'⟩
          · exact .inr ⟨p.widen (Nat.le_succ _), h, by rw [hp]; rfl, hp'⟩
      | false =>
          rw [bareTokens_of_not_comment hcomment, next?, if_neg (by simp [hcomment]), next?,
            if_neg (by simp [SourceToken.bare, hcomment])]
          exact .inr ⟨⟨t, rest, Nat.lt_succ_self _⟩, Nat.lt_succ_self _, rfl, rfl⟩

theorem look_bare (fin : SourceToken) (ts : Tokens) :
    look fin.bare (bareTokens ts) = (look fin ts).bare := by
  unfold look
  rcases next?_bare ts with ⟨hnone, hnone'⟩ | ⟨p, h, hp, hp'⟩
  · rw [hnone, hnone']
    rfl
  · rw [hp, hp']
    rfl

theorem nextTerminal?_bare (ts : Tokens) :
    Beside (fun t : Terminal × Span => (t.1, Span.origin)) (nextTerminal? ts)
      (nextTerminal? (bareTokens ts)) := by
  unfold nextTerminal?
  rcases next?_bare ts with ⟨hnone, hnone'⟩ | ⟨⟨⟨token, span⟩, rest, hrest⟩, h, hp, hp'⟩
  · rw [hnone, hnone']
    exact .inl ⟨rfl, rfl⟩
  · rw [hp, hp']
    cases token with
    | terminal t => exact .inr ⟨⟨(t, span), rest, hrest⟩, h, rfl, rfl⟩
    | _ => exact .inl ⟨rfl, rfl⟩

theorem accept?_bare (t : Terminal) (ts : Tokens) :
    Beside (fun _ => Span.origin) (accept? t ts) (accept? t (bareTokens ts)) := by
  unfold accept?
  rcases nextTerminal?_bare ts with ⟨hnone, hnone'⟩ | ⟨p, h, hp, hp'⟩
  · rw [hnone, hnone']
    exact .inl ⟨rfl, rfl⟩
  · rw [hp, hp']
    dsimp only
    split
    · exact .inr ⟨p.map (·.2), h, rfl, rfl⟩
    · exact .inl ⟨rfl, rfl⟩

theorem nextOperator?_bare (level : Precedence) (ts : Tokens) :
    Beside id (nextOperator? level ts) (nextOperator? level (bareTokens ts)) := by
  unfold nextOperator?
  rcases nextTerminal?_bare ts with ⟨hnone, hnone'⟩ | ⟨p, h, hp, hp'⟩
  · rw [hnone, hnone']
    exact .inl ⟨rfl, rfl⟩
  · rw [hp, hp']
    dsimp only
    cases level.operator? p.value.1 with
    | none => exact .inl ⟨rfl, rfl⟩
    | some op => exact .inr ⟨p.map fun _ => op, h, rfl, rfl⟩

theorem nextUnary?_bare (ts : Tokens) :
    Beside (fun op : UnaryOp × Span => (op.1, Span.origin)) (nextUnary? ts)
      (nextUnary? (bareTokens ts)) := by
  unfold nextUnary?
  rcases nextTerminal?_bare ts with ⟨hnone, hnone'⟩ | ⟨p, h, hp, hp'⟩
  · rw [hnone, hnone']
    exact .inl ⟨rfl, rfl⟩
  · rw [hp, hp']
    dsimp only
    cases unaryOperator? p.value.1 with
    | none => exact .inl ⟨rfl, rfl⟩
    | some op => exact .inr ⟨p.map fun v => (op, v.2), h, rfl, rfl⟩

variable (fin : SourceToken)

theorem expect_bare (t : Terminal) (ts : Tokens) :
    Alike (Leaves fun _ => Span.origin) (expect fin t ts) (expect fin.bare t (bareTokens ts)) := by
  unfold expect
  rcases accept?_bare t ts with ⟨hnone, hnone'⟩ | ⟨p, h, hp, hp'⟩
  · rw [hnone, hnone']
    exact .failAt rfl
  · rw [hp, hp']
    exact .ok ⟨rfl, rfl⟩

theorem identifier_bare (ts : Tokens) :
    Alike (Leaves Ident.eraseSpans) (identifier fin ts) (identifier fin.bare (bareTokens ts)) := by
  unfold identifier
  rcases next?_bare ts with ⟨hnone, hnone'⟩ | ⟨⟨⟨token, span⟩, rest, hrest⟩, h, hp, hp'⟩
  · rw [hnone, hnone']
    exact .failAt rfl
  · rw [hp, hp']
    cases token with
    | identifier name => exact .ok ⟨rfl, rfl⟩
    | _ => exact .failAt rfl

/-! ## Expressions -/

theorem joined_eraseSpans (op : BinaryOp) (left right : Expr) :
    joined op left.eraseSpans right.eraseSpans = (joined op left right).eraseSpans := by
  simp only [joined, Expr.eraseSpans, Expr.span_eraseSpans]
  rfl

theorem fieldsBehind_bare (record : Expr) (ts : Tokens) :
    Alike (Leaves Expr.eraseSpans) (fieldsBehind fin record ts)
      (fieldsBehind fin.bare record.eraseSpans (bareTokens ts)) := by
  rw [fieldsBehind, fieldsBehind]
  rcases accept?_bare .dot ts with ⟨hnone, hnone'⟩ | ⟨dot, h, hp, hp'⟩
  · rw [hnone, hnone']
    exact .ok ⟨rfl, rfl⟩
  · rw [hp, hp']
    refine bind_leaves (identifier_bare fin dot.rest) fun name _ => ?_
    have hd := dot.shorter
    have hn := name.shorter
    have hfield :
        (Expr.field (unchecked (record.eraseSpans.span.merge name.value.eraseSpans.span))
          record.eraseSpans name.value.eraseSpans) =
        (Expr.field (unchecked (record.span.merge name.value.span)) record
          name.value).eraseSpans := by
      simp only [Expr.eraseSpans, Expr.span_eraseSpans]
      rfl
    dsimp only
    rw [hfield]
    exact bind_leaves (fieldsBehind_bare _ name.rest) fun _ _ => .pure ⟨rfl, rfl⟩
termination_by ts.length

mutual

theorem binary_bare (level : Precedence) (ts : Tokens) :
    Alike (Leaves Expr.eraseSpans) (binary fin level ts)
      (binary fin.bare level (bareTokens ts)) := by
  rw [binary, binary]
  refine bind_leaves (operand_bare level ts) fun left _ => ?_
  have hl := left.shorter
  exact bind_leaves (binaryBehind_bare level left.value left.rest) fun _ _ => .pure ⟨rfl, rfl⟩
termination_by 16 * ts.length + 2 * level.rank + 4

theorem binaryBehind_bare (level : Precedence) (left : Expr) (ts : Tokens) :
    Alike (Leaves Expr.eraseSpans) (binaryBehind fin level left ts)
      (binaryBehind fin.bare level left.eraseSpans (bareTokens ts)) := by
  rw [binaryBehind, binaryBehind]
  rcases nextOperator?_bare level ts with ⟨hnone, hnone'⟩ | ⟨op, h, hp, hp'⟩
  · rw [hnone, hnone']
    exact .ok ⟨rfl, rfl⟩
  · rw [hp, hp']
    have ho := op.shorter
    refine bind_leaves (operand_bare level op.rest) fun right _ => ?_
    have hr := right.shorter
    dsimp only [id]
    rw [joined_eraseSpans]
    exact bind_leaves (binaryBehind_bare level _ right.rest) fun _ _ => .pure ⟨rfl, rfl⟩
termination_by 16 * ts.length + 2 * level.rank + 3

theorem operand_bare (level : Precedence) (ts : Tokens) :
    Alike (Leaves Expr.eraseSpans) (operand fin level ts)
      (operand fin.bare level (bareTokens ts)) := by
  rw [operand, operand]
  split
  · next tight ht =>
      have hrank := Precedence.rank_lt_of_tighter ht
      exact binary_bare tight ts
  · exact unary_bare ts
termination_by 16 * ts.length + 2 * level.rank + 3

theorem unary_bare (ts : Tokens) :
    Alike (Leaves Expr.eraseSpans) (unary fin ts) (unary fin.bare (bareTokens ts)) := by
  rw [unary, unary]
  rcases nextUnary?_bare ts with ⟨hnone, hnone'⟩ | ⟨op, h, hp, hp'⟩
  · rw [hnone, hnone']
    refine bind_leaves (primary_bare ts) fun record _ => ?_
    exact bind_leaves (fieldsBehind_bare fin record.value record.rest) fun _ _ => .pure ⟨rfl, rfl⟩
  · rw [hp, hp']
    have ho := op.shorter
    refine bind_leaves (unary_bare op.rest) fun inner _ => .pure ⟨?_, rfl⟩
    simp only [Expr.eraseSpans, Expr.span_eraseSpans]
    rfl
termination_by 16 * ts.length + 2

theorem primary_bare (ts : Tokens) :
    Alike (Leaves Expr.eraseSpans) (primary fin ts) (primary fin.bare (bareTokens ts)) := by
  rw [primary, primary]
  rcases next?_bare ts with ⟨hnone, hnone'⟩ | ⟨⟨⟨token, span⟩, rest, hrest⟩, h, hp, hp'⟩
  · rw [hnone, hnone']
    exact .failAt rfl
  · rw [hp, hp']
    cases token with
    | number v => exact .ok ⟨rfl, rfl⟩
    | string s => exact .ok ⟨rfl, rfl⟩
    | identifier name =>
        dsimp only [SourceToken.bare]
        rcases accept?_bare .leftParen rest with ⟨hnone, hnone'⟩ | ⟨paren, hparen, hq, hq'⟩
        · rw [hnone, hnone']
          exact .ok ⟨rfl, rfl⟩
        · rw [hq, hq']
          have hshort := paren.shorter
          exact bind_leaves (arguments_bare paren.rest) fun _ _ => .pure ⟨rfl, rfl⟩
    | terminal t =>
        cases t with
        | trueWord => exact .ok ⟨rfl, rfl⟩
        | falseWord => exact .ok ⟨rfl, rfl⟩
        | leftParen =>
            have hshort : rest.length < ts.length := hrest
            refine bind_leaves (binary_bare .logical rest) fun inner _ => ?_
            refine bind_leaves (expect_bare fin .rightParen inner.rest) fun close _ =>
              .pure ⟨?_, rfl⟩
            rw [Expr.eraseSpans_withSpan]
            exact inner.value.withSpan_eraseSpans
        | _ => exact .failAt rfl
    | _ => exact .failAt rfl
termination_by 16 * ts.length + 1
decreasing_by
  all_goals
    have : Precedence.logical.rank = 3 := rfl
    omega

theorem arguments_bare (ts : Tokens) :
    Alike (Leaves fun a : List Expr × Span => (Expr.eraseAllSpans a.1, Span.origin))
      (arguments fin ts) (arguments fin.bare (bareTokens ts)) := by
  rw [arguments, arguments]
  rcases accept?_bare .rightParen ts with ⟨hnone, hnone'⟩ | ⟨close, h, hp, hp'⟩
  · rw [hnone, hnone']
    refine bind_leaves (binary_bare .logical ts) fun first _ => ?_
    have hf := first.shorter
    exact bind_leaves (argumentsBehind_bare first.rest) fun _ _ => .pure ⟨rfl, rfl⟩
  · rw [hp, hp']
    exact .ok ⟨rfl, rfl⟩
termination_by 16 * ts.length + 11
decreasing_by
  all_goals
    have : Precedence.logical.rank = 3 := rfl
    omega

theorem argumentsBehind_bare (ts : Tokens) :
    Alike (Leaves fun a : List Expr × Span => (Expr.eraseAllSpans a.1, Span.origin))
      (argumentsBehind fin ts) (argumentsBehind fin.bare (bareTokens ts)) := by
  rw [argumentsBehind, argumentsBehind]
  rcases accept?_bare .comma ts with ⟨hnone, hnone'⟩ | ⟨comma, h, hp, hp'⟩
  · rw [hnone, hnone']
    exact bind_leaves (expect_bare fin .rightParen ts) fun _ _ => .pure ⟨rfl, rfl⟩
  · rw [hp, hp']
    have hc := comma.shorter
    refine bind_leaves (binary_bare .logical comma.rest) fun first _ => ?_
    have hf := first.shorter
    exact bind_leaves (argumentsBehind_bare first.rest) fun _ _ => .pure ⟨rfl, rfl⟩
termination_by 16 * ts.length
decreasing_by
  all_goals
    have : Precedence.logical.rank = 3 := rfl
    omega

end

theorem expression_bare (ts : Tokens) :
    Alike (Leaves Expr.eraseSpans) (expression fin ts) (expression fin.bare (bareTokens ts)) :=
  binary_bare fin .logical ts

/-! ## Statements -/

/-- The reading `q` on bare tokens read what is left of the statement that `p` read, which is no
comment. -/
def LeavesStatement (p : Parsed Stmt m) (q : Parsed Stmt n) : Prop :=
  Leaves Stmt.bare p q ∧ p.value.isComment = false

theorem bind_statement {x : Diagnosed (Parsed Stmt m)} {y : Diagnosed (Parsed Stmt n)}
    (h : Alike LeavesStatement x y) {δ : Type} {S : γ → δ → Prop} {f : Parsed Stmt m → Diagnosed γ}
    {g : Parsed Stmt n → Diagnosed δ}
    (hnext : ∀ (p : Parsed Stmt m) (hq : (bareTokens p.rest).length < n),
      p.value.isComment = false → Alike S (f p) (g ⟨p.value.bare, bareTokens p.rest, hq⟩)) :
    Alike S (x >>= f) (y >>= g) := by
  refine h.bind ?_
  rintro p ⟨value, rest, hq⟩ ⟨⟨rfl, rfl⟩, hcomment⟩
  exact hnext p hq hcomment

theorem token_look_bare (ts : Tokens) :
    (look fin.bare (bareTokens ts)).token = (look fin ts).token := by
  rw [look_bare]
  rfl

theorem typeAnnotation_bare (ts : Tokens) :
    Alike (Leaves (Option.map Ident.eraseSpans)) ( typeAnnotation fin ts)
      ( typeAnnotation fin.bare (bareTokens ts)) := by
  unfold typeAnnotation
  rcases accept?_bare .colon ts with ⟨hnone, hnone'⟩ | ⟨colon, h, hp, hp'⟩
  · rw [hnone, hnone']
    exact .ok ⟨rfl, rfl⟩
  · rw [hp, hp']
    exact bind_leaves (identifier_bare fin colon.rest) fun _ _ => .pure ⟨rfl, rfl⟩

theorem variableBehind_bare (start : Span) (ts : Tokens) :
    Alike LeavesStatement (variableBehind fin start ts)
      (variableBehind fin.bare .origin (bareTokens ts)) := by
  unfold variableBehind
  refine bind_leaves (identifier_bare fin ts) fun name _ => ?_
  refine bind_leaves (typeAnnotation_bare fin name.rest) fun typeName _ => ?_
  refine bind_leaves (expect_bare fin .assign typeName.rest) fun sign _ => ?_
  refine bind_leaves (expression_bare fin sign.rest) fun value _ => .pure ⟨⟨?_, rfl⟩, rfl⟩
  simp only [Stmt.bare, VarDecl.eraseSpans, Expr.span_eraseSpans]
  rfl

theorem returnBehind_bare (start : Span) (ts : Tokens) :
    Alike LeavesStatement (returnBehind fin start ts)
      (returnBehind fin.bare .origin (bareTokens ts)) := by
  unfold returnBehind
  rw [token_look_bare]
  split
  · refine bind_leaves (expression_bare fin ts) fun value _ => .pure ⟨⟨?_, rfl⟩, rfl⟩
    simp only [Stmt.bare, Expr.span_eraseSpans]
    rfl
  · exact .ok ⟨⟨rfl, rfl⟩, rfl⟩

theorem expressionOrAssignment_bare (ts : Tokens) :
    Alike LeavesStatement (expressionOrAssignment fin ts)
      (expressionOrAssignment fin.bare (bareTokens ts)) := by
  unfold expressionOrAssignment
  rw [token_look_bare]
  split
  · refine bind_leaves (expression_bare fin ts) fun target _ => ?_
    dsimp only
    rcases accept?_bare .assign target.rest with ⟨hnone, hnone'⟩ | ⟨sign, h, hp, hp'⟩
    · rw [hnone, hnone']
      exact .pure ⟨⟨rfl, rfl⟩, rfl⟩
    · rw [hp, hp', Expr.isAssignable_eraseSpans]
      dsimp only
      split
      · refine bind_leaves (expression_bare fin sign.rest) fun value _ => .pure ⟨⟨?_, rfl⟩, rfl⟩
        simp only [Stmt.bare, Expr.span_eraseSpans]
        rfl
      · exact .failAt rfl
  · exact .failAt rfl

/-- A block in front of which no comment stands. -/
theorem block_of_head {ts : Tokens} (h : ∀ t ∈ ts.head?, t.token.isComment = false) :
    block fin ts =
      if endsBlock (look fin ts).token then .ok ⟨[], ts, Nat.lt_succ_self _⟩
      else do
        let first ← statement fin ts
        have hf := first.shorter
        let others ← block fin first.rest
        return (others.map (first.value :: ·)).widen (Nat.succ_le_succ (Nat.le_of_lt hf)) := by
  rw [block.eq_def]
  split
  · cases h _ rfl
  · rfl

theorem head_bareTokens (ts : Tokens) : ∀ t ∈ (bareTokens ts).head?, t.token.isComment = false := by
  intro t ht
  have hmem := List.mem_of_mem_head? ht
  simp only [bareTokens, List.mem_map, List.mem_filter, Bool.not_eq_true'] at hmem
  obtain ⟨t, ⟨-, hcomment⟩, rfl⟩ := hmem
  exact hcomment

/-- Tokens begin with a comment, or with none. -/
theorem comment_or_head (ts : Tokens) :
    (∃ text span rest, ts = ⟨.comment text, span⟩ :: rest) ∨ ∀ t ∈ ts.head?,
    t.token.isComment = false := by
  match ts with
  | [] => exact .inr nofun
  | ⟨.comment text, span⟩ :: rest => exact .inl ⟨text, span, rest, rfl⟩
  | ⟨.number _, _⟩ :: _ | ⟨.string _, _⟩ :: _ | ⟨.identifier _, _⟩ :: _ | ⟨.terminal _, _⟩ :: _
  | ⟨.endOfInput, _⟩ :: _ => exact .inr (by rintro t ⟨⟩; rfl)

mutual

theorem block_bare (ts : Tokens) :
    Alike (Leaves Stmt.bareAll) (block fin ts) (block fin.bare (bareTokens ts)) := by
  rcases comment_or_head ts with ⟨text, span, rest, rfl⟩ | hhead
  · rw [bareTokens_of_comment rfl, block]
    exact (block_bare rest).map_left fun _ _ hothers => hothers
  · rw [block_of_head fin hhead, block_of_head fin.bare (head_bareTokens ts), token_look_bare]
    split
    · exact .ok ⟨rfl, rfl⟩
    · refine bind_statement (statement_bare ts) fun first _ hfirst => ?_
      have hf := first.shorter
      refine bind_leaves (block_bare first.rest) fun others _ => .pure ⟨?_, rfl⟩
      exact (Stmt.bareAll_cons hfirst others.value).symm
termination_by 2 * ts.length + 1

theorem statement_bare (ts : Tokens) :
    Alike LeavesStatement (statement fin ts) (statement fin.bare (bareTokens ts)) := by
  rw [statement, statement]
  rcases nextTerminal?_bare ts with ⟨hnone, hnone'⟩ | ⟨⟨⟨t, start⟩, rest, hrest⟩, h, hp, hp'⟩
  · rw [hnone, hnone']
    exact expressionOrAssignment_bare fin ts
  · rw [hp, hp']
    have hshort : rest.length < ts.length := hrest
    cases t with
    | varWord =>
      exact bind_statement (variableBehind_bare fin start rest) fun _ _ hs => .pure ⟨⟨rfl, rfl⟩, hs⟩
    | ifWord =>
      exact bind_statement (conditional_bare start rest) fun _ _ hs => .pure ⟨⟨rfl, rfl⟩, hs⟩
    | whileWord =>
        refine bind_leaves (expression_bare fin rest) fun condition _ => ?_
        refine bind_leaves (expect_bare fin .doWord condition.rest) fun sign _ => ?_
        have hc := condition.shorter
        have hs := sign.shorter
        refine bind_leaves (block_bare sign.rest) fun body _ => ?_
        exact bind_leaves (expect_bare fin .endWord body.rest) fun _ _ => .pure ⟨⟨rfl, rfl⟩, rfl⟩
    | repeatWord =>
        refine bind_leaves (expression_bare fin rest) fun count _ => ?_
        refine bind_leaves (expect_bare fin .timesWord count.rest) fun sign _ => ?_
        have hc := count.shorter
        have hs := sign.shorter
        refine bind_leaves (block_bare sign.rest) fun body _ => ?_
        exact bind_leaves (expect_bare fin .endWord body.rest) fun _ _ => .pure ⟨⟨rfl, rfl⟩, rfl⟩
    | returnWord =>
      exact bind_statement (returnBehind_bare fin start rest) fun _ _ hs => .pure ⟨⟨rfl, rfl⟩, hs⟩
    | breakWord => exact .ok ⟨⟨rfl, rfl⟩, rfl⟩
    | continueWord => exact .ok ⟨⟨rfl, rfl⟩, rfl⟩
    | funWord => exact .failAt rfl
    | recordWord => exact .failAt rfl
    | _ => exact expressionOrAssignment_bare fin ts
termination_by 2 * ts.length

theorem conditional_bare (start : Span) (ts : Tokens) :
    Alike LeavesStatement (conditional fin start ts)
      (conditional fin.bare .origin (bareTokens ts)) := by
  rw [conditional, conditional]
  refine bind_leaves (expression_bare fin ts) fun condition _ => ?_
  refine bind_leaves (expect_bare fin .thenWord condition.rest) fun sign _ => ?_
  have hc := condition.shorter
  have hs := sign.shorter
  refine bind_leaves (block_bare sign.rest) fun thenBlock _ => ?_
  have ht := thenBlock.shorter
  dsimp only
  rcases accept?_bare .elseifWord thenBlock.rest with ⟨hnone, hnone'⟩ | ⟨keyword, h, hp, hp'⟩
  · rw [hnone, hnone']
    dsimp only
    rcases accept?_bare .elseWord thenBlock.rest with ⟨hnone, hnone'⟩ | ⟨keyword, h, hp, hp'⟩
    · rw [hnone, hnone']
      exact bind_leaves (expect_bare fin .endWord thenBlock.rest) fun _ _ => .pure ⟨⟨rfl, rfl⟩, rfl⟩
    · rw [hp, hp']
      have hk := keyword.shorter
      refine bind_leaves (block_bare keyword.rest) fun elseBlock _ => ?_
      exact bind_leaves (expect_bare fin .endWord elseBlock.rest) fun _ _ => .pure ⟨⟨rfl, rfl⟩, rfl⟩
  · rw [hp, hp']
    have hk := keyword.shorter
    refine bind_statement (conditional_bare keyword.value keyword.rest) fun nested _ hnested =>
      .pure ⟨⟨?_, rfl⟩, rfl⟩
    simp only [Stmt.bare, Stmt.bareAll_cons hnested, Stmt.bareAll, Stmt.span_bare]
    rfl
termination_by 2 * ts.length

end

/-! ## Declarations -/

theorem fields_bare (ts : Tokens) :
    Alike (Leaves (List.map FieldDecl.eraseSpans)) (fields fin ts)
      (fields fin.bare (bareTokens ts)) := by
  rw [fields, fields]
  rcases next?_bare ts with ⟨hnone, hnone'⟩ | ⟨⟨⟨token, span⟩, rest, hrest⟩, h, hp, hp'⟩
  · rw [hnone, hnone']
    exact .ok ⟨rfl, rfl⟩
  · rw [hp, hp']
    cases token with
    | identifier name =>
        have hshort : rest.length < ts.length := hrest
        refine bind_leaves (expect_bare fin .colon rest) fun colon _ => ?_
        refine bind_leaves (identifier_bare fin colon.rest) fun typeName _ => ?_
        have hc := colon.shorter
        have ht := typeName.shorter
        exact bind_leaves (fields_bare typeName.rest) fun _ _ => .pure ⟨rfl, rfl⟩
    | _ => exact .ok ⟨rfl, rfl⟩
termination_by ts.length

theorem recordBehind_bare (start : Span) (ts : Tokens) :
    Alike (Leaves RecordDecl.eraseSpans) (recordBehind fin start ts)
      (recordBehind fin.bare .origin (bareTokens ts)) := by
  unfold recordBehind
  refine bind_leaves (identifier_bare fin ts) fun name _ => ?_
  refine bind_leaves (fields_bare fin name.rest) fun all _ => ?_
  exact bind_leaves (expect_bare fin .endWord all.rest) fun _ _ => .pure ⟨rfl, rfl⟩

theorem parameter_bare (ts : Tokens) :
    Alike (Leaves Param.eraseSpans) (parameter fin ts) (parameter fin.bare (bareTokens ts)) := by
  unfold parameter
  refine bind_leaves (identifier_bare fin ts) fun name _ => ?_
  refine bind_leaves (expect_bare fin .colon name.rest) fun colon _ => ?_
  exact bind_leaves (identifier_bare fin colon.rest) fun _ _ => .pure ⟨rfl, rfl⟩

theorem parametersBehind_bare (ts : Tokens) :
    Alike (Leaves (List.map Param.eraseSpans)) (parametersBehind fin ts)
      (parametersBehind fin.bare (bareTokens ts)) := by
  rw [parametersBehind, parametersBehind]
  rcases accept?_bare .comma ts with ⟨hnone, hnone'⟩ | ⟨comma, h, hp, hp'⟩
  · rw [hnone, hnone']
    exact .ok ⟨rfl, rfl⟩
  · rw [hp, hp']
    refine bind_leaves (parameter_bare fin comma.rest) fun first _ => ?_
    have hc := comma.shorter
    have hf := first.shorter
    exact bind_leaves (parametersBehind_bare first.rest) fun _ _ => .pure ⟨rfl, rfl⟩
termination_by ts.length

theorem parameters_bare (ts : Tokens) :
    Alike (Leaves (List.map Param.eraseSpans)) (parameters fin ts)
      (parameters fin.bare (bareTokens ts)) := by
  unfold parameters
  rcases accept?_bare .rightParen ts with ⟨hnone, hnone'⟩ | ⟨close, h, hp, hp'⟩
  · rw [hnone, hnone']
    refine bind_leaves (parameter_bare fin ts) fun first _ => ?_
    exact bind_leaves (parametersBehind_bare fin first.rest) fun _ _ => .pure ⟨rfl, rfl⟩
  · rw [hp, hp']
    exact .ok ⟨rfl, rfl⟩

theorem functionBehind_bare (start : Span) (ts : Tokens) :
    Alike (Leaves FunctionDecl.bare) (functionBehind fin start ts)
      (functionBehind fin.bare .origin (bareTokens ts)) := by
  unfold functionBehind
  refine bind_leaves (identifier_bare fin ts) fun name _ => ?_
  refine bind_leaves (expect_bare fin .leftParen name.rest) fun opening _ => ?_
  refine bind_leaves (parameters_bare fin opening.rest) fun params _ => ?_
  refine bind_leaves (expect_bare fin .rightParen params.rest) fun close _ => ?_
  refine bind_leaves (typeAnnotation_bare fin close.rest) fun typeName _ => ?_
  refine bind_leaves (block_bare fin typeName.rest) fun body _ => ?_
  exact bind_leaves (expect_bare fin .endWord body.rest) fun _ _ => .pure ⟨rfl, rfl⟩

/-! ## Programs -/

/-- A program in front of which no comment stands. -/
theorem program_of_head {ts : Tokens} (h : ∀ t ∈ ts.head?, t.token.isComment = false) :
    program fin ts =
      match next? ts with
      | none => .ok ⟨[], [], []⟩
      | some ⟨⟨.terminal .funWord, span⟩, rest, _⟩ => do
        let f ← functionBehind fin span rest
        let p ← program fin f.rest
        return { p with functions := f.value :: p.functions }
      | some ⟨⟨.terminal .recordWord, span⟩, rest, _⟩ => do
        let r ← recordBehind fin span rest
        let p ← program fin r.rest
        return { p with records := r.value :: p.records }
      | some _ => do
        let s ← statement fin ts
        let p ← program fin s.rest
        return { p with main := s.value :: p.main } := by
  rw [program.eq_def]
  split
  · cases h _ rfl
  · rfl

theorem program_bare (ts : Tokens) :
    Alike (fun p q => q = p.bare) (program fin ts) (program fin.bare (bareTokens ts)) := by
  rcases comment_or_head ts with ⟨text, span, rest, rfl⟩ | hhead
  · rw [bareTokens_of_comment rfl, program]
    exact (program_bare rest).map_left fun _ _ hp => hp
  · rw [program_of_head fin hhead, program_of_head fin.bare (head_bareTokens ts)]
    have hstatement : Alike (fun p q => q = p.bare)
        (do
          let s ← statement fin ts
          let p ← program fin s.rest
          return { p with main := s.value :: p.main })
        (do
          let s ← statement fin.bare (bareTokens ts)
          let p ← program fin.bare s.rest
          return { p with main := s.value :: p.main }) := by
      refine bind_statement (statement_bare fin ts) fun s _ hs => ?_
      have hshort := s.shorter
      refine (program_bare s.rest).bind_image fun p => .pure ?_
      simp only [Program.bare, Stmt.bareAll_cons hs]
    rcases next?_bare ts with ⟨hnone, hnone'⟩ | ⟨⟨⟨token, span⟩, rest, hrest⟩, h, hp, hp'⟩
    · rw [hnone, hnone']
      exact .ok rfl
    · rw [hp, hp']
      cases token with
      | terminal t =>
          cases t with
          | funWord =>
              refine bind_leaves (functionBehind_bare fin span rest) fun f _ => ?_
              have hshort : f.rest.length < ts.length := Nat.lt_trans f.shorter hrest
              exact (program_bare f.rest).bind_image fun p => .pure rfl
          | recordWord =>
              refine bind_leaves (recordBehind_bare fin span rest) fun r _ => ?_
              have hshort : r.rest.length < ts.length := Nat.lt_trans r.shorter hrest
              exact (program_bare r.rest).bind_image fun p => .pure rfl
          | _ => exact hstatement
      | _ => exact hstatement
termination_by ts.length

end Parser

/-! ## The end of the input -/

/-- A stretch of tokens up to one that is no comment leaves the stretch up to what is left of that
token. -/
theorem takeWhile_bareTokens {goesOn : SourceToken → Bool}
    (hbare : ∀ t : SourceToken, goesOn t.bare = goesOn t)
    (hcomment : ∀ t : SourceToken, t.token.isComment = true → goesOn t = true)
    (ts : List SourceToken) :
    (bareTokens ts).takeWhile goesOn = bareTokens (ts.takeWhile goesOn) := by
  induction ts with
  | nil => rfl
  | cons t ts ih =>
      cases ht : t.token.isComment with
      | true =>
        rw [List.takeWhile_cons_of_pos (hcomment t ht), bareTokens_of_comment ht,
          bareTokens_of_comment ht, ih]
      | false =>
          rw [bareTokens_of_not_comment ht]
          cases hstops : goesOn t with
          | true =>
              rw [List.takeWhile_cons_of_pos hstops, List.takeWhile_cons_of_pos
                (by rw [hbare, hstops]), bareTokens_of_not_comment ht, ih]
          | false =>
              rw [List.takeWhile_cons_of_neg (by simp [hbare, hstops]), List.takeWhile_cons_of_neg
                (by simp [hstops])]
              rfl

/-- Only the place of the end of the input depends on where it is found. -/
theorem bare_end (ts : List SourceToken) {isEnd : SourceToken → Bool}
    (hend : ∀ t, isEnd t = true → t.token = .endOfInput) :
    ((ts.find? isEnd).getD (endOf ts)).bare = ⟨.endOfInput, .origin⟩ := by
  cases hfind : ts.find? isEnd with
  | none => rfl
  | some t => rw [Option.getD_some, SourceToken.bare, hend t (List.find?_some hfind)]

theorem bare_of_mem_bareTokens {ts : List SourceToken} {t : SourceToken} (h : t ∈ bareTokens ts) :
    t.bare = t := by
  obtain ⟨t, -, rfl⟩ := List.mem_map.mp h
  rfl

/-- The end of bare tokens has no place. -/
theorem end_bareTokens (ts : List SourceToken) (isEnd : SourceToken → Bool) :
    (((bareTokens ts).find? isEnd).getD (endOf (bareTokens ts))).bare =
      ((bareTokens ts).find? isEnd).getD (endOf (bareTokens ts)) := by
  cases hfind : (bareTokens ts).find? isEnd with
  | some t => exact bare_of_mem_bareTokens (List.mem_of_find?_eq_some hfind)
  | none =>
      rw [Option.getD_none, endOf]
      cases hlast : (bareTokens ts).getLast? with
      | none => rfl
      | some t =>
          rw [← bare_of_mem_bareTokens (List.mem_of_getLast? hlast)]
          rfl

/-- **Bare tokens are read as what is left of the program**, or neither are. -/
theorem Program.ofTokens_bare (ts : List SourceToken) :
    Alike (fun p q => q = p.bare) (Program.ofTokens ts) (Program.ofTokens (bareTokens ts)) := by
  unfold Program.ofTokens
  extract_lets isEnd
  have hend (t : SourceToken) (h : isEnd t = true) : t.token = .endOfInput := by
    obtain ⟨token, span⟩ := t
    cases token with
    | endOfInput => rfl
    | _ => cases h
  rw [← end_bareTokens, bare_end _ hend, ← bare_end ts hend, takeWhile_bareTokens (fun _ => rfl)]
  · exact Parser.program_bare _ _
  · rintro ⟨token, span⟩ hcomment
    cases token with
    | endOfInput => cases hcomment
    | _ => rfl

end Stepwise
