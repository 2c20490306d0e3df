import Stepwise.Proofs.Program.Reading
import Stepwise.Proofs.Program.Targets

/-!
# Writing programs

The tokens of a tree: what reading should give the tree back from. Expressions are written with only
the parentheses that the levels of the grammar require. A conditional that is alone in the
alternative of another may be written as an `elseif`; which ones are is a choice left open.

Statements have no separators, so some rows of statements cannot be told from others: `Stmt.Parted`
says when a statement can be followed by another.
-/

set_option autoImplicit false

namespace Stepwise

open Stepwise.Parser Grammar

/-! ## Expressions -/

/-- How far a level is from the tightest. -/
def Grammar.Level.rank : Level → Nat
  | .primary => 0
  | .access => 1
  | .unary => 2
  | .binary p => p.rank + 3

/-- The tightest level that an expression belongs to without parentheses. -/
def Expr.level : Expr → Level
  | .number .. | .boolean .. | .string .. | .reference .. | .call .. => .primary
  | .field .. => .access
  | .unary .. => .unary
  | .binary _ op _ _ => .binary op.precedence

/-- The tokens of an expression where one of a level is expected: in parentheses if it is looser. -/
def Expr.guarded (level : Level) (e : Expr) (ts : List Token) : List Token :=
  if e.level.rank ≤ level.rank then ts else .terminal .leftParen :: (ts ++ [.terminal .rightParen])

mutual

/-- The tokens of an expression. -/
def Expr.tokens : Expr → List Token
  | .number _ v => [.number v]
  | .boolean _ b => [.terminal (if b then .trueWord else .falseWord)]
  | .string _ s => [.string s]
  | .reference _ name _ => [.identifier name]
  | .call _ name args _ =>
    .identifier name.name :: .terminal .leftParen ::
      (Expr.argumentTokens args ++ [.terminal .rightParen])
  | .field _ record name =>
    record.guarded .access record.tokens ++ [.terminal .dot, .identifier name.name]
  | .unary _ op e => .terminal op.terminal :: e.guarded .unary e.tokens
  | .binary _ op left right =>
    left.guarded (.binary op.precedence) left.tokens ++
      .terminal op.terminal :: right.guarded (operandLevel op.precedence) right.tokens

/-- The tokens of arguments, parted by commas. -/
def Expr.argumentTokens : List Expr → List Token
  | [] => []
  | e :: rest => e.tokens ++ Expr.furtherTokens rest

/-- The tokens of further arguments, each behind a comma. -/
def Expr.furtherTokens : List Expr → List Token
  | [] => []
  | e :: rest => .terminal .comma :: (e.tokens ++ Expr.furtherTokens rest)

end

/-! ## Statements -/

/-- The tokens of a type annotation. -/
def annotationTokens : Option Ident → List Token
  | none => []
  | some name => [.terminal .colon, .identifier name.name]

namespace Stmt

/-- Whether the statement is a conditional. -/
def isConditional : Stmt → Bool
  | cond .. => true
  | _ => false

mutual

/-- The tokens of a statement. The conditionals in alternatives that the choice picks are written as
`elseif`. -/
def tokens (chains : Stmt → Bool) : Stmt → List Token
  | .expr e => e.tokens
  | .var d =>
    .terminal .varWord :: .identifier d.name.name ::
      (annotationTokens d.typeName ++ .terminal .assign :: d.value.tokens)
  | .assign target value _ => target.tokens ++ .terminal .assign :: value.tokens
  | .cond condition thenBlock elseBlock _ =>
    .terminal .ifWord ::
      (condition.tokens ++ .terminal .thenWord :: (blockTokens chains thenBlock ++
        alternativeTokens chains elseBlock))
  | .whileLoop condition body _ =>
    .terminal .whileWord ::
      (condition.tokens ++ .terminal .doWord :: (blockTokens chains body ++ [.terminal .endWord]))
  | .repeatLoop count body _ =>
    .terminal .repeatWord ::
      (count.tokens ++ .terminal .timesWord :: (blockTokens chains body ++ [.terminal .endWord]))
  | .ret none _ => [.terminal .returnWord]
  | .ret (some value) _ => .terminal .returnWord :: value.tokens
  | .breakLoop _ => [.terminal .breakWord]
  | .continueLoop _ => [.terminal .continueWord]
  | .comment text _ => [.comment text]

/-- The tokens of statements in a row. -/
def blockTokens (chains : Stmt → Bool) : List Stmt → List Token
  | [] => []
  | s :: rest => s.tokens chains ++ blockTokens chains rest

/-- The tokens behind the first block of a conditional, up to its `end`. -/
def alternativeTokens (chains : Stmt → Bool) : List Stmt → List Token
  | [] => [.terminal .endWord]
  | s :: rest =>
    if s.isConditional && rest.isEmpty && chains s then
      .terminal .elseifWord :: (s.tokens chains).tail
    else .terminal .elseWord ::
      (s.tokens chains ++ (blockTokens chains rest ++ [.terminal .endWord]))

end

/-- Whether the tokens of a statement end in those of an expression. -/
def endsInExpression : Stmt → Bool
  | expr _ | var _ | assign .. | ret (some _) _ => true
  | _ => false

/-- Whether the statement is a `return` without a value. -/
def returnsNothing : Stmt → Bool
  | ret none _ => true
  | _ => false

/-- One statement can be followed by another: the tokens of the other do not go on with an
expression at the end of the first, and are not taken for the value that the first does without. -/
structure Parted (chains : Stmt → Bool) (s next : Stmt) : Prop where
  minus : s.endsInExpression = true → (next.tokens chains).head? ≠ some (.terminal .minus)
  parenthesis : endsInName (s.tokens chains) = true →
    (next.tokens chains).head? ≠ some (.terminal .leftParen)
  value : s.returnsNothing = true → ∀ t ∈ (next.tokens chains).head?, startsExpression t = false

mutual

/-- In every block of a statement, each statement can be followed by the next that is no comment. -/
def Separated (chains : Stmt → Bool) : Stmt → Prop
  | .cond _ thenBlock elseBlock _ => AllSeparated chains thenBlock ∧ AllSeparated chains elseBlock
  | .whileLoop _ body _ | .repeatLoop _ body _ => AllSeparated chains body
  | .expr _ | .var _ | .assign .. | .ret .. | .breakLoop _ | .continueLoop _ | .comment .. => True

/-- In a block and every block in it, each statement can be followed by the next that is no
comment. -/
def AllSeparated (chains : Stmt → Bool) : List Stmt → Prop
  | [] => True
  | s :: rest =>
    s.Separated chains ∧ (∀ next ∈ rest.find? (!·.isComment), s.Parted chains next) ∧
    AllSeparated chains rest

end

end Stmt

/-! ## Programs -/

/-- The tokens of a field. -/
def FieldDecl.tokens (f : FieldDecl) : List Token :=
  [.identifier f.name.name, .terminal .colon, .identifier f.typeName.name]

/-- The tokens of a record. -/
def RecordDecl.tokens (d : RecordDecl) : List Token :=
  .terminal .recordWord :: .identifier d.name.name ::
    (d.fields.flatMap FieldDecl.tokens ++ [.terminal .endWord])

/-- The tokens of a parameter. -/
def Param.tokens (p : Param) : List Token :=
  [.identifier p.name.name, .terminal .colon, .identifier p.typeName.name]

/-- The tokens of parameters, parted by commas. -/
def Param.listTokens : List Param → List Token
  | [] => []
  | p :: rest => p.tokens ++ rest.flatMap fun p => .terminal .comma :: p.tokens

/-- The tokens of a function. -/
def FunctionDecl.tokens (chains : Stmt → Bool) (d : FunctionDecl) : List Token :=
  .terminal .funWord :: .identifier d.name.name :: .terminal .leftParen ::
    (Param.listTokens d.params ++ .terminal .rightParen ::
      (annotationTokens d.returnTypeName ++
        (Stmt.blockTokens chains d.body ++ [.terminal .endWord])))

/-- The tokens of a program: its records, its functions, its statements and the end of the input. -/
def Program.tokens (chains : Stmt → Bool) (p : Program) : List Token :=
  p.records.flatMap RecordDecl.tokens ++ (p.functions.flatMap (FunctionDecl.tokens chains) ++
    (Stmt.blockTokens chains p.main ++ [.endOfInput]))

/-- In every block of a program, each statement can be followed by the next that is no comment. -/
def Program.Separated (chains : Stmt → Bool) (p : Program) : Prop :=
  ∀ d ∈ p.allFunctions, Stmt.AllSeparated chains d.body

/-! ## Trees without annotations -/

mutual

/-- An expression without annotations. -/
def Expr.Unannotated : Expr → Prop
  | .number i _ | .boolean i _ | .string i _ => i.ty = none
  | .reference i _ slot => i.ty = none ∧ slot = none
  | .call i _ args callee => i.ty = none ∧ callee = none ∧ Expr.AllUnannotated args
  | .field i record _ => i.ty = none ∧ record.Unannotated
  | .unary i _ e => i.ty = none ∧ e.Unannotated
  | .binary i _ left right => i.ty = none ∧ left.Unannotated ∧ right.Unannotated

/-- Expressions without annotations. -/
def Expr.AllUnannotated : List Expr → Prop
  | [] => True
  | e :: rest => e.Unannotated ∧ Expr.AllUnannotated rest

end

mutual

/-- A statement without annotations. -/
def Stmt.Unannotated : Stmt → Prop
  | .expr e => e.Unannotated
  | .var d => d.ty = none ∧ d.slot = none ∧ d.value.Unannotated
  | .assign target value _ => target.Unannotated ∧ value.Unannotated
  | .cond condition thenBlock elseBlock _ =>
    condition.Unannotated ∧ Stmt.AllUnannotated thenBlock ∧ Stmt.AllUnannotated elseBlock
  | .whileLoop condition body _ => condition.Unannotated ∧ Stmt.AllUnannotated body
  | .repeatLoop count body _ => count.Unannotated ∧ Stmt.AllUnannotated body
  | .ret value _ => ∀ e ∈ value, e.Unannotated
  | .breakLoop _ | .continueLoop _ | .comment .. => True

/-- Statements without annotations. -/
def Stmt.AllUnannotated : List Stmt → Prop
  | [] => True
  | s :: rest => s.Unannotated ∧ Stmt.AllUnannotated rest

end

/-- A record without annotations. -/
def RecordDecl.Unannotated (d : RecordDecl) : Prop := ∀ f ∈ d.fields, f.ty = none

/-- A function without annotations. -/
def FunctionDecl.Unannotated (d : FunctionDecl) : Prop :=
  (∀ p ∈ d.params, p.ty = none ∧ p.slot = none) ∧ d.returnType = none ∧ Stmt.AllUnannotated d.body

/-- A program without annotations. -/
def Program.Unannotated (p : Program) : Prop :=
  (∀ d ∈ p.records, d.Unannotated) ∧ (∀ d ∈ p.functions, d.Unannotated) ∧ Stmt.AllUnannotated p.main

/-! ## Trees up to spans -/

/-- A name without its place. -/
def Ident.eraseSpans (i : Ident) : Ident := ⟨i.name, .origin⟩

/-- What an expression carries, without its place. -/
def ExprInfo.eraseSpans (i : ExprInfo) : ExprInfo := ⟨.origin, i.ty⟩

mutual

/-- An expression with all its spans made the same. -/
def Expr.eraseSpans : Expr → Expr
  | .number i v => .number i.eraseSpans v
  | .boolean i b => .boolean i.eraseSpans b
  | .string i s => .string i.eraseSpans s
  | .reference i name slot => .reference i.eraseSpans name slot
  | .call i name args callee => .call i.eraseSpans name.eraseSpans (Expr.eraseAllSpans args) callee
  | .field i record name => .field i.eraseSpans record.eraseSpans name.eraseSpans
  | .unary i op e => .unary i.eraseSpans op e.eraseSpans
  | .binary i op left right => .binary i.eraseSpans op left.eraseSpans right.eraseSpans

/-- Expressions with all their spans made the same. -/
def Expr.eraseAllSpans : List Expr → List Expr
  | [] => []
  | e :: rest => e.eraseSpans :: Expr.eraseAllSpans rest

end

/-- Another span makes no difference. -/
theorem Expr.eraseSpans_withSpan (e : Expr) (span : Span) :
    (e.withSpan span).eraseSpans = e.eraseSpans := by
  cases e <;> rfl

/-- A declaration of a variable with all its spans made the same. -/
def VarDecl.eraseSpans (d : VarDecl) : VarDecl :=
  ⟨d.name.eraseSpans, d.typeName.map Ident.eraseSpans, d.value.eraseSpans, d.ty, d.slot, .origin⟩

mutual

/-- A statement with all its spans made the same. -/
def Stmt.eraseSpans : Stmt → Stmt
  | .expr e => .expr e.eraseSpans
  | .var d => .var d.eraseSpans
  | .assign target value _ => .assign target.eraseSpans value.eraseSpans .origin
  | .cond condition thenBlock elseBlock _ =>
    .cond condition.eraseSpans (Stmt.eraseAllSpans thenBlock) (Stmt.eraseAllSpans elseBlock) .origin
  | .whileLoop condition body _ => .whileLoop condition.eraseSpans (Stmt.eraseAllSpans body) .origin
  | .repeatLoop count body _ => .repeatLoop count.eraseSpans (Stmt.eraseAllSpans body) .origin
  | .ret value _ => .ret (value.map Expr.eraseSpans) .origin
  | .breakLoop _ => .breakLoop .origin
  | .continueLoop _ => .continueLoop .origin
  | .comment text _ => .comment text .origin

/-- Statements with all their spans made the same. -/
def Stmt.eraseAllSpans : List Stmt → List Stmt
  | [] => []
  | s :: rest => s.eraseSpans :: Stmt.eraseAllSpans rest

end

/-- A field with all its spans made the same. -/
def FieldDecl.eraseSpans (f : FieldDecl) : FieldDecl :=
  ⟨f.name.eraseSpans, f.typeName.eraseSpans, f.ty⟩

/-- A record with all its spans made the same. -/
def RecordDecl.eraseSpans (d : RecordDecl) : RecordDecl :=
  ⟨d.name.eraseSpans, d.fields.map FieldDecl.eraseSpans, .origin⟩

/-- A parameter with all its spans made the same. -/
def Param.eraseSpans (p : Param) : Param := ⟨p.name.eraseSpans, p.typeName.eraseSpans, p.ty, p.slot⟩

/-- A function with all its spans made the same. -/
def FunctionDecl.eraseSpans (d : FunctionDecl) : FunctionDecl :=
  ⟨d.name.eraseSpans, d.params.map Param.eraseSpans, d.returnTypeName.map Ident.eraseSpans,
    d.returnType, Stmt.eraseAllSpans d.body, .origin⟩

/-- A program with all its spans made the same. -/
def Program.eraseSpans (p : Program) : Program :=
  ⟨p.records.map RecordDecl.eraseSpans, p.functions.map FunctionDecl.eraseSpans,
    Stmt.eraseAllSpans p.main⟩

/-! ## The end of the input

It stands at the end of the tokens of a program and nowhere else.
-/

namespace Expr

theorem endOfInput_notMem_guarded {e : Expr} {level : Level} {ts : List Token}
    (h : .endOfInput ∉ ts) :
    .endOfInput ∉ e.guarded level ts := by
  unfold guarded
  split <;> simp [h]

mutual

theorem endOfInput_notMem : ∀ e : Expr, .endOfInput ∉ e.tokens
  | .number .. | .boolean .. | .string .. | .reference .. => by simp [tokens]
  | .call _ _ args _ => by simp [tokens, endOfInput_notMem_arguments args]
  | .field _ record _ => by simp [tokens, endOfInput_notMem_guarded (endOfInput_notMem record)]
  | .unary _ _ e => by simp [tokens, endOfInput_notMem_guarded (endOfInput_notMem e)]
  | .binary _ _ left right => by
      simp [tokens, endOfInput_notMem_guarded (endOfInput_notMem left),
        endOfInput_notMem_guarded (endOfInput_notMem right)]

theorem endOfInput_notMem_arguments : ∀ args : List Expr, .endOfInput ∉ argumentTokens args
  | [] => by simp [argumentTokens]
  | e :: rest => by simp [argumentTokens, endOfInput_notMem e, endOfInput_notMem_further rest]

theorem endOfInput_notMem_further : ∀ args : List Expr, .endOfInput ∉ furtherTokens args
  | [] => by simp [furtherTokens]
  | e :: rest => by simp [furtherTokens, endOfInput_notMem e, endOfInput_notMem_further rest]

end

end Expr

theorem endOfInput_notMem_annotation (typeName : Option Ident) :
    .endOfInput ∉ annotationTokens typeName := by
  cases typeName <;> simp [annotationTokens]

namespace Stmt

mutual

theorem endOfInput_notMem (chains : Stmt → Bool) : ∀ s : Stmt, .endOfInput ∉ s.tokens chains
  | .expr e => e.endOfInput_notMem
  | .var d => by simp [tokens, endOfInput_notMem_annotation, d.value.endOfInput_notMem]
  | .assign target value _ => by simp [tokens, target.endOfInput_notMem, value.endOfInput_notMem]
  | .cond condition thenBlock elseBlock _ => by
      simp [tokens, condition.endOfInput_notMem, endOfInput_notMem_block chains thenBlock,
        endOfInput_notMem_alternative chains elseBlock]
  | .whileLoop condition body _ =>
    by simp [tokens, condition.endOfInput_notMem, endOfInput_notMem_block chains body]
  | .repeatLoop count body _ =>
    by simp [tokens, count.endOfInput_notMem, endOfInput_notMem_block chains body]
  | .ret none _ | .breakLoop _ | .continueLoop _ | .comment .. => by simp [tokens]
  | .ret (some value) _ => by simp [tokens, value.endOfInput_notMem]

theorem endOfInput_notMem_block (chains : Stmt → Bool) :
    ∀ ss : List Stmt, .endOfInput ∉ blockTokens chains ss
  | [] => by simp [blockTokens]
  | s :: rest =>
    by simp [blockTokens, endOfInput_notMem chains s, endOfInput_notMem_block chains rest]

theorem endOfInput_notMem_alternative (chains : Stmt → Bool) :
    ∀ ss : List Stmt, .endOfInput ∉ alternativeTokens chains ss
  | [] => by simp [alternativeTokens]
  | s :: rest => by
      have hs := endOfInput_notMem chains s
      rw [alternativeTokens]
      split
      · simpa using fun h => hs (List.mem_of_mem_tail h)
      · simp [hs, endOfInput_notMem_block chains rest]

end

end Stmt

theorem RecordDecl.endOfInput_notMem (d : RecordDecl) : .endOfInput ∉ d.tokens := by
  simp [RecordDecl.tokens, FieldDecl.tokens]

theorem Param.endOfInput_notMem_list (ps : List Param) : .endOfInput ∉ Param.listTokens ps := by
  cases ps <;> simp [Param.listTokens, Param.tokens]

theorem FunctionDecl.endOfInput_notMem (chains : Stmt → Bool) (d : FunctionDecl) :
    .endOfInput ∉ d.tokens chains := by
  simp [FunctionDecl.tokens, Param.endOfInput_notMem_list, endOfInput_notMem_annotation,
    Stmt.endOfInput_notMem_block chains d.body]

end Stepwise
