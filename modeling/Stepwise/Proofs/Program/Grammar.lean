import Stepwise.Program.Parser

/-!
# The grammar of programs

Which rows of tokens are an expression, a statement or a program, and of which tree. Every form
relates a row of tokens, its yield, to the tree that the row stands for, spans included; a proof of
it is a derivation in the grammar.

* `ExprForm` has one level for each strength of binding. Operations associate to the left because
  their right operand is of the tighter level, and parentheses leave no trace in the tree but its
  span.
* `StmtForm` takes an `elseif` for a conditional in the alternative of another that shares its `end`
  (`ConditionalForm`). A comment is a statement and its own yield.
* `ItemForm` are the parts of a program, which `Program.ofItems` sorts into records, functions and
  statements.
-/

set_option autoImplicit false

namespace Stepwise

open Stepwise.Parser (Tokens Precedence unchecked joined)

/-! ## Tokens of a yield -/

/-- A terminal written at a span. -/
def Terminal.token (t : Terminal) (span : Span) : SourceToken := ⟨.terminal t, span⟩

/-- The token of an identifier. -/
def Ident.token (i : Ident) : SourceToken := ⟨.identifier i.name, i.span⟩

/-- The terminal of a unary operator. -/
def UnaryOp.terminal : UnaryOp → Terminal
  | .negate => .minus
  | .not => .notWord

/-- The terminal of a binary operator. -/
def BinaryOp.terminal : BinaryOp → Terminal
  | .add => .plus
  | .subtract => .minus
  | .multiply => .star
  | .divide => .slash
  | .concat => .dots
  | .less => .less
  | .lessEqual => .lessEqual
  | .greater => .greater
  | .greaterEqual => .greaterEqual
  | .equal => .equals
  | .notEqual => .notEquals
  | .and => .andWord
  | .or => .orWord
  | .xor => .xorWord

/-- The level of a binary operator. -/
def BinaryOp.precedence : BinaryOp → Precedence
  | .and | .or | .xor => .logical
  | .less | .lessEqual | .greater | .greaterEqual | .equal | .notEqual => .relational
  | .add | .subtract | .concat => .additive
  | .multiply | .divide => .multiplicative

/-- The terminal of a unary operator is spelled as messages write the operator. -/
theorem UnaryOp.terminal_spelling (op : UnaryOp) : op.terminal.spelling = op.symbol := by
  cases op <;> rfl

/-- The terminal of a binary operator is spelled as messages write the operator. -/
theorem BinaryOp.terminal_spelling (op : BinaryOp) : op.terminal.spelling = op.symbol := by
  cases op <;> rfl

theorem BinaryOp.terminal_injective {op other : BinaryOp} (h : op.terminal = other.terminal) :
    op = other := by
  cases op <;> cases other <;> first | rfl | cases h

/-- A level takes exactly its own operators. -/
theorem Parser.Precedence.operator?_eq_some {p : Precedence} {t : Terminal} {op : BinaryOp} :
    p.operator? t = some op ↔ op.precedence = p ∧ op.terminal = t := by
  constructor
  · intro h
    unfold Precedence.operator? at h
    split at h <;> cases h <;> exact ⟨rfl, rfl⟩
  · rintro ⟨rfl, rfl⟩
    cases op <;> rfl

theorem Parser.unaryOperator?_eq_some {t : Terminal} {op : UnaryOp} :
    unaryOperator? t = some op ↔ op.terminal = t := by
  constructor
  · intro h
    unfold unaryOperator? at h
    split at h <;> cases h <;> rfl
  · rintro rfl
    cases op <;> rfl

namespace Grammar

/-! ## Expressions -/

/-- The levels of expressions, from the loosest to the tightest. -/
inductive Level where
  | binary (p : Precedence)
  | unary
  /-- Field accesses. -/
  | access
  | primary
  deriving Repr, DecidableEq

/-- The level of the operands of a level of binary operators. -/
def operandLevel (p : Precedence) : Level :=
  match p.tighter? with
  | some q => .binary q
  | none => .unary

/-- The level of whole expressions. -/
abbrev Level.loosest : Level := .binary .logical

mutual

/-- The expressions of a level. -/
inductive ExprForm : Level → Tokens → Expr → Prop where
  | operand {p : Precedence} {ys : Tokens} {e : Expr} : ExprForm (operandLevel p) ys e →
      ExprForm (.binary p) ys e
  | operation {op : BinaryOp} {p : Precedence} {xs ys : Tokens} {left right : Expr} (span : Span) :
      op.precedence = p → ExprForm (.binary p) xs left → ExprForm (operandLevel p) ys right →
      ExprForm (.binary p) (xs ++ op.terminal.token span :: ys) (joined op left right)
  | access {ys : Tokens} {e : Expr} : ExprForm .access ys e → ExprForm .unary ys e
  | prefixed {op : UnaryOp} {ys : Tokens} {e : Expr} (span : Span) : ExprForm .unary ys e →
      ExprForm .unary (op.terminal.token span :: ys) (.unary (unchecked (span.merge e.span)) op e)
  | primary {ys : Tokens} {e : Expr} : ExprForm .primary ys e → ExprForm .access ys e
  | field {ys : Tokens} {record : Expr} (dot : Span) (name : Ident) : ExprForm .access ys record →
      ExprForm .access (ys ++ [Terminal.dot.token dot, name.token])
        (.field (unchecked (record.span.merge name.span)) record name)
  | number (value : Float) (span : Span) :
      ExprForm .primary [⟨.number value, span⟩] (.number (unchecked span) value)
  | string (value : String) (span : Span) :
      ExprForm .primary [⟨.string value, span⟩] (.string (unchecked span) value)
  | trueWord (span : Span) :
      ExprForm .primary [Terminal.trueWord.token span] (.boolean (unchecked span) true)
  | falseWord (span : Span) :
      ExprForm .primary [Terminal.falseWord.token span] (.boolean (unchecked span) false)
  | reference (name : Ident) :
      ExprForm .primary [name.token] (.reference (unchecked name.span) name.name none)
  | call {ys : Tokens} {args : List Expr} (name : Ident) (opening close : Span) :
      ArgumentsForm ys args →
      ExprForm .primary
        (name.token :: Terminal.leftParen.token opening ::
          (ys ++ [Terminal.rightParen.token close]))
        (.call (unchecked (name.span.merge close)) name args none)
  | parentheses {ys : Tokens} {e : Expr} (opening close : Span) : ExprForm .loosest ys e →
      ExprForm .primary
        (Terminal.leftParen.token opening :: (ys ++ [Terminal.rightParen.token close]))
        (e.withSpan (opening.merge close))

/-- The arguments of a call, parted by commas. -/
inductive ArgumentsForm : Tokens → List Expr → Prop where
  | none : ArgumentsForm [] []
  | some {xs ys : Tokens} {e : Expr} {es : List Expr} : ExprForm .loosest xs e → FurtherForm ys es →
      ArgumentsForm (xs ++ ys) (e :: es)

/-- Further arguments, each behind a comma. -/
inductive FurtherForm : Tokens → List Expr → Prop where
  | nil : FurtherForm [] []
  | cons {xs ys : Tokens} {e : Expr} {es : List Expr} (comma : Span) : ExprForm .loosest xs e →
      FurtherForm ys es →
      FurtherForm (Terminal.comma.token comma :: (xs ++ ys)) (e :: es)

end

/-- Whole expressions. -/
abbrev ExpressionForm : Tokens → Expr → Prop := ExprForm .loosest

/-! ## Statements -/

/-- A colon and a type name, or nothing. -/
inductive AnnotationForm : Tokens → Option Ident → Prop where
  | absent : AnnotationForm [] none
  | present (colon : Span) (name : Ident) :
      AnnotationForm [Terminal.colon.token colon, name.token] (some name)

mutual

/-- The statements. -/
inductive StmtForm : Tokens → Stmt → Prop where
  | expression {ys : Tokens} {e : Expr} : ExpressionForm ys e → StmtForm ys (.expr e)
  | declaration {xs ys : Tokens} {typeName : Option Ident} {value : Expr} (start sign : Span)
      (name : Ident) :
      AnnotationForm xs typeName → ExpressionForm ys value →
      StmtForm (Terminal.varWord.token start :: name.token ::
        (xs ++ Terminal.assign.token sign :: ys))
        (.var ⟨name, typeName, value, none, none, start.merge value.span⟩)
  /-- The target is any expression that comes out as a variable or a field. -/
  | assignment {xs ys : Tokens} {target value : Expr} (sign : Span) : ExpressionForm xs target →
      target.isAssignable = true → ExpressionForm ys value →
      StmtForm (xs ++ Terminal.assign.token sign :: ys)
        (.assign target value (target.span.merge value.span))
  | conditional {ys : Tokens} {s : Stmt} (start : Span) : ConditionalForm start ys s →
      StmtForm (Terminal.ifWord.token start :: ys) s
  | whileLoop {xs ys : Tokens} {condition : Expr} {body : List Stmt} (start sign stop : Span) :
      ExpressionForm xs condition → BlockForm ys body →
      StmtForm (Terminal.whileWord.token start ::
          (xs ++ Terminal.doWord.token sign :: (ys ++ [Terminal.endWord.token stop])))
        (.whileLoop condition body (start.merge stop))
  | repeatLoop {xs ys : Tokens} {count : Expr} {body : List Stmt} (start sign stop : Span) :
      ExpressionForm xs count → BlockForm ys body →
      StmtForm (Terminal.repeatWord.token start ::
          (xs ++ Terminal.timesWord.token sign :: (ys ++ [Terminal.endWord.token stop])))
        (.repeatLoop count body (start.merge stop))
  | returnNothing (start : Span) : StmtForm [Terminal.returnWord.token start] (.ret none start)
  | returnValue {ys : Tokens} {value : Expr} (start : Span) : ExpressionForm ys value →
      StmtForm (Terminal.returnWord.token start :: ys) (.ret (some value) (start.merge value.span))
  | breakLoop (span : Span) : StmtForm [Terminal.breakWord.token span] (.breakLoop span)
  | continueLoop (span : Span) : StmtForm [Terminal.continueWord.token span] (.continueLoop span)
  | comment (text : String) (span : Span) : StmtForm [⟨.comment text, span⟩] (.comment text span)

/-- What stands behind the keyword of a conditional, which begins at the span. -/
inductive ConditionalForm : Span → Tokens → Stmt → Prop where
  | plain {start : Span} {xs ys : Tokens} {condition : Expr} {thenBlock : List Stmt}
      (sign stop : Span) :
      ExpressionForm xs condition → BlockForm ys thenBlock →
      ConditionalForm start
        (xs ++ Terminal.thenWord.token sign :: (ys ++ [Terminal.endWord.token stop]))
        (.cond condition thenBlock [] (start.merge stop))
  | otherwise {start : Span} {xs ys zs : Tokens} {condition : Expr}
      {thenBlock elseBlock : List Stmt}
      (sign keyword stop : Span) : ExpressionForm xs condition → BlockForm ys thenBlock →
      BlockForm zs elseBlock →
      ConditionalForm start
        (xs ++ Terminal.thenWord.token sign ::
          (ys ++ Terminal.elseWord.token keyword :: (zs ++ [Terminal.endWord.token stop])))
        (.cond condition thenBlock elseBlock (start.merge stop))
  | chained {start : Span} {xs ys zs : Tokens} {condition : Expr} {thenBlock : List Stmt}
      {nested : Stmt}
      (sign keyword : Span) : ExpressionForm xs condition → BlockForm ys thenBlock →
      ConditionalForm keyword zs nested →
      ConditionalForm start
        (xs ++ Terminal.thenWord.token sign :: (ys ++ Terminal.elseifWord.token keyword :: zs))
        (.cond condition thenBlock [nested] (start.merge nested.span))

/-- Statements in a row. -/
inductive BlockForm : Tokens → List Stmt → Prop where
  | nil : BlockForm [] []
  | cons {xs ys : Tokens} {s : Stmt} {rest : List Stmt} : StmtForm xs s → BlockForm ys rest →
      BlockForm (xs ++ ys) (s :: rest)

end

/-! ## Declarations -/

/-- Any number of things of a form in a row. -/
inductive Star {α : Type} (form : Tokens → α → Prop) : Tokens → List α → Prop where
  | nil : Star form [] []
  | cons {xs ys : Tokens} {a : α} {as : List α} : form xs a → Star form ys as →
      Star form (xs ++ ys) (a :: as)

/-- The fields of records. -/
inductive FieldForm : Tokens → FieldDecl → Prop where
  | field (name : Ident) (colon : Span) (typeName : Ident) :
      FieldForm [name.token, Terminal.colon.token colon, typeName.token] ⟨name, typeName, none⟩

/-- The declarations of records. -/
inductive RecordForm : Tokens → RecordDecl → Prop where
  | record {ys : Tokens} {fields : List FieldDecl} (start stop : Span) (name : Ident) :
      Star FieldForm ys fields →
      RecordForm
        (Terminal.recordWord.token start :: name.token :: (ys ++ [Terminal.endWord.token stop]))
        ⟨name, fields, start.merge stop⟩

/-- The parameters of functions. -/
inductive ParamForm : Tokens → Param → Prop where
  | param (name : Ident) (colon : Span) (typeName : Ident) :
      ParamForm [name.token, Terminal.colon.token colon, typeName.token]
        ⟨name, typeName, none, none⟩

/-- A comma and something of a form. -/
inductive BehindComma {α : Type} (form : Tokens → α → Prop) : Tokens → α → Prop where
  | behind {ys : Tokens} {a : α} (comma : Span) : form ys a →
      BehindComma form (Terminal.comma.token comma :: ys) a

/-- The parameters of a function, parted by commas. -/
inductive ParamsForm : Tokens → List Param → Prop where
  | none : ParamsForm [] []
  | some {xs ys : Tokens} {p : Param} {ps : List Param} : ParamForm xs p →
      Star (BehindComma ParamForm) ys ps →
      ParamsForm (xs ++ ys) (p :: ps)

/-- The declarations of functions. -/
inductive FunctionForm : Tokens → FunctionDecl → Prop where
  | function {xs ys zs : Tokens} {params : List Param} {typeName : Option Ident} {body : List Stmt}
      (start opening close stop : Span) (name : Ident) :
      ParamsForm xs params → AnnotationForm ys typeName → BlockForm zs body →
      FunctionForm
        (Terminal.funWord.token start :: name.token :: Terminal.leftParen.token opening ::
          (xs ++ Terminal.rightParen.token close :: (ys ++ (zs ++ [Terminal.endWord.token stop]))))
        ⟨name, params, typeName, none, body, start.merge stop⟩

/-! ## Programs -/

/-- What a program consists of. -/
inductive Item where
  | record (d : RecordDecl)
  | function (d : FunctionDecl)
  | stmt (s : Stmt)

/-- The parts of programs. -/
inductive ItemForm : Tokens → Item → Prop where
  | record {ys : Tokens} {d : RecordDecl} : RecordForm ys d → ItemForm ys (.record d)
  | function {ys : Tokens} {d : FunctionDecl} : FunctionForm ys d → ItemForm ys (.function d)
  | stmt {ys : Tokens} {s : Stmt} : StmtForm ys s → ItemForm ys (.stmt s)

namespace Item

/-- The record that a part of a program declares. -/
def record? : Item → Option RecordDecl
  | record d => some d
  | _ => none

/-- The function that a part of a program declares. -/
def function? : Item → Option FunctionDecl
  | function d => some d
  | _ => none

/-- The statement that a part of a program is. -/
def stmt? : Item → Option Stmt
  | stmt s => some s
  | _ => none

end Item

end Grammar

open Grammar (Item)

/-- The program of these parts: its records, functions and statements are each in the order of the
parts. -/
def Program.ofItems (items : List Item) : Program :=
  ⟨items.filterMap Item.record?, items.filterMap Item.function?, items.filterMap Item.stmt?⟩

/-! ## Comments -/

mutual

/-- The comments among a statement and those in it, in their order, as the tokens that they are. -/
def Stmt.comments : Stmt → Tokens
  | .comment text span => [⟨.comment text, span⟩]
  | .cond _ thenBlock elseBlock _ => Stmt.allComments thenBlock ++ Stmt.allComments elseBlock
  | .whileLoop _ body _ | .repeatLoop _ body _ => Stmt.allComments body
  | .expr _ | .var _ | .assign .. | .ret .. | .breakLoop _ | .continueLoop _ => []

/-- The comments among statements and those in them. -/
def Stmt.allComments : List Stmt → Tokens
  | [] => []
  | s :: rest => s.comments ++ Stmt.allComments rest

end

/-- The comments of a part of a program. -/
def Grammar.Item.comments : Item → Tokens
  | .record _ => []
  | .function d => Stmt.allComments d.body
  | .stmt s => s.comments

/-- The comments of a program: those of its functions and those outside of them. -/
def Program.comments (p : Program) : Tokens :=
  p.functions.flatMap (fun d => Stmt.allComments d.body) ++ Stmt.allComments p.main

end Stepwise
