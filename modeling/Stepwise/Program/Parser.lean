import Stepwise.Diagnostic
import Stepwise.Program.Tree

/-!
# Reading programs

Programs are read from their tokens by recursive descent with one token of look-ahead. Every reading
function takes the tokens ahead and returns what it read with the tokens behind it; the type of the
result, `Parsed`, says that these are fewer, which is why reading ends.

Comments are statements where a statement may start, and are passed over everywhere else.

* `expression` reads an expression; the levels of binary operators are the values of `Precedence`.
* `statement` and `block` read statements.
* `Program.ofTokens` reads a whole program.
-/

set_option autoImplicit false

namespace Stepwise

namespace Parser

/-! ## Looking at the next token -/

/-- The tokens ahead. The end of the input is the end of the list. -/
abbrev Tokens := List SourceToken

/-- Something read, and the tokens behind it, which are fewer than the bound. -/
structure Parsed (α : Type) (bound : Nat) where
  value : α
  rest : Tokens
  shorter : rest.length < bound

namespace Parsed

variable {α β : Type} {m n : Nat}

/-- The same reading under a larger bound. -/
def widen (h : m ≤ n) (p : Parsed α m) : Parsed α n :=
  ⟨p.value, p.rest, Nat.lt_of_lt_of_le p.shorter h⟩

/-- The same reading with something else made of what was read. -/
def map (f : α → β) (p : Parsed α m) : Parsed β m := ⟨f p.value, p.rest, p.shorter⟩

end Parsed

/-- The next token that is no comment. -/
def next? : (ts : Tokens) → Option (Parsed SourceToken ts.length)
  | [] => none
  | t :: rest =>
    if t.token.isComment then (next? rest).map (·.widen (Nat.le_succ _)) else
      some ⟨t, rest, Nat.lt_succ_self _⟩

/-- The next token that is no comment, or else the end of the input. -/
def look (fin : SourceToken) (ts : Tokens) : SourceToken := ((next? ts).map (·.value)).getD fin

/-- The next token if it is a terminal. -/
def nextTerminal? (ts : Tokens) : Option (Parsed (Terminal × Span) ts.length) :=
  match next? ts with
  | some ⟨⟨.terminal t, span⟩, rest, h⟩ => some ⟨(t, span), rest, h⟩
  | _ => none

/-- The next token if it is this terminal. -/
def accept? (t : Terminal) (ts : Tokens) : Option (Parsed Span ts.length) :=
  match nextTerminal? ts with
  | some p => if p.value.1 = t then some (p.map (·.2)) else none
  | none => none

/-- Reads a terminal. -/
def expect (fin : SourceToken) (t : Terminal) (ts : Tokens) : Diagnosed (Parsed Span ts.length) :=
  match accept? t ts with
  | some p => .ok p
  | none => failAt (look fin ts).span (.expectedTerminal t (look fin ts).token)

/-- Reads an identifier. -/
def identifier (fin : SourceToken) (ts : Tokens) : Diagnosed (Parsed Ident ts.length) :=
  match next? ts with
  | some ⟨⟨.identifier name, span⟩, rest, h⟩ => .ok ⟨⟨name, span⟩, rest, h⟩
  | _ => failAt (look fin ts).span (.expectedIdentifier (look fin ts).token)

/-! ## Expressions -/

/-- The levels of binary operators, the loosest first. -/
inductive Precedence where
  | logical
  | relational
  | additive
  | multiplicative
  deriving Repr, DecidableEq

namespace Precedence

/-- How many levels bind tighter. -/
def rank : Precedence → Nat
  | logical => 3
  | relational => 2
  | additive => 1
  | multiplicative => 0

/-- The next tighter level; none behind the tightest. -/
def tighter? : Precedence → Option Precedence
  | logical => some relational
  | relational => some additive
  | additive => some multiplicative
  | multiplicative => none

theorem rank_lt_of_tighter {p q : Precedence} (h : p.tighter? = some q) : q.rank < p.rank := by
  cases p <;> cases h <;> decide

/-- The operator of a level that a terminal stands for. -/
def operator? : Precedence → Terminal → Option BinaryOp
  | logical, .andWord => some .and
  | logical, .orWord => some .or
  | logical, .xorWord => some .xor
  | relational, .less => some .less
  | relational, .lessEqual => some .lessEqual
  | relational, .greater => some .greater
  | relational, .greaterEqual => some .greaterEqual
  | relational, .equals => some .equal
  | relational, .notEquals => some .notEqual
  | additive, .plus => some .add
  | additive, .minus => some .subtract
  | additive, .dots => some .concat
  | multiplicative, .star => some .multiply
  | multiplicative, .slash => some .divide
  | _, _ => none

end Precedence

/-- The operator of a level that comes next, with the tokens behind it. -/
def nextOperator? (p : Precedence) (ts : Tokens) : Option (Parsed BinaryOp ts.length) :=
  match nextTerminal? ts with
  | some t => (p.operator? t.value.1).map fun op => t.map fun _ => op
  | none => none

/-- The unary operator that a terminal stands for. -/
def unaryOperator? : Terminal → Option UnaryOp
  | .minus => some .negate
  | .notWord => some .not
  | _ => none

/-- The unary operator that comes next, with its span. -/
def nextUnary? (ts : Tokens) : Option (Parsed (UnaryOp × Span) ts.length) :=
  match nextTerminal? ts with
  | some t => (unaryOperator? t.value.1).map fun op => t.map fun v => (op, v.2)
  | none => none

/-- Whether a token may start an expression. -/
def startsExpression : Token → Bool
  | .number _ | .string _ | .identifier _ => true
  | .terminal t =>
    t == .trueWord || t == .falseWord || t == .leftParen || t == .minus || t == .notWord
  | .comment _ | .endOfInput => false

/-- What is known of an expression before checking. -/
def unchecked (span : Span) : ExprInfo := ⟨span, none⟩

/-- A binary operation, from the start of its left to the end of its right operand. -/
def joined (op : BinaryOp) (left right : Expr) : Expr :=
  .binary (unchecked (left.span.merge right.span)) op left right

/-- The field names behind an expression, each behind a dot. -/
def fieldsBehind (fin : SourceToken) (record : Expr) (ts : Tokens) :
    Diagnosed (Parsed Expr (ts.length + 1)) :=
  match accept? .dot ts with
  | none => .ok ⟨record, ts, Nat.lt_succ_self _⟩
  | some dot => do
    let name ← identifier fin dot.rest
    have hd := dot.shorter
    have hn := name.shorter
    let all ← fieldsBehind fin
      (.field (unchecked (record.span.merge name.value.span)) record name.value) name.rest
    return all.widen (by omega)
termination_by ts.length

mutual

/-- Reads an expression of a level of binary operators. -/
def binary (fin : SourceToken) (p : Precedence) (ts : Tokens) :
    Diagnosed (Parsed Expr ts.length) := do
  let left ← operand fin p ts
  have hl := left.shorter
  let whole ← binaryBehind fin p left.value left.rest
  return whole.widen (by omega)
termination_by 16 * ts.length + 2 * p.rank + 4

/-- Reads the operators of a level behind a left operand, from left to right. -/
def binaryBehind (fin : SourceToken) (p : Precedence) (left : Expr) (ts : Tokens) :
    Diagnosed (Parsed Expr (ts.length + 1)) :=
  match nextOperator? p ts with
  | none => .ok ⟨left, ts, Nat.lt_succ_self _⟩
  | some op => do
    have ho := op.shorter
    let right ← operand fin p op.rest
    have hr := right.shorter
    let whole ← binaryBehind fin p (joined op.value left right.value) right.rest
    return whole.widen (by omega)
termination_by 16 * ts.length + 2 * p.rank + 3

/-- Reads an operand of a level: an expression of the next tighter level. -/
def operand (fin : SourceToken) (p : Precedence) (ts : Tokens) :
    Diagnosed (Parsed Expr ts.length) :=
  match h : p.tighter? with
  | some q =>
    have := Precedence.rank_lt_of_tighter h
    binary fin q ts
  | none => unary fin ts
termination_by 16 * ts.length + 2 * p.rank + 3

/-- Reads an expression with unary operators in front. -/
def unary (fin : SourceToken) (ts : Tokens) : Diagnosed (Parsed Expr ts.length) :=
  match nextUnary? ts with
  | some op => do
    have ho := op.shorter
    let inner ← unary fin op.rest
    have hi := inner.shorter
    return ⟨.unary (unchecked (op.value.2.merge inner.value.span)) op.value.1 inner.value,
      inner.rest, by omega⟩
  | none => do
    let record ← primary fin ts
    have hr := record.shorter
    let whole ← fieldsBehind fin record.value record.rest
    return whole.widen (by omega)
termination_by 16 * ts.length + 2

/-- Reads a literal, a variable, a call or an expression in parentheses. -/
def primary (fin : SourceToken) (ts : Tokens) : Diagnosed (Parsed Expr ts.length) :=
  match next? ts with
  | some ⟨⟨.number v, span⟩, rest, h⟩ => .ok ⟨.number (unchecked span) v, rest, h⟩
  | some ⟨⟨.string s, span⟩, rest, h⟩ => .ok ⟨.string (unchecked span) s, rest, h⟩
  | some ⟨⟨.terminal .trueWord, span⟩, rest, h⟩ => .ok ⟨.boolean (unchecked span) true, rest, h⟩
  | some ⟨⟨.terminal .falseWord, span⟩, rest, h⟩ => .ok ⟨.boolean (unchecked span) false, rest, h⟩
  | some ⟨⟨.terminal .leftParen, span⟩, rest, h⟩ => do
    let inner ← binary fin .logical rest
    have hi := inner.shorter
    let close ← expect fin .rightParen inner.rest
    have hc := close.shorter
    return ⟨inner.value.withSpan (span.merge close.value), close.rest, by omega⟩
  | some ⟨⟨.identifier name, span⟩, rest, h⟩ =>
    match accept? .leftParen rest with
    | none => .ok ⟨.reference (unchecked span) name none, rest, h⟩
    | some paren => do
      have hp := paren.shorter
      let args ← arguments fin paren.rest
      have ha := args.shorter
      return ⟨.call (unchecked (span.merge args.value.2)) ⟨name, span⟩ args.value.1 none, args.rest,
        by omega⟩
  | _ => failAt (look fin ts).span (.expectedExpression (look fin ts).token)
termination_by 16 * ts.length + 1
decreasing_by
  all_goals
    have : Precedence.logical.rank = 3 := rfl
    omega

/-- Reads the arguments of a call behind its opening parenthesis, and the closing one. -/
def arguments (fin : SourceToken) (ts : Tokens) : Diagnosed (Parsed (List Expr × Span) ts.length) :=
  match accept? .rightParen ts with
  | some close => .ok (close.map fun span => ([], span))
  | none => do
    let first ← binary fin .logical ts
    have hf := first.shorter
    let others ← argumentsBehind fin first.rest
    have ho := others.shorter
    return ⟨(first.value :: others.value.1, others.value.2), others.rest, by omega⟩
termination_by 16 * ts.length + 11
decreasing_by
  all_goals
    have : Precedence.logical.rank = 3 := rfl
    omega

/-- Reads the further arguments of a call, each behind a comma, and the closing parenthesis. -/
def argumentsBehind (fin : SourceToken) (ts : Tokens) :
    Diagnosed (Parsed (List Expr × Span) ts.length) :=
  match accept? .comma ts with
  | none => do
    let close ← expect fin .rightParen ts
    return close.map fun span => ([], span)
  | some comma => do
    have hc := comma.shorter
    let first ← binary fin .logical comma.rest
    have hf := first.shorter
    let others ← argumentsBehind fin first.rest
    have ho := others.shorter
    return ⟨(first.value :: others.value.1, others.value.2), others.rest, by omega⟩
termination_by 16 * ts.length
decreasing_by
  all_goals
    have : Precedence.logical.rank = 3 := rfl
    omega

end

/-- Reads an expression. -/
def expression (fin : SourceToken) (ts : Tokens) : Diagnosed (Parsed Expr ts.length) :=
  binary fin .logical ts

/-! ## Statements -/

/-- Reads a colon and a type name, if a colon comes next. -/
def typeAnnotation (fin : SourceToken) (ts : Tokens) :
    Diagnosed (Parsed (Option Ident) (ts.length + 1)) :=
  match accept? .colon ts with
  | none => .ok ⟨none, ts, Nat.lt_succ_self _⟩
  | some colon => do
    have hc := colon.shorter
    let name ← identifier fin colon.rest
    have hn := name.shorter
    return ⟨some name.value, name.rest, by omega⟩

/-- Reads the declaration of a variable behind its keyword. -/
def variableBehind (fin : SourceToken) (start : Span) (ts : Tokens) :
    Diagnosed (Parsed Stmt ts.length) := do
  let name ← identifier fin ts
  have hn := name.shorter
  let typeName ← typeAnnotation fin name.rest
  have ht := typeName.shorter
  let sign ← expect fin .assign typeName.rest
  have hs := sign.shorter
  let value ← expression fin sign.rest
  have hv := value.shorter
  return ⟨.var ⟨name.value, typeName.value, value.value, none, none, start.merge value.value.span⟩,
    value.rest, by omega⟩

/-- Reads the value of a `return`, which is there if the next token may start an expression. -/
def returnBehind (fin : SourceToken) (start : Span) (ts : Tokens) :
    Diagnosed (Parsed Stmt (ts.length + 1)) :=
  if startsExpression (look fin ts).token then do
    let value ← expression fin ts
    have hv := value.shorter
    return ⟨.ret (some value.value) (start.merge value.value.span), value.rest, by omega⟩
  else .ok ⟨.ret none start, ts, Nat.lt_succ_self _⟩

/-- Reads an expression statement or an assignment. -/
def expressionOrAssignment (fin : SourceToken) (ts : Tokens) : Diagnosed (Parsed Stmt ts.length) :=
  if startsExpression (look fin ts).token then do
    let target ← expression fin ts
    have ht := target.shorter
    match accept? .assign target.rest with
    | none => return target.map .expr
    | some sign =>
      if target.value.isAssignable then
        have hs := sign.shorter
        let value ← expression fin sign.rest
        have hv := value.shorter
        return ⟨.assign target.value value.value (target.value.span.merge value.value.span),
          value.rest, by omega⟩
      else failAt target.value.span .notAssignable
  else failAt (look fin ts).span (.expectedStatement (look fin ts).token)

/-- Whether a block ends before this token. -/
def endsBlock : Token → Bool
  | .terminal t => t == .endWord || t == .elseWord || t == .elseifWord
  | .endOfInput => true
  | _ => false

mutual

/-- Reads statements up to the end of their block, which is left ahead. -/
def block (fin : SourceToken) (ts : Tokens) : Diagnosed (Parsed (List Stmt) (ts.length + 1)) :=
  match ts with
  | ⟨.comment text, span⟩ :: rest => do
    let others ← block fin rest
    return (others.map (.comment text span :: ·)).widen (Nat.succ_le_succ (Nat.le_succ _))
  | ts =>
    if endsBlock (look fin ts).token then .ok ⟨[], ts, Nat.lt_succ_self _⟩
    else do
      let first ← statement fin ts
      have hf := first.shorter
      let others ← block fin first.rest
      return (others.map (first.value :: ·)).widen (Nat.succ_le_succ (Nat.le_of_lt hf))
termination_by 2 * ts.length + 1

/-- Reads a statement that is no comment. -/
def statement (fin : SourceToken) (ts : Tokens) : Diagnosed (Parsed Stmt ts.length) :=
  match nextTerminal? ts with
  | some ⟨(.varWord, start), rest, h⟩ => do
    let decl ← variableBehind fin start rest
    return decl.widen (by omega)
  | some ⟨(.ifWord, start), rest, h⟩ => do
    let cond ← conditional fin start rest
    return cond.widen (by omega)
  | some ⟨(.whileWord, start), rest, h⟩ => do
    let condition ← expression fin rest
    have hc := condition.shorter
    let sign ← expect fin .doWord condition.rest
    have hs := sign.shorter
    let body ← block fin sign.rest
    have hb := body.shorter
    let stop ← expect fin .endWord body.rest
    have he := stop.shorter
    return ⟨.whileLoop condition.value body.value (start.merge stop.value), stop.rest, by omega⟩
  | some ⟨(.repeatWord, start), rest, h⟩ => do
    let count ← expression fin rest
    have hc := count.shorter
    let sign ← expect fin .timesWord count.rest
    have hs := sign.shorter
    let body ← block fin sign.rest
    have hb := body.shorter
    let stop ← expect fin .endWord body.rest
    have he := stop.shorter
    return ⟨.repeatLoop count.value body.value (start.merge stop.value), stop.rest, by omega⟩
  | some ⟨(.returnWord, start), rest, h⟩ => do
    let ret ← returnBehind fin start rest
    return ret.widen (by omega)
  | some ⟨(.breakWord, span), rest, h⟩ => .ok ⟨.breakLoop span, rest, h⟩
  | some ⟨(.continueWord, span), rest, h⟩ => .ok ⟨.continueLoop span, rest, h⟩
  | some ⟨(.funWord, span), _, _⟩ => failAt span (.nestedDeclaration (.terminal .funWord))
  | some ⟨(.recordWord, span), _, _⟩ => failAt span (.nestedDeclaration (.terminal .recordWord))
  | _ => expressionOrAssignment fin ts
termination_by 2 * ts.length

/-- Reads an `if` or `elseif` behind its keyword. An `elseif` is a conditional in the other's
alternative and shares its `end`. -/
def conditional (fin : SourceToken) (start : Span) (ts : Tokens) :
    Diagnosed (Parsed Stmt ts.length) := do
  let condition ← expression fin ts
  have hc := condition.shorter
  let sign ← expect fin .thenWord condition.rest
  have hs := sign.shorter
  let thenBlock ← block fin sign.rest
  have ht := thenBlock.shorter
  match accept? .elseifWord thenBlock.rest with
  | some keyword =>
    have hk := keyword.shorter
    let nested ← conditional fin keyword.value keyword.rest
    have hn := nested.shorter
    return ⟨.cond condition.value thenBlock.value [nested.value] (start.merge nested.value.span),
      nested.rest, by omega⟩
  | none =>
    match accept? .elseWord thenBlock.rest with
    | some keyword =>
      have hk := keyword.shorter
      let elseBlock ← block fin keyword.rest
      have hb := elseBlock.shorter
      let stop ← expect fin .endWord elseBlock.rest
      have he := stop.shorter
      return ⟨.cond condition.value thenBlock.value elseBlock.value (start.merge stop.value),
        stop.rest, by omega⟩
    | none =>
      let stop ← expect fin .endWord thenBlock.rest
      have he := stop.shorter
      return ⟨.cond condition.value thenBlock.value [] (start.merge stop.value), stop.rest,
        by omega⟩
termination_by 2 * ts.length

end

/-! ## Declarations -/

/-- Reads the fields of a record. -/
def fields (fin : SourceToken) (ts : Tokens) :
    Diagnosed (Parsed (List FieldDecl) (ts.length + 1)) :=
  match next? ts with
  | some ⟨⟨.identifier name, span⟩, rest, h⟩ => do
    let colon ← expect fin .colon rest
    have hc := colon.shorter
    let typeName ← identifier fin colon.rest
    have ht := typeName.shorter
    let others ← fields fin typeName.rest
    return (others.map (⟨⟨name, span⟩, typeName.value, none⟩ :: ·)).widen (by omega)
  | _ => .ok ⟨[], ts, Nat.lt_succ_self _⟩
termination_by ts.length

/-- Reads a record behind its keyword. -/
def recordBehind (fin : SourceToken) (start : Span) (ts : Tokens) :
    Diagnosed (Parsed RecordDecl ts.length) := do
  let name ← identifier fin ts
  have hn := name.shorter
  let all ← fields fin name.rest
  have hf := all.shorter
  let stop ← expect fin .endWord all.rest
  have hs := stop.shorter
  return ⟨⟨name.value, all.value, start.merge stop.value⟩, stop.rest, by omega⟩

/-- Reads a parameter. -/
def parameter (fin : SourceToken) (ts : Tokens) : Diagnosed (Parsed Param ts.length) := do
  let name ← identifier fin ts
  have hn := name.shorter
  let colon ← expect fin .colon name.rest
  have hc := colon.shorter
  let typeName ← identifier fin colon.rest
  have ht := typeName.shorter
  return ⟨⟨name.value, typeName.value, none, none⟩, typeName.rest, by omega⟩

/-- Reads further parameters, each behind a comma. -/
def parametersBehind (fin : SourceToken) (ts : Tokens) :
    Diagnosed (Parsed (List Param) (ts.length + 1)) :=
  match accept? .comma ts with
  | none => .ok ⟨[], ts, Nat.lt_succ_self _⟩
  | some comma => do
    have hc := comma.shorter
    let first ← parameter fin comma.rest
    have hf := first.shorter
    let others ← parametersBehind fin first.rest
    return (others.map (first.value :: ·)).widen (by omega)
termination_by ts.length

/-- Reads parameters up to the closing parenthesis, which is left ahead. -/
def parameters (fin : SourceToken) (ts : Tokens) :
    Diagnosed (Parsed (List Param) (ts.length + 1)) :=
  match accept? .rightParen ts with
  | some _ => .ok ⟨[], ts, Nat.lt_succ_self _⟩
  | none => do
    let first ← parameter fin ts
    have hf := first.shorter
    let others ← parametersBehind fin first.rest
    return (others.map (first.value :: ·)).widen (by omega)

/-- Reads a function behind its keyword. -/
def functionBehind (fin : SourceToken) (start : Span) (ts : Tokens) :
    Diagnosed (Parsed FunctionDecl ts.length) := do
  let name ← identifier fin ts
  have hn := name.shorter
  let open_ ← expect fin .leftParen name.rest
  have ho := open_.shorter
  let params ← parameters fin open_.rest
  have hp := params.shorter
  let close ← expect fin .rightParen params.rest
  have hc := close.shorter
  let typeName ← typeAnnotation fin close.rest
  have ht := typeName.shorter
  let body ← block fin typeName.rest
  have hb := body.shorter
  let stop ← expect fin .endWord body.rest
  have hs := stop.shorter
  return ⟨⟨name.value, params.value, typeName.value, none, body.value, start.merge stop.value⟩,
    stop.rest, by omega⟩

/-- Reads the declarations and statements of a program. -/
def program (fin : SourceToken) (ts : Tokens) : Diagnosed Program :=
  match ts with
  | ⟨.comment text, span⟩ :: rest => do
    let p ← program fin rest
    return { p with main := .comment text span :: p.main }
  | ts =>
    match next? ts with
    | none => .ok ⟨[], [], []⟩
    | some ⟨⟨.terminal .funWord, span⟩, rest, h⟩ => do
      let f ← functionBehind fin span rest
      have : f.rest.length < ts.length := Nat.lt_trans f.shorter h
      let p ← program fin f.rest
      return { p with functions := f.value :: p.functions }
    | some ⟨⟨.terminal .recordWord, span⟩, rest, h⟩ => do
      let r ← recordBehind fin span rest
      have : r.rest.length < ts.length := Nat.lt_trans r.shorter h
      let p ← program fin r.rest
      return { p with records := r.value :: p.records }
    | some _ => do
      let s ← statement fin ts
      have : s.rest.length < ts.length := s.shorter
      let p ← program fin s.rest
      return { p with main := s.value :: p.main }
termination_by ts.length

end Parser

/-- The token that stands for the end of a list of tokens that lacks one: it is empty and lies
behind the last. -/
def endOf (ts : List SourceToken) : SourceToken :=
  ⟨.endOfInput, (ts.getLast?.map (·.span.atStop)).getD .origin⟩

/-- Reads a program from its tokens, up to the first end of input among them. -/
def Program.ofTokens (ts : List SourceToken) : Diagnosed Program :=
  let isEnd : SourceToken → Bool := fun t => t.token matches .endOfInput
  Parser.program ((ts.find? isEnd).getD (endOf ts)) (ts.takeWhile fun t => !isEnd t)

end Stepwise
