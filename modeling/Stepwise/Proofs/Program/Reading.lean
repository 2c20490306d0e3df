import Stepwise.Proofs.Diagnosed
import Stepwise.Proofs.Program.Grammar

/-!
# Derivations are read

The converse of deriving what was read, for expressions: tokens that the grammar derives an
expression from are read as this expression, in front of every token that cannot continue it, and
reading stops exactly before that token (`Grammar.ExprForm.expression_reads`).

The levels of binary operators are read by a loop and derived by recursion on the left. What is
shown of such a level is therefore that reading it does whatever the loop does behind the derived
expression (`Recognised`).
-/

set_option autoImplicit false

namespace Stepwise

open Grammar

namespace Parser

/-! ## Reading -/

variable {α β : Type} {m n : Nat}

/-- A reading function reads this and leaves these tokens. -/
def Reads (x : Diagnosed (Parsed α n)) (a : α) (rest : Tokens) : Prop := ∃ h, x = .ok ⟨a, rest, h⟩

theorem Reads.ok (p : Parsed α n) : Reads (.ok p) p.value p.rest := ⟨p.shorter, rfl⟩

theorem Reads.bind {x : Diagnosed (Parsed α m)} {f : Parsed α m → Diagnosed (Parsed β n)}
    {a : α} {b : β} {mid rest : Tokens} (hx : Reads x a mid)
    (hf : ∀ h, Reads (f ⟨a, mid, h⟩) b rest) : Reads (x >>= f) b rest := by
  obtain ⟨h, rfl⟩ := hx
  exact hf h

/-- What is made of the thing read. -/
theorem Reads.bind_pure {x : Diagnosed (Parsed α m)} {f : Parsed α m → Parsed β n} {a : α} {b : β}
    {mid rest : Tokens} (hx : Reads x a mid)
    (hf : ∀ h, (f ⟨a, mid, h⟩).value = b ∧ (f ⟨a, mid, h⟩).rest = rest) :
    Reads (x >>= fun p => pure (f p)) b rest :=
  hx.bind fun h => (hf h).1 ▸ (hf h).2 ▸ Reads.ok _

/-! ## Single tokens -/

variable {fin : SourceToken} {ts rest : Tokens}

theorem next?_cons {t : SourceToken} (h : t.token.isComment = false) :
    next? (t :: rest) = some ⟨t, rest, Nat.lt_succ_self _⟩ := by
  rw [next?, if_neg (by simp [h])]

theorem look_cons {t : SourceToken} (h : t.token.isComment = false) : look fin (t :: rest) = t := by
  rw [look, next?_cons h]
  rfl

theorem look_comment {c : SourceToken} (h : c.token.isComment = true) :
    look fin (c :: rest) = look fin rest := by
  rw [look, look, next?, if_pos h, Option.map_map]
  rfl

theorem look_eq {p : Parsed SourceToken ts.length} (h : next? ts = some p) :
    look fin ts = p.value := by
  rw [look, h]
  rfl

theorem nextTerminal?_cons (t : Terminal) (span : Span) :
    nextTerminal? (t.token span :: rest) = some ⟨(t, span), rest, Nat.lt_succ_self _⟩ := by
  rw [nextTerminal?, next?_cons rfl]
  rfl

/-- The next terminal is the next token. -/
theorem look_of_nextTerminal? {p : Parsed (Terminal × Span) ts.length}
    (h : nextTerminal? ts = some p) :
    (look fin ts).token = .terminal p.value.1 := by
  unfold nextTerminal? at h
  split at h
  · next hn =>
      cases h
      rw [look_eq hn]
  · cases h

theorem accept?_cons (t : Terminal) (span : Span) :
    accept? t (t.token span :: rest) = some ⟨span, rest, Nat.lt_succ_self _⟩ := by
  rw [accept?, nextTerminal?_cons]
  exact if_pos rfl

theorem accept?_cons_ne {t other : Terminal} (h : other ≠ t) (span : Span) :
    accept? t (other.token span :: rest) = none := by
  rw [accept?, nextTerminal?_cons]
  exact if_neg h

theorem accept?_eq_none {t : Terminal} (h : (look fin ts).token ≠ .terminal t) :
    accept? t ts = none := by
  unfold accept?
  split
  · next hn => exact if_neg fun ht => h (by rw [look_of_nextTerminal? hn, ht])
  · rfl

theorem expect_reads (t : Terminal) (span : Span) :
    Reads (expect fin t (t.token span :: rest)) span rest := by
  rw [expect, accept?_cons]
  exact Reads.ok _

theorem identifier_reads (name : Ident) :
    Reads (identifier fin (name.token :: rest)) name rest := by
  rw [identifier, next?_cons rfl]
  exact Reads.ok _

theorem nextOperator?_cons (op : BinaryOp) (span : Span) :
    nextOperator? op.precedence (op.terminal.token span :: rest) =
      some ⟨op, rest, Nat.lt_succ_self _⟩ := by
  have hop : op.precedence.operator? op.terminal = some op :=
    Precedence.operator?_eq_some.mpr ⟨rfl, rfl⟩
  simp only [nextOperator?, nextTerminal?_cons, hop]
  rfl

theorem nextOperator?_eq_none {p : Precedence}
    (h : ∀ op : BinaryOp, op.precedence = p → (look fin ts).token ≠ .terminal op.terminal) :
    nextOperator? p ts = none := by
  unfold nextOperator?
  split
  · next t hn =>
      refine Option.map_eq_none_iff.mpr (Option.eq_none_iff_forall_ne_some.mpr fun op hop => ?_)
      obtain ⟨hp, ht⟩ := Precedence.operator?_eq_some.mp hop
      exact h op hp (ht ▸ look_of_nextTerminal? hn)
  · rfl

theorem nextUnary?_cons (op : UnaryOp) (span : Span) :
    nextUnary? (op.terminal.token span :: rest) = some ⟨(op, span), rest, Nat.lt_succ_self _⟩ := by
  have hop : unaryOperator? op.terminal = some op := unaryOperator?_eq_some.mpr rfl
  simp only [nextUnary?, nextTerminal?_cons, hop]
  rfl

end Parser

namespace Grammar

open Stepwise.Parser

/-! ## What can continue an expression -/

/-- Whether the last token is the name of a variable: an identifier that is no field's. -/
def endsInName (ys : List Token) : Bool :=
  match ys.reverse with
  | .identifier _ :: before => !(before.head? matches some (.terminal .dot))
  | _ => false

/-- The last token decides, and the one before it. -/
theorem endsInName_append {xs ys : List Token} {t : Token} (hys : ys ≠ [])
    (ht : t ≠ .terminal .dot) :
    endsInName (xs ++ t :: ys) = endsInName ys := by
  obtain ⟨last, zs, hrev⟩ : ∃ last zs, ys.reverse = last :: zs :=
    List.exists_cons_of_ne_nil (by simpa using hys)
  simp only [endsInName, List.reverse_append, List.reverse_cons, List.append_assoc, hrev,
    List.cons_append]
  cases zs with
  | nil =>
      cases last <;> simp [ht]
  | cons z zs => cases last <;> rfl

theorem endsInName_cons {ys : List Token} {t : Token} (hys : ys ≠ []) (ht : t ≠ .terminal .dot) :
    endsInName (t :: ys) = endsInName ys :=
  List.nil_append (t :: ys) ▸ endsInName_append hys ht

/-- The operators that continue the expressions of a level. -/
def Level.admits : Level → BinaryOp → Prop
  | .binary p, op => op.precedence.rank ≤ p.rank
  | _, _ => False

/-- A token continues the expressions of a level that end as these tokens do: an opening parenthesis
behind the name of a variable, a dot, or a binary operator. -/
def Continues (level : Level) (ys : List Token) (t : Token) : Prop :=
  (t = .terminal .leftParen ∧ endsInName ys = true) ∨ (level ≠ .primary ∧ t = .terminal .dot) ∨
    ∃ op : BinaryOp, t = .terminal op.terminal ∧ level.admits op

theorem admits_binary {p : Precedence} {op : BinaryOp} :
    (Level.binary p).admits op ↔ op.precedence = p ∨ (operandLevel p).admits op := by
  cases p <;> cases op <;> simp [Level.admits, operandLevel, Precedence.tighter?,
    BinaryOp.precedence, Precedence.rank]

/-- What continues an operand of a level, or is an operator of the level, continues the level. -/
theorem continues_binary {p : Precedence} {ys : List Token} {t : Token} :
    Continues (.binary p) ys t ↔
      Continues (operandLevel p) ys t ∨ ∃ op : BinaryOp, t = .terminal op.terminal ∧
      op.precedence = p := by
  have hlevel : operandLevel p ≠ .primary := by cases p <;> nofun
  simp only [Continues, admits_binary]
  grind

/-- An operator of a level does not continue its operands. -/
theorem not_continues_operator {op : BinaryOp} {ys : List Token} :
    ¬Continues (operandLevel op.precedence) ys (.terminal op.terminal) := by
  rintro (⟨ht, -⟩ | ⟨-, ht⟩ | ⟨other, ht, hadmits⟩)
  · cases op <;> cases ht
  · cases op <;> cases ht
  · cases BinaryOp.terminal_injective (Token.terminal.inj ht)
    cases op <;> simp [Level.admits, operandLevel, Precedence.tighter?, BinaryOp.precedence,
      Precedence.rank] at hadmits

/-- Whether a token continues any expression. -/
def mayContinue : Token → Bool
  | .terminal t => t == .leftParen || t == .dot ||
      [Precedence.logical, .relational, .additive, .multiplicative].any fun p =>
      (p.operator? t).isSome
  | _ => false

theorem not_continues {level : Level} {ys : List Token} {t : Token} (h : mayContinue t = false) :
    ¬Continues level ys t := by
  rintro (⟨rfl, -⟩ | ⟨-, rfl⟩ | ⟨op, rfl, -⟩)
  · cases h
  · cases h
  · cases op <;> cases h

/-- What continues a literal, a name, a call or parentheses continues every level. -/
theorem Continues.of_primary {level : Level} {ys : List Token} {t : Token}
    (h : Continues .primary ys t) :
    Continues level ys t := by
  obtain h | ⟨hlevel, -⟩ | ⟨op, -, hadmits⟩ := h
  · exact .inl h
  · exact absurd rfl hlevel
  · cases hadmits

/-- An expression begins with a token that may start one. -/
theorem ExprForm.starts : ∀ {level : Level} {ys : Tokens} {e : Expr}, ExprForm level ys e →
    ∃ t zs, ys = t :: zs ∧ startsExpression t.token = true
  | _, _, _, .operand h | _, _, _, .access h | _, _, _, .primary h => h.starts
  | _, _, _, .operation _ _ h _ => by
      obtain ⟨t, zs, rfl, ht⟩ := h.starts
      exact ⟨t, _, rfl, ht⟩
  | _, _, _, .field _ _ h => by
      obtain ⟨t, zs, rfl, ht⟩ := h.starts
      exact ⟨t, _, rfl, ht⟩
  | _, _, _, @ExprForm.prefixed op _ _ _ _ => ⟨_, _, rfl, by cases op <;> rfl⟩
  | _, _, _, .number .. | _, _, _, .string .. | _, _, _, .trueWord .. | _, _, _, .falseWord ..
  | _, _, _, .reference .. | _, _, _, .call .. | _, _, _, .parentheses .. => ⟨_, _, rfl, rfl⟩

/-- A token that may start an expression is no comment. -/
theorem isComment_of_startsExpression {t : Token} (h : startsExpression t = true) :
    t.isComment = false := by
  cases t with
  | comment text => cases h
  | _ => rfl

theorem ExprForm.ne_nil {level : Level} {ys : Tokens} {e : Expr} (h : ExprForm level ys e) :
    ys ≠ [] := by
  obtain ⟨t, zs, rfl, -⟩ := h.starts
  exact List.cons_ne_nil t zs

theorem ExprForm.look_starts {level : Level} {ys : Tokens} {e : Expr} (h : ExprForm level ys e)
    (fin : SourceToken) (rest : Tokens) :
    startsExpression (look fin (ys ++ rest)).token = true := by
  obtain ⟨t, zs, rfl, ht⟩ := h.starts
  rwa [List.cons_append, look_cons (isComment_of_startsExpression ht)]

/-- An expression does not begin with a terminal that starts none. -/
theorem ExprForm.accept?_eq_none {level : Level} {ys rest : Tokens} {e : Expr}
    (h : ExprForm level ys e) {t : Terminal} (ht : startsExpression (.terminal t) = false) :
    accept? t (ys ++ rest) = none := by
  have hlook : (look ⟨.endOfInput, .origin⟩ (ys ++ rest)).token ≠ .terminal t := by
    intro hlook
    have hstarts := h.look_starts ⟨.endOfInput, .origin⟩ rest
    rw [hlook, ht] at hstarts
    cases hstarts
  exact Parser.accept?_eq_none hlook

/-! ## Expressions -/

theorem fieldsBehind_done {fin : SourceToken} {record : Expr} {rest : Tokens}
    (h : (look fin rest).token ≠ .terminal .dot) :
    Reads (fieldsBehind fin record rest) record rest := by
  rw [fieldsBehind, Parser.accept?_eq_none h]
  exact Reads.ok _

theorem binaryBehind_done {fin : SourceToken} {p : Precedence} {left : Expr} {rest : Tokens}
    (h : ∀ op : BinaryOp, op.precedence = p → (look fin rest).token ≠ .terminal op.terminal) :
    Reads (binaryBehind fin p left rest) left rest := by
  rw [binaryBehind, nextOperator?_eq_none h]
  exact Reads.ok _

/-- What reading a level does on an expression of it, in front of what does not continue the part
that is read first: the loops of a level go on behind the expression. -/
def Recognised (fin : SourceToken) (ys : Tokens) (e : Expr) : Level → Prop
  | .binary p => ∀ rest, ¬Continues (operandLevel p) (ys.map (·.token)) (look fin rest).token →
      ∀ a left, Reads (binaryBehind fin p e rest) a left → Reads (binary fin p (ys ++ rest)) a left
  | .unary => ∀ rest, ¬Continues .unary (ys.map (·.token)) (look fin rest).token →
      Reads (unary fin (ys ++ rest)) e rest
  | .access => ∀ rest, ¬Continues .primary (ys.map (·.token)) (look fin rest).token →
      ∀ a left, Reads (fieldsBehind fin e rest) a left → Reads (unary fin (ys ++ rest)) a left
  | .primary => ∀ rest, ¬Continues .primary (ys.map (·.token)) (look fin rest).token →
      nextUnary? (ys ++ rest) = none ∧ Reads (primary fin (ys ++ rest)) e rest

theorem Recognised.binary {fin : SourceToken} {ys : Tokens} {e : Expr} {p : Precedence}
    (h : Recognised fin ys e (.binary p)) {rest : Tokens}
    (hrest : ¬Continues (.binary p) (ys.map (·.token)) (look fin rest).token) :
    Reads (Parser.binary fin p (ys ++ rest)) e rest := by
  rw [continues_binary, not_or] at hrest
  exact h rest hrest.1 e rest (binaryBehind_done fun op hop ht => hrest.2 ⟨op, ht, hop⟩)

theorem Recognised.operand {fin : SourceToken} {ys : Tokens} {e : Expr} {p : Precedence}
    (h : Recognised fin ys e (operandLevel p)) {rest : Tokens}
    (hrest : ¬Continues (operandLevel p) (ys.map (·.token)) (look fin rest).token) :
    Reads (Parser.operand fin p (ys ++ rest)) e rest := by
  rw [Parser.operand]
  split
  · next q hq =>
      have hlevel : operandLevel p = .binary q := by rw [operandLevel, hq]
      rw [hlevel] at h hrest
      exact h.binary hrest
  · next hp =>
      have hlevel : operandLevel p = .unary := by rw [operandLevel, hp]
      rw [hlevel] at h hrest
      exact h rest hrest

/-- Behind an argument comes a comma or the closing parenthesis. -/
theorem FurtherForm.look {fin : SourceToken} {ys : Tokens} {args : List Expr}
    (h : FurtherForm ys args) {close : Span} {rest : Tokens} :
    mayContinue (look fin (ys ++ Terminal.rightParen.token close :: rest)).token = false := by
  cases h <;> rfl

mutual

/-- **Reading recognises what the grammar derives.** -/
theorem ExprForm.recognised (fin : SourceToken) :
    ∀ {level : Level} {ys : Tokens} {e : Expr}, ExprForm level ys e →
    Recognised fin ys e level
  | _, _, _, .operand h => by
      intro rest hrest a left hbehind
      rw [Parser.binary]
      exact ((h.recognised fin).operand hrest).bind fun _ => hbehind.bind_pure fun _ => ⟨rfl, rfl⟩
  | _, _, _, @ExprForm.operation op _ xs ys _ _ span rfl hleft hright => by
      intro rest hrest a left hbehind
      have hends : endsInName ((xs ++ op.terminal.token span :: ys).map (·.token)) =
          endsInName (ys.map (·.token)) := by
        rw [List.map_append, List.map_cons]
        exact endsInName_append (by simpa using hright.ne_nil) (by cases op <;> nofun)
      have hrest' :
          ¬Continues (operandLevel op.precedence) (ys.map (·.token)) (look fin rest).token := by
        rwa [Continues, ← hends]
      rw [List.append_assoc]
      refine hleft.recognised fin _ ?_ a left ?_
      · rw [List.cons_append, look_cons rfl]
        exact not_continues_operator
      · rw [List.cons_append, binaryBehind, nextOperator?_cons]
        exact ((hright.recognised fin).operand hrest').bind fun _ => hbehind.bind_pure fun _ =>
          ⟨rfl, rfl⟩
  | _, _, _, .access h => by
      intro rest hrest
      refine h.recognised fin rest (fun hc => hrest hc.of_primary) _ rest (fieldsBehind_done ?_)
      exact fun ht => hrest (.inr (.inl ⟨nofun, ht⟩))
  | _, _, _, @ExprForm.prefixed op ys _ span h => by
      intro rest hrest
      have hends : endsInName ((op.terminal.token span :: ys).map (·.token)) =
          endsInName (ys.map (·.token)) :=
        endsInName_cons (by simpa using h.ne_nil) (by cases op <;> nofun)
      rw [Continues, hends] at hrest
      rw [List.cons_append, unary, nextUnary?_cons]
      exact (h.recognised fin rest hrest).bind_pure fun _ => ⟨rfl, rfl⟩
  | _, _, _, .primary h => by
      intro rest hrest a left hbehind
      obtain ⟨hunary, hprimary⟩ := h.recognised fin rest hrest
      rw [unary, hunary]
      exact hprimary.bind fun _ => hbehind.bind_pure fun _ => ⟨rfl, rfl⟩
  | _, _, _, .field dot name h => by
      intro rest hrest a left hbehind
      rw [List.append_assoc]
      refine h.recognised fin _ ?_ a left ?_
      · rw [List.cons_append, look_cons rfl]
        rintro (⟨ht, -⟩ | ⟨hlevel, -⟩ | ⟨op, -, hadmits⟩)
        · cases ht
        · exact absurd rfl hlevel
        · cases hadmits
      · rw [List.cons_append, List.cons_append, fieldsBehind, accept?_cons]
        exact (identifier_reads name).bind fun _ => hbehind.bind_pure fun _ => ⟨rfl, rfl⟩
  | _, _, _, .number .. | _, _, _, .string .. | _, _, _, .trueWord .. | _, _, _, .falseWord .. => by
      intro rest hrest
      refine ⟨rfl, ?_⟩
      rw [primary]
      exact Reads.ok _
  | _, _, _, .reference name => by
      intro rest hrest
      refine ⟨rfl, ?_⟩
      have hparen : accept? .leftParen rest = none :=
        Parser.accept?_eq_none fun ht => hrest (.inl ⟨ht, rfl⟩)
      rw [primary, List.cons_append, next?_cons rfl]
      simp only [Ident.token, List.nil_append, hparen]
      exact Reads.ok _
  | _, _, _, .call name opening close h => by
      intro rest hrest
      refine ⟨rfl, ?_⟩
      rw [primary, List.cons_append, next?_cons rfl]
      simp only [Ident.token, List.cons_append, List.append_assoc, accept?_cons]
      exact (h.reads fin close rest).bind_pure fun _ => ⟨rfl, rfl⟩
  | _, _, _, .parentheses opening close h => by
      intro rest hrest
      refine ⟨rfl, ?_⟩
      rw [primary, List.cons_append, next?_cons rfl]
      simp only [Terminal.token, List.append_assoc]
      refine Reads.bind ((h.recognised fin).binary ?_) fun _ => ?_
      · exact not_continues rfl
      · exact (expect_reads .rightParen close).bind_pure fun _ => ⟨rfl, rfl⟩

theorem ArgumentsForm.reads (fin : SourceToken) :
    ∀ {ys : Tokens} {args : List Expr}, ArgumentsForm ys args →
    ∀ close rest,
    Reads (arguments fin (ys ++ Terminal.rightParen.token close :: rest)) (args, close) rest
  | _, _, .none => by
      intro close rest
      rw [List.nil_append, arguments, accept?_cons]
      exact Reads.ok _
  | _, _, .some hfirst hothers => by
      intro close rest
      rw [List.append_assoc]
      rw [arguments, hfirst.accept?_eq_none rfl]
      refine Reads.bind ((hfirst.recognised fin).binary (not_continues hothers.look)) fun _ => ?_
      exact (hothers.reads fin close rest).bind_pure fun _ => ⟨rfl, rfl⟩

theorem FurtherForm.reads (fin : SourceToken) :
    ∀ {ys : Tokens} {args : List Expr}, FurtherForm ys args →
    ∀ close rest, Reads (argumentsBehind fin (ys ++ Terminal.rightParen.token close :: rest)) (args,
      close) rest
  | _, _, .nil => by
      intro close rest
      rw [List.nil_append, argumentsBehind, accept?_cons_ne (by decide)]
      exact (expect_reads .rightParen close).bind_pure fun _ => ⟨rfl, rfl⟩
  | _, _, .cons comma hfirst hothers => by
      intro close rest
      rw [List.cons_append, List.append_assoc, argumentsBehind, accept?_cons]
      refine Reads.bind ((hfirst.recognised fin).binary (not_continues hothers.look)) fun _ => ?_
      exact (hothers.reads fin close rest).bind_pure fun _ => ⟨rfl, rfl⟩

end

/-- **Reading an expression that the grammar derives gives it back and stops behind it**, in front
of every token that does not continue it. -/
theorem ExprForm.expression_reads {ys : Tokens} {e : Expr} (h : ExpressionForm ys e)
    (fin : SourceToken) (rest : Tokens)
    (hrest : ¬Continues .loosest (ys.map (·.token)) (Parser.look fin rest).token) :
    Reads (expression fin (ys ++ rest)) e rest :=
  (h.recognised fin).binary hrest

end Grammar

end Stepwise
