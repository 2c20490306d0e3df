import Stepwise.Proofs.Program.Writing

/-!
# Recovering expressions and statements

The tokens that a tree is written with are read as the tree again, up to spans. For expressions this
goes through the grammar: the tokens of an expression derive it (`Expr.tokens_derive`), and
derivations are read. Statements follow by recursion over the tree; what carries the recursion is
that the token behind a statement does not go on with it (`Stmt.Stops`), which is what `Stmt.Parted`
provides for within a block.
-/

set_option autoImplicit false

namespace Stepwise

open Stepwise.Parser Grammar

/-! ## Tokens at spans -/

/-- Tokens that are written as a terminal and others. -/
theorem Parser.exists_of_terminal {ts : Tokens} {t : Terminal} {ys : List Token}
    (h : ts.map (·.token) = .terminal t :: ys) :
    ∃ span behind, ts = t.token span :: behind ∧ behind.map (·.token) = ys := by
  obtain ⟨⟨_, span⟩, behind, rfl, rfl, hbehind⟩ := List.map_eq_cons_iff.mp h
  exact ⟨span, behind, rfl, hbehind⟩

/-- Tokens that are written as an identifier and others. -/
theorem Parser.exists_of_identifier {ts : Tokens} {name : String} {ys : List Token}
    (h : ts.map (·.token) = .identifier name :: ys) :
    ∃ span behind, ts = Ident.token ⟨name, span⟩ :: behind ∧ behind.map (·.token) = ys := by
  obtain ⟨⟨_, span⟩, behind, rfl, rfl, hbehind⟩ := List.map_eq_cons_iff.mp h
  exact ⟨span, behind, rfl, hbehind⟩

theorem Parser.exists_of_lastTerminal {ts : Tokens} {t : Terminal}
    (h : ts.map (·.token) = [.terminal t]) :
    ∃ span, ts = [t.token span] := by
  obtain ⟨span, behind, rfl, hbehind⟩ := exists_of_terminal h
  exact ⟨span, by rw [List.map_eq_nil_iff.mp hbehind]⟩

theorem Parser.exists_of_lastIdentifier {ts : Tokens} {name : String}
    (h : ts.map (·.token) = [.identifier name]) : ∃ span, ts = [Ident.token ⟨name, span⟩] := by
  obtain ⟨span, behind, rfl, hbehind⟩ := exists_of_identifier h
  exact ⟨span, by rw [List.map_eq_nil_iff.mp hbehind]⟩

/-! ## Expressions -/

namespace Grammar

/-- The level that is tighter by one. -/
def Level.tighter : Level → Level
  | .binary p => operandLevel p
  | .unary => .access
  | .access | .primary => .primary

theorem Level.rank_tighter {level : Level} (h : level ≠ .primary) :
    level.rank = level.tighter.rank + 1 := by
  cases level with
  | binary p => cases p <;> rfl
  | primary => exact absurd rfl h
  | _ => rfl

theorem Level.rank_injective {level other : Level} (h : level.rank = other.rank) :
    level = other := by
  rcases level with ⟨⟨⟩⟩ | _ | _ | _ <;> rcases other with ⟨⟨⟩⟩ | _ | _ | _ <;>
    first | rfl | cases h

theorem Level.rank_le_loosest (level : Level) : level.rank ≤ Level.loosest.rank := by
  rcases level with ⟨⟨⟩⟩ | _ | _ | _ <;> decide

theorem ExprForm.of_tighter {level : Level} {ys : Tokens} {e : Expr}
    (h : ExprForm level.tighter ys e) :
    ExprForm level ys e := by
  cases level with
  | binary p => exact .operand h
  | unary => exact .access h
  | access => exact .primary h
  | primary => exact h

/-- An expression of a level is one of every looser level. -/
theorem ExprForm.loosen {level looser : Level} {ys : Tokens} {e : Expr} (h : ExprForm level ys e)
    (hrank : level.rank ≤ looser.rank) : ExprForm looser ys e := by
  obtain ⟨k, hk⟩ := Nat.exists_eq_add_of_le hrank
  clear hrank
  induction k generalizing looser with
  | zero => exact Level.rank_injective hk ▸ h
  | succ k ih =>
      have hlooser : looser ≠ .primary := by
        rintro rfl
        simp [Level.rank] at hk
      refine .of_tighter (ih ?_)
      have hstep := Level.rank_tighter hlooser
      omega

end Grammar

namespace Expr

theorem eraseSpans_unchecked {i : ExprInfo} (span : Span) (h : i.ty = none) :
    (unchecked span).eraseSpans = i.eraseSpans := by
  rw [ExprInfo.eraseSpans, ExprInfo.eraseSpans, h]
  rfl

/-- Tokens derive an expression at a level, up to spans. -/
def DerivedFrom (level : Level) (ts : Tokens) (e : Expr) : Prop :=
  ∃ e', ExprForm level ts e' ∧ e'.eraseSpans = e.eraseSpans

theorem DerivedFrom.loosen {level looser : Level} {ts : Tokens} {e : Expr}
    (h : DerivedFrom level ts e) (hrank : level.rank ≤ looser.rank) : DerivedFrom looser ts e := by
  obtain ⟨e', hform, herase⟩ := h
  exact ⟨e', hform.loosen hrank, herase⟩

/-- Parentheses make an expression one of every level. -/
theorem DerivedFrom.guarded {e : Expr}
    (h : ∀ ts : Tokens, ts.map (·.token) = e.tokens → DerivedFrom e.level ts e) {level : Level}
    {ts : Tokens} (hts : ts.map (·.token) = e.guarded level e.tokens) : DerivedFrom level ts e := by
  unfold Expr.guarded at hts
  split at hts
  · next hrank => exact (h ts hts).loosen hrank
  · obtain ⟨opening, behind, rfl, hbehind⟩ := exists_of_terminal hts
    obtain ⟨inner, closing, rfl, hinner, hclosing⟩ := List.map_eq_append_iff.mp hbehind
    obtain ⟨close, rfl⟩ := exists_of_lastTerminal hclosing
    obtain ⟨e', hform, herase⟩ := (h inner hinner).loosen (Level.rank_le_loosest _)
    refine DerivedFrom.loosen ⟨_, .parentheses opening close hform, ?_⟩ (Nat.zero_le _)
    rw [eraseSpans_withSpan, herase]

mutual

/-- **The tokens of an expression derive it.** -/
theorem tokens_derive : ∀ (e : Expr), e.Unannotated → ∀ ts : Tokens, ts.map (·.token) = e.tokens →
    DerivedFrom e.level ts e
  | .number i v, h, ts, hts => by
      obtain ⟨⟨_, span⟩, rfl, rfl⟩ := List.map_eq_singleton_iff.mp hts
      exact ⟨_, .number v span, congrArg (Expr.number · v) (eraseSpans_unchecked span h)⟩
  | .boolean i b, h, ts, hts => by
      obtain ⟨⟨_, span⟩, rfl, rfl⟩ := List.map_eq_singleton_iff.mp hts
      cases b with
      | false =>
        exact ⟨_, .falseWord span, congrArg (Expr.boolean · false) (eraseSpans_unchecked span h)⟩
      | true =>
        exact ⟨_, .trueWord span, congrArg (Expr.boolean · true) (eraseSpans_unchecked span h)⟩
  | .string i s, h, ts, hts => by
      obtain ⟨⟨_, span⟩, rfl, rfl⟩ := List.map_eq_singleton_iff.mp hts
      exact ⟨_, .string s span, congrArg (Expr.string · s) (eraseSpans_unchecked span h)⟩
  | .reference i name slot, h, ts, hts => by
      obtain ⟨⟨_, span⟩, rfl, rfl⟩ := List.map_eq_singleton_iff.mp hts
      obtain ⟨hty, rfl⟩ := h
      exact ⟨_, .reference ⟨name, span⟩, congrArg (Expr.reference · name none)
        (eraseSpans_unchecked span hty)⟩
  | .call i name args callee, h, ts, hts => by
      obtain ⟨hty, rfl, hargs⟩ := h
      obtain ⟨span, behind, rfl, hbehind⟩ := exists_of_identifier hts
      obtain ⟨opening, inside, rfl, hinside⟩ := exists_of_terminal hbehind
      obtain ⟨inner, closing, rfl, hinner, hclosing⟩ := List.map_eq_append_iff.mp hinside
      obtain ⟨close, rfl⟩ := exists_of_lastTerminal hclosing
      obtain ⟨args', hform, herase⟩ := argumentTokens_derive args hargs inner hinner
      refine ⟨_, .call ⟨name.name, span⟩ opening close hform, ?_⟩
      simp only [eraseSpans, herase, eraseSpans_unchecked _ hty, Ident.eraseSpans]
  | .field i record name, h, ts, hts => by
      obtain ⟨hty, hrecord⟩ := h
      obtain ⟨front, back, rfl, hfront, hback⟩ := List.map_eq_append_iff.mp hts
      obtain ⟨dot, last, rfl, hlast⟩ := exists_of_terminal hback
      obtain ⟨span, rfl⟩ := exists_of_lastIdentifier hlast
      obtain ⟨record', hform, herase⟩ := DerivedFrom.guarded (tokens_derive record hrecord) hfront
      refine ⟨_, .field dot ⟨name.name, span⟩ hform, ?_⟩
      simp only [eraseSpans, herase, eraseSpans_unchecked _ hty, Ident.eraseSpans]
  | .unary i op e, h, ts, hts => by
      obtain ⟨hty, he⟩ := h
      obtain ⟨span, behind, rfl, hbehind⟩ := exists_of_terminal hts
      obtain ⟨e', hform, herase⟩ := DerivedFrom.guarded (tokens_derive e he) hbehind
      refine ⟨_, .prefixed span hform, ?_⟩
      simp only [eraseSpans, herase, eraseSpans_unchecked _ hty]
  | .binary i op left right, h, ts, hts => by
      obtain ⟨hty, hleft, hright⟩ := h
      obtain ⟨front, back, rfl, hfront, hback⟩ := List.map_eq_append_iff.mp hts
      obtain ⟨span, behind, rfl, hbehind⟩ := exists_of_terminal hback
      obtain ⟨left', hleftForm, hleftErase⟩ := DerivedFrom.guarded (tokens_derive left hleft) hfront
      obtain ⟨right', hrightForm, hrightErase⟩ :=
        DerivedFrom.guarded (tokens_derive right hright) hbehind
      refine ⟨_, .operation span rfl hleftForm hrightForm, ?_⟩
      simp only [joined, eraseSpans, hleftErase, hrightErase, eraseSpans_unchecked _ hty]

theorem argumentTokens_derive : ∀ (args : List Expr), AllUnannotated args → ∀ ts : Tokens,
    ts.map (·.token) = argumentTokens args → ∃ args', ArgumentsForm ts args' ∧
    eraseAllSpans args' = eraseAllSpans args
  | [], _, ts, hts => by
      cases List.map_eq_nil_iff.mp hts
      exact ⟨[], .none, rfl⟩
  | e :: rest, h, ts, hts => by
      obtain ⟨front, back, rfl, hfront, hback⟩ := List.map_eq_append_iff.mp hts
      obtain ⟨e', hform, herase⟩ :=
        (tokens_derive e h.1 front hfront).loosen (Level.rank_le_loosest _)
      obtain ⟨rest', hrest, hrestErase⟩ := furtherTokens_derive rest h.2 back hback
      exact ⟨e' :: rest', .some hform hrest, by simp only [eraseAllSpans, herase, hrestErase]⟩

theorem furtherTokens_derive : ∀ (args : List Expr), AllUnannotated args → ∀ ts : Tokens,
    ts.map (·.token) = furtherTokens args → ∃ args', FurtherForm ts args' ∧
    eraseAllSpans args' = eraseAllSpans args
  | [], _, ts, hts => by
      cases List.map_eq_nil_iff.mp hts
      exact ⟨[], .nil, rfl⟩
  | e :: rest, h, ts, hts => by
      obtain ⟨comma, behind, rfl, hbehind⟩ := exists_of_terminal hts
      obtain ⟨front, back, rfl, hfront, hback⟩ := List.map_eq_append_iff.mp hbehind
      obtain ⟨e', hform, herase⟩ :=
        (tokens_derive e h.1 front hfront).loosen (Level.rank_le_loosest _)
      obtain ⟨rest', hrest, hrestErase⟩ := furtherTokens_derive rest h.2 back hback
      exact ⟨e' :: rest', .cons comma hform hrest, by simp only [eraseAllSpans, herase, hrestErase]⟩

end

/-- The tokens of an expression derive it as a whole one. -/
theorem derives {e : Expr} (h : e.Unannotated) {ts : Tokens} (hts : ts.map (·.token) = e.tokens) :
    ∃ e', ExpressionForm ts e' ∧ e'.eraseSpans = e.eraseSpans :=
  (tokens_derive e h ts hts).loosen (Level.rank_le_loosest _)

theorem tokens_ne_nil (e : Expr) : e.tokens ≠ [] := by
  cases e <;> simp [tokens]

theorem guarded_starts {e : Expr} {level : Level} {ts : List Token}
    (h : ∃ t ys, ts = t :: ys ∧ startsExpression t = true) :
    ∃ t ys, e.guarded level ts = t :: ys ∧ startsExpression t = true := by
  unfold Expr.guarded
  split
  · exact h
  · exact ⟨_, _, rfl, rfl⟩

/-- The tokens of an expression begin with one that may start an expression. -/
theorem tokens_starts : ∀ e : Expr, ∃ t ys, e.tokens = t :: ys ∧ startsExpression t = true
  | .number .. | .string .. | .reference .. | .call .. => ⟨_, _, rfl, rfl⟩
  | .boolean _ b => ⟨_, _, rfl, by cases b <;> rfl⟩
  | .unary _ op _ => ⟨_, _, rfl, by cases op <;> rfl⟩
  | .field _ record _ => by
      obtain ⟨t, ys, hys, ht⟩ := guarded_starts (tokens_starts record)
      exact ⟨t, _, congrArg (· ++ _) hys, ht⟩
  | .binary _ _ left _ => by
      obtain ⟨t, ys, hys, ht⟩ := guarded_starts (tokens_starts left)
      exact ⟨t, _, congrArg (· ++ _) hys, ht⟩

theorem isAssignable_of_eraseSpans {e e' : Expr} (h : e'.eraseSpans = e.eraseSpans) :
    e'.isAssignable = e.isAssignable := by
  cases e <;> cases e' <;> first | rfl | cases h

end Expr

/-! ## Statements -/

namespace Stmt

variable {chains : Stmt → Bool} {fin : SourceToken}

/-- A token does not go on with a statement. -/
structure Stops (chains : Stmt → Bool) (s : Stmt) (t : Token) : Prop where
  expression : s.endsInExpression = true → ¬Continues .loosest (s.tokens chains) t ∧
    t ≠ .terminal .assign
  value : s.returnsNothing = true → startsExpression t = false

/-- Reading gives a statement back, up to spans. -/
def RecoveredFrom {n : Nat} (x : Diagnosed (Parsed Stmt n)) (rest : Tokens) (s : Stmt) : Prop :=
  ∃ s', Reads x s' rest ∧ s'.eraseSpans = s.eraseSpans

/-- What begins with an expression is read as an expression statement or an assignment. -/
theorem statement_of_startsExpression {ts : Tokens}
    (h : startsExpression (look fin ts).token = true) :
    statement fin ts = expressionOrAssignment fin ts := by
  rw [statement]
  split <;> first | rfl | (rw [look_of_nextTerminal? ‹_›] at h; cases h)

/-- Tokens that end in an expression are continued by what continues the expression. -/
theorem continues_behind {front ys : List Token} {u : Token} (t : Terminal) (ht : t ≠ .dot)
    (hys : ys ≠ []) :
    Continues .loosest (front ++ .terminal t :: ys) u ↔ Continues .loosest ys u := by
  rw [Continues, Continues, endsInName_append hys fun h => ht (Token.terminal.inj h)]

theorem expr_recovered {e : Expr} (h : e.Unannotated) {ts rest : Tokens}
    (hts : ts.map (·.token) = e.tokens) (hrest : Stops chains (.expr e) (look fin rest).token) :
    RecoveredFrom (statement fin (ts ++ rest)) rest (.expr e) := by
  obtain ⟨e', hform, herase⟩ := Expr.derives h hts
  obtain ⟨hnot, hassign⟩ := hrest.expression rfl
  rw [← show ts.map (·.token) = (expr e).tokens chains from hts] at hnot
  have hstarts := hform.look_starts fin rest
  refine ⟨.expr e', ?_, congrArg Stmt.expr herase⟩
  rw [statement_of_startsExpression hstarts, expressionOrAssignment, if_pos hstarts]
  refine (hform.expression_reads _ _ hnot).bind fun _ => ?_
  simp only [Parser.accept?_eq_none hassign]
  exact Reads.ok _

theorem assign_recovered {target value : Expr} {span : Span} (htarget : target.Unannotated)
    (hvalue : value.Unannotated) (hassignable : target.isAssignable = true) {ts rest : Tokens}
    (hts : ts.map (·.token) = (assign target value span).tokens chains)
    (hrest : Stops chains (.assign target value span) (look fin rest).token) :
    RecoveredFrom (statement fin (ts ++ rest)) rest (.assign target value span) := by
  obtain ⟨front, back, rfl, hfront, hback⟩ := List.map_eq_append_iff.mp hts
  obtain ⟨sign, behind, rfl, hbehind⟩ := exists_of_terminal hback
  obtain ⟨target', htargetForm, htargetErase⟩ := Expr.derives htarget hfront
  obtain ⟨value', hvalueForm, hvalueErase⟩ := Expr.derives hvalue hbehind
  have hnot := (hrest.expression rfl).1
  rw [tokens, continues_behind .assign (by decide) value.tokens_ne_nil, ← hbehind] at hnot
  have hstarts := htargetForm.look_starts fin (Terminal.assign.token sign :: (behind ++ rest))
  refine ⟨.assign target' value' (target'.span.merge value'.span), ?_, ?_⟩
  · rw [List.append_assoc, List.cons_append]
    rw [statement_of_startsExpression hstarts, expressionOrAssignment, if_pos hstarts]
    refine (htargetForm.expression_reads _ _ (not_continues rfl)).bind fun _ => ?_
    simp only [accept?_cons, Expr.isAssignable_of_eraseSpans htargetErase, hassignable]
    exact (hvalueForm.expression_reads _ _ hnot).bind_pure fun _ => ⟨rfl, rfl⟩
  · simp only [eraseSpans, htargetErase, hvalueErase]

theorem annotation_recovered (fin : SourceToken) {typeName : Option Ident} {ts : Tokens}
    (rest : Tokens) (hts : ts.map (·.token) = annotationTokens typeName)
    (hrest : (look fin rest).token ≠ .terminal .colon) :
    ∃ typeName', Reads ( typeAnnotation fin (ts ++ rest)) typeName' rest ∧
      typeName'.map Ident.eraseSpans = typeName.map Ident.eraseSpans := by
  cases typeName with
  | none =>
      cases List.map_eq_nil_iff.mp hts
      refine ⟨none, ?_, rfl⟩
      rw [List.nil_append, typeAnnotation, Parser.accept?_eq_none hrest]
      exact Reads.ok _
  | some name =>
      obtain ⟨colon, last, rfl, hlast⟩ := exists_of_terminal hts
      obtain ⟨span, rfl⟩ := exists_of_lastIdentifier hlast
      refine ⟨some ⟨name.name, span⟩, ?_, rfl⟩
      rw [List.cons_append, typeAnnotation, accept?_cons]
      exact (identifier_reads _).bind_pure fun _ => ⟨rfl, rfl⟩

theorem var_recovered {d : VarDecl} (h : (Stmt.var d).Unannotated) {ts rest : Tokens}
    (hts : ts.map (·.token) = (var d).tokens chains)
    (hrest : Stops chains (.var d) (look fin rest).token) :
    RecoveredFrom (statement fin (ts ++ rest)) rest (.var d) := by
  obtain ⟨hty, hslot, hvalue⟩ := h
  obtain ⟨start, behind, rfl, hbehind⟩ := exists_of_terminal hts
  obtain ⟨span, behindName, rfl, hbehindName⟩ := exists_of_identifier hbehind
  obtain ⟨typeTokens, back, rfl, htypeTokens, hback⟩ := List.map_eq_append_iff.mp hbehindName
  obtain ⟨sign, last, rfl, hlast⟩ := exists_of_terminal hback
  obtain ⟨value', hform, herase⟩ := Expr.derives hvalue hlast
  have hnot := (hrest.expression rfl).1
  rw [tokens, ← List.cons_append, ← List.cons_append, continues_behind .assign (by decide)
    d.value.tokens_ne_nil, ← hlast] at hnot
  obtain ⟨typeName', htype, htypeErase⟩ :=
    annotation_recovered fin (Terminal.assign.token sign :: (last ++ rest)) htypeTokens nofun
  refine ⟨.var ⟨⟨d.name.name, span⟩, typeName', value', none, none, start.merge value'.span⟩, ?_,
    ?_⟩
  · rw [List.cons_append, List.cons_append, List.append_assoc, List.cons_append, statement,
      nextTerminal?_cons]
    refine Reads.bind_pure ?_ fun _ => ⟨rfl, rfl⟩
    refine (identifier_reads _).bind fun _ => htype.bind fun _ => (expect_reads .assign sign).bind
      fun _ => ?_
    exact (hform.expression_reads _ _ hnot).bind_pure fun _ => ⟨rfl, rfl⟩
  · simp only [eraseSpans, VarDecl.eraseSpans, Ident.eraseSpans, htypeErase, herase, hty, hslot]

theorem ret_recovered {value : Option Expr} {span : Span} (h : (Stmt.ret value span).Unannotated)
    {ts rest : Tokens} (hts : ts.map (·.token) = (ret value span).tokens chains)
    (hrest : Stops chains (.ret value span) (look fin rest).token) :
    RecoveredFrom (statement fin (ts ++ rest)) rest (.ret value span) := by
  cases value with
  | none =>
      obtain ⟨start, rfl⟩ := exists_of_lastTerminal hts
      refine ⟨.ret none start, ?_, rfl⟩
      rw [List.cons_append, List.nil_append, statement, nextTerminal?_cons]
      refine Reads.bind_pure (a := .ret none start) ?_ fun _ => ⟨rfl, rfl⟩
      rw [returnBehind, if_neg (by simp [hrest.value rfl])]
      exact Reads.ok _
  | some e =>
      obtain ⟨start, behind, rfl, hbehind⟩ := exists_of_terminal hts
      obtain ⟨e', hform, herase⟩ := Expr.derives (h e rfl) hbehind
      have hnot := (hrest.expression rfl).1
      rw [tokens, ← List.nil_append (Token.terminal .returnWord :: e.tokens),
        continues_behind .returnWord (by decide) e.tokens_ne_nil, ← hbehind] at hnot
      refine ⟨.ret (some e') (start.merge e'.span), ?_,
        congrArg (fun e => Stmt.ret (some e) .origin) herase⟩
      rw [List.cons_append, statement, nextTerminal?_cons]
      refine Reads.bind_pure (a := .ret (some e') (start.merge e'.span)) ?_ fun _ => ⟨rfl, rfl⟩
      rw [returnBehind, if_pos (hform.look_starts fin rest)]
      exact (hform.expression_reads _ _ hnot).bind_pure fun _ => ⟨rfl, rfl⟩

/-- Reading gives the statements of a block back, in front of its end. -/
def BlockRecovered (chains : Stmt → Bool) (fin : SourceToken) (ss : List Stmt) : Prop :=
  ∀ ts : Tokens, ts.map (·.token) = blockTokens chains ss → ∀ stop rest,
    endsBlock stop.token = true →
    ∃ ss', Reads (block fin (ts ++ stop :: rest)) ss' (stop :: rest) ∧
    eraseAllSpans ss' = eraseAllSpans ss

/-- What is read of a loop behind its keyword. -/
theorem loop_recovered {keyword sign : Terminal} {e : Expr} {body : List Stmt} (he : e.Unannotated)
    (hbody : BlockRecovered chains fin body) {ts : Tokens} (rest : Tokens)
    (hts : ts.map (·.token) =
      .terminal keyword ::
        (e.tokens ++ .terminal sign :: (blockTokens chains body ++ [.terminal .endWord])))
    (hsign : mayContinue (.terminal sign) = false) :
    ∃ start signSpan stop behind first second third e' body',
      ts ++ rest = keyword.token start :: behind ∧
      Reads (expression fin behind) e' first ∧ Reads (expect fin sign first) signSpan second ∧
      Reads (block fin second) body' third ∧ Reads (expect fin .endWord third) stop rest ∧
      e'.eraseSpans = e.eraseSpans ∧ eraseAllSpans body' = eraseAllSpans body := by
  obtain ⟨start, behind, rfl, hbehind⟩ := exists_of_terminal hts
  obtain ⟨front, back, rfl, hfront, hback⟩ := List.map_eq_append_iff.mp hbehind
  obtain ⟨signSpan, inside, rfl, hinside⟩ := exists_of_terminal hback
  obtain ⟨inner, last, rfl, hinner, hlast⟩ := List.map_eq_append_iff.mp hinside
  obtain ⟨stop, rfl⟩ := exists_of_lastTerminal hlast
  obtain ⟨e', hform, herase⟩ := Expr.derives he hfront
  obtain ⟨body', hblock, hblockErase⟩ := hbody inner hinner (Terminal.endWord.token stop) rest rfl
  refine ⟨start, signSpan, stop, _, _, _, _, e', body', ?_, hform.expression_reads fin _ ?_,
    expect_reads sign signSpan, hblock, expect_reads .endWord stop, herase, hblockErase⟩
  · simp only [List.cons_append, List.append_assoc, List.nil_append]
  · exact not_continues hsign

theorem whileLoop_recovered {condition : Expr} {body : List Stmt} {span : Span}
    (hcondition : condition.Unannotated) (hbody : BlockRecovered chains fin body) {ts rest : Tokens}
    (hts : ts.map (·.token) = (whileLoop condition body span).tokens chains) :
    RecoveredFrom (statement fin (ts ++ rest)) rest (.whileLoop condition body span) := by
  obtain ⟨start, _, stop, behind, _, _, _, condition', body', hsplit, hfirst, hsign, hblock,
    hstop, herase, hblockErase⟩ := loop_recovered hcondition hbody rest hts rfl
  refine ⟨.whileLoop condition' body' (start.merge stop), ?_, ?_⟩
  · rw [hsplit, statement, nextTerminal?_cons]
    exact hfirst.bind fun _ => hsign.bind fun _ => hblock.bind fun _ => hstop.bind_pure fun _ =>
      ⟨rfl, rfl⟩
  · simp only [eraseSpans, herase, hblockErase]

theorem repeatLoop_recovered {count : Expr} {body : List Stmt} {span : Span}
    (hcount : count.Unannotated) (hbody : BlockRecovered chains fin body) {ts rest : Tokens}
    (hts : ts.map (·.token) = (repeatLoop count body span).tokens chains) :
    RecoveredFrom (statement fin (ts ++ rest)) rest (.repeatLoop count body span) := by
  obtain ⟨start, _, stop, behind, _, _, _, count', body', hsplit, hfirst, hsign, hblock, hstop,
      herase, hblockErase⟩ :=
    loop_recovered hcount hbody rest hts rfl
  refine ⟨.repeatLoop count' body' (start.merge stop), ?_, ?_⟩
  · rw [hsplit, statement, nextTerminal?_cons]
    exact hfirst.bind fun _ => hsign.bind fun _ => hblock.bind fun _ => hstop.bind_pure fun _ =>
      ⟨rfl, rfl⟩
  · simp only [eraseSpans, herase, hblockErase]

/-- Reading gives a conditional back behind its keyword. -/
def ConditionalRecovered (chains : Stmt → Bool) (fin : SourceToken) (s : Stmt) : Prop :=
  ∀ (ts rest : Tokens) (start : Span), ts.map (·.token) = (s.tokens chains).tail →
    RecoveredFrom (conditional fin start (ts ++ rest)) rest s

/-- Reading gives the alternative of a conditional back behind its first block. -/
def AlternativeRecovered (chains : Stmt → Bool) (fin : SourceToken) (ss : List Stmt) : Prop :=
  ∀ ts : Tokens, ts.map (·.token) = alternativeTokens chains ss →
    ∀ (start : Span) {sign : Span} {before first second rest : Tokens} {condition : Expr}
      {thenBlock : List Stmt},
      Reads (expression fin before) condition first →
      Reads (expect fin .thenWord first) sign second →
      Reads (block fin second) thenBlock (ts ++ rest) →
      ∃ ss' span, Reads (conditional fin start before) (.cond condition thenBlock ss' span) rest ∧
        eraseAllSpans ss' = eraseAllSpans ss

theorem alternative_endsBlock {ss : List Stmt} {ts : Tokens}
    (hts : ts.map (·.token) = alternativeTokens chains ss) :
    ∃ stop behind, ts = stop :: behind ∧ endsBlock stop.token = true := by
  cases ss with
  | nil =>
      obtain ⟨stop, rfl⟩ := exists_of_lastTerminal hts
      exact ⟨_, _, rfl, rfl⟩
  | cons s rest =>
      rw [alternativeTokens] at hts
      split at hts
      · obtain ⟨keyword, behind, rfl, -⟩ := exists_of_terminal hts
        exact ⟨_, _, rfl, rfl⟩
      · obtain ⟨keyword, behind, rfl, -⟩ := exists_of_terminal hts
        exact ⟨_, _, rfl, rfl⟩

theorem conditional_recovered {condition : Expr} {thenBlock elseBlock : List Stmt} {span : Span}
    (hcondition : condition.Unannotated) (hthen : BlockRecovered chains fin thenBlock)
    (helse : AlternativeRecovered chains fin elseBlock) :
    ConditionalRecovered chains fin (.cond condition thenBlock elseBlock span) := by
  intro ts rest start hts
  obtain ⟨front, back, rfl, hfront, hback⟩ := List.map_eq_append_iff.mp hts
  obtain ⟨sign, inside, rfl, hinside⟩ := exists_of_terminal hback
  obtain ⟨inner, last, rfl, hinner, hlast⟩ := List.map_eq_append_iff.mp hinside
  obtain ⟨condition', hform, herase⟩ := Expr.derives hcondition hfront
  obtain ⟨stop, behind, rfl, hstop⟩ := alternative_endsBlock hlast
  obtain ⟨thenBlock', hblock, hblockErase⟩ := hthen inner hinner stop (behind ++ rest) hstop
  have hexpression := hform.expression_reads fin
    (Terminal.thenWord.token sign :: (inner ++ stop :: (behind ++ rest))) (not_continues rfl)
  obtain ⟨elseBlock', span', hreads, helseErase⟩ :=
    helse (stop :: behind) hlast start hexpression (expect_reads .thenWord sign) hblock
  refine ⟨.cond condition' thenBlock' elseBlock' span', ?_, ?_⟩
  · rwa [List.append_assoc, List.cons_append, List.append_assoc, List.cons_append]
  · simp only [eraseSpans, herase, hblockErase, helseErase]

/-! ### Statements in a row -/

/-- Whether a token may start a statement that is no comment. -/
def startsStatement : Token → Bool
  | .terminal .varWord | .terminal .ifWord | .terminal .whileWord | .terminal .repeatWord |
      .terminal .returnWord
  | .terminal .breakWord | .terminal .continueWord => true
  | t => startsExpression t

theorem startsStatement_of_startsExpression {t : Token} (h : startsExpression t = true) :
    startsStatement t = true := by
  unfold startsStatement
  split
  all_goals first | rfl | exact h

/-- The tokens of a statement begin with one that may start a statement. -/
theorem tokens_starts (chains : Stmt → Bool) {s : Stmt} (hs : s.isComment = false) :
    ∃ t ys, s.tokens chains = t :: ys ∧ startsStatement t = true := by
  cases s with
  | expr e =>
      obtain ⟨t, ys, hys, ht⟩ := e.tokens_starts
      exact ⟨t, ys, hys, startsStatement_of_startsExpression ht⟩
  | assign target value span =>
      obtain ⟨t, ys, hys, ht⟩ := target.tokens_starts
      exact ⟨t, _, congrArg (· ++ _) hys, startsStatement_of_startsExpression ht⟩
  | ret value span => cases value <;> exact ⟨_, _, rfl, rfl⟩
  | comment text span => cases hs
  | _ => exact ⟨_, _, rfl, rfl⟩

theorem isComment_of_startsStatement {t : Token} (h : startsStatement t = true) :
    t.isComment = false := by
  cases t with
  | comment text => cases h
  | _ => rfl

theorem endsBlock_of_startsStatement {t : Token} (h : startsStatement t = true) :
    endsBlock t = false := by
  cases t with
  | terminal t => cases t <;> first | rfl | cases h
  | endOfInput => cases h
  | _ => rfl

/-- The first token of a statement continues an expression only as a minus or an opening
parenthesis. -/
theorem continues_of_startsStatement {t : Token} (h : startsStatement t = true) {ys : List Token}
    (hcontinues : Continues .loosest ys t) :
    t = .terminal .minus ∨ (t = .terminal .leftParen ∧ endsInName ys = true) := by
  obtain hparen | ⟨-, rfl⟩ | ⟨op, rfl, -⟩ := hcontinues
  · exact .inr hparen
  · cases h
  · cases op <;> first | exact .inl rfl | cases h

/-- A statement that can follow another does not go on with it. -/
theorem Parted.stops {s next : Stmt} (h : s.Parted chains next) {t : Token}
    (hnext : (next.tokens chains).head? = some t)
    (ht : startsStatement t = true) : Stops chains s t where
  expression := by
    intro hs
    refine ⟨fun hcontinues => ?_, ?_⟩
    · obtain rfl | ⟨rfl, hname⟩ := continues_of_startsStatement ht hcontinues
      · exact h.minus hs hnext
      · exact h.parenthesis hname hnext
    · rintro rfl
      cases ht
  value hs := h.value hs t hnext

/-- The end of a block does not go on with any statement. -/
theorem stops_of_endsBlock {s : Stmt} {t : Token} (h : endsBlock t = true) : Stops chains s t := by
  have hall : mayContinue t = false ∧ t ≠ .terminal .assign ∧ startsExpression t = false := by
    cases t with
    | terminal t => cases t <;> first | (cases h; done) | exact ⟨rfl, nofun, rfl⟩
    | endOfInput => exact ⟨rfl, nofun, rfl⟩
    | _ => cases h
  exact ⟨fun _ => ⟨not_continues hall.1, hall.2.1⟩, fun _ => hall.2.2⟩

/-- Behind a statement comes the first token of the next that is no comment, or what comes behind
them all. -/
theorem look_blockTokens {ss : List Stmt} {ts : Tokens}
    (hts : ts.map (·.token) = blockTokens chains ss) (rest : Tokens) :
    (∃ next ∈ ss.find? (!·.isComment), (next.tokens chains).head? =
      some (look fin (ts ++ rest)).token ∧
      startsStatement (look fin (ts ++ rest)).token = true) ∨
      look fin (ts ++ rest) = look fin rest := by
  induction ss generalizing ts with
  | nil =>
      cases List.map_eq_nil_iff.mp hts
      exact .inr rfl
  | cons s ss ih =>
      obtain ⟨front, back, rfl, hfront, hback⟩ := List.map_eq_append_iff.mp hts
      cases hs : s.isComment with
      | false =>
          obtain ⟨t, ys, hys, ht⟩ := tokens_starts chains hs
          obtain ⟨⟨_, span⟩, behind, rfl, rfl, -⟩ := List.map_eq_cons_iff.mp (hfront.trans hys)
          refine .inl ⟨s, by simp [hs], ?_⟩
          rw [List.cons_append, List.cons_append, look_cons (isComment_of_startsStatement ht), hys]
          exact ⟨rfl, ht⟩
      | true =>
          cases s with
          | comment text span =>
              obtain ⟨⟨_, span'⟩, rfl, rfl⟩ := List.map_eq_singleton_iff.mp hfront
              rw [List.append_assoc, List.cons_append, List.nil_append, look_comment rfl]
              exact ih hback
          | _ => cases hs

/-- What comes behind a statement in a row does not go on with it. -/
theorem stops_of_row {s : Stmt} {ss : List Stmt}
    (h : ∀ next ∈ ss.find? (!·.isComment), s.Parted chains next) {ts rest : Tokens}
    (hts : ts.map (·.token) = blockTokens chains ss)
    (hrest : endsBlock (look fin rest).token = true) :
    Stops chains s (look fin (ts ++ rest)).token := by
  obtain ⟨next, hnext, hhead, hstarts⟩ | hlook := look_blockTokens hts rest
  · exact (h next hnext).stops hhead hstarts
  · rw [hlook]
    exact stops_of_endsBlock hrest

theorem isComment_of_endsBlock {t : Token} (h : endsBlock t = true) : t.isComment = false := by
  cases t with
  | comment text => cases h
  | _ => rfl

theorem block_done {stop : SourceToken} {rest : Tokens} (h : endsBlock stop.token = true) :
    Reads (block fin (stop :: rest)) [] (stop :: rest) := by
  have hlook : endsBlock (look fin (stop :: rest)).token = true := by
    rwa [look_cons (isComment_of_endsBlock h)]
  obtain ⟨t, span⟩ := stop
  rw [block.eq_def]
  cases t with
  | comment text => cases h
  | _ =>
      dsimp only
      rw [if_pos hlook]
      exact Reads.ok _

theorem block_comment {text : String} {span : Span} {ts rest : Tokens} {ss : List Stmt}
    (h : Reads (block fin ts) ss rest) :
    Reads (block fin (⟨.comment text, span⟩ :: ts)) (.comment text span :: ss) rest := by
  rw [block.eq_def]
  exact h.bind_pure fun _ => ⟨rfl, rfl⟩

theorem block_statement {t : SourceToken} {ts mid rest : Tokens} {s : Stmt} {ss : List Stmt}
    (ht : startsStatement t.token = true) (hs : Reads (statement fin (t :: ts)) s mid)
    (h : Reads (block fin mid) ss rest) : Reads (block fin (t :: ts)) (s :: ss) rest := by
  have hlook : ¬endsBlock (look fin (t :: ts)).token = true := by
    rw [look_cons (isComment_of_startsStatement ht), endsBlock_of_startsStatement ht]
    nofun
  obtain ⟨t, span⟩ := t
  rw [block.eq_def]
  cases t with
  | comment text => cases ht
  | _ =>
      dsimp only
      rw [if_neg hlook]
      exact hs.bind fun _ => h.bind_pure fun _ => ⟨rfl, rfl⟩

/-- Reading gives a statement back, and behind its keyword if it is a conditional. -/
structure Recovered (chains : Stmt → Bool) (fin : SourceToken) (s : Stmt) : Prop where
  statement : s.isComment = false → ∀ ts rest : Tokens, ts.map (·.token) = s.tokens chains →
    Stops chains s (look fin rest).token → RecoveredFrom (Parser.statement fin (ts ++ rest)) rest s
  conditional : s.isConditional = true → ConditionalRecovered chains fin s

theorem Recovered.of_conditional {condition : Expr} {thenBlock elseBlock : List Stmt} {span : Span}
    (h : ConditionalRecovered chains fin (.cond condition thenBlock elseBlock span)) :
    Recovered chains fin (.cond condition thenBlock elseBlock span) where
  statement := by
    intro _ ts rest hts _
    obtain ⟨start, behind, rfl, hbehind⟩ := exists_of_terminal hts
    obtain ⟨s', hreads, herase⟩ := h behind rest start hbehind
    refine ⟨s', ?_, herase⟩
    rw [List.cons_append, Parser.statement, nextTerminal?_cons]
    exact hreads.bind_pure fun _ => ⟨rfl, rfl⟩
  conditional _ := h

theorem BlockRecovered.nil : BlockRecovered chains fin [] := by
  intro ts hts stop rest hstop
  cases List.map_eq_nil_iff.mp hts
  exact ⟨[], block_done hstop, rfl⟩

/-- A statement and those behind it, which part from it, are given back as a block. -/
theorem BlockRecovered.cons {s : Stmt} {ss : List Stmt} (hs : Recovered chains fin s)
    (hrow : ∀ next ∈ ss.find? (!·.isComment), s.Parted chains next)
    (hss : BlockRecovered chains fin ss) :
    BlockRecovered chains fin (s :: ss) := by
  intro ts hts stop rest hstop
  obtain ⟨front, back, rfl, hfront, hback⟩ := List.map_eq_append_iff.mp hts
  obtain ⟨ss', hblock, hblockErase⟩ := hss back hback stop rest hstop
  cases hcomment : s.isComment with
  | true =>
      cases s with
      | comment text span =>
          obtain ⟨⟨_, span'⟩, rfl, rfl⟩ := List.map_eq_singleton_iff.mp hfront
          exact ⟨.comment text span' :: ss', block_comment hblock,
            congrArg (Stmt.comment text .origin :: ·) hblockErase⟩
      | _ => cases hcomment
  | false =>
      have hlook : endsBlock (look fin (stop :: rest)).token = true := by
        rwa [look_cons (isComment_of_endsBlock hstop)]
      obtain ⟨s', hreads, herase⟩ :=
        hs.statement hcomment front _ hfront (stops_of_row hrow hback hlook)
      obtain ⟨t, ys, hys, ht⟩ := tokens_starts chains hcomment
      obtain ⟨⟨_, span⟩, behind, rfl, rfl, -⟩ := List.map_eq_cons_iff.mp (hfront.trans hys)
      refine ⟨s' :: ss', ?_, ?_⟩
      · rw [List.append_assoc]
        exact block_statement ht hreads hblock
      · simp only [eraseAllSpans, herase, hblockErase]

theorem AlternativeRecovered.nil : AlternativeRecovered chains fin [] := by
  intro ts hts start sign before first second rest condition thenBlock hcondition hsign hthen
  obtain ⟨stop, rfl⟩ := exists_of_lastTerminal hts
  refine ⟨[], start.merge stop, ?_, rfl⟩
  rw [conditional]
  refine hcondition.bind fun _ => hsign.bind fun _ => hthen.bind fun _ => ?_
  simp only [List.cons_append, List.nil_append,
    accept?_cons_ne (show Terminal.endWord ≠ .elseifWord by decide),
    accept?_cons_ne (show Terminal.endWord ≠ .elseWord by decide)]
  exact (expect_reads .endWord stop).bind_pure fun _ => ⟨rfl, rfl⟩

theorem AlternativeRecovered.cons {s : Stmt} {ss : List Stmt}
    (hs : s.isConditional = true → ConditionalRecovered chains fin s)
    (hblock : BlockRecovered chains fin (s :: ss)) : AlternativeRecovered chains fin (s :: ss) := by
  intro ts hts start sign before first second rest condition thenBlock hcondition hsign hthen
  rw [alternativeTokens] at hts
  split at hts
  · next hchained =>
      obtain ⟨keyword, behind, rfl, hbehind⟩ := exists_of_terminal hts
      simp only [Bool.and_eq_true, List.isEmpty_iff] at hchained
      obtain ⟨⟨hconditional, rfl⟩, -⟩ := hchained
      obtain ⟨s', hreads, herase⟩ := hs hconditional behind rest keyword hbehind
      refine ⟨[s'], start.merge s'.span, ?_, ?_⟩
      · rw [conditional]
        refine hcondition.bind fun _ => hsign.bind fun _ => hthen.bind fun _ => ?_
        simp only [List.cons_append, accept?_cons]
        exact hreads.bind_pure fun _ => ⟨rfl, rfl⟩
      · simp only [eraseAllSpans, herase]
  · obtain ⟨keyword, behind, rfl, hbehind⟩ := exists_of_terminal hts
    rw [← List.append_assoc] at hbehind
    obtain ⟨inner, last, rfl, hinner, hlast⟩ := List.map_eq_append_iff.mp hbehind
    obtain ⟨stop, rfl⟩ := exists_of_lastTerminal hlast
    obtain ⟨ss', helse, herase⟩ := hblock inner hinner (Terminal.endWord.token stop) rest rfl
    rw [List.cons_append, List.append_assoc] at hthen
    refine ⟨ss', start.merge stop, ?_, herase⟩
    rw [conditional]
    refine hcondition.bind fun _ => hsign.bind fun _ => hthen.bind fun _ => ?_
    simp only [accept?_cons_ne (show Terminal.elseWord ≠ .elseifWord by decide), accept?_cons]
    exact helse.bind fun _ => (expect_reads .endWord stop).bind_pure fun _ => ⟨rfl, rfl⟩

mutual

theorem recovered (chains : Stmt → Bool) (fin : SourceToken) :
    ∀ s : Stmt, s.Unannotated → s.TargetsAssignable →
    s.Separated chains → Recovered chains fin s
  | .expr e, h, _, _ => ⟨fun _ _ _ => expr_recovered h, nofun⟩
  | .var d, h, _, _ => ⟨fun _ _ _ => var_recovered h, nofun⟩
  | .assign target value span, h, ht, _ => ⟨fun _ _ _ => assign_recovered h.1 h.2 ht, nofun⟩
  | .cond condition thenBlock elseBlock span, h, ht, hs =>
      .of_conditional (conditional_recovered h.1 (allRecovered chains fin thenBlock h.2.1 ht.1 hs.1)
        (alternativeRecovered chains fin elseBlock h.2.2 ht.2 hs.2))
  | .whileLoop condition body span, h, ht, hs =>
      ⟨fun _ _ _ hts _ => whileLoop_recovered h.1 (allRecovered chains fin body h.2 ht hs)
        hts, nofun⟩
  | .repeatLoop count body span, h, ht, hs =>
      ⟨fun _ _ _ hts _ => repeatLoop_recovered h.1 (allRecovered chains fin body h.2 ht hs)
        hts, nofun⟩
  | .ret value span, h, _, _ => ⟨fun _ _ _ => ret_recovered h, nofun⟩
  | .breakLoop span, _, _, _ => by
      refine ⟨fun _ ts rest hts _ => ?_, nofun⟩
      obtain ⟨span', rfl⟩ := exists_of_lastTerminal hts
      refine ⟨.breakLoop span', ?_, rfl⟩
      rw [List.cons_append, statement, nextTerminal?_cons]
      exact Reads.ok _
  | .continueLoop span, _, _, _ => by
      refine ⟨fun _ ts rest hts _ => ?_, nofun⟩
      obtain ⟨span', rfl⟩ := exists_of_lastTerminal hts
      refine ⟨.continueLoop span', ?_, rfl⟩
      rw [List.cons_append, statement, nextTerminal?_cons]
      exact Reads.ok _
  | .comment text span, _, _, _ => ⟨nofun, nofun⟩

/-- **Reading gives every separated block back.** -/
theorem allRecovered (chains : Stmt → Bool) (fin : SourceToken) :
    ∀ ss : List Stmt, AllUnannotated ss →
    AllTargetsAssignable ss → AllSeparated chains ss → BlockRecovered chains fin ss
  | [], _, _, _ => .nil
  | s :: rest, h, ht, hs =>
      .cons (recovered chains fin s h.1 ht.1 hs.1) hs.2.1
        (allRecovered chains fin rest h.2 ht.2 hs.2.2)

theorem alternativeRecovered (chains : Stmt → Bool) (fin : SourceToken) :
    ∀ ss : List Stmt, AllUnannotated ss →
    AllTargetsAssignable ss → AllSeparated chains ss → AlternativeRecovered chains fin ss
  | [], _, _, _ => .nil
  | s :: rest, h, ht, hs =>
      have hfirst := recovered chains fin s h.1 ht.1 hs.1
      .cons hfirst.conditional (.cons hfirst hs.2.1 (allRecovered chains fin rest h.2 ht.2 hs.2.2))

end

end Stmt

end Stepwise
