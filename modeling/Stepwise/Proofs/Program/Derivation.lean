import Stepwise.Proofs.Diagnosed
import Stepwise.Proofs.Program.Grammar

/-!
# Reading derives

What a reading function reads has a derivation in the grammar, and the yield of the derivation is
the stretch of tokens that it passed, but for comments it passed over. `Takes` says how a yield lies
in the tokens ahead: every token of it is the next one, or the next behind comments.

The theorems go through the reading functions one by one; each yield is put together from those of
the parts (`Takes.append`). `Program.ofTokens_derivation` is the result about whole programs.
-/

set_option autoImplicit false

namespace Stepwise

open Diagnosed Grammar

namespace Parser

/-! ## How a yield lies in the tokens -/

/-- The tokens begin with a yield, in front of whose tokens comments may stand, and these tokens
come behind it. -/
inductive Takes : Tokens → Tokens → Tokens → Prop where
  | done (ts : Tokens) : Takes ts [] ts
  | token {t : SourceToken} {ts ys rest : Tokens} : Takes ts ys rest →
      Takes (t :: ts) (t :: ys) rest
  | skip {c t : SourceToken} {ts ys rest : Tokens} : c.token.isComment = true →
      Takes ts (t :: ys) rest →
      Takes (c :: ts) (t :: ys) rest

theorem Takes.append {ts xs mid ys rest : Tokens} (hx : Takes ts xs mid) (hy : Takes mid ys rest) :
    Takes ts (xs ++ ys) rest := by
  induction hx with
  | done => exact hy
  | token _ ih => exact .token (ih hy)
  | skip hc _ ih => exact .skip hc (ih hy)

/-- A yield is what was passed without some comments: nothing else is lost, and nothing is made up
or moved. -/
theorem Takes.exists_passed {ts ys rest : Tokens} (h : Takes ts ys rest) : ∃ passed,
    ts = passed ++ rest ∧ ys.Sublist passed ∧
    ys.filter (!·.token.isComment) = passed.filter (!·.token.isComment) := by
  induction h with
  | done => exact ⟨[], rfl, .slnil, rfl⟩
  | @token t _ _ _ _ ih =>
      obtain ⟨passed, rfl, hsub, hfilter⟩ := ih
      exact ⟨t :: passed, rfl, hsub.cons_cons t, by simp [List.filter_cons, hfilter]⟩
  | @skip c _ _ _ _ hc _ ih =>
      obtain ⟨passed, rfl, hsub, hfilter⟩ := ih
      exact ⟨c :: passed, rfl, hsub.cons c, by rw [hfilter]; simp [hc]⟩

/-- What is left is a stretch at the end of the tokens. -/
theorem Takes.suffix {ts ys rest : Tokens} (h : Takes ts ys rest) : rest <:+ ts := by
  obtain ⟨passed, rfl, -, -⟩ := h.exists_passed
  exact List.suffix_append passed rest

/-- Every token of a yield is one of the tokens. -/
theorem Takes.subset {ts ys rest : Tokens} (h : Takes ts ys rest) : ys ⊆ ts := by
  obtain ⟨passed, rfl, hsub, -⟩ := h.exists_passed
  exact List.Subset.trans hsub.subset (List.subset_append_left passed rest)

/-- What was read has a form, and its yield lies in the tokens in front of the rest. -/
def Derives {α : Type} {n : Nat} (form : Tokens → α → Prop) (ts : Tokens) (p : Parsed α n) : Prop :=
  ∃ ys, form ys p.value ∧ Takes ts ys p.rest

/-- Reading leaves a stretch at the end of the tokens: none is made up or put back. -/
theorem Derives.suffix {α : Type} {n : Nat} {form : Tokens → α → Prop} {ts : Tokens}
    {p : Parsed α n} (h : Derives form ts p) : p.rest <:+ ts := by
  obtain ⟨ys, -, htakes⟩ := h
  exact htakes.suffix

/-! ## Single tokens -/

theorem next?_takes {ts : Tokens} {p : Parsed SourceToken ts.length} (h : next? ts = some p) :
    Takes ts [p.value] p.rest := by
  induction ts with
  | nil => simp [next?] at h
  | cons t rest ih =>
      rw [next?] at h
      split at h
      · next hcomment =>
          obtain ⟨q, hq, rfl⟩ := Option.map_eq_some_iff.mp h
          exact .skip hcomment (ih hq)
      · cases h
        exact .token (.done _)

theorem next?_suffix {ts : Tokens} {p : Parsed SourceToken ts.length} (h : next? ts = some p) :
    p.rest <:+ ts ∧ p.value ∈ ts :=
  ⟨(next?_takes h).suffix, (next?_takes h).subset List.mem_cons_self⟩

/-- Where no token comes next, there are comments at most. -/
theorem isComment_of_next?_eq_none {ts : Tokens} (h : next? ts = none) :
    ∀ t ∈ ts, t.token.isComment = true := by
  induction ts with
  | nil => simp
  | cons t rest ih =>
      rw [next?] at h
      split at h
      · next hcomment => exact List.forall_mem_cons.mpr ⟨hcomment, ih (Option.map_eq_none_iff.mp h)⟩
      · cases h

theorem nextTerminal?_takes {ts : Tokens} {p : Parsed (Terminal × Span) ts.length}
    (h : nextTerminal? ts = some p) :
    Takes ts [p.value.1.token p.value.2] p.rest := by
  unfold nextTerminal? at h
  split at h
  · next hn =>
      cases h
      exact next?_takes hn
  · cases h

theorem accept?_takes {t : Terminal} {ts : Tokens} {p : Parsed Span ts.length}
    (h : accept? t ts = some p) :
    Takes ts [t.token p.value] p.rest := by
  unfold accept? at h
  split at h
  · next hn =>
      split at h
      · next ht =>
          cases h
          exact ht ▸ nextTerminal?_takes hn
      · cases h
  · cases h

theorem expect_takes {fin : SourceToken} {t : Terminal} {ts : Tokens} {p : Parsed Span ts.length}
    (h : expect fin t ts = .ok p) : Takes ts [t.token p.value] p.rest := by
  unfold expect at h
  split at h
  · next ha =>
      cases h
      exact accept?_takes ha
  · simp at h

theorem identifier_takes {fin : SourceToken} {ts : Tokens} {p : Parsed Ident ts.length}
    (h : identifier fin ts = .ok p) : Takes ts [p.value.token] p.rest := by
  unfold identifier at h
  split at h
  · next hn =>
      cases h
      exact next?_takes hn
  · simp at h

theorem nextOperator?_takes {level : Precedence} {ts : Tokens} {p : Parsed BinaryOp ts.length}
    (h : nextOperator? level ts = some p) :
    p.value.precedence = level ∧ ∃ span, Takes ts [p.value.terminal.token span] p.rest := by
  unfold nextOperator? at h
  split at h
  · next t hn =>
      obtain ⟨op, hop, rfl⟩ := Option.map_eq_some_iff.mp h
      obtain ⟨hlevel, hterminal⟩ := Precedence.operator?_eq_some.mp hop
      exact ⟨hlevel, t.value.2, hterminal ▸ nextTerminal?_takes hn⟩
  · cases h

theorem nextUnary?_takes {ts : Tokens} {p : Parsed (UnaryOp × Span) ts.length}
    (h : nextUnary? ts = some p) :
    Takes ts [p.value.1.terminal.token p.value.2] p.rest := by
  unfold nextUnary? at h
  split at h
  · next t hn =>
      obtain ⟨op, hop, rfl⟩ := Option.map_eq_some_iff.mp h
      exact unaryOperator?_eq_some.mp hop ▸ nextTerminal?_takes hn
  · cases h

/-! ## Expressions

The functions that go on behind something already read are given its derivation and extend it.
-/

theorem fieldsBehind_derives {fin : SourceToken} {record : Expr} {xs : Tokens} (ts : Tokens)
    (hrecord : ExprForm .access xs record) {p : Parsed Expr (ts.length + 1)}
    (h : fieldsBehind fin record ts = .ok p) :
    Derives (fun ys => ExprForm .access (xs ++ ys)) ts p := by
  rw [fieldsBehind] at h
  split at h
  · cases h
    exact ⟨[], by simpa using hrecord, .done _⟩
  · next dot hdot =>
      obtain ⟨name, hname, h⟩ := bind_eq_ok.mp h
      obtain ⟨all, hall, h⟩ := bind_eq_ok.mp h
      have hd := dot.shorter
      have hn := name.shorter
      cases h
      obtain ⟨ys, hform, htakes⟩ :=
        fieldsBehind_derives name.rest (.field dot.value name.value hrecord) hall
      rw [List.append_assoc] at hform
      exact ⟨_, hform, (accept?_takes hdot).append ((identifier_takes hname).append htakes)⟩
termination_by ts.length

mutual

theorem binary_derives {fin : SourceToken} (level : Precedence) (ts : Tokens)
    {p : Parsed Expr ts.length} (h : binary fin level ts = .ok p) :
    Derives (ExprForm (.binary level)) ts p := by
  rw [binary] at h
  obtain ⟨left, hleft, h⟩ := bind_eq_ok.mp h
  obtain ⟨whole, hwhole, h⟩ := bind_eq_ok.mp h
  have hl := left.shorter
  cases h
  obtain ⟨xs, hform, htakes⟩ := operand_derives level ts hleft
  obtain ⟨ys, hall, hrest⟩ := binaryBehind_derives level left.rest (.operand hform) hwhole
  exact ⟨xs ++ ys, hall, htakes.append hrest⟩
termination_by 16 * ts.length + 2 * level.rank + 4

theorem binaryBehind_derives {fin : SourceToken} (level : Precedence) {left : Expr} {xs : Tokens}
    (ts : Tokens) (hleft : ExprForm (.binary level) xs left) {p : Parsed Expr (ts.length + 1)}
    (h : binaryBehind fin level left ts = .ok p) :
    Derives (fun ys => ExprForm (.binary level) (xs ++ ys)) ts p := by
  rw [binaryBehind] at h
  split at h
  · cases h
    exact ⟨[], by simpa using hleft, .done _⟩
  · next op hop =>
      obtain ⟨right, hright, h⟩ := bind_eq_ok.mp h
      obtain ⟨whole, hwhole, h⟩ := bind_eq_ok.mp h
      have ho := op.shorter
      have hr := right.shorter
      cases h
      obtain ⟨hlevel, span, hsign⟩ := nextOperator?_takes hop
      obtain ⟨ys, hform, htakes⟩ := operand_derives level op.rest hright
      obtain ⟨zs, hall, hrest⟩ :=
        binaryBehind_derives level right.rest (.operation span hlevel hleft hform) hwhole
      rw [List.append_assoc] at hall
      exact ⟨_, hall, hsign.append (htakes.append hrest)⟩
termination_by 16 * ts.length + 2 * level.rank + 3

theorem operand_derives {fin : SourceToken} (level : Precedence) (ts : Tokens)
    {p : Parsed Expr ts.length} (h : operand fin level ts = .ok p) :
    Derives (ExprForm (operandLevel level)) ts p := by
  rw [operand] at h
  split at h
  · next tight ht =>
      have hrank := Precedence.rank_lt_of_tighter ht
      have hlevel : operandLevel level = .binary tight := by rw [operandLevel, ht]
      exact hlevel ▸ binary_derives tight ts h
  · next ht =>
      have hlevel : operandLevel level = .unary := by rw [operandLevel, ht]
      exact hlevel ▸ unary_derives ts h
termination_by 16 * ts.length + 2 * level.rank + 3

theorem unary_derives {fin : SourceToken} (ts : Tokens) {p : Parsed Expr ts.length}
    (h : unary fin ts = .ok p) :
    Derives (ExprForm .unary) ts p := by
  rw [unary] at h
  split at h
  · next op hop =>
      obtain ⟨inner, hinner, h⟩ := bind_eq_ok.mp h
      have ho := op.shorter
      cases h
      obtain ⟨ys, hform, htakes⟩ := unary_derives op.rest hinner
      exact ⟨_, .prefixed op.value.2 hform, (nextUnary?_takes hop).append htakes⟩
  · obtain ⟨record, hrecord, h⟩ := bind_eq_ok.mp h
    obtain ⟨whole, hwhole, h⟩ := bind_eq_ok.mp h
    cases h
    obtain ⟨xs, hform, htakes⟩ := primary_derives ts hrecord
    obtain ⟨ys, hall, hrest⟩ := fieldsBehind_derives record.rest (.primary hform) hwhole
    exact ⟨xs ++ ys, .access hall, htakes.append hrest⟩
termination_by 16 * ts.length + 2

theorem primary_derives {fin : SourceToken} (ts : Tokens) {p : Parsed Expr ts.length}
    (h : primary fin ts = .ok p) : Derives (ExprForm .primary) ts p := by
  rw [primary] at h
  split at h
  · next hn =>
      cases h
      exact ⟨_, .number _ _, next?_takes hn⟩
  · next hn =>
      cases h
      exact ⟨_, .string _ _, next?_takes hn⟩
  · next hn =>
      cases h
      exact ⟨_, .trueWord _, next?_takes hn⟩
  · next hn =>
      cases h
      exact ⟨_, .falseWord _, next?_takes hn⟩
  · next span rest hrest hn =>
      obtain ⟨inner, hinner, h⟩ := bind_eq_ok.mp h
      obtain ⟨close, hclose, h⟩ := bind_eq_ok.mp h
      have hr : rest.length < ts.length := hrest
      cases h
      obtain ⟨ys, hform, htakes⟩ := binary_derives .logical rest hinner
      exact ⟨_, .parentheses span close.value hform,
        (next?_takes hn).append (htakes.append (expect_takes hclose))⟩
  · next name span rest hrest hn =>
      split at h
      · cases h
        exact ⟨_, .reference ⟨name, span⟩, next?_takes hn⟩
      · next paren hparen =>
          obtain ⟨args, hargs, h⟩ := bind_eq_ok.mp h
          have hp := paren.shorter
          cases h
          obtain ⟨ys, hform, htakes⟩ := arguments_derives paren.rest hargs
          exact ⟨_, .call ⟨name, span⟩ paren.value args.value.2 hform,
            (next?_takes hn).append ((accept?_takes hparen).append htakes)⟩
  · simp at h
termination_by 16 * ts.length + 1
decreasing_by
  all_goals
    have : Precedence.logical.rank = 3 := rfl
    omega

/-- The arguments of a call come with the closing parenthesis behind them. -/
theorem arguments_derives {fin : SourceToken} (ts : Tokens)
    {p : Parsed (List Expr × Span) ts.length} (h : arguments fin ts = .ok p) :
    ∃ ys, ArgumentsForm ys p.value.1 ∧
    Takes ts (ys ++ [Terminal.rightParen.token p.value.2]) p.rest := by
  rw [arguments] at h
  split at h
  · next close hclose =>
      cases h
      exact ⟨[], .none, accept?_takes hclose⟩
  · obtain ⟨first, hfirst, h⟩ := bind_eq_ok.mp h
    obtain ⟨others, hothers, h⟩ := bind_eq_ok.mp h
    have hf := first.shorter
    cases h
    obtain ⟨xs, hform, htakes⟩ := binary_derives .logical ts hfirst
    obtain ⟨ys, hall, hrest⟩ := argumentsBehind_derives first.rest hothers
    exact ⟨xs ++ ys, .some hform hall, by simpa using htakes.append hrest⟩
termination_by 16 * ts.length + 11
decreasing_by
  all_goals
    have : Precedence.logical.rank = 3 := rfl
    omega

theorem argumentsBehind_derives {fin : SourceToken} (ts : Tokens)
    {p : Parsed (List Expr × Span) ts.length} (h : argumentsBehind fin ts = .ok p) :
    ∃ ys, FurtherForm ys p.value.1 ∧
    Takes ts (ys ++ [Terminal.rightParen.token p.value.2]) p.rest := by
  rw [argumentsBehind] at h
  split at h
  · obtain ⟨close, hclose, h⟩ := bind_eq_ok.mp h
    cases h
    exact ⟨[], .nil, expect_takes hclose⟩
  · next comma hcomma =>
      obtain ⟨first, hfirst, h⟩ := bind_eq_ok.mp h
      obtain ⟨others, hothers, h⟩ := bind_eq_ok.mp h
      have hc := comma.shorter
      have hf := first.shorter
      cases h
      obtain ⟨xs, hform, htakes⟩ := binary_derives .logical comma.rest hfirst
      obtain ⟨ys, hall, hrest⟩ := argumentsBehind_derives first.rest hothers
      exact ⟨_, .cons comma.value hform hall,
        by simpa using (accept?_takes hcomma).append (htakes.append hrest)⟩
termination_by 16 * ts.length
decreasing_by
  all_goals
    have : Precedence.logical.rank = 3 := rfl
    omega

end

/-! Whatever is said to stand in front, what is read behind it leaves a stretch at the end of the
tokens. -/

theorem fieldsBehind_suffix {fin : SourceToken} (record : Expr) (ts : Tokens)
    {p : Parsed Expr (ts.length + 1)} (h : fieldsBehind fin record ts = .ok p) : p.rest <:+ ts := by
  rw [fieldsBehind] at h
  split at h
  · cases h
    exact List.suffix_refl _
  · next dot hdot =>
      obtain ⟨name, hname, h⟩ := bind_eq_ok.mp h
      obtain ⟨all, hall, h⟩ := bind_eq_ok.mp h
      have hd := dot.shorter
      have hn := name.shorter
      cases h
      have hbefore := (identifier_takes hname).suffix.trans (accept?_takes hdot).suffix
      exact (fieldsBehind_suffix _ _ hall).trans hbefore
termination_by ts.length

theorem binaryBehind_suffix {fin : SourceToken} (level : Precedence) (left : Expr) (ts : Tokens)
    {p : Parsed Expr (ts.length + 1)} (h : binaryBehind fin level left ts = .ok p) :
    p.rest <:+ ts := by
  rw [binaryBehind] at h
  split at h
  · cases h
    exact List.suffix_refl _
  · next op hop =>
      obtain ⟨right, hright, h⟩ := bind_eq_ok.mp h
      obtain ⟨whole, hwhole, h⟩ := bind_eq_ok.mp h
      have ho := op.shorter
      have hr := right.shorter
      cases h
      obtain ⟨-, span, hsign⟩ := nextOperator?_takes hop
      have hbefore := (operand_derives level _ hright).suffix.trans hsign.suffix
      exact (binaryBehind_suffix level _ _ hwhole).trans hbefore
termination_by ts.length

theorem expression_derives {fin : SourceToken} {ts : Tokens} {p : Parsed Expr ts.length}
    (h : expression fin ts = .ok p) : Derives ExpressionForm ts p :=
  binary_derives .logical ts h

/-! ## Statements -/

theorem typeAnnotation_derives {fin : SourceToken} {ts : Tokens}
    {p : Parsed (Option Ident) (ts.length + 1)} (h : typeAnnotation fin ts = .ok p) :
    Derives AnnotationForm ts p := by
  unfold typeAnnotation at h
  split at h
  · cases h
    exact ⟨[], .absent, .done _⟩
  · next colon hcolon =>
      obtain ⟨name, hname, h⟩ := bind_eq_ok.mp h
      cases h
      exact ⟨_, .present colon.value name.value, (accept?_takes hcolon).append
        (identifier_takes hname)⟩

theorem variableBehind_derives {fin : SourceToken} {start : Span} {ts : Tokens}
    {p : Parsed Stmt ts.length} (h : variableBehind fin start ts = .ok p) :
    Derives (fun ys => StmtForm (Terminal.varWord.token start :: ys)) ts p := by
  unfold variableBehind at h
  obtain ⟨name, hname, h⟩ := bind_eq_ok.mp h
  obtain ⟨typeName, htype, h⟩ := bind_eq_ok.mp h
  obtain ⟨sign, hsign, h⟩ := bind_eq_ok.mp h
  obtain ⟨value, hvalue, h⟩ := bind_eq_ok.mp h
  cases h
  obtain ⟨xs, hannotation, hx⟩ := typeAnnotation_derives htype
  obtain ⟨ys, hform, hy⟩ := expression_derives hvalue
  exact ⟨_, .declaration start sign.value name.value hannotation hform,
    (identifier_takes hname).append (hx.append ((expect_takes hsign).append hy))⟩

theorem returnBehind_derives {fin : SourceToken} {start : Span} {ts : Tokens}
    {p : Parsed Stmt (ts.length + 1)} (h : returnBehind fin start ts = .ok p) :
    Derives (fun ys => StmtForm (Terminal.returnWord.token start :: ys)) ts p := by
  unfold returnBehind at h
  split at h
  · obtain ⟨value, hvalue, h⟩ := bind_eq_ok.mp h
    cases h
    obtain ⟨ys, hform, hy⟩ := expression_derives hvalue
    exact ⟨ys, .returnValue start hform, hy⟩
  · cases h
    exact ⟨[], .returnNothing start, .done _⟩

theorem expressionOrAssignment_derives {fin : SourceToken} {ts : Tokens} {p : Parsed Stmt ts.length}
    (h : expressionOrAssignment fin ts = .ok p) : Derives StmtForm ts p := by
  unfold expressionOrAssignment at h
  split at h
  · obtain ⟨target, htarget, h⟩ := bind_eq_ok.mp h
    obtain ⟨xs, hform, hx⟩ := expression_derives htarget
    dsimp only at h
    split at h
    · cases h
      exact ⟨xs, .expression hform, hx⟩
    · next sign hsign =>
        split at h
        · next hassignable =>
            obtain ⟨value, hvalue, h⟩ := bind_eq_ok.mp h
            cases h
            obtain ⟨ys, hvalueForm, hy⟩ := expression_derives hvalue
            exact ⟨_, .assignment sign.value hform hassignable hvalueForm,
              hx.append ((accept?_takes hsign).append hy)⟩
        · simp at h
  · simp at h

mutual

theorem block_derives {fin : SourceToken} (ts : Tokens) {p : Parsed (List Stmt) (ts.length + 1)}
    (h : block fin ts = .ok p) : Derives BlockForm ts p := by
  rw [block.eq_def] at h
  split at h
  · next text span rest =>
      obtain ⟨others, hothers, h⟩ := bind_eq_ok.mp h
      cases h
      obtain ⟨ys, hform, hy⟩ := block_derives rest hothers
      exact ⟨_, .cons (.comment text span) hform, .token hy⟩
  · split at h
    · cases h
      exact ⟨[], .nil, .done _⟩
    · obtain ⟨first, hfirst, h⟩ := bind_eq_ok.mp h
      obtain ⟨others, hothers, h⟩ := bind_eq_ok.mp h
      have hf := first.shorter
      cases h
      obtain ⟨xs, hstmt, hx⟩ := statement_derives ts hfirst
      obtain ⟨ys, hform, hy⟩ := block_derives first.rest hothers
      exact ⟨_, .cons hstmt hform, hx.append hy⟩
termination_by 2 * ts.length + 1

theorem statement_derives {fin : SourceToken} (ts : Tokens) {p : Parsed Stmt ts.length}
    (h : statement fin ts = .ok p) : Derives StmtForm ts p := by
  rw [statement] at h
  split at h
  · next hn =>
      obtain ⟨decl, hdecl, h⟩ := bind_eq_ok.mp h
      cases h
      obtain ⟨ys, hform, hy⟩ := variableBehind_derives hdecl
      exact ⟨_, hform, (nextTerminal?_takes hn).append hy⟩
  · next start rest hrest hn =>
      obtain ⟨cond, hcond, h⟩ := bind_eq_ok.mp h
      have hr : rest.length < ts.length := hrest
      cases h
      obtain ⟨ys, hform, hy⟩ := conditional_derives start rest hcond
      exact ⟨_, .conditional start hform, (nextTerminal?_takes hn).append hy⟩
  · next start rest hrest hn =>
      obtain ⟨condition, hcondition, h⟩ := bind_eq_ok.mp h
      obtain ⟨sign, hsign, h⟩ := bind_eq_ok.mp h
      obtain ⟨body, hbody, h⟩ := bind_eq_ok.mp h
      obtain ⟨stop, hstop, h⟩ := bind_eq_ok.mp h
      have hr : rest.length < ts.length := hrest
      have hc := condition.shorter
      have hs := sign.shorter
      cases h
      obtain ⟨xs, hform, hx⟩ := expression_derives hcondition
      obtain ⟨ys, hblock, hy⟩ := block_derives sign.rest hbody
      exact ⟨_, .whileLoop start sign.value stop.value hform hblock, (nextTerminal?_takes hn).append
        (hx.append ((expect_takes hsign).append (hy.append (expect_takes hstop))))⟩
  · next start rest hrest hn =>
      obtain ⟨count, hcount, h⟩ := bind_eq_ok.mp h
      obtain ⟨sign, hsign, h⟩ := bind_eq_ok.mp h
      obtain ⟨body, hbody, h⟩ := bind_eq_ok.mp h
      obtain ⟨stop, hstop, h⟩ := bind_eq_ok.mp h
      have hr : rest.length < ts.length := hrest
      have hc := count.shorter
      have hs := sign.shorter
      cases h
      obtain ⟨xs, hform, hx⟩ := expression_derives hcount
      obtain ⟨ys, hblock, hy⟩ := block_derives sign.rest hbody
      exact ⟨_, .repeatLoop start sign.value stop.value hform hblock,
        (nextTerminal?_takes hn).append
          (hx.append ((expect_takes hsign).append (hy.append (expect_takes hstop))))⟩
  · next hn =>
      obtain ⟨ret, hret, h⟩ := bind_eq_ok.mp h
      cases h
      obtain ⟨ys, hform, hy⟩ := returnBehind_derives hret
      exact ⟨_, hform, (nextTerminal?_takes hn).append hy⟩
  · next hn =>
      cases h
      exact ⟨_, .breakLoop _, nextTerminal?_takes hn⟩
  · next hn =>
      cases h
      exact ⟨_, .continueLoop _, nextTerminal?_takes hn⟩
  · simp at h
  · simp at h
  · exact expressionOrAssignment_derives h
termination_by 2 * ts.length

theorem conditional_derives {fin : SourceToken} (start : Span) (ts : Tokens)
    {p : Parsed Stmt ts.length} (h : conditional fin start ts = .ok p) :
    Derives (ConditionalForm start) ts p := by
  rw [conditional] at h
  obtain ⟨condition, hcondition, h⟩ := bind_eq_ok.mp h
  obtain ⟨sign, hsign, h⟩ := bind_eq_ok.mp h
  obtain ⟨thenBlock, hthen, h⟩ := bind_eq_ok.mp h
  have hc := condition.shorter
  have hs := sign.shorter
  have ht := thenBlock.shorter
  obtain ⟨xs, hform, hx⟩ := expression_derives hcondition
  obtain ⟨ys, hblock, hy⟩ := block_derives sign.rest hthen
  dsimp only at h
  split at h
  · next keyword hkeyword =>
      obtain ⟨nested, hnested, h⟩ := bind_eq_ok.mp h
      have hk := keyword.shorter
      cases h
      obtain ⟨zs, hchained, hz⟩ := conditional_derives keyword.value keyword.rest hnested
      exact ⟨_, .chained sign.value keyword.value hform hblock hchained,
        hx.append ((expect_takes hsign).append (hy.append ((accept?_takes hkeyword).append hz)))⟩
  · split at h
    · next keyword hkeyword =>
        obtain ⟨elseBlock, helse, h⟩ := bind_eq_ok.mp h
        obtain ⟨stop, hstop, h⟩ := bind_eq_ok.mp h
        have hk := keyword.shorter
        cases h
        obtain ⟨zs, hother, hz⟩ := block_derives keyword.rest helse
        exact ⟨_, .otherwise sign.value keyword.value stop.value hform hblock hother,
          hx.append ((expect_takes hsign).append (hy.append ((accept?_takes hkeyword).append
            (hz.append (expect_takes hstop)))))⟩
    · obtain ⟨stop, hstop, h⟩ := bind_eq_ok.mp h
      cases h
      exact ⟨_, .plain sign.value stop.value hform hblock,
        hx.append ((expect_takes hsign).append (hy.append (expect_takes hstop)))⟩
termination_by 2 * ts.length

end

/-! ## Declarations -/

theorem fields_derives {fin : SourceToken} (ts : Tokens)
    {p : Parsed (List FieldDecl) (ts.length + 1)} (h : fields fin ts = .ok p) :
    Derives (Star FieldForm) ts p := by
  rw [fields] at h
  split at h
  · next name span rest hrest hn =>
      obtain ⟨colon, hcolon, h⟩ := bind_eq_ok.mp h
      obtain ⟨typeName, htype, h⟩ := bind_eq_ok.mp h
      obtain ⟨others, hothers, h⟩ := bind_eq_ok.mp h
      have hr : rest.length < ts.length := hrest
      have hc := colon.shorter
      have ht := typeName.shorter
      cases h
      obtain ⟨ys, hform, hy⟩ := fields_derives typeName.rest hothers
      exact ⟨_, .cons (.field ⟨name, span⟩ colon.value typeName.value) hform,
        (next?_takes hn).append ((expect_takes hcolon).append ((identifier_takes htype).append hy))⟩
  · cases h
    exact ⟨[], .nil, .done _⟩
termination_by ts.length

theorem recordBehind_derives {fin : SourceToken} {start : Span} {ts : Tokens}
    {p : Parsed RecordDecl ts.length} (h : recordBehind fin start ts = .ok p) :
    Derives (fun ys => RecordForm (Terminal.recordWord.token start :: ys)) ts p := by
  unfold recordBehind at h
  obtain ⟨name, hname, h⟩ := bind_eq_ok.mp h
  obtain ⟨all, hall, h⟩ := bind_eq_ok.mp h
  obtain ⟨stop, hstop, h⟩ := bind_eq_ok.mp h
  cases h
  obtain ⟨ys, hform, hy⟩ := fields_derives name.rest hall
  exact ⟨_, .record start stop.value name.value hform,
    (identifier_takes hname).append (hy.append (expect_takes hstop))⟩

theorem parameter_derives {fin : SourceToken} {ts : Tokens} {p : Parsed Param ts.length}
    (h : parameter fin ts = .ok p) : Derives ParamForm ts p := by
  unfold parameter at h
  obtain ⟨name, hname, h⟩ := bind_eq_ok.mp h
  obtain ⟨colon, hcolon, h⟩ := bind_eq_ok.mp h
  obtain ⟨typeName, htype, h⟩ := bind_eq_ok.mp h
  cases h
  exact ⟨_, .param name.value colon.value typeName.value,
    (identifier_takes hname).append ((expect_takes hcolon).append (identifier_takes htype))⟩

theorem parametersBehind_derives {fin : SourceToken} (ts : Tokens)
    {p : Parsed (List Param) (ts.length + 1)} (h : parametersBehind fin ts = .ok p) :
    Derives (Star (BehindComma ParamForm)) ts p := by
  rw [parametersBehind] at h
  split at h
  · cases h
    exact ⟨[], .nil, .done _⟩
  · next comma hcomma =>
      obtain ⟨first, hfirst, h⟩ := bind_eq_ok.mp h
      obtain ⟨others, hothers, h⟩ := bind_eq_ok.mp h
      have hc := comma.shorter
      have hf := first.shorter
      cases h
      obtain ⟨xs, hform, hx⟩ := parameter_derives hfirst
      obtain ⟨ys, hall, hy⟩ := parametersBehind_derives first.rest hothers
      exact ⟨_, .cons (.behind comma.value hform) hall, (accept?_takes hcomma).append
        (hx.append hy)⟩
termination_by ts.length

theorem parameters_derives {fin : SourceToken} {ts : Tokens}
    {p : Parsed (List Param) (ts.length + 1)} (h : parameters fin ts = .ok p) :
    Derives ParamsForm ts p := by
  unfold parameters at h
  split at h
  · cases h
    exact ⟨[], .none, .done _⟩
  · obtain ⟨first, hfirst, h⟩ := bind_eq_ok.mp h
    obtain ⟨others, hothers, h⟩ := bind_eq_ok.mp h
    cases h
    obtain ⟨xs, hform, hx⟩ := parameter_derives hfirst
    obtain ⟨ys, hall, hy⟩ := parametersBehind_derives first.rest hothers
    exact ⟨_, .some hform hall, hx.append hy⟩

theorem functionBehind_derives {fin : SourceToken} {start : Span} {ts : Tokens}
    {p : Parsed FunctionDecl ts.length} (h : functionBehind fin start ts = .ok p) :
    Derives (fun ys => FunctionForm (Terminal.funWord.token start :: ys)) ts p := by
  unfold functionBehind at h
  obtain ⟨name, hname, h⟩ := bind_eq_ok.mp h
  obtain ⟨opening, hopening, h⟩ := bind_eq_ok.mp h
  obtain ⟨params, hparams, h⟩ := bind_eq_ok.mp h
  obtain ⟨close, hclose, h⟩ := bind_eq_ok.mp h
  obtain ⟨typeName, htype, h⟩ := bind_eq_ok.mp h
  obtain ⟨body, hbody, h⟩ := bind_eq_ok.mp h
  obtain ⟨stop, hstop, h⟩ := bind_eq_ok.mp h
  cases h
  obtain ⟨xs, hparamsForm, hx⟩ := parameters_derives hparams
  obtain ⟨ys, hannotation, hy⟩ := typeAnnotation_derives htype
  obtain ⟨zs, hblock, hz⟩ := block_derives typeName.rest hbody
  refine ⟨_, .function start opening.value close.value stop.value name.value hparamsForm
    hannotation hblock, ?_⟩
  exact (identifier_takes hname).append ((expect_takes hopening).append (hx.append
    ((expect_takes hclose).append (hy.append (hz.append (expect_takes hstop))))))

/-! ## Programs -/

/-- A program is made of parts that stand one behind the other, up to the end but for comments. -/
theorem program_derives {fin : SourceToken} (ts : Tokens) {p : Program}
    (h : program fin ts = .ok p) :
    ∃ items ys rest, p = .ofItems items ∧ Star ItemForm ys items ∧ Takes ts ys rest ∧
      ∀ t ∈ rest, t.token.isComment = true := by
  rw [program.eq_def] at h
  split at h
  · next text span rest =>
      obtain ⟨others, hothers, h⟩ := bind_eq_ok.mp h
      cases h
      obtain ⟨items, ys, left, rfl, hform, hy, hleft⟩ := program_derives rest hothers
      exact ⟨.stmt (.comment text span) :: items, _, left, rfl,
        .cons (.stmt (.comment text span)) hform, .token hy, hleft⟩
  · split at h
    · next hn =>
        cases h
        exact ⟨[], [], ts, rfl, .nil, .done _, isComment_of_next?_eq_none hn⟩
    · next span rest hrest hn =>
        obtain ⟨f, hf, h⟩ := bind_eq_ok.mp h
        obtain ⟨others, hothers, h⟩ := bind_eq_ok.mp h
        have hr : f.rest.length < ts.length := Nat.lt_trans f.shorter hrest
        cases h
        obtain ⟨xs, hfunction, hx⟩ := functionBehind_derives hf
        obtain ⟨items, ys, left, rfl, hform, hy, hleft⟩ := program_derives f.rest hothers
        exact ⟨.function f.value :: items, _, left, rfl, .cons (.function hfunction) hform,
          (next?_takes hn).append (hx.append hy), hleft⟩
    · next span rest hrest hn =>
        obtain ⟨r, hrecord, h⟩ := bind_eq_ok.mp h
        obtain ⟨others, hothers, h⟩ := bind_eq_ok.mp h
        have hr : r.rest.length < ts.length := Nat.lt_trans r.shorter hrest
        cases h
        obtain ⟨xs, hrecordForm, hx⟩ := recordBehind_derives hrecord
        obtain ⟨items, ys, left, rfl, hform, hy, hleft⟩ := program_derives r.rest hothers
        exact ⟨.record r.value :: items, _, left, rfl, .cons (.record hrecordForm) hform,
          (next?_takes hn).append (hx.append hy), hleft⟩
    · obtain ⟨s, hs, h⟩ := bind_eq_ok.mp h
      obtain ⟨others, hothers, h⟩ := bind_eq_ok.mp h
      have hr := s.shorter
      cases h
      obtain ⟨xs, hstmt, hx⟩ := statement_derives ts hs
      obtain ⟨items, ys, left, rfl, hform, hy, hleft⟩ := program_derives s.rest hothers
      exact ⟨.stmt s.value :: items, _, left, rfl, .cons (.stmt hstmt) hform, hx.append hy, hleft⟩
termination_by ts.length

end Parser

/-! ## Comments in a yield

The comments of a yield are the comment statements of its tree.
-/

namespace Grammar

open Stepwise.Parser (Tokens)

@[simp] theorem filter_isComment_terminal (t : Terminal) (span : Span) (ys : Tokens) :
    (t.token span :: ys).filter (·.token.isComment) = ys.filter (·.token.isComment) := rfl

@[simp] theorem filter_isComment_identifier (name : Ident) (ys : Tokens) :
    (name.token :: ys).filter (·.token.isComment) = ys.filter (·.token.isComment) := rfl

mutual

/-- An expression has no comments. -/
theorem ExprForm.comments : ∀ {level : Level} {ys : Tokens} {e : Expr}, ExprForm level ys e →
    ys.filter (·.token.isComment) = []
  | _, _, _, .operand h => h.comments
  | _, _, _, .operation _ _ hleft hright => by simp [hleft.comments, hright.comments]
  | _, _, _, .access h => h.comments
  | _, _, _, .prefixed _ h => by simp [h.comments]
  | _, _, _, .primary h => h.comments
  | _, _, _, .field _ _ h => by simp [h.comments]
  | _, _, _, .number .. | _, _, _, .string .. | _, _, _, .trueWord .. | _, _, _, .falseWord ..
  | _, _, _, .reference .. => rfl
  | _, _, _, .call _ _ _ h => by simp [h.comments]
  | _, _, _, .parentheses _ _ h => by simp [h.comments]

theorem ArgumentsForm.comments : ∀ {ys : Tokens} {args : List Expr}, ArgumentsForm ys args →
    ys.filter (·.token.isComment) = []
  | _, _, .none => rfl
  | _, _, .some hfirst hothers => by simp [hfirst.comments, hothers.comments]

theorem FurtherForm.comments : ∀ {ys : Tokens} {args : List Expr}, FurtherForm ys args →
    ys.filter (·.token.isComment) = []
  | _, _, .nil => rfl
  | _, _, .cons _ hfirst hothers => by simp [hfirst.comments, hothers.comments]

end

theorem AnnotationForm.comments {ys : Tokens} {typeName : Option Ident}
    (h : AnnotationForm ys typeName) :
    ys.filter (·.token.isComment) = [] := by
  cases h <;> rfl

mutual

/-- The comments in the yield of a statement are those of the statement, in their order. -/
theorem StmtForm.comments : ∀ {ys : Tokens} {s : Stmt}, StmtForm ys s →
    ys.filter (·.token.isComment) = s.comments
  | _, _, .expression h => h.comments
  | _, _, .declaration _ _ _ htype hvalue =>
    by simp [htype.comments, hvalue.comments, Stmt.comments]
  | _, _, .assignment _ htarget _ hvalue =>
    by simp [htarget.comments, hvalue.comments, Stmt.comments]
  | _, _, .conditional _ h => by simp [h.comments]
  | _, _, .whileLoop _ _ _ hcondition hbody =>
    by simp [hcondition.comments, hbody.comments, Stmt.comments]
  | _, _, .repeatLoop _ _ _ hcount hbody => by simp [hcount.comments, hbody.comments, Stmt.comments]
  | _, _, .returnValue _ h => by simp [h.comments, Stmt.comments]
  | _, _, .returnNothing _ | _, _, .breakLoop _ | _, _, .continueLoop _ | _, _, .comment _ _ => rfl

theorem ConditionalForm.comments :
    ∀ {start : Span} {ys : Tokens} {s : Stmt}, ConditionalForm start ys s →
    ys.filter (·.token.isComment) = s.comments
  | _, _, _, .plain _ _ hcondition hthen => by
      simp [hcondition.comments, hthen.comments, Stmt.comments, Stmt.allComments]
  | _, _, _, .otherwise _ _ _ hcondition hthen helse => by
      simp [hcondition.comments, hthen.comments, helse.comments, Stmt.comments]
  | _, _, _, .chained _ _ hcondition hthen hnested => by
      simp [hcondition.comments, hthen.comments, hnested.comments, Stmt.comments, Stmt.allComments]

theorem BlockForm.comments : ∀ {ys : Tokens} {ss : List Stmt}, BlockForm ys ss →
    ys.filter (·.token.isComment) = Stmt.allComments ss
  | _, _, .nil => rfl
  | _, _, .cons hfirst hothers => by simp [hfirst.comments, hothers.comments, Stmt.allComments]

end

/-- The comments of things in a row are those of each of them, one after the other. -/
theorem Star.comments {α : Type} {form : Tokens → α → Prop} (comments : α → Tokens)
    (hform : ∀ ys a, form ys a → ys.filter (·.token.isComment) = comments a) {ys : Tokens}
    {as : List α} (h : Star form ys as) : ys.filter (·.token.isComment) = as.flatMap comments := by
  induction h with
  | nil => rfl
  | cons hfirst _ ih => simp [hform _ _ hfirst, ih]

theorem FieldForm.comments {ys : Tokens} {d : FieldDecl} (h : FieldForm ys d) :
    ys.filter (·.token.isComment) = [] := by
  cases h
  rfl

theorem ParamForm.comments {ys : Tokens} {p : Param} (h : ParamForm ys p) :
    ys.filter (·.token.isComment) = [] := by
  cases h
  rfl

theorem ParamsForm.comments {ys : Tokens} {ps : List Param} (h : ParamsForm ys ps) :
    ys.filter (·.token.isComment) = [] := by
  cases h with
  | none => rfl
  | some hfirst hothers =>
      have hfurther := hothers.comments (fun _ => []) fun _ _ h => by
        cases h with
        | behind _ h => simp [h.comments]
      simp [hfirst.comments, hfurther]

theorem ItemForm.comments {ys : Tokens} {item : Item} (h : ItemForm ys item) :
    ys.filter (·.token.isComment) = item.comments := by
  cases h with
  | record h =>
      cases h with
      | record _ _ _ hfields =>
          have hall := hfields.comments (fun _ => []) fun _ _ h => h.comments
          simp [hall, Item.comments]
  | function h =>
      cases h with
      | function _ _ _ _ _ hparams htype hbody =>
          simp [hparams.comments, htype.comments, hbody.comments, Item.comments]
  | stmt h => exact h.comments

end Grammar

/-- The comments of a program are those of its parts, up to the order of the parts. -/
theorem Program.comments_ofItems (items : List Item) :
    (Program.ofItems items).comments.Perm (items.flatMap Item.comments) := by
  induction items with
  | nil => rfl
  | cons item rest ih =>
      cases item with
      | record d => exact ih
      | function d =>
          have hcomments : (Program.ofItems (.function d :: rest)).comments =
              Stmt.allComments d.body ++ (Program.ofItems rest).comments := List.append_assoc _ _ _
          rw [hcomments]
          exact ih.append_left _
      | stmt s => exact (List.perm_append_comm_assoc _ s.comments _).trans (ih.append_left _)

/-- A program is read up to the end of the input. -/
theorem Program.ofTokens_end {body : List SourceToken} {fin : SourceToken}
    (hbody : ∀ t ∈ body, t.token ≠ .endOfInput) (hfin : fin.token = .endOfInput) :
    Program.ofTokens (body ++ [fin]) = Parser.program fin body := by
  unfold Program.ofTokens
  extract_lets isEnd
  have hisEnd : isEnd fin = true := by simp [isEnd, hfin]
  have hbefore : ∀ t ∈ body, isEnd t = false := by
    intro t ht
    have hne := hbody t ht
    simp only [isEnd]
  have hfind : (body ++ [fin]).find? isEnd = some fin := by
    rw [List.find?_append, List.find?_eq_none.mpr fun t ht => by simp [hbefore t ht]]
    simp [hisEnd]
  rw [hfind, List.takeWhile_append_of_pos fun t ht => by simp [hbefore t ht]]
  simp [hisEnd]

/-- **Reading accepts only the grammar and loses nothing.** A program that is read from tokens is
made of parts in a row that the grammar derives. The yield of the derivation holds every token in
front of the end that is no comment, once and in order. The comments of the program are comments
among the tokens, each at most once and in order. -/
theorem Program.ofTokens_derives {body : List SourceToken} {fin : SourceToken} {p : Program}
    (hbody : ∀ t ∈ body, t.token ≠ .endOfInput) (hfin : fin.token = .endOfInput)
    (h : Program.ofTokens (body ++ [fin]) = .ok p) :
    ∃ items ys, p = .ofItems items ∧ Star ItemForm ys items ∧ ys.Sublist body ∧
      ys.filter (!·.token.isComment) = body.filter (!·.token.isComment) ∧
      (items.flatMap Item.comments).Sublist (body.filter (·.token.isComment)) ∧
      p.comments.Perm (items.flatMap Item.comments) := by
  rw [Program.ofTokens_end hbody hfin] at h
  obtain ⟨items, ys, rest, rfl, hform, htakes, hrest⟩ := Parser.program_derives body h
  obtain ⟨passed, rfl, hsub, hfilter⟩ := htakes.exists_passed
  have hleft : rest.filter (!·.token.isComment) = [] := by
    simpa [List.filter_eq_nil_iff] using hrest
  have hcomments : ys.filter (·.token.isComment) = items.flatMap Item.comments :=
    hform.comments Item.comments fun _ _ h => h.comments
  have hbelow : ys.Sublist (passed ++ rest) := hsub.trans (List.sublist_append_left passed rest)
  refine ⟨items, ys, rfl, hform, hbelow, ?_, ?_, Program.comments_ofItems items⟩
  · rw [List.filter_append, hleft, hfilter, List.append_nil]
  · rw [← hcomments]
    exact hbelow.filter _

/-- A function whose parentheses hold a comment that is passed over, and whose body is a comment;
then an assignment to a variable in parentheses. -/
def commentedTokens : List SourceToken :=
  [⟨.terminal .funWord, .origin⟩, ⟨.identifier "f", .origin⟩, ⟨.terminal .leftParen, .origin⟩,
    ⟨.comment "passed over", .origin⟩, ⟨.terminal .rightParen, .origin⟩, ⟨.comment "kept", .origin⟩,
    ⟨.terminal .endWord, .origin⟩, ⟨.terminal .leftParen, .origin⟩, ⟨.identifier "x", .origin⟩,
    ⟨.terminal .rightParen, .origin⟩, ⟨.terminal .assign, .origin⟩, ⟨.terminal .trueWord, .origin⟩]

theorem Program.ofTokens_derives_commented : ∃ p : Program,
    Program.ofTokens (commentedTokens ++ [⟨.endOfInput, .origin⟩]) = .ok p ∧
    p.comments = [⟨.comment "kept", .origin⟩] ∧
    ∃ items ys, p = .ofItems items ∧ Star ItemForm ys items ∧ ys.Sublist commentedTokens ∧
      ys.filter (!·.token.isComment) = commentedTokens.filter (!·.token.isComment) := by
  have hread :
      (Program.ofTokens (commentedTokens ++ [⟨.endOfInput, .origin⟩])).map Program.comments =
      .ok [⟨.comment "kept", .origin⟩] := by decide +kernel
  obtain ⟨p, hp, hcomments⟩ := map_eq_ok.mp hread
  obtain ⟨items, ys, hitems, hform, hsub, hfilter, -, -⟩ :=
    Program.ofTokens_derives (by simp [commentedTokens]) rfl hp
  exact ⟨p, hp, hcomments, items, ys, hitems, hform, hsub, hfilter⟩

end Stepwise
