import Stepwise.Proofs.Program.Derivation

/-!
# Where the nodes of a program are written

The spans in a tree are made of the spans of tokens: a node has the span of a token, or one around
two spans of its parts. A property of spans that holds of the tokens and passes to the span around
two spans therefore holds of every span in the tree that is read, and of the place where reading
stops with a fault of grammar (`Program.ofTokens_within`).
-/

set_option autoImplicit false

namespace Stepwise

open Diagnosed

/-! ## Trees -/

mutual

/-- All spans in an expression have a property. -/
def Expr.Within (Q : Span → Prop) : Expr → Prop
  | .number i _ | .boolean i _ | .string i _ | .reference i _ _ => Q i.span
  | .call i name arguments _ => Q i.span ∧ Q name.span ∧ Expr.AllWithin Q arguments
  | .field i record name => Q i.span ∧ record.Within Q ∧ Q name.span
  | .unary i _ operand => Q i.span ∧ operand.Within Q
  | .binary i _ left right => Q i.span ∧ left.Within Q ∧ right.Within Q

/-- All spans in expressions have a property. -/
def Expr.AllWithin (Q : Span → Prop) : List Expr → Prop
  | [] => True
  | e :: rest => e.Within Q ∧ Expr.AllWithin Q rest

end

/-- All spans in the declaration of a variable have a property. -/
def VarDecl.Within (Q : Span → Prop) (decl : VarDecl) : Prop :=
  Q decl.name.span ∧ (∀ name ∈ decl.typeName, Q name.span) ∧ decl.value.Within Q

mutual

/-- All spans in a statement have a property. -/
def Stmt.Within (Q : Span → Prop) : Stmt → Prop
  | .expr e => e.Within Q
  | .var decl => decl.Within Q ∧ Q decl.span
  | .assign target value span => target.Within Q ∧ value.Within Q ∧ Q span
  | .cond condition thenBlock elseBlock span =>
      condition.Within Q ∧ Stmt.AllWithin Q thenBlock ∧ Stmt.AllWithin Q elseBlock ∧ Q span
  | .whileLoop e body span | .repeatLoop e body span => e.Within Q ∧ Stmt.AllWithin Q body ∧ Q span
  | .ret value span => (∀ e ∈ value, e.Within Q) ∧ Q span
  | .breakLoop span | .continueLoop span | .comment _ span => Q span

/-- All spans in statements have a property. -/
def Stmt.AllWithin (Q : Span → Prop) : List Stmt → Prop
  | [] => True
  | s :: rest => s.Within Q ∧ Stmt.AllWithin Q rest

end

/-- All spans in the declaration of a field have a property. -/
def FieldDecl.Within (Q : Span → Prop) (decl : FieldDecl) : Prop :=
  Q decl.name.span ∧ Q decl.typeName.span

/-- All spans in the declaration of a record have a property. -/
def RecordDecl.Within (Q : Span → Prop) (decl : RecordDecl) : Prop :=
  Q decl.name.span ∧ (∀ f ∈ decl.fields, f.Within Q) ∧ Q decl.span

/-- All spans in a parameter have a property. -/
def Param.Within (Q : Span → Prop) (p : Param) : Prop := Q p.name.span ∧ Q p.typeName.span

/-- All spans in the declaration of a function have a property. -/
def FunctionDecl.Within (Q : Span → Prop) (decl : FunctionDecl) : Prop :=
  Q decl.name.span ∧ (∀ p ∈ decl.params, p.Within Q) ∧ (∀ name ∈ decl.returnTypeName, Q name.span) ∧
    Stmt.AllWithin Q decl.body

/-- All spans in a program have a property. -/
def Program.Within (Q : Span → Prop) (p : Program) : Prop :=
  (∀ d ∈ p.records, d.Within Q) ∧ (∀ f ∈ p.functions, f.Within Q) ∧ Stmt.AllWithin Q p.main

/-! Every tree has a property that all spans have. -/

mutual

theorem Expr.within_anything : ∀ e : Expr, e.Within Anything
  | .number .. | .boolean .. | .string .. | .reference .. => trivial
  | .call _ _ arguments _ => ⟨trivial, trivial, Expr.allWithin_anything arguments⟩
  | .field _ record _ => ⟨trivial, record.within_anything, trivial⟩
  | .unary _ _ operand => ⟨trivial, operand.within_anything⟩
  | .binary _ _ left right => ⟨trivial, left.within_anything, right.within_anything⟩

theorem Expr.allWithin_anything : ∀ es : List Expr, Expr.AllWithin Anything es
  | [] => trivial
  | e :: es => ⟨e.within_anything, Expr.allWithin_anything es⟩

end

mutual

theorem Stmt.within_anything : ∀ s : Stmt, s.Within Anything
  | .expr e => e.within_anything
  | .var decl => ⟨⟨trivial, fun _ _ => trivial, decl.value.within_anything⟩, trivial⟩
  | .assign target value _ => ⟨target.within_anything, value.within_anything, trivial⟩
  | .cond condition thenBlock elseBlock _ =>
      ⟨condition.within_anything, Stmt.allWithin_anything thenBlock, Stmt.allWithin_anything
        elseBlock, trivial⟩
  | .whileLoop e body _ | .repeatLoop e body _ =>
    ⟨e.within_anything, Stmt.allWithin_anything body, trivial⟩
  | .ret _ _ => ⟨fun e _ => e.within_anything, trivial⟩
  | .breakLoop _ | .continueLoop _ | .comment _ _ => trivial

theorem Stmt.allWithin_anything : ∀ ss : List Stmt, Stmt.AllWithin Anything ss
  | [] => trivial
  | s :: rest => ⟨s.within_anything, Stmt.allWithin_anything rest⟩

end

theorem Program.within_anything (p : Program) : p.Within Anything :=
  ⟨fun _ _ => ⟨trivial, fun _ _ => ⟨trivial, trivial⟩, trivial⟩,
    fun f _ =>
    ⟨trivial, fun _ _ => ⟨trivial, trivial⟩, fun _ _ => trivial, Stmt.allWithin_anything f.body⟩,
    Stmt.allWithin_anything p.main⟩

variable {Q : Span → Prop}

theorem Expr.Within.span {e : Expr} (h : e.Within Q) : Q e.span := by
  cases e with
  | number | boolean | string | reference => exact h
  | call | field | unary | binary => exact h.1

theorem Expr.Within.withSpan {e : Expr} (h : e.Within Q) {s : Span} (hs : Q s) :
    (e.withSpan s).Within Q := by
  cases e with
  | number | boolean | string | reference => exact hs
  | call | field | unary | binary => exact ⟨hs, h.2⟩

theorem Stmt.Within.span {s : Stmt} (h : s.Within Q) : Q s.span := by
  cases s with
  | expr e => exact Expr.Within.span h
  | breakLoop | continueLoop | comment => exact h
  | var | ret => exact h.2
  | assign | whileLoop | repeatLoop => exact h.2.2
  | cond => exact h.2.2.2

namespace Parser

/-! ## Reading -/

/-- Tokens ahead, with the end of the input, whose spans have a property that passes to the span
around two spans. -/
structure AheadWithin (Q : Span → Prop) (fin : SourceToken) (ts : Tokens) : Prop where
  merge : ∀ a b, Q a → Q b → Q (a.merge b)
  fin : Q fin.span
  tokens : ∀ t ∈ ts, Q t.span

variable {fin : SourceToken} {ts rest : Tokens}

/-- The tokens behind some of them. -/
theorem AheadWithin.of_suffix (hts : AheadWithin Q fin ts) (h : rest <:+ ts) :
    AheadWithin Q fin rest :=
  ⟨hts.merge, hts.fin, fun t ht => hts.tokens t (h.subset ht)⟩

/-- Reading that keeps to spans with a property. -/
def ReadsWithin {α : Type} {n : Nat} (Q : Span → Prop) (fin : SourceToken) (P : α → Prop)
    (x : Diagnosed (Parsed α n)) : Prop :=
  Keeps (Blames .grammar Q) (fun p => P p.value ∧ AheadWithin Q fin p.rest) x

theorem look_within (hts : AheadWithin Q fin ts) : Q (look fin ts).span := by
  unfold look
  cases hn : next? ts with
  | none => exact hts.fin
  | some p => exact hts.tokens _ (next?_suffix hn).2

theorem next?_within (hts : AheadWithin Q fin ts) {p : Parsed SourceToken ts.length}
    (h : next? ts = some p) :
    Q p.value.span ∧ AheadWithin Q fin p.rest := by
  obtain ⟨hsuffix, hmem⟩ := next?_suffix h
  exact ⟨hts.tokens _ hmem, hts.of_suffix hsuffix⟩

theorem nextTerminal?_within (hts : AheadWithin Q fin ts) {p : Parsed (Terminal × Span) ts.length}
    (h : nextTerminal? ts = some p) : Q p.value.2 ∧ AheadWithin Q fin p.rest := by
  unfold nextTerminal? at h
  split at h
  · next hn =>
      cases h
      exact next?_within hts hn
  · cases h

theorem accept?_within (hts : AheadWithin Q fin ts) {t : Terminal} {p : Parsed Span ts.length}
    (h : accept? t ts = some p) : Q p.value ∧ AheadWithin Q fin p.rest := by
  unfold accept? at h
  split at h
  · next hn =>
      split at h
      · cases h
        exact nextTerminal?_within hts hn
      · cases h
  · cases h

theorem nextOperator?_within (hts : AheadWithin Q fin ts) {level : Precedence}
    {p : Parsed BinaryOp ts.length} (h : nextOperator? level ts = some p) :
    AheadWithin Q fin p.rest :=
  have ⟨_, _, htakes⟩ := nextOperator?_takes h
  hts.of_suffix htakes.suffix

theorem nextUnary?_within (hts : AheadWithin Q fin ts) {p : Parsed (UnaryOp × Span) ts.length}
    (h : nextUnary? ts = some p) : Q p.value.2 ∧ AheadWithin Q fin p.rest := by
  unfold nextUnary? at h
  split at h
  · next hn =>
      obtain ⟨op, -, rfl⟩ := Option.map_eq_some_iff.mp h
      exact nextTerminal?_within hts hn
  · cases h

theorem expect_within (t : Terminal) (hts : AheadWithin Q fin ts) :
    ReadsWithin Q fin Q (expect fin t ts) := by
  unfold expect
  split
  · next ha => exact .ok (accept?_within hts ha)
  · exact .failAt ⟨rfl, look_within hts⟩

theorem identifier_within (hts : AheadWithin Q fin ts) :
    ReadsWithin Q fin (fun name => Q name.span) (identifier fin ts) := by
  unfold identifier
  split
  · next hn => exact .ok (next?_within hts hn)
  · exact .failAt ⟨rfl, look_within hts⟩

/-! ## Expressions -/

theorem fieldsBehind_within {record : Expr} (hrecord : record.Within Q) (ts : Tokens)
    (hts : AheadWithin Q fin ts) :
    ReadsWithin Q fin (Expr.Within Q) (fieldsBehind fin record ts) := by
  rw [fieldsBehind]
  split
  · exact .ok ⟨hrecord, hts⟩
  · next dot hdot =>
      refine .bind (identifier_within (accept?_within hts hdot).2) fun name ⟨hname, hrest⟩ => ?_
      have hd := dot.shorter
      have hn := name.shorter
      have hfield :
          (Expr.field (unchecked (record.span.merge name.value.span)) record name.value).Within Q :=
        ⟨hts.merge _ _ hrecord.span hname, hrecord, hname⟩
      exact .bind (fieldsBehind_within hfield _ hrest) fun _ h => .pure h
termination_by ts.length

mutual

theorem binary_within (level : Precedence) (ts : Tokens) (hts : AheadWithin Q fin ts) :
    ReadsWithin Q fin (Expr.Within Q) (binary fin level ts) := by
  rw [binary]
  refine .bind (operand_within level ts hts) fun left ⟨hleft, hrest⟩ => ?_
  have hl := left.shorter
  exact .bind (binaryBehind_within level hleft _ hrest) fun _ h => .pure h
termination_by 16 * ts.length + 2 * level.rank + 4

theorem binaryBehind_within (level : Precedence) {left : Expr} (hleft : left.Within Q) (ts : Tokens)
    (hts : AheadWithin Q fin ts) :
    ReadsWithin Q fin (Expr.Within Q) (binaryBehind fin level left ts) := by
  rw [binaryBehind]
  split
  · exact .ok ⟨hleft, hts⟩
  · next op hop =>
      have ho := op.shorter
      refine .bind (operand_within level _ (nextOperator?_within hts hop))
        fun right ⟨hright, hrest⟩ => ?_
      have hr := right.shorter
      have hjoined : (joined op.value left right.value).Within Q :=
        ⟨hts.merge _ _ hleft.span hright.span, hleft, hright⟩
      exact .bind (binaryBehind_within level hjoined _ hrest) fun _ h => .pure h
termination_by 16 * ts.length + 2 * level.rank + 3

theorem operand_within (level : Precedence) (ts : Tokens) (hts : AheadWithin Q fin ts) :
    ReadsWithin Q fin (Expr.Within Q) (operand fin level ts) := by
  rw [operand]
  split
  · next tight ht =>
      have hrank := Precedence.rank_lt_of_tighter ht
      exact binary_within tight ts hts
  · exact unary_within ts hts
termination_by 16 * ts.length + 2 * level.rank + 3

theorem unary_within (ts : Tokens) (hts : AheadWithin Q fin ts) :
    ReadsWithin Q fin (Expr.Within Q) (unary fin ts) := by
  rw [unary]
  split
  · next op hop =>
      have ho := op.shorter
      obtain ⟨hsign, hrest⟩ := nextUnary?_within hts hop
      exact .bind (unary_within _ hrest) fun inner ⟨hinner, hrest⟩ =>
        .pure ⟨⟨hts.merge _ _ hsign hinner.span, hinner⟩, hrest⟩
  · exact .bind (primary_within ts hts) fun _ ⟨hrecord, hrest⟩ =>
      .bind (fieldsBehind_within hrecord _ hrest) fun _ h => .pure h
termination_by 16 * ts.length + 2

theorem primary_within (ts : Tokens) (hts : AheadWithin Q fin ts) :
    ReadsWithin Q fin (Expr.Within Q) (primary fin ts) := by
  rw [primary]
  split
  · next hn => exact .ok (next?_within hts hn)
  · next hn => exact .ok (next?_within hts hn)
  · next hn => exact .ok (next?_within hts hn)
  · next hn => exact .ok (next?_within hts hn)
  · next span rest hrest hn =>
      have hr : rest.length < ts.length := hrest
      obtain ⟨hopen, hafter⟩ := next?_within hts hn
      exact .bind (binary_within _ _ hafter) fun _ ⟨hinner, hafter⟩ =>
        .bind (expect_within _ hafter) fun _ ⟨hclose, hafter⟩ =>
          .pure ⟨hinner.withSpan (hts.merge _ _ hopen hclose), hafter⟩
  · next name span rest hrest hn =>
      obtain ⟨hname, hafter⟩ := next?_within hts hn
      split
      · exact .ok ⟨hname, hafter⟩
      · next paren hparen =>
          have hr : rest.length < ts.length := hrest
          have hp := paren.shorter
          exact .bind (arguments_within _ (accept?_within hafter hparen).2)
              fun _ ⟨⟨hargs, hclose⟩, hafter⟩ =>
            .pure ⟨⟨hts.merge _ _ hname hclose, hname, hargs⟩, hafter⟩
  · exact .failAt ⟨rfl, look_within hts⟩
termination_by 16 * ts.length + 1
decreasing_by
  all_goals
    have : Precedence.logical.rank = 3 := rfl
    omega

theorem arguments_within (ts : Tokens) (hts : AheadWithin Q fin ts) :
    ReadsWithin Q fin (fun v => Expr.AllWithin Q v.1 ∧ Q v.2) (arguments fin ts) := by
  rw [arguments]
  split
  · next close hclose =>
      obtain ⟨hspan, hrest⟩ := accept?_within hts hclose
      exact .ok ⟨⟨trivial, hspan⟩, hrest⟩
  · refine .bind (binary_within _ _ hts) fun first ⟨hfirst, hrest⟩ => ?_
    have hf := first.shorter
    exact .bind (argumentsBehind_within _ hrest) fun _ ⟨⟨hothers, hclose⟩, hrest⟩ =>
      .pure ⟨⟨⟨hfirst, hothers⟩, hclose⟩, hrest⟩
termination_by 16 * ts.length + 11
decreasing_by
  all_goals
    have : Precedence.logical.rank = 3 := rfl
    omega

theorem argumentsBehind_within (ts : Tokens) (hts : AheadWithin Q fin ts) :
    ReadsWithin Q fin (fun v => Expr.AllWithin Q v.1 ∧ Q v.2) (argumentsBehind fin ts) := by
  rw [argumentsBehind]
  split
  · exact .bind (expect_within _ hts) fun _ ⟨hclose, hrest⟩ => .pure ⟨⟨trivial, hclose⟩, hrest⟩
  · next comma hcomma =>
      have hc := comma.shorter
      refine .bind (binary_within _ _ (accept?_within hts hcomma).2) fun first ⟨hfirst, hrest⟩ => ?_
      have hf := first.shorter
      exact .bind (argumentsBehind_within _ hrest) fun _ ⟨⟨hothers, hclose⟩, hrest⟩ =>
        .pure ⟨⟨⟨hfirst, hothers⟩, hclose⟩, hrest⟩
termination_by 16 * ts.length
decreasing_by
  all_goals
    have : Precedence.logical.rank = 3 := rfl
    omega

end

theorem expression_within (hts : AheadWithin Q fin ts) :
    ReadsWithin Q fin (Expr.Within Q) (expression fin ts) :=
  binary_within _ _ hts

/-! ## Statements -/

theorem typeAnnotation_within (hts : AheadWithin Q fin ts) :
    ReadsWithin Q fin (fun name? => ∀ name ∈ name?, Q name.span) ( typeAnnotation fin ts) := by
  unfold typeAnnotation
  split
  · exact .ok ⟨nofun, hts⟩
  · next hcolon =>
      refine .bind (identifier_within (accept?_within hts hcolon).2) fun _ ⟨hname, hrest⟩ =>
        .pure ⟨?_, hrest⟩
      rintro _ ⟨⟩
      exact hname

theorem variableBehind_within {start : Span} (hstart : Q start) (hts : AheadWithin Q fin ts) :
    ReadsWithin Q fin (Stmt.Within Q) (variableBehind fin start ts) := by
  unfold variableBehind
  exact .bind (identifier_within hts) fun _ ⟨hname, hrest⟩ =>
    .bind (typeAnnotation_within hrest) fun _ ⟨htype, hrest⟩ =>
    .bind (expect_within _ hrest) fun _ ⟨_, hrest⟩ => .bind (expression_within hrest)
      fun _ ⟨hvalue, hrest⟩ =>
      .pure ⟨⟨⟨hname, htype, hvalue⟩, hts.merge _ _ hstart hvalue.span⟩, hrest⟩

theorem returnBehind_within {start : Span} (hstart : Q start) (hts : AheadWithin Q fin ts) :
    ReadsWithin Q fin (Stmt.Within Q) (returnBehind fin start ts) := by
  unfold returnBehind
  split
  · refine .bind (expression_within hts) fun _ ⟨hvalue, hrest⟩ =>
      .pure ⟨⟨?_, hts.merge _ _ hstart hvalue.span⟩, hrest⟩
    rintro _ ⟨⟩
    exact hvalue
  · exact .ok ⟨⟨nofun, hstart⟩, hts⟩

theorem expressionOrAssignment_within (hts : AheadWithin Q fin ts) :
    ReadsWithin Q fin (Stmt.Within Q) (expressionOrAssignment fin ts) := by
  unfold expressionOrAssignment
  split
  · refine .bind (expression_within hts) fun target ⟨htarget, hrest⟩ => ?_
    dsimp only
    split
    · exact .pure ⟨htarget, hrest⟩
    · next hsign =>
        split
        · exact .bind (expression_within (accept?_within hrest hsign).2) fun _ ⟨hvalue, hrest⟩ =>
            .pure ⟨⟨htarget, hvalue, hts.merge _ _ htarget.span hvalue.span⟩, hrest⟩
        · exact .failAt ⟨rfl, htarget.span⟩
  · exact .failAt ⟨rfl, look_within hts⟩

mutual

theorem block_within (ts : Tokens) (hts : AheadWithin Q fin ts) :
    ReadsWithin Q fin (Stmt.AllWithin Q) (block fin ts) := by
  rw [block.eq_def]
  split
  · next text span rest =>
      have hspan : Q span := hts.tokens _ List.mem_cons_self
      exact .bind (block_within _ (hts.of_suffix (List.suffix_cons _ _))) fun _ ⟨hothers, hrest⟩ =>
        .pure ⟨⟨hspan, hothers⟩, hrest⟩
  · split
    · exact .ok ⟨trivial, hts⟩
    · refine .bind (statement_within ts hts) fun first ⟨hfirst, hrest⟩ => ?_
      have hf := first.shorter
      exact .bind (block_within _ hrest) fun _ ⟨hothers, hrest⟩ => .pure ⟨⟨hfirst, hothers⟩, hrest⟩
termination_by 2 * ts.length + 1

theorem statement_within (ts : Tokens) (hts : AheadWithin Q fin ts) :
    ReadsWithin Q fin (Stmt.Within Q) (statement fin ts) := by
  rw [statement]
  split
  · next hn =>
      obtain ⟨hstart, hafter⟩ := nextTerminal?_within hts hn
      exact .bind (variableBehind_within hstart hafter) fun _ h => .pure h
  · next start rest hrest hn =>
      have hr : rest.length < ts.length := hrest
      obtain ⟨hstart, hafter⟩ := nextTerminal?_within hts hn
      exact .bind (conditional_within hstart _ hafter) fun _ h => .pure h
  · next start rest hrest hn =>
      have hr : rest.length < ts.length := hrest
      obtain ⟨hstart, hafter⟩ := nextTerminal?_within hts hn
      refine .bind (expression_within hafter) fun condition ⟨hcondition, hafter⟩ =>
        .bind (expect_within _ hafter) fun sign ⟨_, hafter⟩ => ?_
      have hc := condition.shorter
      have hs := sign.shorter
      exact .bind (block_within _ hafter) fun _ ⟨hbody, hafter⟩ =>
        .bind (expect_within _ hafter) fun _ ⟨hstop, hafter⟩ =>
          .pure ⟨⟨hcondition, hbody, hts.merge _ _ hstart hstop⟩, hafter⟩
  · next start rest hrest hn =>
      have hr : rest.length < ts.length := hrest
      obtain ⟨hstart, hafter⟩ := nextTerminal?_within hts hn
      refine .bind (expression_within hafter) fun count ⟨hcount, hafter⟩ =>
        .bind (expect_within _ hafter) fun sign ⟨_, hafter⟩ => ?_
      have hc := count.shorter
      have hs := sign.shorter
      exact .bind (block_within _ hafter) fun _ ⟨hbody, hafter⟩ =>
        .bind (expect_within _ hafter) fun _ ⟨hstop, hafter⟩ =>
          .pure ⟨⟨hcount, hbody, hts.merge _ _ hstart hstop⟩, hafter⟩
  · next hn =>
      obtain ⟨hstart, hafter⟩ := nextTerminal?_within hts hn
      exact .bind (returnBehind_within hstart hafter) fun _ h => .pure h
  · next hn => exact .ok (nextTerminal?_within hts hn)
  · next hn => exact .ok (nextTerminal?_within hts hn)
  · next hn => exact .failAt ⟨rfl, (nextTerminal?_within hts hn).1⟩
  · next hn => exact .failAt ⟨rfl, (nextTerminal?_within hts hn).1⟩
  · exact expressionOrAssignment_within hts
termination_by 2 * ts.length

theorem conditional_within {start : Span} (hstart : Q start) (ts : Tokens)
    (hts : AheadWithin Q fin ts) :
    ReadsWithin Q fin (Stmt.Within Q) (conditional fin start ts) := by
  rw [conditional]
  refine .bind (expression_within hts) fun condition ⟨hcondition, hafter⟩ =>
    .bind (expect_within _ hafter) fun sign ⟨_, hafter⟩ => ?_
  have hc := condition.shorter
  have hs := sign.shorter
  refine .bind (block_within _ hafter) fun thenBlock ⟨hthen, hafter⟩ => ?_
  have ht := thenBlock.shorter
  dsimp only
  split
  · next keyword hkeyword =>
      have hk := keyword.shorter
      obtain ⟨hspan, hafter⟩ := accept?_within hafter hkeyword
      exact .bind (conditional_within hspan _ hafter) fun _ ⟨hnested, hafter⟩ =>
        .pure ⟨⟨hcondition, hthen, ⟨hnested, trivial⟩, hts.merge _ _ hstart hnested.span⟩, hafter⟩
  · split
    · next keyword hkeyword =>
        have hk := keyword.shorter
        exact .bind (block_within _ (accept?_within hafter hkeyword).2) fun _ ⟨helse, hafter⟩ =>
          .bind (expect_within _ hafter) fun _ ⟨hstop, hafter⟩ =>
            .pure ⟨⟨hcondition, hthen, helse, hts.merge _ _ hstart hstop⟩, hafter⟩
    · exact .bind (expect_within _ hafter) fun _ ⟨hstop, hafter⟩ =>
        .pure ⟨⟨hcondition, hthen, trivial, hts.merge _ _ hstart hstop⟩, hafter⟩
termination_by 2 * ts.length

end

/-! ## Programs -/

theorem fields_within (ts : Tokens) (hts : AheadWithin Q fin ts) :
    ReadsWithin Q fin (fun decls => ∀ f ∈ decls, f.Within Q) (fields fin ts) := by
  rw [fields]
  split
  · next name span rest hrest hn =>
      obtain ⟨hname, hafter⟩ := next?_within hts hn
      refine .bind (expect_within _ hafter) fun colon ⟨_, hafter⟩ =>
        .bind (identifier_within hafter) fun typeName ⟨htype, hafter⟩ => ?_
      have hr : rest.length < ts.length := hrest
      have hc := colon.shorter
      have ht := typeName.shorter
      exact .bind (fields_within _ hafter) fun _ ⟨hothers, hafter⟩ =>
        .pure ⟨List.forall_mem_cons.mpr ⟨⟨hname, htype⟩, hothers⟩, hafter⟩
  · exact .ok ⟨nofun, hts⟩
termination_by ts.length

theorem recordBehind_within {start : Span} (hstart : Q start) (hts : AheadWithin Q fin ts) :
    ReadsWithin Q fin (RecordDecl.Within Q) (recordBehind fin start ts) := by
  unfold recordBehind
  exact .bind (identifier_within hts) fun _ ⟨hname, hafter⟩ => .bind (fields_within _ hafter)
      fun _ ⟨hfields, hafter⟩ =>
    .bind (expect_within _ hafter) fun _ ⟨hstop, hafter⟩ =>
      .pure ⟨⟨hname, hfields, hts.merge _ _ hstart hstop⟩, hafter⟩

theorem parameter_within (hts : AheadWithin Q fin ts) :
    ReadsWithin Q fin (Param.Within Q) (parameter fin ts) := by
  unfold parameter
  exact .bind (identifier_within hts) fun _ ⟨hname, hafter⟩ => .bind (expect_within _ hafter)
      fun _ ⟨_, hafter⟩ =>
    .bind (identifier_within hafter) fun _ ⟨htype, hafter⟩ => .pure ⟨⟨hname, htype⟩, hafter⟩

theorem parametersBehind_within (ts : Tokens) (hts : AheadWithin Q fin ts) :
    ReadsWithin Q fin (fun params => ∀ p ∈ params, p.Within Q) (parametersBehind fin ts) := by
  rw [parametersBehind]
  split
  · exact .ok ⟨List.forall_mem_nil _, hts⟩
  · next comma hcomma =>
      refine .bind (parameter_within (accept?_within hts hcomma).2) fun first hfirst => ?_
      have hc := comma.shorter
      have hf := first.shorter
      refine .bind (parametersBehind_within _ hfirst.2) fun _ hothers => ?_
      exact .pure ⟨List.forall_mem_cons.mpr ⟨hfirst.1, hothers.1⟩, hothers.2⟩
termination_by ts.length

theorem parameters_within (hts : AheadWithin Q fin ts) :
    ReadsWithin Q fin (fun params => ∀ p ∈ params, p.Within Q) (parameters fin ts) := by
  unfold parameters
  split
  · exact .ok ⟨nofun, hts⟩
  · exact .bind (parameter_within hts) fun _ ⟨hfirst, hafter⟩ =>
      .bind (parametersBehind_within _ hafter) fun _ ⟨hothers, hafter⟩ =>
        .pure ⟨List.forall_mem_cons.mpr ⟨hfirst, hothers⟩, hafter⟩

theorem functionBehind_within (start : Span) (hts : AheadWithin Q fin ts) :
    ReadsWithin Q fin (FunctionDecl.Within Q) (functionBehind fin start ts) := by
  unfold functionBehind
  exact .bind (identifier_within hts) fun _ ⟨hname, hafter⟩ => .bind (expect_within _ hafter)
      fun _ ⟨_, hafter⟩ =>
    .bind (parameters_within hafter) fun _ ⟨hparams, hafter⟩ => .bind (expect_within _ hafter)
      fun _ ⟨_, hafter⟩ =>
      .bind (typeAnnotation_within hafter) fun _ ⟨htype, hafter⟩ =>
        .bind (block_within _ hafter) fun _ ⟨hbody, hafter⟩ => .bind (expect_within _ hafter)
          fun _ ⟨_, hafter⟩ =>
          .pure ⟨⟨hname, hparams, htype, hbody⟩, hafter⟩

theorem program_within (ts : Tokens) (hts : AheadWithin Q fin ts) :
    Keeps (Blames .grammar Q) (Program.Within Q) (program fin ts) := by
  rw [program.eq_def]
  split
  · next text span rest =>
      have hspan : Q span := hts.tokens _ List.mem_cons_self
      refine .bind (program_within _ (hts.of_suffix (List.suffix_cons _ _))) fun _ hrest => ?_
      obtain ⟨hrecords, hfunctions, hmain⟩ := hrest
      exact .pure ⟨hrecords, hfunctions, hspan, hmain⟩
  · split
    · exact .ok ⟨List.forall_mem_nil _, List.forall_mem_nil _, trivial⟩
    · next span rest hrest hn =>
        refine .bind (functionBehind_within span (next?_within hts hn).2) fun f hf => ?_
        have hshort : f.rest.length < ts.length := Nat.lt_trans f.shorter hrest
        refine .bind (program_within _ hf.2) fun _ hrest => ?_
        obtain ⟨hrecords, hfunctions, hmain⟩ := hrest
        exact .pure ⟨hrecords, List.forall_mem_cons.mpr ⟨hf.1, hfunctions⟩, hmain⟩
    · next span rest hrest hn =>
        obtain ⟨hspan, hafter⟩ := next?_within hts hn
        refine .bind (recordBehind_within hspan hafter) fun r hr => ?_
        have hshort : r.rest.length < ts.length := Nat.lt_trans r.shorter hrest
        refine .bind (program_within _ hr.2) fun _ hrest => ?_
        obtain ⟨hrecords, hfunctions, hmain⟩ := hrest
        exact .pure ⟨List.forall_mem_cons.mpr ⟨hr.1, hrecords⟩, hfunctions, hmain⟩
    · refine .bind (statement_within ts hts) fun s hs => ?_
      have hshort := s.shorter
      refine .bind (program_within _ hs.2) fun _ hrest => ?_
      obtain ⟨hrecords, hfunctions, hmain⟩ := hrest
      exact .pure ⟨hrecords, hfunctions, hs.1, hmain⟩
termination_by ts.length

end Parser

/-- What is looked for and is there is found. -/
theorem getD_find?_mem {α : Type} {p : α → Bool} {xs : List α} {d : α} (h : ∃ x ∈ xs, p x = true) :
    (xs.find? p).getD d ∈ xs := by
  obtain ⟨found, hfound⟩ := Option.isSome_iff_exists.mp (List.find?_isSome.mpr h)
  rw [hfound]
  exact List.mem_of_find?_eq_some hfound

/-- **A program has the spans of its tokens**, the end of input among them. -/
theorem Program.ofTokens_within (hmerge : ∀ a b, Q a → Q b → Q (a.merge b)) {ts : List SourceToken}
    (hts : ∀ t ∈ ts, Q t.span) (hend : ∃ t ∈ ts, t.token = .endOfInput) :
    Keeps (Blames .grammar Q) (Program.Within Q) (Program.ofTokens ts) := by
  obtain ⟨t, ht, htoken⟩ := hend
  exact Parser.program_within _ ⟨hmerge, hts _ (getD_find?_mem ⟨t, ht, by rw [htoken]⟩),
    fun t ht => hts t ((List.takeWhile_prefix _).subset ht)⟩

end Stepwise
