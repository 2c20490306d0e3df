import Stepwise.Proofs.Program.Bounds
import Stepwise.Proofs.Program.Derivation
import Stepwise.Proofs.Program.Foresight
import Stepwise.Proofs.Token.Tiling

/-!
# Errors at the earliest token

The functions of the parser foresee errors (`planned`). They are shown to do so for one more token
ahead at a time: where all of them plan with a bound, one level of each of them does with the next
one (`Planned.once`), and the rules for readers in a row follow its definition. What can be read
from nothing is found first, since calls behind a token rely on it without any bound.

One function needs more than the rules. A statement may end in front of an equals sign that cannot
be there, and then this sign is at fault, although what is in front of it can only be continued by
reading on behind the statement. So a statement is taken together with what is read behind it
(`Once.statementThen`).

`syntax_error_earliest` states for whole sources what this comes to.
-/

set_option autoImplicit false

namespace Stepwise

namespace Parser

open Grammar (mayContinue)
open Reader (take? looksAt reject need refuse comment? atEnd)
open Calls (parser)

variable {α β : Type} {n : Nat}

/-! ## Kinds of tokens -/

/-- The tokens of a terminal. -/
def Is (u : Terminal) (t : SourceToken) : Prop := t.token = .terminal u

/-- The tokens of identifiers. -/
def IsName (t : SourceToken) : Prop := ident? t ≠ none

/-- The tokens that operands without unary operators begin with. -/
def IsAtom (t : SourceToken) : Prop := atom? t ≠ none

/-- The tokens that expressions begin with. -/
def Starts (t : SourceToken) : Prop := startsExpression t.token = true

/-- The tokens that continue no expression. -/
def Quiet (t : SourceToken) : Prop := mayContinue t.token = false

/-- The tokens that blocks end before. -/
def Ends (t : SourceToken) : Prop := endsBlock t.token = true

/-- The end of the input. -/
def AtEnd (t : SourceToken) : Prop := t.token = .endOfInput

/-- Tokens that can stand behind any statement: a `break`, which continues none, or what a block
ends before. -/
def Follows (t : SourceToken) : Prop := Is .breakWord t ∨ Ends t

/-- These tokens without their spans. -/
def followers : List Token :=
  [.terminal .breakWord, .terminal .elseifWord, .terminal .elseWord, .terminal .endWord,
    .endOfInput]

theorem IsName.not_is {u : Terminal} {t : SourceToken} (h : IsName t) : ¬Is u t := by
  obtain ⟨token, span⟩ := t
  rintro ht
  cases (show token = .terminal u from ht)
  exact h rfl

theorem terminal?_eq_none {u : Terminal} {t : SourceToken} (h : ¬Is u t) :
    terminal? u t = none := by
  unfold terminal?
  split
  · next v span =>
      apply if_neg
      rintro rfl
      exact h rfl
  · rfl

theorem isTerminal_eq_true {u : Terminal} {t : SourceToken} :
    isTerminal u t.token = true ↔ Is u t := by
  unfold isTerminal Is
  split
  · next v hv => simp [hv]
  · next hne => simpa using hne u

theorem isTerminal_eq_false {u : Terminal} {t : SourceToken} (h : ¬Is u t) :
    isTerminal u t.token = false := by
  rw [← Bool.not_eq_true, isTerminal_eq_true]
  exact h

theorem terminal?_token (u : Terminal) (span : Span) :
    terminal? u ⟨.terminal u, span⟩ = some span := if_pos rfl

theorem Is.ne {u v : Terminal} {t : SourceToken} (h : Is u t) (hne : u ≠ v) : ¬Is v t := fun h' =>
  hne (Token.terminal.inj (h.symm.trans h'))

theorem Is.eq_none {u : Terminal} {k : SourceToken → Option β} {t : SourceToken} (h : Is u t)
    (hk : ∀ span, k ⟨.terminal u, span⟩ = none) : k t = none := by
  obtain ⟨token, span⟩ := t
  cases (show token = .terminal u from h)
  exact hk span

theorem Is.ends {u : Terminal} {t : SourceToken} (h : Is u t)
    (hu : endsBlock (.terminal u) = true) : Ends t := by
  rw [Ends, h, hu]

theorem AtEnd.ends {t : SourceToken} (h : AtEnd t) : Ends t := by
  rw [Ends, h]
  rfl

theorem Quiet.ne {u : Terminal} {t : SourceToken} (h : Quiet t)
    (hu : mayContinue (.terminal u) = true) : ¬Is u t := by
  intro ht
  rw [Quiet, ht, hu] at h
  cases h

theorem Quiet.operatorOf? {p : Precedence} {t : SourceToken} (h : Quiet t) :
    operatorOf? p t = none := by
  obtain ⟨token, span⟩ := t
  cases token with
  | terminal u =>
      cases hop : p.operator? u with
      | none => exact hop
      | some op =>
          have hmay : mayContinue (.terminal u) = true := by cases p <;> simp [mayContinue, hop]
          exact absurd rfl (h.ne hmay)
  | _ => rfl

theorem Is.quiet {u : Terminal} {t : SourceToken} (h : Is u t)
    (hu : mayContinue (.terminal u) = false) : Quiet t := by
  rw [Quiet, h, hu]

theorem Follows.token_mem {t : SourceToken} (h : Follows t) : t.token ∈ followers := by
  obtain ⟨token, span⟩ := t
  rcases h with h | h
  · cases (show token = .terminal .breakWord from h)
    simp [followers]
  · cases token with
    | terminal u => cases u <;> simp_all [Ends, endsBlock, followers]
    | endOfInput => simp [followers]
    | _ => cases h

theorem Follows.quiet {t : SourceToken} (h : Follows t) : Quiet t := by
  have hall : ∀ token ∈ followers, mayContinue token = false := by decide
  exact hall t.token h.token_mem

theorem Follows.ne {u : Terminal} {t : SourceToken} (h : Follows t) (hu : u ≠ .breakWord)
    (hends : endsBlock (.terminal u) = false) : ¬Is u t := by
  intro ht
  rcases h with h | h
  · exact h.ne hu.symm ht
  · rw [Ends, ht, hends] at h
    cases h

theorem Follows.not_starts {t : SourceToken} (h : Follows t) :
    startsExpression t.token = false := by
  have hall : ∀ token ∈ followers, startsExpression token = false := by decide
  exact hall t.token h.token_mem

theorem Follows.not_declaration {t : SourceToken} (h : Follows t) : declaration? t = none := by
  have hall : ∀ token ∈ followers, declaration? ⟨token, t.span⟩ = none := by
    simp [followers, declaration?]
  exact hall t.token h.token_mem

/-- What may begin an expression is a unary operator or else begins an operand. -/
theorem Starts.atom {t : SourceToken} (h : Starts t) (hunary : unaryOf? t = none) : IsAtom t := by
  obtain ⟨token, span⟩ := t
  cases token with
  | terminal u =>
    cases u <;> simp_all [Starts, startsExpression, unaryOf?, unaryOperator?, IsAtom, atom?]
  | _ => simp_all [Starts, startsExpression, IsAtom, atom?]

/-- A statement that begins with no keyword begins with an expression. -/
theorem starts_of_opensStatement {t : SourceToken} (h : opensStatement t.token = true)
    (hk : keyword? t = none) : Starts t := by
  obtain ⟨token, span⟩ := t
  unfold Starts
  cases token with
  | terminal u =>
      cases hu : keywordOf? u with
      | none => simpa [opensStatement, hu] using h
      | some keyword => simp [keyword?, hu] at hk
  | _ => simpa [opensStatement] using h

/-! ## Terminals and identifiers -/

section Terminals

variable {P Q : SourceToken → Prop}

theorem Completes.needTerminal {u : Terminal} {g : Span → Reader α}
    (hg : ∀ span, Completes (g span) (Next P) (Next Q) []) :
    Completes (needTerminal u >>= g) (Next (Is u)) (Next Q) [] :=
  .need (fun _ => by simp) (terminal?_token u .origin) rfl nofun rfl (hg _)

theorem Completes.takeTerminal? {u : Terminal} {g : Option Span → Reader α}
    (hg : Completes (g none) (Next P) (Next Q) []) (hP : ∀ t, P t → ¬Is u t) :
    Completes (Reader.take? (terminal? u) >>= g) (Next P) (Next Q) [] :=
  .take? hg fun t ht => ⟨ht, terminal?_eq_none (hP t ht)⟩

theorem Plans.takeTerminal? {u : Terminal} {g : Option Span → Reader α} {P₁ : SourceToken → Prop}
    (hsome : ∀ span, Plans n Never P₁ Q (g (some span))) (hnone : Plans (n + 1) Never P Q (g none))
    (hP : ∀ t, P t → ¬Is u t) : Plans (n + 1) Never P Q (Reader.take? (terminal? u) >>= g) :=
  .take? (fun _ => rfl) hsome hnone (fun t ht => ⟨ht, terminal?_eq_none (hP t ht)⟩) fun _ =>
    False.elim

theorem Plans.takeTerminalOn? {u : Terminal} {g : Option Span → Reader α} {P₁ : SourceToken → Prop}
    (hsome : ∀ span, Plans n Never P₁ Q (g (some span))) (hnone : Plans n Never P Q (g none))
    (hP : ∀ t, P t → ¬Is u t) : Plans n Never P Q (Reader.take? (terminal? u) >>= g) :=
  .takeOn? (fun _ => rfl) hsome hnone fun t ht => ⟨ht, terminal?_eq_none (hP t ht)⟩

theorem Plans.needTerminal {u : Terminal} {g : Span → Reader α}
    (hg : ∀ span, Plans n Never P Q (g span)) :
    Plans n Never (Is u) Q (needTerminal u >>= g) := by
  apply Plans.fewer _ (Nat.le_succ n)
  exact .need hg (terminal?_token u .origin) rfl nofun rfl (fun _ => rfl) (fun _ => False.elim)
    fun _ => rfl

/-- An expression in front of a terminal that does not continue it. -/
theorem Plans.before {x : Reader α} (h : Plans n Starts P Quiet x) {u : Terminal}
    (hu : mayContinue (.terminal u) = false) : Plans n Never P (Is u) x :=
  h.mono (fun _ => False.elim) (fun _ => id) fun _ ht => ht.quiet hu

theorem Plans.needIdent {g : Ident → Reader α} (hg : ∀ name, Plans n Never P Q (g name)) :
    Plans n Never IsName Q (needIdent >>= g) := by
  have hname : ident? (Ident.token ⟨"", .origin⟩) = some ⟨"", .origin⟩ := rfl
  apply Plans.fewer _ (Nat.le_succ n)
  exact .need hg hname rfl nofun (by simp [IsName, hname]) (fun _ => rfl) (fun _ => False.elim)
    fun _ => rfl

end Terminals

/-! ## What the functions of the parser can read from nothing -/

section Fresh

theorem fieldsBehind_fresh (record : Expr) :
    Completes (parser.fieldsBehind record) (Next Quiet) (Next Quiet) [] := by
  rw [← fieldsBehind_once]
  exact .takeTerminal? (.pure record fun _ => id) fun t ht => ht.ne rfl

theorem binaryBehind_fresh (p : Precedence) (left : Expr) :
    Completes (parser.binaryBehind p left) (Next Quiet) (Next Quiet) [] := by
  rw [← binaryBehind_once]
  exact .take? (.pure left fun _ => id) fun t ht => ⟨ht, ht.operatorOf?⟩

theorem primary_fresh : Completes (Once.primary parser) (Next (Is .trueWord)) (Next Quiet) [] := by
  have htrue : atom? (Terminal.trueWord.token .origin) =
    some (.literal (.boolean (unchecked .origin) true)) := rfl
  have hliteral (e : Expr) :
      Completes (Once.atomBehind parser (.literal e)) (Next Quiet) (Next Quiet) [] :=
    .pure e fun _ => id
  exact .need (fun _ => by simp) htrue rfl nofun rfl (hliteral _)

theorem unary_fresh : Completes parser.unary (Next (Is .trueWord)) (Next Quiet) [] := by
  rw [← unary_once]
  apply Completes.take? (primary_fresh.bind fieldsBehind_fresh)
  exact fun t ht => ⟨ht, ht.eq_none fun _ => rfl⟩

theorem operand_fresh (p : Precedence) :
    Completes (parser.operand p) (Next (Is .trueWord)) (Next Quiet) [] := by
  rw [← operand_once, Once.operand]
  split
  · next q hq =>
      have hrank := Precedence.rank_lt_of_tighter hq
      rw [operand_once]
      exact (operand_fresh q).bind fun left => binaryBehind_fresh q left
  · rw [unary_once]
    exact unary_fresh
termination_by p.rank

theorem expression_fresh : Completes parser.expression (Next (Is .trueWord)) (Next Quiet) [] := by
  rw [← expression_once, Once.binary, operand_once]
  exact (operand_fresh .logical).bind fun left => binaryBehind_fresh .logical left

theorem argumentsBehind_fresh :
    Completes parser.argumentsBehind (Next (Is .rightParen)) (Next Quiet) [] := by
  rw [← argumentsBehind_once]
  apply Completes.takeTerminal? (.needTerminal fun close => .pure _ fun _ => id)
  exact fun t ht => ht.ne (by decide)

theorem arguments_fresh : Completes parser.arguments (Next (Is .trueWord)) (Next Quiet) [] := by
  have hfirst : Completes parser.expression (Next (Is .trueWord)) (Next (Is .rightParen)) [] :=
    expression_fresh.mono (fun _ => id) fun t ht => ht.quiet rfl
  rw [← arguments_once, Once.arguments, expression_once]
  apply Completes.takeTerminal?
  · exact hfirst.bind fun first => argumentsBehind_fresh.bind fun others => .pure _ fun _ => id
  · exact fun t ht => ht.ne (by decide)

theorem block_fresh : Completes parser.block (Next Ends) (Next Ends) [] := by
  rw [← block_once]
  exact (Completes.looksAt (.pure [] fun _ => id) fun t ht => ⟨ht, ht⟩).comment?

theorem conditional_fresh (start : Span) :
    Completes (parser.conditional start) (Next (Is .trueWord)) (Next Follows) [] := by
  have hcondition : Completes parser.expression (Next (Is .trueWord)) (Next (Is .thenWord)) [] :=
    expression_fresh.mono (fun _ => id) fun t ht => ht.quiet rfl
  have hblock : Completes parser.block (Next Ends) (Next (Is .endWord)) [] :=
    block_fresh.mono (fun _ => id) fun t ht => ht.ends rfl
  rw [← conditional_once, Once.conditional, expression_once]
  apply hcondition.bind fun condition => .needTerminal fun sign => hblock.bind fun thenBlock => ?_
  apply Completes.takeTerminal?
  · apply Completes.takeTerminal? (.needTerminal fun stop => .pure _ fun _ => id)
    exact fun t ht => ht.ne (by decide)
  · exact fun t ht => ht.ne (by decide)

theorem fields_fresh : Completes parser.fields (Next (Is .endWord)) (Next (Is .endWord)) [] := by
  rw [← fields_once]
  apply Completes.take? (.pure [] fun _ => id)
  exact fun t ht => ⟨ht, ht.eq_none fun _ => rfl⟩

theorem parametersBehind_fresh :
    Completes parser.parametersBehind (Next (Is .rightParen)) (Next (Is .rightParen)) [] := by
  rw [← parametersBehind_once]
  exact .takeTerminal? (.pure [] fun _ => id) fun t ht => ht.ne (by decide)

theorem eq_nil_of_next_atEnd {stop : Span} {ts : Tokens} (hts : Live ts) (h : Next AtEnd stop ts) :
    ts = [] := by
  obtain ⟨behind, hrow, -⟩ := exists_row stop ts
  rw [h.1] at hrow
  cases ts with
  | nil => rfl
  | cons t rest =>
      have hfirst : t = look (finAt stop) (t :: rest) := (List.cons.inj hrow).1
      exact absurd (hfirst ▸ h.2) (hts t (by simp))

theorem program_fresh : Completes parser.program (Next Follows) (Next AtEnd) [] := by
  refine ⟨[], ⟨[], [], []⟩,
    by simp [Live], fun stop rest hrest hnext => ?_, fun stop rest _ hnext => ?_⟩
  · cases eq_nil_of_next_atEnd hrest hnext
    rw [← program_once]
    rfl
  · exact hnext.mono fun t ht => .inr ht.ends

/-- Blocks can begin with comments. -/
theorem block_comments {cs : Tokens} (hcs : Comments cs) :
    Completes parser.block (After cs Follows) (Next Ends) cs := by
  have hfresh : Completes parser.block (Next Follows) (Next Ends) [] :=
    block_fresh.mono (fun _ => .inr) fun _ => id
  apply hfresh.comments hcs
  rintro ⟨token, span⟩ hc
  cases token with
  | comment text =>
      refine ⟨(.comment text span :: ·), fun stop ts => ?_⟩
      conv_lhs => rw [← block_once]
      rw [Once.block, Reader.bind_comment?_some]
  | _ => cases hc

/-- Programs can begin with comments. -/
theorem program_comments {cs : Tokens} (hcs : Comments cs) :
    Completes parser.program (After cs Follows) (Next AtEnd) cs := by
  apply program_fresh.comments hcs
  rintro ⟨token, span⟩ hc
  cases token with
  | comment text =>
      refine ⟨fun p => { p with main := .comment text span :: p.main }, fun stop ts => ?_⟩
      conv_lhs => rw [← program_once]
      rw [Once.program, Reader.bind_comment?_some]
  | _ => cases hc

end Fresh

/-! ## What the functions of the parser foresee -/

/-- Calls that foresee errors where there are fewer tokens than the bound. -/
structure Planned (n : Nat) (c : Calls) : Prop where
  fieldsBehind : ∀ record, Plans n Never Quiet Quiet (c.fieldsBehind record)
  unary : Plans n Starts (Is .trueWord) Quiet c.unary
  operand : ∀ p, Plans n Starts (Is .trueWord) Quiet (c.operand p)
  binaryBehind : ∀ p left, Plans n Never Quiet Quiet (c.binaryBehind p left)
  expression : Plans n Starts (Is .trueWord) Quiet c.expression
  arguments : Plans n Never (Is .trueWord) Quiet c.arguments
  argumentsBehind : Plans n Never (Is .rightParen) Quiet c.argumentsBehind
  block : Plans n Never Follows Ends c.block
  conditional : ∀ start, Plans n Never (Is .trueWord) Follows (c.conditional start)
  fields : Plans n Never (Is .endWord) (Is .endWord) c.fields
  parametersBehind : Plans n Never (Is .rightParen) (Is .rightParen) c.parametersBehind
  program : Plans n Never Follows AtEnd c.program

namespace Planned

variable {P Q : SourceToken → Prop}

theorem once_fieldsBehind (h : Planned n parser) (record : Expr) :
    Plans (n + 1) Never Quiet Quiet (Once.fieldsBehind parser record) := by
  apply Plans.takeTerminal?
  · intro dot
    exact .needIdent fun name => h.fieldsBehind _
  · exact .pure record fun _ => id
  · exact fun t ht => ht.ne rfl

theorem once_atomBehind (h : Planned n parser) (atom : Atom) :
    Plans n Never Always Quiet (Once.atomBehind parser atom) := by
  cases atom with
  | literal e => exact .pure e fun _ _ => trivial
  | opening span =>
      have hclose (inner : Expr) :
          Plans n Never (Is .rightParen) Quiet (needTerminal .rightParen >>= fun close =>
          (pure (inner.withSpan (span.merge close)) : Reader Expr)) :=
        .needTerminal fun close => .pure _ fun _ => id
      exact ((h.expression.before rfl).bind hclose).anyhow
  | name name =>
      have hcall : Plans n Never Quiet Quiet (Once.atomBehind parser (.name name)) := by
        apply Plans.takeTerminalOn?
        · intro opening
          exact h.arguments.anyhow.bind fun args => .pure _ fun _ => id
        · exact .pure _ fun _ => id
        · exact fun t ht => ht.ne rfl
      exact hcall.anyhow

theorem once_primary (h : Planned n parser) :
    Plans (n + 1) IsAtom (Is .trueWord) Quiet (Once.primary parser) := by
  have htrue : atom? (Terminal.trueWord.token .origin) =
    some (.literal (.boolean (unchecked .origin) true)) := rfl
  exact .need (once_atomBehind h) htrue rfl nofun rfl (fun _ => rfl) (fun _ => id) fun _ => rfl

theorem once_unary (h : Planned n parser) :
    Plans (n + 1) Starts (Is .trueWord) Quiet (Once.unary parser) := by
  apply Plans.take? (fun _ => rfl)
  · intro op
    exact h.unary.anyhow.bind fun inner => .pure _ fun _ => id
  · exact (once_primary h).behind (primary_once ▸ Reader.leaves_of _) fun record =>
      h.fieldsBehind record
  · exact fun t ht => ⟨ht, ht.eq_none fun _ => rfl⟩
  · exact fun t => Starts.atom

theorem once_operand (h : Planned n parser) (p : Precedence) :
    Plans (n + 1) Starts (Is .trueWord) Quiet (Once.operand parser p) := by
  rw [Once.operand]
  split
  · next q hq =>
      have hrank := Precedence.rank_lt_of_tighter hq
      exact (once_operand h q).behind (leaves_operand q) fun left => h.binaryBehind q left
  · exact once_unary h
termination_by p.rank

theorem once_binary (h : Planned n parser) (p : Precedence) :
    Plans (n + 1) Starts (Is .trueWord) Quiet (Once.binary parser p) :=
  (once_operand h p).behind (leaves_operand p) fun left => h.binaryBehind p left

theorem once_binaryBehind (h : Planned n parser) (p : Precedence) (left : Expr) :
    Plans (n + 1) Never Quiet Quiet (Once.binaryBehind parser p left) := by
  apply Plans.take? (fun _ => rfl)
  · intro op
    exact (h.operand p).anyhow.bind fun right => h.binaryBehind p _
  · exact .pure left fun _ => id
  · exact fun t ht => ⟨ht, ht.operatorOf?⟩
  · exact fun _ => False.elim

/-- An expression in front of what stands behind a statement. -/
theorem expression_last (h : Planned n parser) :
    Plans n Never (Is .trueWord) Follows parser.expression :=
  h.expression.mono (fun _ => False.elim) (fun _ => id) fun _ => Follows.quiet

theorem once_arguments (h : Planned n parser) :
    Plans (n + 1) Never (Is .trueWord) Quiet (Once.arguments parser) := by
  have hfirst : Plans (n + 1) Never (Is .trueWord) (Is .rightParen) (Once.binary parser .logical) :=
    (once_binary h .logical).before rfl
  apply Plans.takeTerminal?
  · intro close
    exact .pure _ fun _ => id
  · exact hfirst.behind (leaves_binary .logical) fun first => h.argumentsBehind.bind fun others =>
      .pure _ fun _ => id
  · exact fun t ht => ht.ne (by decide)

theorem once_argumentsBehind (h : Planned n parser) :
    Plans (n + 1) Never (Is .rightParen) Quiet (Once.argumentsBehind parser) := by
  apply Plans.takeTerminal?
  · intro comma
    exact (h.expression.before rfl).bind fun first => h.argumentsBehind.bind fun others =>
      .pure _ fun _ => id
  · exact .needTerminal fun close => .pure _ fun _ => id
  · exact fun t ht => ht.ne (by decide)

theorem typeAnnotation_plans (n : Nat) (hQ : ∀ t, Q t → ¬Is .colon t) :
    Plans n Never Q Q Once.typeAnnotation := by
  apply Plans.takeTerminalOn?
  · intro colon
    exact .needIdent fun name => .pure _ fun _ => id
  · exact .pure _ fun _ => id
  · exact hQ

/-- A block in front of its end. -/
theorem block_before (h : Planned n parser) : Plans n Never Follows (Is .endWord) parser.block :=
  h.block.mono (fun _ => id) (fun _ => id) fun _ ht => ht.ends rfl

theorem loopBehind_plans (h : Planned n parser) (sign : Terminal)
    (hsign : mayContinue (.terminal sign) = false) (make : Expr → List Stmt → Span → Stmt) :
    Plans n Never Always Follows (Once.loopBehind parser sign make) := by
  apply Plans.anyhow
  apply (h.expression.before hsign).bind
  intro head
  apply Plans.needTerminal
  intro sign
  exact h.block_before.bind fun body => .needTerminal fun stop => .pure _ fun _ _ => trivial

theorem keywordBehind_plans (h : Planned n parser) (start : Span) (k : Keyword) :
    Plans n Never Always Follows (Once.keywordBehind parser start k) := by
  cases k with
  | var =>
      apply Plans.anyhow
      apply Plans.needIdent
      intro name
      have hcolon (t : SourceToken) (ht : Is .assign t) : ¬Is .colon t := ht.ne (by decide)
      apply (typeAnnotation_plans n hcolon).bind
      intro typeName
      apply Plans.needTerminal
      intro sign
      exact h.expression_last.bind fun value => .pure _ fun _ => id
  | cond => exact (h.conditional start).anyhow
  | whileLoop => exact h.loopBehind_plans _ rfl _
  | repeatLoop => exact h.loopBehind_plans _ rfl _
  | ret =>
      apply Plans.looksAt
      · exact h.expression_last.bind fun value => .pure _ fun _ => id
      · exact .pure _ fun _ => id
      · exact fun t ht => ⟨trivial, by rw [ht]; rfl⟩
      · exact fun t ht => ⟨trivial, ht.not_starts⟩
  | breakLoop => exact .pure _ fun _ _ => trivial
  | continueLoop => exact .pure _ fun _ _ => trivial

end Planned

/-! ## Statements and what lies behind them

An equals sign that cannot be there is found behind a statement, at the place where the next one may
begin. What can be read from there depends on what is read behind the statement, which is therefore
taken along.
-/

namespace Once

variable (c : Calls)

/-- What makes an assignment of its target, or a statement of an expression, and what lies behind
it. -/
def targetThen (target : Expr) (k : Stmt → Reader α) : Reader α :=
  if target.isAssignable then do
    match ← take? (terminal? .assign) with
    | none => k (.expr target)
    | some _ =>
      let value ← c.expression
      k (.assign target value (target.span.merge value.span))
  else do
    refuse (isTerminal .assign) (fun _ => ⟨.notAssignable, target.span⟩)
    k (.expr target)

/-- A statement that begins with a keyword or an expression, and what lies behind it. -/
def keywordThen (k : Stmt → Reader α) : Reader α := do
  match ← take? keyword? with
  | some keyword =>
    let s ← keywordBehind c keyword.2 keyword.1
    k s
  | none =>
    let target ← binary c .logical
    targetThen c target k

/-- A statement that begins with a token that may begin one, and what lies behind it. -/
def openThen (k : Stmt → Reader α) : Reader α := do
  refuse (!opensStatement ·) (unmet .expectedStatement)
  keywordThen c k

/-- A statement that is no comment, and what lies behind it. -/
def statementThen (k : Stmt → Reader α) : Reader α := do
  refuse opensDeclaration (unmet .nestedDeclaration)
  openThen c k

theorem bind_assoc {γ : Type} (x : Reader α) (f : α → Reader β) (g : β → Reader γ) :
    (x >>= f >>= g) = (x >>= fun a => f a >>= g) := by
  funext stop ts
  simp only [bind]
  cases x stop ts with
  | none => rfl
  | some r => cases r <;> rfl

theorem targetBehind_bind (target : Expr) (k : Stmt → Reader α) :
    (targetBehind c target >>= k) = targetThen c target k := by
  unfold targetBehind targetThen
  split
  · rw [bind_assoc]
    congr 1
    funext sign
    cases sign with
    | none => rfl
    | some span => exact bind_assoc _ _ _
  · rw [bind_assoc]
    rfl

/-- What is read behind a statement may as well be read with it. -/
theorem statement_bind (k : Stmt → Reader α) : (statement c >>= k) = statementThen c k := by
  rw [statement, statementThen, bind_assoc]
  congr 1
  funext _
  rw [openThen, bind_assoc]
  congr 1
  funext _
  rw [keywordThen, bind_assoc]
  congr 1
  funext keyword
  cases keyword with
  | some keyword => rfl
  | none =>
      dsimp only
      rw [bind_assoc]
      congr 1
      funext target
      exact targetBehind_bind c target k

end Once

namespace Planned

variable {P Q : SourceToken → Prop} {k : Stmt → Reader α}

theorem targetThen_plans (h : Planned n parser) (hk : ∀ s, Plans n Never Follows Q (k s))
    (hcomments : ∀ s cs, Comments cs → Completes (k s) (After cs Follows) (Next Q) cs)
    (target : Expr) :
    Plans n Never Follows Q (Once.targetThen parser target k) := by
  have hassign (t : SourceToken) (ht : Follows t) : ¬Is .assign t := ht.ne (by decide) rfl
  unfold Once.targetThen
  split
  · apply Plans.takeTerminalOn?
    · intro sign
      exact h.expression_last.bind fun value => hk _
    · exact hk _
    · exact hassign
  · have hkind (t : SourceToken) (ht : Follows t) : isTerminal .assign t.token = false :=
      isTerminal_eq_false (hassign t ht)
    apply Plans.refuse Follows
    · intro cs hcs
      refine (hcomments (.expr target) cs hcs).congr (fun stop ts _ hafter => ?_) fun _ => id
      rw [Reader.bind_refuse, if_neg (by simp [hkind _ hafter.2])]
    · exact fun stop ts hts hlength _ =>
        ((hk _).foresees stop ts hts hlength).mono (fun t ht => ht.1) fun _ => id
    · exact fun t ht => ⟨ht, hkind t ht⟩
    · exact fun t ht => isTerminal_eq_true.mp ht

theorem keywordThen_plans (h : Planned n parser) (hk : ∀ s, Plans n Never Follows Q (k s))
    (hcomments : ∀ s cs, Comments cs → Completes (k s) (After cs Follows) (Next Q) cs) :
    Plans (n + 1) (fun t => opensStatement t.token = true) (Is .trueWord) Q
      (Once.keywordThen parser k) := by
  have htarget : Plans (n + 1) Starts (Is .trueWord) Follows (Once.binary parser .logical) :=
    (once_binary h .logical).mono (fun _ => id) (fun _ => id) fun _ => Follows.quiet
  apply Plans.take? (fun _ => rfl)
  · intro keyword
    exact (h.keywordBehind_plans keyword.2 keyword.1).bind hk
  · exact htarget.behind (leaves_binary .logical) fun target =>
      targetThen_plans h hk hcomments target
  · exact fun t ht => ⟨ht, ht.eq_none fun _ => rfl⟩
  · exact fun t => starts_of_opensStatement

/-- A `break` is read as a statement wherever one may begin. -/
theorem openThen_break {cs ts : Tokens} (hcs : Comments cs) (stop : Span) :
    Once.openThen parser k stop (cs ++ Terminal.breakWord.token .origin :: ts) =
      k (.breakLoop .origin) stop ts := by
  rw [Once.openThen, Reader.bind_refuse, look_comments hcs rfl, if_neg (by decide),
    Once.keywordThen, take?_some (b := (Keyword.breakLoop, Span.origin)) hcs rfl rfl]
  rfl

theorem statementThen_break {cs ts : Tokens} (hcs : Comments cs) (stop : Span) :
    Once.statementThen parser k stop (cs ++ Terminal.breakWord.token .origin :: ts) =
      k (.breakLoop .origin) stop ts := by
  rw [Once.statementThen, Reader.bind_refuse, look_comments hcs rfl, if_neg (by decide),
    openThen_break hcs]

theorem statementThen_plans (h : Planned n parser) (hk : ∀ s, Plans n Never Follows Q (k s))
    (hcomments : ∀ s cs, Comments cs → Completes (k s) (After cs Follows) (Next Q) cs) :
    Plans (n + 1) Never (Is .breakWord) Q (Once.statementThen parser k) := by
  have hopen : Plans (n + 1) Never (Is .breakWord) Q (Once.openThen parser k) := by
    apply Plans.refuse Never
    · intro cs hcs
      exact .token (t := Terminal.breakWord.token .origin) hcs rfl nofun rfl
        (fun stop ts => openThen_break hcs stop) (hk (.breakLoop .origin)).fresh
    · intro stop ts hts hlength hopens
      refine ((keywordThen_plans h hk hcomments).foresees stop ts hts hlength).mono
        (fun t ht => ht.2 ?_) fun _ => id
      simpa using hopens
    · exact fun _ => False.elim
    · exact fun _ _ => rfl
  apply Plans.refuse (Is .breakWord)
  · intro cs hcs
    exact .token (t := Terminal.breakWord.token .origin) hcs rfl nofun rfl
      (fun stop ts => statementThen_break hcs stop) (hk (.breakLoop .origin)).fresh
  · exact fun stop ts hts hlength _ => (hopen.foresees stop ts hts hlength).mono (fun t ht => ht.1)
      fun _ => id
  · exact fun t ht => ⟨ht, by rw [ht]; rfl⟩
  · exact fun _ _ => rfl

theorem alternative_plans (h : Planned n parser) (start : Span) (condition : Expr)
    (thenBlock : List Stmt) :
    Plans n Never (Is .endWord) Follows (Once.alternative parser start condition thenBlock) := by
  apply Plans.takeTerminalOn?
  · intro keyword
    exact (h.conditional keyword).anyhow.bind fun nested => .pure _ fun _ => id
  · apply Plans.takeTerminalOn?
    · intro keyword
      exact h.block_before.bind fun elseBlock => .needTerminal fun stop => .pure _ fun _ => id
    · exact .needTerminal fun stop => .pure _ fun _ => id
    · exact fun t ht => ht.ne (by decide)
  · exact fun t ht => ht.ne (by decide)

theorem once_conditional (h : Planned n parser) (start : Span) :
    Plans (n + 1) Never (Is .trueWord) Follows (Once.conditional parser start) := by
  have hcondition :
      Plans (n + 1) Never (Is .trueWord) (Is .thenWord) (Once.binary parser .logical) :=
    (once_binary h .logical).before rfl
  apply hcondition.behind (leaves_binary .logical)
  intro condition
  apply Plans.needTerminal
  intro sign
  exact h.block_before.bind fun thenBlock => h.alternative_plans start condition thenBlock

theorem once_fields (h : Planned n parser) :
    Plans (n + 1) Never (Is .endWord) (Is .endWord) (Once.fields parser) := by
  apply Plans.take? (fun _ => rfl)
  · intro name
    exact .needTerminal fun colon => .needIdent fun typeName => h.fields.bind fun others =>
      .pure _ fun _ => id
  · exact .pure _ fun _ => id
  · exact fun t ht => ⟨ht, ht.eq_none fun _ => rfl⟩
  · exact fun _ => False.elim

theorem recordBehind_plans (h : Planned n parser) (start : Span) :
    Plans n Never Always Follows (Once.recordBehind parser start) := by
  apply Plans.anyhow
  apply Plans.needIdent
  intro name
  exact h.fields.bind fun all => .needTerminal fun stop => .pure _ fun _ => id

theorem parameter_plans (n : Nat) (hQ : ∀ t, Q t → P t) : Plans n Never IsName Q Once.parameter :=
  .needIdent fun _ => .needTerminal fun _ => .needIdent fun _ => .pure _ hQ

theorem once_parametersBehind (h : Planned n parser) :
    Plans (n + 1) Never (Is .rightParen) (Is .rightParen) (Once.parametersBehind parser) := by
  apply Plans.takeTerminal?
  · intro comma
    exact (parameter_plans n fun _ => id).bind fun first => h.parametersBehind.bind fun others =>
      .pure _ fun _ => id
  · exact .pure _ fun _ => id
  · exact fun t ht => ht.ne (by decide)

theorem parameters_plans (h : Planned n parser) :
    Plans n Never Always (Is .rightParen) (Once.parameters parser) := by
  apply Plans.looksAt
  · exact .pure _ fun _ => id
  · exact (parameter_plans n fun _ => id).bind fun first => h.parametersBehind.bind fun others =>
      .pure _ fun _ => id
  · exact fun t ht => ⟨trivial, isTerminal_eq_true.mpr ht⟩
  · exact fun t ht => ⟨trivial, isTerminal_eq_false ht.not_is⟩

theorem functionBehind_plans (h : Planned n parser) (start : Span) :
    Plans n Never Always Follows (Once.functionBehind parser start) := by
  have hcolon (t : SourceToken) (ht : Follows t) : ¬Is .colon t := ht.ne (by decide) rfl
  apply Plans.anyhow
  apply Plans.needIdent
  intro name
  apply Plans.needTerminal
  intro opening
  apply h.parameters_plans.bind
  intro params
  apply Plans.needTerminal
  intro close
  apply (typeAnnotation_plans n hcolon).bind
  intro typeName
  exact h.block_before.bind fun body => .needTerminal fun stop => .pure _ fun _ => id

theorem once_block (h : Planned n parser) :
    Plans (n + 1) Never Follows Ends (Once.block parser) := by
  have hrest (s : Stmt) :
      Plans n Never Follows Ends (parser.block >>= fun others => (pure (s :: others) : Reader _)) :=
    h.block.bind fun others => .pure _ fun _ => id
  apply Plans.comment?
  · exact hrest
  · apply Plans.looksAt
    · exact .pure _ fun _ => id
    · show Plans _ _ _ _ (Once.statement parser >>= fun first => parser.block >>= fun others =>
        pure (first :: others))
      rw [Once.statement_bind]
      exact h.statementThen_plans hrest fun s cs hcs => (block_comments hcs).map (s :: ·)
    · exact fun t ht => ⟨.inr ht, ht⟩
    · exact fun t ht => ⟨.inl ht, by rw [ht]; rfl⟩

theorem once_program (h : Planned n parser) :
    Plans (n + 1) Never Follows AtEnd (Once.program parser) := by
  have hrest (f : Program → Program) :
      Plans n Never Follows AtEnd (parser.program >>= fun p => (pure (f p) : Reader Program)) :=
    h.program.bind fun p => .pure _ fun _ => id
  have hstatement : Plans (n + 1) Never Follows AtEnd (atEnd >>= fun nothing =>
      if nothing then pure ⟨[], [], []⟩ else do
        let s ← Once.statement parser
        let p ← parser.program
        pure { p with main := s :: p.main }) := by
    apply Plans.atEnd
    · exact .pure _ fun _ => id
    · show Plans _ _ _ _ (Once.statement parser >>= fun s => parser.program >>= fun p => pure _)
      rw [Once.statement_bind]
      exact h.statementThen_plans (fun s => hrest _) fun s cs hcs => (program_comments hcs).map _
    · exact fun t ht => ⟨.inr ht.ends, ht⟩
    · exact fun t ht => ⟨.inl ht, by rw [ht]; nofun⟩
  apply Plans.comment?
  · intro s
    exact hrest _
  · refine Plans.take? (fun _ => rfl) (fun declaration => show Plans n Never Always AtEnd _ from ?_)
      hstatement (fun t ht => ⟨ht, ht.not_declaration⟩) fun _ => False.elim
    obtain ⟨isFunction, span⟩ := declaration
    cases isFunction with
    | true => exact (h.functionBehind_plans span).bind fun f => hrest _
    | false => exact (h.recordBehind_plans span).bind fun r => hrest _

end Planned

/-! ## Errors are foreseen -/

theorem Planned.zero : Planned 0 parser where
  fieldsBehind record := .zero (fieldsBehind_fresh record)
  unary := .zero unary_fresh
  operand p := .zero (operand_fresh p)
  binaryBehind p left := .zero (binaryBehind_fresh p left)
  expression := .zero expression_fresh
  arguments := .zero arguments_fresh
  argumentsBehind := .zero argumentsBehind_fresh
  block := .zero (block_fresh.mono (fun _ => .inr) fun _ => id)
  conditional start := .zero (conditional_fresh start)
  fields := .zero fields_fresh
  parametersBehind := .zero parametersBehind_fresh
  program := .zero program_fresh

theorem Planned.once (h : Planned n parser) : Planned (n + 1) parser.once where
  fieldsBehind := h.once_fieldsBehind
  unary := h.once_unary
  operand := h.once_operand
  binaryBehind := h.once_binaryBehind
  expression := h.once_binary .logical
  arguments := h.once_arguments
  argumentsBehind := h.once_argumentsBehind
  block := h.once_block
  conditional := h.once_conditional
  fields := h.once_fields
  parametersBehind := h.once_parametersBehind
  program := h.once_program

/-- The parser foresees errors, however many tokens there are. -/
theorem planned (n : Nat) : Planned n parser := by
  induction n with
  | zero => exact .zero
  | succ n ih =>
      rw [← parser_once]
      exact ih.once

/-! ## Errors in whole programs -/

theorem live_live (ts : Tokens) : Live (live ts) := by
  intro t ht hend
  have hkept := List.mem_takeWhile_imp ht
  simp [isEnd_eq_true.mpr hend] at hkept

theorem live_append {before : Tokens} (h : Live before) (ts : Tokens) :
    live (before ++ ts) = before ++ live ts := by
  apply List.takeWhile_append_of_pos
  intro u hu
  rw [isEnd_eq_false.mpr (h u hu)]
  rfl

theorem endSpan_append {before : Tokens} (h : Live before) (span : Span) (more : Tokens) :
    endSpan (before ++ ⟨.endOfInput, span⟩ :: more) = span := by
  rw [endSpan, List.find?_append, List.find?_eq_none.mpr]
  · rfl
  · intro u hu
    rw [isEnd_eq_false.mpr (h u hu)]
    exact Bool.false_ne_true

/-- What a list of tokens begins with, its first end of the input at most, is what is ahead of the
parser there. -/
theorem prefix_live {before : Tokens} (hbefore : Live before) (t : SourceToken) (more : Tokens) :
    before ++ [t] <+: live (before ++ t :: more) ++ [finAt (endSpan (before ++ t :: more))] := by
  rw [live_append hbefore, List.append_assoc, List.prefix_append_right_inj]
  obtain ⟨token, span⟩ := t
  cases token with
  | endOfInput =>
      rw [endSpan_append hbefore]
      exact List.prefix_refl _
  | _ => exact ⟨live more ++ [finAt (endSpan _)], rfl⟩

theorem parser_program {stop : Span} {ts : Tokens} {r : Diagnosed Program} :
    parser.program stop ts = some (r.map (·, [])) ↔ Parser.program (finAt stop) ts = r := by
  show some ((Parser.program (finAt stop) ts).map _) = _ ↔ _
  cases Parser.program (finAt stop) ts <;> cases r <;> simp [Except.map]

end Parser

open Stepwise.Parser (finAt planned Live)

/-- A diagnostic is about a token, and cannot come earlier or later: some tokens in place of this
one and those behind it would make a program of those in front of it, and with this one nothing
behind it does. -/
structure Diagnostic.ArisesAt (d : Diagnostic) (before : List SourceToken) (t : SourceToken) :
    Prop where
  about : d.About t
  completable : ∃ tail stop p, (∀ u ∈ tail, u.token ≠ .endOfInput) ∧
    Program.ofTokens (before ++ tail ++ [⟨.endOfInput, stop⟩]) = .ok p
  final : ∀ more, Program.ofTokens (before ++ t :: more) = .error d

namespace Diagnostic.ArisesAt

variable {d : Diagnostic} {before before' behind behind' : List SourceToken} {t t' : SourceToken}

theorem length_le (h : d.ArisesAt before t) (h' : d.ArisesAt before' t')
    (hsame : before ++ t :: behind = before' ++ t' :: behind') :
    before'.length ≤ before.length := by
  by_contra hlonger
  obtain ⟨tail, stop, p, -, hread⟩ := h'.completable
  have hprefix : before ++ [t] <+: before' := by
    have hfront : before ++ [t] <+: before' ++ t' :: behind' := ⟨behind, by simp [hsame]⟩
    apply List.prefix_of_prefix_length_le hfront (List.prefix_append _ _)
    simp only [List.length_append, List.length_singleton]
    omega
  obtain ⟨more, rfl⟩ := hprefix
  have hstuck := h.final (more ++ tail ++ [⟨.endOfInput, stop⟩])
  simp only [List.append_assoc, List.singleton_append] at hread hstuck
  cases hread.symm.trans hstuck

/-- A diagnostic arises at one place of the tokens at most. -/
theorem unique (h : d.ArisesAt before t) (h' : d.ArisesAt before' t')
    (hsame : before ++ t :: behind = before' ++ t' :: behind') : before = before' ∧ t = t' := by
  obtain ⟨hbefore, htail⟩ :=
    List.append_inj hsame (Nat.le_antisymm (h'.length_le h hsame.symm) (h.length_le h' hsame))
  exact ⟨hbefore, (List.cons.inj htail).1⟩

end Diagnostic.ArisesAt

/-- **Errors in the syntax are reported at the earliest token.** Where a program cannot be read from
the tokens of a source, the diagnostic is about one of them. The tokens in front of it can be
continued to a program that is read, but no tokens that begin with those and this one can: with all
of them, reading stops with the same diagnostic. -/
theorem syntax_error_earliest {source : String} {ts : List SourceToken} {d : Diagnostic}
    (htokens : tokens source = .ok ts) (hread : Program.ofTokens ts = .error d) :
    ∃ before t behind, ts = before ++ t :: behind ∧ d.ArisesAt before t ∧
      ∀ before' t' behind', ts = before' ++ t' :: behind' → d.ArisesAt before' t' →
      before' = before ∧ t' = t := by
  obtain ⟨body, rfl, hbody⟩ := (tokens_tiled htokens).ends
  generalize Span.mk (.behind source.toList) (.behind source.toList) = stop at hread ⊢
  rw [Program.ofTokens_end hbody rfl] at hread
  obtain ⟨before, t, ⟨behind, hbefore⟩, -, habout, hstuck, tail, p, hgives⟩ :=
    ((planned (body.length + 1)).program.foresees stop body hbody (Nat.lt_succ_self _)).reports d
      (Parser.parser_program.mpr hread)
  have harises : d.ArisesAt before t := by
    refine ⟨habout, ⟨tail, stop, p, hgives.live.right, ?_⟩, fun more => ?_⟩
    · have hgiven := hgives.reads stop [] (by simp [Live]) ⟨rfl, rfl⟩
      rw [List.append_nil] at hgiven
      rw [Program.ofTokens_end hgives.live rfl]
      exact Parser.parser_program.mp hgiven
    · have hstops := hstuck _ _ (Parser.live_live _) (Parser.prefix_live hgives.live.left t more)
      rw [Program.ofTokens_eq]
      exact Parser.parser_program.mp hstops
  rw [List.append_assoc, List.singleton_append] at hbefore
  refine ⟨before, t, behind, hbefore.symm, harises, fun before' t' behind' hsame harises' => ?_⟩
  exact harises'.unique harises (hsame.symm.trans hbefore.symm)

/-- A call, a comment and the assignment of a value to what is no variable or field. -/
def assignedCall : String := "f() # c\n= g"

/-- What is wrong with it is found out at the equals sign, behind the comment. -/
theorem syntax_error_earliest_assignedCall :
    ∃ ts d, tokens assignedCall = .ok ts ∧ Program.ofTokens ts = .error d ∧
    ∃ before t behind, ts = before ++ t :: behind ∧ d.ArisesAt before t ∧
    t.token = .terminal .assign := by
  have hcause : (tokens assignedCall).map (fun ts => match Program.ofTokens ts with
      | .ok _ => none
      | .error d => some d.cause) = .ok (some .notAssignable) := by
    decide +kernel
  obtain ⟨ts, htokens, hcause⟩ := Diagnosed.map_eq_ok.mp hcause
  cases hread : Program.ofTokens ts with
  | ok p =>
      rw [hread] at hcause
      cases hcause
  | error d =>
      obtain ⟨before, t, behind, hts, harises, -⟩ := syntax_error_earliest htokens hread
      have habout := harises.about
      rw [hread, Option.some.injEq] at hcause
      rw [Diagnostic.About, hcause] at habout
      exact ⟨ts, d, htokens, hread, before, t, behind, hts, harises, habout⟩

end Stepwise
