import Stepwise.Proofs.Program.Derivation
import Stepwise.Proofs.Program.Readers

/-!
# Bounds of reading

Reading ends for two reasons, which are shown here in turn.

Its loops and recursions are bounded: `Calls.within` cuts them off at a depth, and as long as there
are fewer tokens than levels, nothing of what the parser does is lost (`within_like`). One level has
one lemma for each function; every call behind a token has a token less ahead, and so one level less
is enough for it.

And the cursor moves: a reader that `Moves` has passed a token that is no comment whenever it
succeeds, although comments and the end of the input do not count. What every reading function
begins with has seen to that.

`parsing_bounded` states both for arbitrary lists of tokens.
-/

set_option autoImplicit false

namespace Stepwise

namespace Parser

open Reader (take? looksAt reject need refuse comment? atEnd giveUp)
open Calls (parser)

variable {α β : Type} {n : Nat}

/-! ## Bounded recursion -/

/-- Calls that all give up. -/
def Calls.none : Calls where
  fieldsBehind _ := giveUp
  unary := giveUp
  operand _ := giveUp
  binaryBehind _ _ := giveUp
  expression := giveUp
  arguments := giveUp
  argumentsBehind := giveUp
  block := giveUp
  conditional _ := giveUp
  fields := giveUp
  parametersBehind := giveUp
  program := giveUp

/-- The functions of the parser with their loops and recursions cut off: behind its first token, a
function goes on with ones that are cut off one level earlier, and those cut off at once give up. -/
def Calls.within : Nat → Calls
  | 0 => .none
  | n + 1 => (within n).once

namespace Reader

/-- Two readers do the same where there are fewer tokens than the bound. -/
def Agree (n : Nat) (x y : Reader α) : Prop := ∀ stop ts, ts.length < n → x stop ts = y stop ts

theorem leaves_program : parser.program.Leaves (·.length + 1) := by
  intro stop ts a rest h
  cases hp : Parser.program (finAt stop) ts with
  | error d => simp [parser, hp, Except.map] at h
  | ok p =>
      simp only [parser, hp, Except.map, Option.some.injEq, Except.ok.injEq, Prod.mk.injEq] at h
      simp [← h.2]

namespace Agree

theorem refl (x : Reader α) : Agree n x x := fun _ _ _ => rfl

theorem fewer {m : Nat} {x y : Reader α} (h : Agree n x y) (hm : m ≤ n) : Agree m x y :=
  fun stop ts hts => h stop ts (Nat.lt_of_lt_of_le hts hm)

/-- Behind a reader that leaves few enough tokens. -/
theorem bind_of {m : Nat} {x y : Reader α} {f g : α → Reader β} {bound : Tokens → Nat}
    (hx : Agree n x y) (hy : y.Leaves bound) (hbound : ∀ ts : Tokens, ts.length < n → bound ts ≤ m)
    (hf : ∀ a, Agree m (f a) (g a)) :
    Agree n (x >>= f) (y >>= g) := by
  intro stop ts hts
  have hsame := hx stop ts hts
  cases hread : y stop ts with
  | none => simp [Bind.bind, hsame, hread]
  | some r =>
      cases r with
      | error d => simp [Bind.bind, hsame, hread]
      | ok p =>
          have := hf p.1 stop p.2 (Nat.lt_of_lt_of_le (hy stop ts p.1 p.2 hread) (hbound ts hts))
          simpa [Bind.bind, hsame, hread] using this

/-- Behind a reader that leaves what is ahead, or a part of it. -/
theorem bind {x y : Reader α} {f g : α → Reader β} (hx : Agree n x y) (hy : y.Leaves (·.length + 1))
    (hf : ∀ a, Agree n (f a) (g a)) : Agree n (x >>= f) (y >>= g) :=
  bind_of hx hy (fun _ hts => hts) hf

/-- Behind a reader that has read a token, the bound may be lower. -/
theorem behind {x y : Reader α} {f g : α → Reader β} (hx : Agree (n + 1) x y)
    (hy : y.Leaves (·.length)) (hf : ∀ a, Agree n (f a) (g a)) :
    Agree (n + 1) (x >>= f) (y >>= g) :=
  bind_of hx hy (fun _ hts => Nat.le_of_lt_succ hts) hf

theorem take? {γ : Type} {k : SourceToken → Option γ} {f g : Option γ → Reader β}
    (hsome : ∀ c, Agree n (f (some c)) (g (some c))) (hnone : Agree (n + 1) (f none) (g none)) :
    Agree (n + 1) (Reader.take? k >>= f) (Reader.take? k >>= g) := by
  intro stop ts hts
  rw [bind_take?, bind_take?]
  cases pick k ts with
  | none => exact hnone stop ts hts
  | some p =>
      have := p.shorter
      exact hsome p.value stop p.rest (by omega)

theorem need {γ : Type} {k : SourceToken → Option γ} {d : SourceToken → Diagnostic}
    {f g : γ → Reader β} (h : ∀ c, Agree n (f c) (g c)) :
    Agree (n + 1) (Reader.need k d >>= f) (Reader.need k d >>= g) := by
  intro stop ts hts
  rw [bind_need, bind_need]
  cases pick k ts with
  | none => rfl
  | some p =>
      have := p.shorter
      exact h p.value stop p.rest (by omega)

theorem needOn {γ : Type} {k : SourceToken → Option γ} {d : SourceToken → Diagnostic}
    {f g : γ → Reader β} (h : ∀ c, Agree n (f c) (g c)) :
    Agree n (Reader.need k d >>= f) (Reader.need k d >>= g) :=
  (need h).fewer (Nat.le_succ n)

theorem takeOn? {γ : Type} {k : SourceToken → Option γ} {f g : Option γ → Reader β}
    (h : ∀ c, Agree n (f c) (g c)) : Agree n (Reader.take? k >>= f) (Reader.take? k >>= g) := by
  intro stop ts hts
  rw [bind_take?, bind_take?]
  cases pick k ts with
  | none => exact h none stop ts hts
  | some p => exact h (some p.value) stop p.rest (Nat.lt_trans p.shorter hts)

theorem looksAt {kind : Token → Bool} {f g : Bool → Reader β} (h : ∀ b, Agree n (f b) (g b)) :
    Agree n (Reader.looksAt kind >>= f) (Reader.looksAt kind >>= g) :=
  fun stop ts hts => h _ stop ts hts

theorem refuse {kind : Token → Bool} {d : SourceToken → Diagnostic} {f g : Unit → Reader β}
    (h : ∀ u, Agree n (f u) (g u)) :
    Agree n (Reader.refuse kind d >>= f) (Reader.refuse kind d >>= g) := by
  intro stop ts hts
  rw [bind_refuse, bind_refuse, h () stop ts hts]

theorem atEnd {f g : Bool → Reader β} (h : ∀ b, Agree n (f b) (g b)) :
    Agree n (Reader.atEnd >>= f) (Reader.atEnd >>= g) := fun stop ts hts => h _ stop ts hts

theorem comment? {f g : Option Stmt → Reader β} (hsome : ∀ s, Agree n (f (some s)) (g (some s)))
    (hnone : Agree (n + 1) (f none) (g none)) :
    Agree (n + 1) (Reader.comment? >>= f) (Reader.comment? >>= g) := by
  intro stop ts hts
  rcases comment_first ts with ⟨text, span, rest, rfl⟩ | hnone'
  · exact hsome (.comment text span) stop rest (by simpa using hts)
  · rw [bind_comment?_none hnone', bind_comment?_none hnone', hnone stop ts hts]

end Agree
end Reader

open Reader (Agree leaves_of leaves_program)

/-- Calls that do what others do where there are fewer tokens than the bound. -/
structure Calls.Like (n : Nat) (c d : Calls) : Prop where
  fieldsBehind : ∀ record, Agree n (c.fieldsBehind record) (d.fieldsBehind record)
  unary : Agree n c.unary d.unary
  operand : ∀ p, Agree n (c.operand p) (d.operand p)
  binaryBehind : ∀ p left, Agree n (c.binaryBehind p left) (d.binaryBehind p left)
  expression : Agree n c.expression d.expression
  arguments : Agree n c.arguments d.arguments
  argumentsBehind : Agree n c.argumentsBehind d.argumentsBehind
  block : Agree n c.block d.block
  conditional : ∀ start, Agree n (c.conditional start) (d.conditional start)
  fields : Agree n c.fields d.fields
  parametersBehind : Agree n c.parametersBehind d.parametersBehind
  program : Agree n c.program d.program

/-- Nothing is shorter than no tokens. -/
theorem Calls.Like.zero (c d : Calls) : c.Like 0 d := by
  constructor <;> intros <;> exact fun _ _ hts => absurd hts (Nat.not_lt_zero _)

namespace Once

variable {c : Calls}

theorem fieldsBehind_agree (h : c.Like n parser) (record : Expr) :
    Agree (n + 1) (fieldsBehind c record) (fieldsBehind parser record) := by
  apply Agree.take?
  · intro dot
    exact .needOn fun name => h.fieldsBehind _
  · exact .refl _

theorem primary_agree (h : c.Like n parser) : Agree (n + 1) (primary c) (primary parser) := by
  apply Agree.need
  intro atom
  cases atom with
  | literal e => exact .refl _
  | opening span => exact .bind h.expression (leaves_of _).weaken fun inner => .refl _
  | name name =>
      apply Agree.takeOn?
      intro paren
      cases paren with
      | none => exact .refl _
      | some span => exact .bind h.arguments (leaves_of _).weaken fun args => .refl _

theorem unary_agree (h : c.Like n parser) : Agree (n + 1) (unary c) (unary parser) := by
  apply Agree.take?
  · intro op
    exact .bind h.unary (leaves_of _).weaken fun inner => .refl _
  · exact .behind (primary_agree h) (primary_once ▸ leaves_of _) fun record => h.fieldsBehind record

theorem operand_agree (h : c.Like n parser) (p : Precedence) :
    Agree (n + 1) (operand c p) (operand parser p) := by
  rw [operand, operand]
  split
  · next q hq =>
      have hrank := Precedence.rank_lt_of_tighter hq
      exact .behind (operand_agree h q) (leaves_operand q) fun left => h.binaryBehind q left
  · exact unary_agree h
termination_by p.rank

theorem binary_agree (h : c.Like n parser) (p : Precedence) :
    Agree (n + 1) (binary c p) (binary parser p) :=
  .behind (operand_agree h p) (leaves_operand p) fun left => h.binaryBehind p left

theorem binaryBehind_agree (h : c.Like n parser) (p : Precedence) (left : Expr) :
    Agree (n + 1) (binaryBehind c p left) (binaryBehind parser p left) := by
  apply Agree.take?
  · intro op
    exact .bind (h.operand p) (leaves_of (Parser.operand · p)).weaken fun right =>
      h.binaryBehind p _
  · exact .refl _

theorem arguments_agree (h : c.Like n parser) : Agree (n + 1) (arguments c) (arguments parser) := by
  apply Agree.take?
  · intro close
    exact .refl _
  · apply Agree.behind (binary_agree h .logical) (leaves_binary .logical)
    intro first
    exact .bind h.argumentsBehind (leaves_of _).weaken fun others => .refl _

theorem argumentsBehind_agree (h : c.Like n parser) :
    Agree (n + 1) (argumentsBehind c) (argumentsBehind parser) := by
  apply Agree.take?
  · intro comma
    apply Agree.bind h.expression (leaves_of _).weaken
    intro first
    exact .bind h.argumentsBehind (leaves_of _).weaken fun others => .refl _
  · exact .refl _

theorem loopBehind_agree (h : c.Like n parser) (sign : Terminal)
    (make : Expr → List Stmt → Span → Stmt) :
    Agree n (loopBehind c sign make) (loopBehind parser sign make) := by
  apply Agree.bind h.expression (leaves_of _).weaken
  intro head
  apply Agree.needOn
  intro sign
  exact .bind h.block (leaves_of _) fun body => .refl _

theorem keywordBehind_agree (h : c.Like n parser) (start : Span) (k : Keyword) :
    Agree n (keywordBehind c start k) (keywordBehind parser start k) := by
  cases k with
  | var =>
      apply Agree.needOn
      intro name
      apply Agree.bind (.refl _) (typeAnnotation_once ▸ leaves_of _)
      intro typeName
      apply Agree.needOn
      intro sign
      exact .bind h.expression (leaves_of _).weaken fun value => .refl _
  | cond => exact h.conditional start
  | whileLoop => exact loopBehind_agree h _ _
  | repeatLoop => exact loopBehind_agree h _ _
  | ret =>
      apply Agree.looksAt
      intro starts
      cases starts with
      | false => exact .refl _
      | true => exact .bind h.expression (leaves_of _).weaken fun value => .refl _
  | breakLoop => exact .refl _
  | continueLoop => exact .refl _

theorem targetBehind_agree (h : c.Like n parser) (target : Expr) :
    Agree n (targetBehind c target) (targetBehind parser target) := by
  unfold targetBehind
  split
  · apply Agree.takeOn?
    intro sign
    cases sign with
    | none => exact .refl _
    | some span => exact .bind h.expression (leaves_of _).weaken fun value => .refl _
  · exact .refl _

theorem statement_agree (h : c.Like n parser) : Agree (n + 1) (statement c) (statement parser) := by
  apply Agree.refuse
  intro _
  apply Agree.refuse
  intro _
  apply Agree.take?
  · intro k
    exact keywordBehind_agree h k.2 k.1
  · exact .behind (binary_agree h .logical) (leaves_binary .logical) fun target =>
      targetBehind_agree h target

theorem block_agree (h : c.Like n parser) : Agree (n + 1) (block c) (block parser) := by
  apply Agree.comment?
  · intro s
    exact .bind h.block (leaves_of _) fun others => .refl _
  · apply Agree.looksAt
    intro ends
    cases ends with
    | true => exact .refl _
    | false =>
        apply Agree.behind (statement_agree h) leaves_statement
        intro first
        exact .bind h.block (leaves_of _) fun others => .refl _

theorem alternative_agree (h : c.Like n parser) (start : Span) (condition : Expr)
    (thenBlock : List Stmt) :
    Agree n (alternative c start condition thenBlock)
      (alternative parser start condition thenBlock) := by
  apply Agree.takeOn?
  intro elseif
  cases elseif with
  | some keyword =>
      exact .bind (h.conditional keyword) (leaves_of (Parser.conditional · keyword)).weaken
        fun nested => .refl _
  | none =>
      apply Agree.takeOn?
      intro otherwise
      cases otherwise with
      | some keyword => exact .bind h.block (leaves_of _) fun elseBlock => .refl _
      | none => exact .refl _

theorem conditional_agree (h : c.Like n parser) (start : Span) :
    Agree (n + 1) (conditional c start) (conditional parser start) := by
  apply Agree.behind (binary_agree h .logical) (leaves_binary .logical)
  intro condition
  apply Agree.needOn
  intro sign
  exact .bind h.block (leaves_of _) fun thenBlock => alternative_agree h start condition thenBlock

theorem fields_agree (h : c.Like n parser) : Agree (n + 1) (fields c) (fields parser) := by
  apply Agree.take?
  · intro name
    apply Agree.needOn
    intro colon
    apply Agree.needOn
    intro typeName
    exact .bind h.fields (leaves_of _) fun others => .refl _
  · exact .refl _

theorem recordBehind_agree (h : c.Like n parser) (start : Span) :
    Agree n (recordBehind c start) (recordBehind parser start) := by
  apply Agree.needOn
  intro name
  exact .bind h.fields (leaves_of _) fun all => .refl _

theorem parametersBehind_agree (h : c.Like n parser) :
    Agree (n + 1) (parametersBehind c) (parametersBehind parser) := by
  apply Agree.take?
  · intro comma
    apply Agree.bind (.refl _) (parameter_once ▸ (leaves_of _).weaken)
    intro first
    exact .bind h.parametersBehind (leaves_of _) fun others => .refl _
  · exact .refl _

theorem parameters_agree (h : c.Like n parser) : Agree n (parameters c) (parameters parser) := by
  apply Agree.looksAt
  intro ends
  cases ends with
  | true => exact .refl _
  | false =>
      apply Agree.bind (.refl _) (parameter_once ▸ (leaves_of _).weaken)
      intro first
      exact .bind h.parametersBehind (leaves_of _) fun others => .refl _

theorem functionBehind_agree (h : c.Like n parser) (start : Span) :
    Agree n (functionBehind c start) (functionBehind parser start) := by
  apply Agree.needOn
  intro name
  apply Agree.needOn
  intro opening
  apply Agree.bind (parameters_agree h) (parameters_once ▸ leaves_of _)
  intro params
  apply Agree.needOn
  intro close
  apply Agree.bind (.refl _) (typeAnnotation_once ▸ leaves_of _)
  intro typeName
  exact .bind h.block (leaves_of _) fun body => .refl _

theorem program_agree (h : c.Like n parser) : Agree (n + 1) (program c) (program parser) := by
  have hprogram {f : Program → Program} :
      Agree n (c.program >>= fun p => pure (f p)) (parser.program >>= fun p => pure (f p)) :=
    .bind h.program leaves_program fun p => .refl _
  apply Agree.comment?
  · intro s
    exact hprogram
  · apply Agree.take?
    · rintro ⟨isFunction, span⟩
      cases isFunction with
      | true =>
          exact .bind (functionBehind_agree h span)
            (functionBehind_once span ▸ (leaves_of _).weaken) fun f => hprogram
      | false =>
          exact .bind (recordBehind_agree h span) (recordBehind_once span ▸ (leaves_of _).weaken)
            fun r => hprogram
    · apply Agree.atEnd
      intro nothing
      cases nothing with
      | true => exact .refl _
      | false => exact .behind (statement_agree h) leaves_statement fun s => hprogram

end Once

/-- One level more is enough for one token more. -/
theorem Calls.Like.once {c : Calls} (h : c.Like n parser) : c.once.Like (n + 1) parser.once where
  fieldsBehind := Once.fieldsBehind_agree h
  unary := Once.unary_agree h
  operand := Once.operand_agree h
  binaryBehind := Once.binaryBehind_agree h
  expression := Once.binary_agree h .logical
  arguments := Once.arguments_agree h
  argumentsBehind := Once.argumentsBehind_agree h
  block := Once.block_agree h
  conditional := Once.conditional_agree h
  fields := Once.fields_agree h
  parametersBehind := Once.parametersBehind_agree h
  program := Once.program_agree h

/-- **Cut off at any depth, the parser still does what it does where there are fewer tokens than
levels.** -/
theorem within_like (n : Nat) : (Calls.within n).Like n parser := by
  induction n with
  | zero => exact .zero _ _
  | succ n ih =>
      rw [← parser_once]
      exact ih.once

/-! ## The cursor moves -/

namespace Reader

/-- What a reader leaves is what is ahead or the end of it. -/
def Keeps (x : Reader α) : Prop := ∀ stop ts a rest, x stop ts = some (.ok (a, rest)) → rest <:+ ts

/-- A reader passes a token that is no comment. -/
def Moves (x : Reader α) : Prop :=
  ∀ stop ts a rest, x stop ts = some (.ok (a, rest)) →
    ∃ passed, ts = passed ++ rest ∧ ∃ t ∈ passed, t.token.isComment = false

/-- A function of the parser keeps the end of what is ahead if its results do. -/
theorem keeps_of {bound : Tokens → Nat}
    {f : SourceToken → (ts : Tokens) → Diagnosed (Parsed α (bound ts))}
    (h : ∀ fin ts p, f fin ts = .ok p → p.rest <:+ ts) : (Reader.of f).Keeps := by
  intro stop ts a rest hread
  obtain ⟨p, hp, -, rfl⟩ := of_eq_ok hread
  exact h _ ts p hp

namespace Keeps

theorem pure (a : α) : Keeps (Pure.pure a : Reader α) := by
  rintro stop ts a rest ⟨⟩
  exact List.suffix_refl _

theorem bind {x : Reader α} {f : α → Reader β} (hx : x.Keeps) (hf : ∀ a, (f a).Keeps) :
    (x >>= f).Keeps := by
  intro stop ts b rest h
  obtain ⟨a, mid, hread, hrest⟩ := bind_eq_ok h
  exact (hf a stop mid b rest hrest).trans (hx stop ts a mid hread)

theorem take? {k : SourceToken → Option α} {f : Option α → Reader β} (hf : ∀ a, (f a).Keeps) :
    (Reader.take? k >>= f).Keeps := by
  intro stop ts b rest h
  rw [bind_take?] at h
  split at h
  · exact hf _ stop ts b rest h
  · next p hp =>
      obtain ⟨comments, t, hts, -⟩ := pick_eq_some hp
      obtain ⟨more, hmore⟩ := hf _ stop p.rest b rest h
      exact ⟨comments ++ t :: more, by rw [hts, ← hmore]; simp⟩

theorem refuse {kind : Token → Bool} {d : SourceToken → Diagnostic} {f : Unit → Reader β}
    (hf : ∀ u, (f u).Keeps) :
    (Reader.refuse kind d >>= f).Keeps := by
  intro stop ts b rest h
  rw [bind_refuse] at h
  split at h
  · cases h
  · exact hf () stop ts b rest h

end Keeps

namespace Moves

theorem bind {x : Reader α} {f : α → Reader β} (hx : x.Moves) (hf : ∀ a, (f a).Keeps) :
    (x >>= f).Moves := by
  intro stop ts b rest h
  obtain ⟨a, mid, hread, hrest⟩ := bind_eq_ok h
  obtain ⟨passed, rfl, t, ht, htoken⟩ := hx stop ts a mid hread
  obtain ⟨more, rfl⟩ := hf a stop mid b rest hrest
  exact ⟨passed ++ more, by simp, t, List.mem_append_left _ ht, htoken⟩

theorem pick {k : SourceToken → Option α} {ts rest : Tokens} {p : Parsed α ts.length}
    (h : Parser.pick k ts = some p) (hrest : rest <:+ p.rest) :
    ∃ passed, ts = passed ++ rest ∧ ∃ t ∈ passed, t.token.isComment = false := by
  obtain ⟨comments, t, hts, -, ht, -⟩ := pick_eq_some h
  obtain ⟨more, hmore⟩ := hrest
  exact ⟨comments ++ t :: more, by rw [hts, ← hmore]; simp, t, by simp, ht⟩

theorem need {k : SourceToken → Option α} {d : SourceToken → Diagnostic} {f : α → Reader β}
    (hf : ∀ a, (f a).Keeps) :
    (Reader.need k d >>= f).Moves := by
  intro stop ts b rest h
  rw [bind_need] at h
  split at h
  · cases h
  · next p hp => exact pick hp (hf _ stop _ b rest h)

theorem take? {k : SourceToken → Option α} {f : Option α → Reader β}
    (hsome : ∀ a, (f (some a)).Keeps) (hnone : (f none).Moves) : (Reader.take? k >>= f).Moves := by
  intro stop ts b rest h
  rw [bind_take?] at h
  split at h
  · exact hnone stop ts b rest h
  · next p hp => exact pick hp (hsome _ stop _ b rest h)

theorem refuse {kind : Token → Bool} {d : SourceToken → Diagnostic} {f : Unit → Reader β}
    (hf : ∀ u, (f u).Moves) :
    (Reader.refuse kind d >>= f).Moves := by
  intro stop ts b rest h
  rw [bind_refuse] at h
  split at h
  · cases h
  · exact hf () stop ts b rest h

end Moves

end Reader

open Reader (Keeps Moves keeps_of)

theorem needTerminal_keeps (t : Terminal) : (needTerminal t).Keeps :=
  needTerminal_eq t ▸ keeps_of fun _ _ _ h => (expect_takes h).suffix

theorem expression_keeps : parser.expression.Keeps :=
  keeps_of fun _ _ _ h => (expression_derives h).suffix

theorem block_keeps : parser.block.Keeps := keeps_of fun _ _ _ h => (block_derives _ h).suffix

theorem primary_moves : (Reader.of Parser.primary).Moves := by
  rw [← primary_once]
  apply Moves.need
  intro atom
  cases atom with
  | literal e => exact .pure e
  | opening span =>
    exact .bind expression_keeps fun inner => .bind (needTerminal_keeps _) fun close => .pure _
  | name name =>
      apply Keeps.take?
      intro paren
      cases paren with
      | none => exact .pure _
      | some span =>
          refine .bind (keeps_of fun _ _ _ h => ?_) fun args => .pure _
          obtain ⟨ys, -, htakes⟩ := arguments_derives _ h
          exact htakes.suffix

theorem fieldsBehind_keeps (record : Expr) : (parser.fieldsBehind record).Keeps :=
  (keeps_of fun _ _ _ =>
    fieldsBehind_suffix record _ : (Reader.of (Parser.fieldsBehind · record)).Keeps)

theorem binaryBehind_keeps (p : Precedence) (left : Expr) : (parser.binaryBehind p left).Keeps :=
  (keeps_of fun _ _ _ =>
    binaryBehind_suffix p left _ : (Reader.of (Parser.binaryBehind · p left)).Keeps)

theorem unary_moves : parser.unary.Moves := by
  rw [← unary_once]
  apply Moves.take?
  · intro op
    exact .bind (keeps_of fun _ _ _ h => (unary_derives _ h).suffix) fun inner => .pure _
  · exact .bind (primary_once ▸ primary_moves) fun record => fieldsBehind_keeps record

theorem operand_moves (p : Precedence) : (Reader.of (Parser.operand · p)).Moves := by
  show (parser.operand p).Moves
  rw [← operand_once, Once.operand]
  split
  · next q hq =>
      have hrank := Precedence.rank_lt_of_tighter hq
      exact .bind (operand_once q ▸ operand_moves q) fun left => binaryBehind_keeps q left
  · exact unary_once ▸ unary_moves
termination_by p.rank

theorem binary_moves (p : Precedence) : (Reader.of (Parser.binary · p)).Moves := by
  rw [binary_eq_bind]
  exact .bind (operand_moves p) fun left => binaryBehind_keeps p left

theorem keywordBehind_keeps (start : Span) (k : Keyword) :
    (Once.keywordBehind parser start k).Keeps := by
  have hloop (sign : Terminal) (make : Expr → List Stmt → Span → Stmt) :
      (Once.loopBehind parser sign make).Keeps :=
    .bind expression_keeps fun head => .bind (needTerminal_keeps _) fun sign =>
      .bind block_keeps fun body => .bind (needTerminal_keeps _) fun stop => .pure _
  cases k with
  | var =>
      show (Once.variableBehind parser start).Keeps
      rw [variableBehind_once]
      exact keeps_of fun _ _ _ h => (variableBehind_derives h).suffix
  | cond =>
      show (Reader.of (Parser.conditional · start)).Keeps
      exact keeps_of fun _ _ _ h => (conditional_derives start _ h).suffix
  | whileLoop => exact hloop _ _
  | repeatLoop => exact hloop _ _
  | ret =>
      show (Once.returnBehind parser start).Keeps
      rw [returnBehind_once]
      exact keeps_of fun _ _ _ h => (returnBehind_derives h).suffix
  | breakLoop => exact .pure _
  | continueLoop => exact .pure _

theorem targetBehind_keeps (target : Expr) : (Once.targetBehind parser target).Keeps := by
  unfold Once.targetBehind
  split
  · apply Keeps.take?
    intro sign
    cases sign with
    | none => exact .pure _
    | some span => exact .bind expression_keeps fun value => .pure _
  · exact .refuse fun _ => .pure _

theorem statement_moves : (Reader.of Parser.statement).Moves := by
  rw [← statement_once]
  apply Moves.refuse
  intro _
  apply Moves.refuse
  intro _
  apply Moves.take?
  · intro k
    exact keywordBehind_keeps k.2 k.1
  · exact .bind (binary_once .logical ▸ binary_moves .logical) fun target =>
      targetBehind_keeps target

theorem recordBehind_moves (start : Span) : (Reader.of (Parser.recordBehind · start)).Moves := by
  rw [← recordBehind_once]
  apply Moves.need
  intro name
  exact .bind (keeps_of fun _ _ _ h => (fields_derives _ h).suffix) fun all =>
    .bind (needTerminal_keeps _) fun stop => .pure _

theorem functionBehind_moves (start : Span) :
    (Reader.of (Parser.functionBehind · start)).Moves := by
  rw [← functionBehind_once]
  apply Moves.need
  intro name
  exact .bind (needTerminal_keeps _) fun opening =>
    .bind (parameters_once ▸ keeps_of fun _ _ _ h => (parameters_derives h).suffix) fun params =>
      .bind (needTerminal_keeps _) fun close =>
        .bind (typeAnnotation_once ▸ keeps_of fun _ _ _ h => (typeAnnotation_derives h).suffix)
          fun typeName =>
          .bind block_keeps fun body => .bind (needTerminal_keeps _) fun stop => .pure _

/-! ## Whole lists of tokens -/

/-- The tokens in front of the first end of the input. -/
def live (ts : Tokens) : Tokens := ts.takeWhile fun t => !isEnd t.token

/-- The span of the first end of the input, be it among the tokens or behind them. -/
def endSpan (ts : Tokens) : Span := ((ts.find? (isEnd ·.token)).getD (endOf ts)).span

/-- The cursor was at a place in the tokens, and now the given ones are ahead of it: it has passed a
token that is no comment, and not the first end of the input. -/
def Moved (ts : Tokens) (pos : Nat) (rest : Tokens) : Prop :=
  ∃ pos', pos < pos' ∧ pos' ≤ (live ts).length ∧ rest = (live ts).drop pos' ∧
    ∃ i t, pos ≤ i ∧ i < pos' ∧ ts[i]? = some t ∧ t.token.isComment = false

theorem Reader.Moves.moved {x : Reader α} (h : x.Moves) {stop : Span} {ts rest : Tokens}
    {pos : Nat} {a : α} (hread : x stop ((live ts).drop pos) = some (.ok (a, rest))) :
    Moved ts pos rest := by
  obtain ⟨passed, hpassed, t, ht, htoken⟩ := h stop _ a rest hread
  obtain ⟨i, hi, hget⟩ := List.getElem_of_mem ht
  have hlength : (live ts).length - pos = passed.length + rest.length := by
    rw [← List.length_drop, hpassed, List.length_append]
  have hlive : (live ts)[pos + i]? = some t := by
    rw [← List.getElem?_drop, hpassed, List.getElem?_append_left hi, ← hget]
    exact List.getElem?_eq_getElem hi
  refine ⟨pos + passed.length, by omega, by omega, ?_, pos + i, t, by omega, by omega, ?_, htoken⟩
  · rw [← List.drop_drop, hpassed, List.drop_left]
  · obtain ⟨behind, hts⟩ : live ts <+: ts := List.takeWhile_prefix _
    rw [← hts, List.getElem?_append_left (List.getElem?_eq_some_iff.mp hlive).1, hlive]

/-- What reading at a place in the tokens does when it succeeds: it moves the cursor. -/
structure Advances (ts : Tokens) (pos : Nat) (stop : Span) : Prop where
  statement : ∀ p, statement (finAt stop) ((live ts).drop pos) = .ok p → Moved ts pos p.rest
  functionBehind : ∀ start p, functionBehind (finAt stop) start ((live ts).drop pos) = .ok p →
    Moved ts pos p.rest
  recordBehind : ∀ start p, recordBehind (finAt stop) start ((live ts).drop pos) = .ok p →
    Moved ts pos p.rest
  binary : ∀ level p, binary (finAt stop) level ((live ts).drop pos) = .ok p → Moved ts pos p.rest
  operand : ∀ level p, operand (finAt stop) level ((live ts).drop pos) = .ok p → Moved ts pos p.rest
  unary : ∀ p, unary (finAt stop) ((live ts).drop pos) = .ok p → Moved ts pos p.rest
  /-- A primary expression with the field names behind it. -/
  access : ∀ p q, primary (finAt stop) ((live ts).drop pos) = .ok p →
    fieldsBehind (finAt stop) p.value p.rest = .ok q → Moved ts pos q.rest
  primary : ∀ p, primary (finAt stop) ((live ts).drop pos) = .ok p → Moved ts pos p.rest

theorem Reader.of_ok {bound : Tokens → Nat}
    {f : SourceToken → (ts : Tokens) → Diagnosed (Parsed α (bound ts))} {stop : Span} {ts : Tokens}
    {p : Parsed α _} (h : f (finAt stop) ts = .ok p) :
    Reader.of f stop ts = some (.ok (p.value, p.rest)) := by
  simp [Reader.of, h, Except.map]

theorem advances (ts : Tokens) (pos : Nat) (stop : Span) : Advances ts pos stop where
  statement _ h := statement_moves.moved (Reader.of_ok h)
  functionBehind start _ h := (functionBehind_moves start).moved (Reader.of_ok h)
  recordBehind start _ h := (recordBehind_moves start).moved (Reader.of_ok h)
  binary level _ h := (binary_moves level).moved (Reader.of_ok h)
  operand level _ h := (operand_moves level).moved (Reader.of_ok h)
  unary _ h := unary_moves.moved (Reader.of_ok h)
  access p q hp hq := by
    have hbehind : parser.fieldsBehind p.value stop p.rest = some (.ok (q.value, q.rest)) := by
      show some ((fieldsBehind (finAt stop) p.value p.rest).map _) = _
      rw [hq]
      rfl
    have hread : (Reader.of Parser.primary >>= fun record => parser.fieldsBehind record) stop
        ((live ts).drop pos) = some (.ok (q.value, q.rest)) := by
      simp only [bind, Reader.of_ok hp, hbehind]
    exact (primary_moves.bind fieldsBehind_keeps).moved hread
  primary _ h := primary_moves.moved (Reader.of_ok h)

end Parser

open Stepwise.Parser

theorem Program.ofTokens_eq (ts : List SourceToken) :
    Program.ofTokens ts = Parser.program (finAt (endSpan ts)) (live ts) := by
  have hend : (ts.find? (isEnd ·.token)).getD (endOf ts) = finAt (endSpan ts) := by
    unfold endSpan
    cases hfind : ts.find? (isEnd ·.token) with
    | none => rfl
    | some t =>
        obtain ⟨token, span⟩ := t
        have htoken := List.find?_some hfind
        cases isEnd_eq_true.mp htoken
        rfl
  rw [Program.ofTokens, ← hend]
  rfl

/-- Reads a program from its tokens with loops and recursions cut off at a depth; then it may give
up. -/
def Program.ofTokensWithin (n : Nat) (ts : List SourceToken) : Option (Diagnosed Program) :=
  ((Calls.within n).program (endSpan ts) (live ts)).map fun answer => answer.map (·.1)

theorem Program.ofTokensWithin_eq {n : Nat} {ts : List SourceToken} (h : (live ts).length < n) :
    Program.ofTokensWithin n ts = some (Program.ofTokens ts) := by
  rw [Program.ofTokensWithin, (within_like n).program _ _ h, Program.ofTokens_eq]
  show some (((Parser.program (finAt (endSpan ts)) (live ts)).map _).map _) = _
  cases Parser.program (finAt (endSpan ts)) (live ts) <;> rfl

/-- **Reading ends, and its loops and recursions are bounded by the number of tokens ahead.**
Whatever the tokens are, with or without an end of the input among them, cutting loops and
recursions off at a depth larger than their number changes nothing, neither for one of the functions
that read nor for a whole program. Each function that reads a statement, a declaration or an
expression of any level moves the cursor when it succeeds: past a token that is no comment, and not
past the first end of the input. -/
theorem parsing_bounded :
    (∀ n, (Calls.within n).Like n Calls.parser) ∧
    (∀ n ts, (live ts).length < n → Program.ofTokensWithin n ts = some (Program.ofTokens ts)) ∧
    ∀ ts pos stop, Advances ts pos stop :=
  ⟨within_like, fun _ _ => Program.ofTokensWithin_eq, advances⟩

/-- A call behind a comment, the end of the input in the middle, and more behind it. -/
def endedEarly : List SourceToken :=
  [⟨.comment "c", .origin⟩, ⟨.identifier "f", .origin⟩, ⟨.terminal .leftParen, .origin⟩,
    ⟨.terminal .rightParen, .origin⟩, ⟨.endOfInput, .origin⟩, ⟨.terminal .endWord, .origin⟩]

theorem parsing_bounded_endedEarly : (live endedEarly).length < 5 ∧
    Program.ofTokensWithin 5 endedEarly = some (Program.ofTokens endedEarly) ∧
    ∃ p, statement (finAt .origin) ((live endedEarly).drop 1) = .ok p ∧
    Moved endedEarly 1 p.rest := by
  have hlength : (live endedEarly).length < 5 := by decide
  refine ⟨hlength, parsing_bounded.2.1 5 endedEarly hlength, ?_⟩
  have hok : (statement (finAt .origin) ((live endedEarly).drop 1)).isOk = true := by decide +kernel
  obtain ⟨p, hread⟩ := Diagnosed.isOk_iff.mp hok
  exact ⟨p, hread, (parsing_bounded.2.2 endedEarly 1 .origin).statement p hread⟩

end Stepwise
