import Stepwise.Program.Parser
import Stepwise.Proofs.Diagnosed

/-!
# Reading with the recursion left open

The functions of the parser call each other. Here each of them is written as a reader, with the
calls that it makes behind a token of its own left open: `Calls` has one reader for each of them,
and `Calls.once` makes of given readers those that do one level by themselves and leave what lies
behind their first token to the given ones.

The parser is a fixed point of this step (`parser_once`), so that what one level preserves, the
parser has. A reader may also give up. Taking the step again and again, from calls that all give up,
gives readers whose recursion is only so deep.
-/

set_option autoImplicit false

namespace Stepwise.Parser

/-! ## Readers -/

/-- What reads from tokens: given where the input ends and the tokens ahead, it comes to a result
and the tokens behind it, or stops with a diagnostic, or gives up. -/
def Reader (α : Type) : Type := Span → Tokens → Option (Diagnosed (α × Tokens))

/-- The end of the input as a token. -/
def finAt (stop : Span) : SourceToken := ⟨.endOfInput, stop⟩

/-- The diagnostic that a token is not what is called for. -/
def unmet (cause : Token → Cause) (t : SourceToken) : Diagnostic := ⟨cause t.token, t.span⟩

/-- What can be made of the next token that is no comment, with the tokens behind it. -/
def pick {β : Type} (f : SourceToken → Option β) (ts : Tokens) : Option (Parsed β ts.length) :=
  (next? ts).bind fun p => (f p.value).map fun b => p.map fun _ => b

namespace Reader

variable {α β : Type}

instance : Monad Reader where
  pure a := fun _ ts => some (.ok (a, ts))
  bind x f := fun stop ts =>
    match x stop ts with
    | none => none
    | some (.error d) => some (.error d)
    | some (.ok (a, rest)) => f a stop rest

/-- Gives up at once. -/
def giveUp : Reader α := fun _ _ => none

/-- A function of the parser as a reader. -/
def of {bound : Tokens → Nat} (f : SourceToken → (ts : Tokens) → Diagnosed (Parsed α (bound ts))) :
    Reader α :=
  fun stop ts => some ((f (finAt stop) ts).map fun p => (p.value, p.rest))

/-- Reads the next token that is no comment, if something can be made of it. -/
def take? (f : SourceToken → Option β) : Reader (Option β) := fun _ ts =>
  match pick f ts with
  | none => some (.ok (none, ts))
  | some p => some (.ok (some p.value, p.rest))

/-- Whether the next token that is no comment is of a kind. -/
def looksAt (kind : Token → Bool) : Reader Bool :=
  fun stop ts => some (.ok (kind (look (finAt stop) ts).token, ts))

/-- Stops because of the next token. -/
def reject (d : SourceToken → Diagnostic) : Reader α :=
  fun stop ts => some (.error (d (look (finAt stop) ts)))

/-- Reads a token of which something can be made. -/
def need (f : SourceToken → Option β) (d : SourceToken → Diagnostic) : Reader β := do
  match ← take? f with
  | some b => pure b
  | none => reject d

/-- Stops if the next token is of a kind. -/
def refuse (kind : Token → Bool) (d : SourceToken → Diagnostic) : Reader Unit := do
  if ← looksAt kind then reject d else pure ()

/-- Reads a comment, if it is the very next token. -/
def comment? : Reader (Option Stmt) := fun _ ts =>
  match ts with
  | ⟨.comment text, span⟩ :: rest => some (.ok (some (.comment text span), rest))
  | _ => some (.ok (none, ts))

/-- Whether there are comments ahead at most. -/
def atEnd : Reader Bool := fun _ ts => some (.ok ((next? ts).isNone, ts))

end Reader

open Reader (take? looksAt reject need refuse comment? atEnd giveUp)

/-! ## Tokens of a kind -/

/-- The span of a terminal. -/
def terminal? (t : Terminal) : SourceToken → Option Span
  | ⟨.terminal u, span⟩ => if u = t then some span else none
  | _ => none

/-- Whether a token is a terminal. -/
def isTerminal (t : Terminal) : Token → Bool
  | .terminal u => u == t
  | _ => false

/-- Whether a token is the end of the input. -/
def isEnd : Token → Bool
  | .endOfInput => true
  | _ => false

theorem isEnd_eq_true {t : Token} : isEnd t = true ↔ t = .endOfInput := by cases t <;> simp [isEnd]

theorem isEnd_eq_false {t : Token} : isEnd t = false ↔ t ≠ .endOfInput := by
  cases t <;> simp [isEnd]

/-- Reads a terminal. -/
def needTerminal (t : Terminal) : Reader Span := need (terminal? t) (unmet (.expectedTerminal t))

/-- The identifier that a token is. -/
def ident? : SourceToken → Option Ident
  | ⟨.identifier name, span⟩ => some ⟨name, span⟩
  | _ => none

/-- Reads an identifier. -/
def needIdent : Reader Ident := need ident? (unmet .expectedIdentifier)

/-- The operator of a level that a token is. -/
def operatorOf? (p : Precedence) : SourceToken → Option BinaryOp
  | ⟨.terminal t, _⟩ => p.operator? t
  | _ => none

/-- The unary operator that a token is. -/
def unaryOf? : SourceToken → Option (UnaryOp × Span)
  | ⟨.terminal t, span⟩ => (unaryOperator? t).map (·, span)
  | _ => none

/-- What an operand without unary operators begins with. -/
inductive Atom where
  | literal (e : Expr)
  | opening (span : Span)
  | name (n : Ident)

/-- The beginning of an operand that a token is. -/
def atom? : SourceToken → Option Atom
  | ⟨.number v, span⟩ => some (.literal (.number (unchecked span) v))
  | ⟨.string s, span⟩ => some (.literal (.string (unchecked span) s))
  | ⟨.terminal .trueWord, span⟩ => some (.literal (.boolean (unchecked span) true))
  | ⟨.terminal .falseWord, span⟩ => some (.literal (.boolean (unchecked span) false))
  | ⟨.terminal .leftParen, span⟩ => some (.opening span)
  | ⟨.identifier name, span⟩ => some (.name ⟨name, span⟩)
  | _ => none

/-- The keywords that statements begin with. -/
inductive Keyword where
  | var
  | cond
  | whileLoop
  | repeatLoop
  | ret
  | breakLoop
  | continueLoop

/-- The keyword of a statement that a terminal is. -/
def keywordOf? : Terminal → Option Keyword
  | .varWord => some .var
  | .ifWord => some .cond
  | .whileWord => some .whileLoop
  | .repeatWord => some .repeatLoop
  | .returnWord => some .ret
  | .breakWord => some .breakLoop
  | .continueWord => some .continueLoop
  | _ => none

/-- The keyword of a statement that a token is. -/
def keyword? : SourceToken → Option (Keyword × Span)
  | ⟨.terminal t, span⟩ => (keywordOf? t).map (·, span)
  | _ => none

/-- Whether a token begins a declaration that belongs outside of bodies. -/
def opensDeclaration : Token → Bool
  | .terminal t => t == .funWord || t == .recordWord
  | _ => false

/-- Whether a statement may begin with a token. -/
def opensStatement (t : Token) : Bool :=
  startsExpression t ||
    match t with
    | .terminal t => (keywordOf? t).isSome
    | _ => false

/-- The declaration outside of bodies that a token begins: a function or else a record. -/
def declaration? : SourceToken → Option (Bool × Span)
  | ⟨.terminal .funWord, span⟩ => some (true, span)
  | ⟨.terminal .recordWord, span⟩ => some (false, span)
  | _ => none

/-! ## One level of reading -/

/-- Readers for the calls that the functions of the parser make behind a token of their own. -/
structure Calls where
  fieldsBehind : Expr → Reader Expr
  unary : Reader Expr
  operand : Precedence → Reader Expr
  binaryBehind : Precedence → Expr → Reader Expr
  expression : Reader Expr
  arguments : Reader (List Expr × Span)
  argumentsBehind : Reader (List Expr × Span)
  block : Reader (List Stmt)
  conditional : Span → Reader Stmt
  fields : Reader (List FieldDecl)
  parametersBehind : Reader (List Param)
  program : Reader Program

namespace Once

variable (c : Calls)

/-- The field names behind an expression. -/
def fieldsBehind (record : Expr) : Reader Expr := do
  match ← take? (terminal? .dot) with
  | none => pure record
  | some _ =>
    let name ← needIdent
    c.fieldsBehind (.field (unchecked (record.span.merge name.span)) record name)

/-- What lies behind the beginning of an operand. -/
def atomBehind : Atom → Reader Expr
  | .literal e => pure e
  | .opening span => do
    let inner ← c.expression
    let close ← needTerminal .rightParen
    pure (inner.withSpan (span.merge close))
  | .name n => do
    match ← take? (terminal? .leftParen) with
    | none => pure (.reference (unchecked n.span) n.name none)
    | some _ =>
      let args ← c.arguments
      pure (.call (unchecked (n.span.merge args.2)) n args.1 none)

/-- A literal, a variable, a call or an expression in parentheses. -/
def primary : Reader Expr := do
  let a ← need atom? (unmet .expectedExpression)
  atomBehind c a

/-- An expression with unary operators in front. -/
def unary : Reader Expr := do
  match ← take? unaryOf? with
  | some op =>
    let inner ← c.unary
    pure (.unary (unchecked (op.2.merge inner.span)) op.1 inner)
  | none =>
    let record ← primary c
    c.fieldsBehind record

/-- An operand of a level. -/
def operand (p : Precedence) : Reader Expr :=
  match h : p.tighter? with
  | some q =>
    have := Precedence.rank_lt_of_tighter h
    do
      let left ← operand q
      c.binaryBehind q left
  | none => unary c
termination_by p.rank

/-- An expression of a level. -/
def binary (p : Precedence) : Reader Expr := do
  let left ← operand c p
  c.binaryBehind p left

/-- The operators of a level behind a left operand. -/
def binaryBehind (p : Precedence) (left : Expr) : Reader Expr := do
  match ← take? (operatorOf? p) with
  | none => pure left
  | some op =>
    let right ← c.operand p
    c.binaryBehind p (joined op left right)

/-- The arguments of a call. -/
def arguments : Reader (List Expr × Span) := do
  match ← take? (terminal? .rightParen) with
  | some close => pure ([], close)
  | none =>
    let first ← binary c .logical
    let others ← c.argumentsBehind
    pure (first :: others.1, others.2)

/-- The further arguments of a call. -/
def argumentsBehind : Reader (List Expr × Span) := do
  match ← take? (terminal? .comma) with
  | none =>
    let close ← needTerminal .rightParen
    pure ([], close)
  | some _ =>
    let first ← c.expression
    let others ← c.argumentsBehind
    pure (first :: others.1, others.2)

/-- A colon and a type name, or nothing. -/
def typeAnnotation : Reader (Option Ident) := do
  match ← take? (terminal? .colon) with
  | none => pure none
  | some _ =>
    let name ← needIdent
    pure (some name)

/-- The declaration of a variable behind its keyword. -/
def variableBehind (start : Span) : Reader Stmt := do
  let name ← needIdent
  let typeName ← typeAnnotation
  let _ ← needTerminal .assign
  let value ← c.expression
  pure (.var ⟨name, typeName, value, none, none, start.merge value.span⟩)

/-- The value of a `return`. -/
def returnBehind (start : Span) : Reader Stmt := do
  if ← looksAt startsExpression then
    let value ← c.expression
    pure (.ret (some value) (start.merge value.span))
  else pure (.ret none start)

/-- What makes an assignment of its target, or a statement of an expression. -/
def targetBehind (target : Expr) : Reader Stmt :=
  if target.isAssignable then do
    match ← take? (terminal? .assign) with
    | none => pure (.expr target)
    | some _ =>
      let value ← c.expression
      pure (.assign target value (target.span.merge value.span))
  else do
    refuse (isTerminal .assign) (fun _ => ⟨.notAssignable, target.span⟩)
    pure (.expr target)

/-- A loop behind its keyword: what it depends on, a terminal, its body and its end. -/
def loopBehind (sign : Terminal) (make : Expr → List Stmt → Span → Stmt) : Reader Stmt := do
  let head ← c.expression
  let _ ← needTerminal sign
  let body ← c.block
  let stop ← needTerminal .endWord
  pure (make head body stop)

/-- What lies behind the keyword of a statement. -/
def keywordBehind (start : Span) : Keyword → Reader Stmt
  | .var => variableBehind c start
  | .cond => c.conditional start
  | .whileLoop =>
    loopBehind c .doWord fun condition body stop => .whileLoop condition body (start.merge stop)
  | .repeatLoop =>
    loopBehind c .timesWord fun count body stop => .repeatLoop count body (start.merge stop)
  | .ret => returnBehind c start
  | .breakLoop => pure (.breakLoop start)
  | .continueLoop => pure (.continueLoop start)

/-- A statement that is no comment. -/
def statement : Reader Stmt := do
  refuse opensDeclaration (unmet .nestedDeclaration)
  refuse (!opensStatement ·) (unmet .expectedStatement)
  match ← take? keyword? with
  | some k => keywordBehind c k.2 k.1
  | none =>
    let target ← binary c .logical
    targetBehind c target

/-- Statements up to the end of their block. -/
def block : Reader (List Stmt) := do
  match ← comment? with
  | some s =>
    let others ← c.block
    pure (s :: others)
  | none =>
    if ← looksAt endsBlock then pure []
    else
      let first ← statement c
      let others ← c.block
      pure (first :: others)

/-- What lies behind the first block of a conditional. -/
def alternative (start : Span) (condition : Expr) (thenBlock : List Stmt) : Reader Stmt := do
  match ← take? (terminal? .elseifWord) with
  | some keyword =>
    let nested ← c.conditional keyword
    pure (.cond condition thenBlock [nested] (start.merge nested.span))
  | none =>
    match ← take? (terminal? .elseWord) with
    | some _ =>
      let elseBlock ← c.block
      let stop ← needTerminal .endWord
      pure (.cond condition thenBlock elseBlock (start.merge stop))
    | none =>
      let stop ← needTerminal .endWord
      pure (.cond condition thenBlock [] (start.merge stop))

/-- An `if` or `elseif` behind its keyword. -/
def conditional (start : Span) : Reader Stmt := do
  let condition ← binary c .logical
  let _ ← needTerminal .thenWord
  let thenBlock ← c.block
  alternative c start condition thenBlock

/-- The fields of a record. -/
def fields : Reader (List FieldDecl) := do
  match ← take? ident? with
  | none => pure []
  | some name =>
    let _ ← needTerminal .colon
    let typeName ← needIdent
    let others ← c.fields
    pure (⟨name, typeName, none⟩ :: others)

/-- A record behind its keyword. -/
def recordBehind (start : Span) : Reader RecordDecl := do
  let name ← needIdent
  let all ← c.fields
  let stop ← needTerminal .endWord
  pure ⟨name, all, start.merge stop⟩

/-- A parameter. -/
def parameter : Reader Param := do
  let name ← needIdent
  let _ ← needTerminal .colon
  let typeName ← needIdent
  pure ⟨name, typeName, none, none⟩

/-- Further parameters. -/
def parametersBehind : Reader (List Param) := do
  match ← take? (terminal? .comma) with
  | none => pure []
  | some _ =>
    let first ← parameter
    let others ← c.parametersBehind
    pure (first :: others)

/-- Parameters up to the closing parenthesis. -/
def parameters : Reader (List Param) := do
  if ← looksAt (isTerminal .rightParen) then pure []
  else
    let first ← parameter
    let others ← c.parametersBehind
    pure (first :: others)

/-- A function behind its keyword. -/
def functionBehind (start : Span) : Reader FunctionDecl := do
  let name ← needIdent
  let _ ← needTerminal .leftParen
  let params ← parameters c
  let _ ← needTerminal .rightParen
  let typeName ← typeAnnotation
  let body ← c.block
  let stop ← needTerminal .endWord
  pure ⟨name, params, typeName, none, body, start.merge stop⟩

/-- The declarations and statements of a program. -/
def program : Reader Program := do
  match ← comment? with
  | some s =>
    let p ← c.program
    pure { p with main := s :: p.main }
  | none =>
    match ← take? declaration? with
    | some (true, span) =>
      let f ← functionBehind c span
      let p ← c.program
      pure { p with functions := f :: p.functions }
    | some (false, span) =>
      let r ← recordBehind c span
      let p ← c.program
      pure { p with records := r :: p.records }
    | none =>
      if ← atEnd then pure ⟨[], [], []⟩
      else
        let s ← statement c
        let p ← c.program
        pure { p with main := s :: p.main }

end Once

namespace Calls

/-- The readers that do one level by themselves and leave what lies behind their first token to the
given ones. -/
def once (c : Calls) : Calls where
  fieldsBehind := Once.fieldsBehind c
  unary := Once.unary c
  operand := Once.operand c
  binaryBehind := Once.binaryBehind c
  expression := Once.binary c .logical
  arguments := Once.arguments c
  argumentsBehind := Once.argumentsBehind c
  block := Once.block c
  conditional := Once.conditional c
  fields := Once.fields c
  parametersBehind := Once.parametersBehind c
  program := Once.program c

/-- The functions of the parser. A program is read up to the end. -/
def parser : Calls where
  fieldsBehind record := .of (Parser.fieldsBehind · record)
  unary := .of Parser.unary
  operand p := .of (Parser.operand · p)
  binaryBehind p left := .of (Parser.binaryBehind · p left)
  expression := .of Parser.expression
  arguments := .of Parser.arguments
  argumentsBehind := .of Parser.argumentsBehind
  block := .of Parser.block
  conditional start := .of (Parser.conditional · start)
  fields := .of Parser.fields
  parametersBehind := .of Parser.parametersBehind
  program := fun stop ts => some ((Parser.program (finAt stop) ts).map (·, []))

end Calls

/-! ## The parser does one level and calls itself -/

section Equations

variable {α β : Type} {m n : Nat} {stop : Span} {ts : Tokens}

/-- What a function of the parser comes to, as a reader has it. -/
def answer (x : Diagnosed (Parsed α n)) : Option (Diagnosed (α × Tokens)) :=
  some (x.map fun p => (p.value, p.rest))

/-- What reading a program comes to, as a reader has it. -/
def wholeAnswer (x : Diagnosed Program) : Option (Diagnosed (Program × Tokens)) :=
  some (x.map (·, []))

/-- A reader in a row of readers comes to what a step in a row of steps does. -/
theorem Reader.bind_map {γ δ : Type} {x : Reader α} {f : α → Reader β} {y : Diagnosed γ}
    {g : γ → Diagnosed δ} {out : γ → α × Tokens} {out' : δ → β × Tokens}
    (hx : x stop ts = some (y.map out))
    (hf : ∀ p, f (out p).1 stop (out p).2 = some ((g p).map out')) :
    (x >>= f) stop ts = some ((y >>= g).map out') := by
  cases y with
  | error d => simp [bind, hx, Except.map, Except.bind]
  | ok p =>
      have := hf p
      simpa [bind, hx, Except.map, Except.bind] using this

theorem Reader.bind_eq {x : Reader α} {f : α → Reader β} {y : Diagnosed (Parsed α m)}
    {g : Parsed α m → Diagnosed (Parsed β n)} (hx : x stop ts = answer y)
    (hf : ∀ p, f p.value stop p.rest = answer (g p)) : (x >>= f) stop ts = answer (y >>= g) :=
  Reader.bind_map hx hf

theorem Reader.bind_whole {x : Reader α} {f : α → Reader Program} {y : Diagnosed (Parsed α m)}
    {g : Parsed α m → Diagnosed Program} (hx : x stop ts = answer y)
    (hf : ∀ p, f p.value stop p.rest = wholeAnswer (g p)) :
    (x >>= f) stop ts = wholeAnswer (y >>= g) :=
  Reader.bind_map hx hf

theorem Reader.bind_eq_ok {x : Reader α} {f : α → Reader β} {rest : Tokens} {b : β}
    (h : (x >>= f) stop ts = some (.ok (b, rest))) :
    ∃ a mid, x stop ts = some (.ok (a, mid)) ∧ f a stop mid = some (.ok (b, rest)) := by
  cases hread : x stop ts with
  | none => simp [bind, hread] at h
  | some r =>
      cases r with
      | error d => simp [bind, hread] at h
      | ok p => exact ⟨p.1, p.2, rfl, by simpa [bind, hread] using h⟩

theorem Reader.of_eq_ok {bound : Tokens → Nat}
    {f : SourceToken → (ts : Tokens) → Diagnosed (Parsed α (bound ts))} {rest : Tokens} {a : α}
    (h : Reader.of f stop ts = some (.ok (a, rest))) :
    ∃ p, f (finAt stop) ts = .ok p ∧ p.value = a ∧ p.rest = rest := by
  unfold Reader.of at h
  cases hf : f (finAt stop) ts with
  | error d => simp [hf, Except.map] at h
  | ok p =>
      simp only [hf, Except.map, Option.some.injEq, Except.ok.injEq, Prod.mk.injEq] at h
      exact ⟨p, rfl, h⟩

/-- What a reader leaves is less than the bound. -/
def Reader.Leaves (bound : Tokens → Nat) (x : Reader α) : Prop :=
  ∀ stop ts a rest, x stop ts = some (.ok (a, rest)) → rest.length < bound ts

theorem Reader.leaves_of {bound : Tokens → Nat}
    (f : SourceToken → (ts : Tokens) → Diagnosed (Parsed α (bound ts))) :
    (Reader.of f).Leaves bound := by
  intro stop ts a rest h
  obtain ⟨p, -, -, rfl⟩ := of_eq_ok h
  exact p.shorter

theorem Reader.Leaves.weaken {x : Reader α} (h : x.Leaves (·.length)) : x.Leaves (·.length + 1) :=
  fun stop ts a rest hread => Nat.lt_succ_of_lt (h stop ts a rest hread)

theorem next?_eq_some {p : Parsed SourceToken ts.length} (h : next? ts = some p) :
    ∃ comments, ts = comments ++ p.value :: p.rest ∧ (∀ c ∈ comments, c.token.isComment = true) ∧
      p.value.token.isComment = false := by
  induction ts with
  | nil => cases h
  | cons t rest ih =>
      rw [next?] at h
      split at h
      · next hcomment =>
          obtain ⟨q, hq, rfl⟩ := Option.map_eq_some_iff.mp h
          obtain ⟨comments, hrest, hall, hvalue⟩ := ih hq
          exact ⟨t :: comments, congrArg (t :: ·) hrest, List.forall_mem_cons.mpr ⟨hcomment, hall⟩,
            hvalue⟩
      · next hcomment =>
          cases h
          exact ⟨[], rfl, by simp, by simpa using hcomment⟩

theorem pick_eq_some {f : SourceToken → Option α} {p : Parsed α ts.length}
    (h : pick f ts = some p) :
    ∃ comments t, ts = comments ++ t :: p.rest ∧ (∀ c ∈ comments, c.token.isComment = true) ∧
      t.token.isComment = false ∧ f t = some p.value := by
  obtain ⟨q, hq, hp⟩ := Option.bind_eq_some_iff.mp h
  obtain ⟨b, hb, rfl⟩ := Option.map_eq_some_iff.mp hp
  obtain ⟨comments, hts, hall, hvalue⟩ := next?_eq_some hq
  exact ⟨comments, q.value, hts, hall, hvalue, hb⟩

theorem Reader.bind_take? {f : SourceToken → Option α} {g : Option α → Reader β} :
    (take? f >>= g) stop ts =
      match pick f ts with
      | none => g none stop ts
      | some p => g (some p.value) stop p.rest := by
  simp only [bind, take?]
  cases pick f ts <;> rfl

theorem Reader.bind_need {f : SourceToken → Option α} {d : SourceToken → Diagnostic}
    {g : α → Reader β} :
    (need f d >>= g) stop ts =
      match pick f ts with
      | none => some (.error (d (look (finAt stop) ts)))
      | some p => g p.value stop p.rest := by
  simp only [need, bind, take?]
  cases pick f ts <;> rfl

theorem Reader.bind_looksAt {kind : Token → Bool} {g : Bool → Reader α} :
    (looksAt kind >>= g) stop ts = g (kind (look (finAt stop) ts).token) stop ts := rfl

theorem Reader.bind_atEnd {g : Bool → Reader α} :
    (atEnd >>= g) stop ts = g (next? ts).isNone stop ts := rfl

theorem Reader.bind_refuse {kind : Token → Bool} {d : SourceToken → Diagnostic}
    {g : Unit → Reader α} :
    (refuse kind d >>= g) stop ts =
      if kind (look (finAt stop) ts).token then some (.error (d (look (finAt stop) ts))) else
        g () stop ts := by
  simp only [refuse, bind, looksAt]
  cases kind (look (finAt stop) ts).token <;> rfl

/-- Either a comment is the very next token or not. -/
theorem comment_first (ts : Tokens) :
    (∃ text span rest, ts = ⟨.comment text, span⟩ :: rest) ∨
      ∀ text span rest, ts = ⟨.comment text, span⟩ :: rest → False :=
  (Classical.em _).imp_right fun hnone text span rest hts => hnone ⟨text, span, rest, hts⟩

theorem Reader.bind_comment?_some {g : Option Stmt → Reader α} {text : String} {span : Span} :
    (comment? >>= g) stop (⟨.comment text, span⟩ :: ts) = g (some (.comment text span)) stop ts :=
  rfl

theorem Reader.bind_comment?_none {g : Option Stmt → Reader α}
    (h : ∀ text span rest, ts = ⟨.comment text, span⟩ :: rest → False) :
    (comment? >>= g) stop ts = g none stop ts := by
  cases ts with
  | nil => rfl
  | cons t rest =>
      obtain ⟨token, span⟩ := t
      cases token with
      | comment text => exact (h text span rest rfl).elim
      | _ => rfl

theorem accept?_eq_pick (t : Terminal) (ts : Tokens) : accept? t ts = pick (terminal? t) ts := by
  unfold accept? nextTerminal? pick
  cases next? ts with
  | none => rfl
  | some p =>
      obtain ⟨⟨token, span⟩, rest, hrest⟩ := p
      cases token with
      | terminal u =>
          by_cases hu : u = t
          · simp [terminal?, hu, Parsed.map]
          · simp [terminal?, hu]
      | _ => rfl

theorem nextOperator?_eq_pick (p : Precedence) (ts : Tokens) :
    nextOperator? p ts = pick (operatorOf? p) ts := by
  unfold nextOperator? nextTerminal? pick
  cases next? ts with
  | none => rfl
  | some q =>
      obtain ⟨⟨token, span⟩, rest, hrest⟩ := q
      cases token <;> rfl

theorem nextUnary?_eq_pick (ts : Tokens) : nextUnary? ts = pick unaryOf? ts := by
  unfold nextUnary? nextTerminal? pick
  cases next? ts with
  | none => rfl
  | some q =>
      obtain ⟨⟨token, span⟩, rest, hrest⟩ := q
      cases token with
      | terminal t => cases h : unaryOperator? t <;> simp [unaryOf?, h, Parsed.map]
      | _ => rfl

theorem needTerminal_eq (t : Terminal) : needTerminal t = .of (expect · t) := by
  funext stop ts
  rw [needTerminal, need, Reader.bind_take?, ← accept?_eq_pick]
  simp only [Reader.of, expect]
  cases accept? t ts <;> rfl

theorem needIdent_eq : needIdent = .of identifier := by
  funext stop ts
  rw [needIdent, need, Reader.bind_take?]
  simp only [Reader.of, identifier, pick]
  cases next? ts with
  | none => rfl
  | some p =>
      obtain ⟨⟨token, span⟩, rest, hrest⟩ := p
      cases token <;> rfl

open Calls (parser)

theorem answer_widen (x : Diagnosed (Parsed α m)) (h : m ≤ n) :
    answer (x >>= fun p => pure (p.widen h)) = answer x := by
  cases x <;> rfl

theorem fieldsBehind_once (record : Expr) :
    Once.fieldsBehind parser record = parser.fieldsBehind record := by
  funext stop ts
  show _ = answer (Parser.fieldsBehind (finAt stop) record ts)
  rw [Once.fieldsBehind, Reader.bind_take?, Parser.fieldsBehind, accept?_eq_pick, needIdent_eq]
  cases pick (terminal? .dot) ts with
  | none => rfl
  | some dot => exact Reader.bind_eq rfl fun name => (answer_widen _ _).symm

theorem primary_once : Once.primary parser = .of Parser.primary := by
  funext stop ts
  show _ = answer (Parser.primary (finAt stop) ts)
  rw [Once.primary, Reader.bind_need, Parser.primary, pick]
  cases hnext : next? ts with
  | none => simp [answer, failAt, Except.map, unmet]
  | some p =>
      obtain ⟨⟨token, span⟩, rest, hrest⟩ := p
      have hlook : look (finAt stop) ts = ⟨token, span⟩ := by simp [look, hnext]
      cases token with
      | number v => rfl
      | string v => rfl
      | identifier name =>
          show Once.atomBehind parser (.name ⟨name, span⟩) stop rest = _
          rw [Once.atomBehind, Reader.bind_take?, ← accept?_eq_pick]
          dsimp only
          cases accept? .leftParen rest with
          | none => rfl
          | some paren => exact Reader.bind_eq rfl fun args => rfl
      | terminal t =>
          by_cases hparen : t = .leftParen
          · subst hparen
            show Once.atomBehind parser (.opening span) stop rest = _
            rw [Once.atomBehind, needTerminal_eq]
            exact Reader.bind_eq rfl fun inner => Reader.bind_eq rfl fun close => rfl
          · cases t <;> first | exact absurd rfl hparen | rfl
      | comment text => rfl
      | endOfInput => rfl

theorem unary_once : Once.unary parser = parser.unary := by
  funext stop ts
  show _ = answer (Parser.unary (finAt stop) ts)
  rw [Once.unary, Reader.bind_take?, Parser.unary, nextUnary?_eq_pick, primary_once]
  cases pick unaryOf? ts with
  | some op => exact Reader.bind_eq rfl fun inner => rfl
  | none => exact Reader.bind_eq rfl fun record => (answer_widen _ _).symm

theorem binary_eq_bind (p : Precedence) :
    Reader.of (Parser.binary · p) =
      (parser.operand p >>= fun left => parser.binaryBehind p left) := by
  funext stop ts
  show answer (Parser.binary (finAt stop) p ts) = _
  rw [Parser.binary]
  exact (Reader.bind_eq rfl fun left => (answer_widen _ _).symm).symm

theorem operand_of_tighter? {fin : SourceToken} {p q : Precedence} (h : p.tighter? = some q)
    (ts : Tokens) :
    Parser.operand fin p ts = Parser.binary fin q ts := by
  rw [Parser.operand]
  split
  · next hq =>
      cases h.symm.trans hq
      rfl
  · next hp => cases h.symm.trans hp

theorem operand_of_tightest {fin : SourceToken} {p : Precedence} (h : p.tighter? = none)
    (ts : Tokens) :
    Parser.operand fin p ts = Parser.unary fin ts := by
  rw [Parser.operand]
  split
  · next hq => cases h.symm.trans hq
  · rfl

theorem operand_once (p : Precedence) : Once.operand parser p = parser.operand p := by
  rw [Once.operand]
  split
  · next q hq =>
      have hrank := Precedence.rank_lt_of_tighter hq
      rw [operand_once q, ← binary_eq_bind]
      funext stop ts
      exact congrArg answer (operand_of_tighter? hq ts).symm
  · next hp =>
      rw [unary_once]
      funext stop ts
      exact congrArg answer (operand_of_tightest hp ts).symm
termination_by p.rank

theorem binary_once (p : Precedence) : Once.binary parser p = .of (Parser.binary · p) := by
  rw [Once.binary, operand_once, binary_eq_bind]

theorem expression_once : Once.binary parser .logical = parser.expression := binary_once .logical

theorem binaryBehind_once (p : Precedence) (left : Expr) :
    Once.binaryBehind parser p left = parser.binaryBehind p left := by
  funext stop ts
  show _ = answer (Parser.binaryBehind (finAt stop) p left ts)
  rw [Once.binaryBehind, Reader.bind_take?, Parser.binaryBehind, nextOperator?_eq_pick]
  cases pick (operatorOf? p) ts with
  | none => rfl
  | some op => exact Reader.bind_eq rfl fun right => (answer_widen _ _).symm

theorem arguments_once : Once.arguments parser = parser.arguments := by
  funext stop ts
  show _ = answer (Parser.arguments (finAt stop) ts)
  rw [Once.arguments, Reader.bind_take?, Parser.arguments, accept?_eq_pick, binary_once]
  cases pick (terminal? .rightParen) ts with
  | some close => rfl
  | none => exact Reader.bind_eq rfl fun first => Reader.bind_eq rfl fun others => rfl

theorem argumentsBehind_once : Once.argumentsBehind parser = parser.argumentsBehind := by
  funext stop ts
  show _ = answer (Parser.argumentsBehind (finAt stop) ts)
  rw [Once.argumentsBehind, Reader.bind_take?, Parser.argumentsBehind, accept?_eq_pick,
    needTerminal_eq]
  cases pick (terminal? .comma) ts with
  | none => exact Reader.bind_eq rfl fun close => rfl
  | some comma => exact Reader.bind_eq rfl fun first => Reader.bind_eq rfl fun others => rfl

theorem typeAnnotation_once : Once.typeAnnotation = .of Parser.typeAnnotation := by
  funext stop ts
  show _ = answer (Parser.typeAnnotation (finAt stop) ts)
  rw [Once.typeAnnotation, Reader.bind_take?, Parser.typeAnnotation, accept?_eq_pick, needIdent_eq]
  cases pick (terminal? .colon) ts with
  | none => rfl
  | some colon => exact Reader.bind_eq rfl fun name => rfl

theorem variableBehind_once (start : Span) :
    Once.variableBehind parser start = .of (Parser.variableBehind · start) := by
  funext stop ts
  show _ = answer (Parser.variableBehind (finAt stop) start ts)
  rw [Once.variableBehind, Parser.variableBehind, needIdent_eq, needTerminal_eq,
    typeAnnotation_once]
  exact Reader.bind_eq rfl fun name => Reader.bind_eq rfl fun typeName => Reader.bind_eq rfl
      fun sign =>
    Reader.bind_eq rfl fun value => rfl

theorem returnBehind_once (start : Span) :
    Once.returnBehind parser start = .of (Parser.returnBehind · start) := by
  funext stop ts
  show _ = answer (Parser.returnBehind (finAt stop) start ts)
  rw [Once.returnBehind, Reader.bind_looksAt, Parser.returnBehind]
  split
  · exact Reader.bind_eq rfl fun value => rfl
  · rfl

theorem isTerminal_look (t : Terminal) (stop : Span) (ts : Tokens) :
    isTerminal t (look (finAt stop) ts).token = (pick (terminal? t) ts).isSome := by
  unfold look pick
  cases next? ts with
  | none => rfl
  | some p =>
      obtain ⟨⟨token, span⟩, rest, hrest⟩ := p
      cases token with
      | terminal u => by_cases hu : u = t <;> simp [isTerminal, terminal?, hu]
      | _ => rfl

theorem expressionOrAssignment_once (h : startsExpression (look (finAt stop) ts).token = true) :
    (Once.binary parser .logical >>= fun target => Once.targetBehind parser target) stop ts =
      answer (Parser.expressionOrAssignment (finAt stop) ts) := by
  rw [binary_once, Parser.expressionOrAssignment, if_pos h]
  refine Reader.bind_eq rfl fun target => ?_
  rw [Once.targetBehind, accept?_eq_pick]
  dsimp only
  cases hassignable : target.value.isAssignable with
  | true =>
      rw [if_pos rfl, Reader.bind_take?]
      cases pick (terminal? .assign) target.rest with
      | none => rfl
      | some sign => exact Reader.bind_eq rfl fun value => rfl
  | false =>
      rw [if_neg Bool.false_ne_true, Reader.bind_refuse, isTerminal_look]
      cases pick (terminal? .assign) target.rest with
      | none => rfl
      | some sign => rfl

theorem statement_once : Once.statement parser = .of Parser.statement := by
  funext stop ts
  show _ = answer (Parser.statement (finAt stop) ts)
  rw [Once.statement, Reader.bind_refuse, Reader.bind_refuse, Reader.bind_take?, Parser.statement,
    nextTerminal?, pick]
  cases hnext : next? ts with
  | none =>
      have hlook : look (finAt stop) ts = finAt stop := by simp [look, hnext]
      rw [Parser.expressionOrAssignment, hlook]
      rfl
  | some p =>
      obtain ⟨⟨token, span⟩, rest, hrest⟩ := p
      have hlook : look (finAt stop) ts = ⟨token, span⟩ := by simp [look, hnext]
      rw [hlook]
      cases token with
      | number v => exact expressionOrAssignment_once (by rw [hlook]; rfl)
      | string v => exact expressionOrAssignment_once (by rw [hlook]; rfl)
      | identifier v => exact expressionOrAssignment_once (by rw [hlook]; rfl)
      | comment text =>
          rw [Parser.expressionOrAssignment, hlook]
          rfl
      | endOfInput =>
          rw [Parser.expressionOrAssignment, hlook]
          rfl
      | terminal t =>
          cases t with
          | varWord =>
              show Once.variableBehind parser span stop rest = _
              rw [variableBehind_once]
              exact (answer_widen _ _).symm
          | ifWord =>
              show parser.conditional span stop rest = _
              exact (answer_widen _ _).symm
          | whileWord =>
              show Once.loopBehind parser .doWord _ stop rest = _
              rw [Once.loopBehind, needTerminal_eq, needTerminal_eq]
              exact Reader.bind_eq rfl fun condition => Reader.bind_eq rfl fun sign =>
                  Reader.bind_eq rfl fun body =>
                Reader.bind_eq rfl fun last => rfl
          | repeatWord =>
              show Once.loopBehind parser .timesWord _ stop rest = _
              rw [Once.loopBehind, needTerminal_eq, needTerminal_eq]
              exact Reader.bind_eq rfl fun count => Reader.bind_eq rfl fun sign =>
                  Reader.bind_eq rfl fun body =>
                Reader.bind_eq rfl fun last => rfl
          | returnWord =>
              show Once.returnBehind parser span stop rest = _
              rw [returnBehind_once]
              exact (answer_widen _ _).symm
          | breakWord => rfl
          | continueWord => rfl
          | funWord => rfl
          | recordWord => rfl
          | trueWord => exact expressionOrAssignment_once (by rw [hlook]; rfl)
          | falseWord => exact expressionOrAssignment_once (by rw [hlook]; rfl)
          | leftParen => exact expressionOrAssignment_once (by rw [hlook]; rfl)
          | minus => exact expressionOrAssignment_once (by rw [hlook]; rfl)
          | notWord => exact expressionOrAssignment_once (by rw [hlook]; rfl)
          | _ =>
              rw [Parser.expressionOrAssignment, hlook]
              rfl

theorem block_once : Once.block parser = parser.block := by
  funext stop ts
  show _ = answer (Parser.block (finAt stop) ts)
  rcases comment_first ts with ⟨text, span, rest, rfl⟩ | hnone
  · rw [Once.block, Reader.bind_comment?_some, Parser.block.eq_1]
    exact Reader.bind_eq rfl fun others => rfl
  · rw [Once.block, Reader.bind_comment?_none hnone, Parser.block.eq_2 _ _ hnone, statement_once]
    show (looksAt endsBlock >>= _) stop ts = _
    rw [Reader.bind_looksAt]
    split
    · rfl
    · exact Reader.bind_eq rfl fun first => Reader.bind_eq rfl fun others => rfl

theorem conditional_once (start : Span) :
    Once.conditional parser start = parser.conditional start := by
  funext stop ts
  show _ = answer (Parser.conditional (finAt stop) start ts)
  rw [Once.conditional, Parser.conditional, binary_once, needTerminal_eq]
  refine Reader.bind_eq rfl fun condition => Reader.bind_eq rfl fun sign => Reader.bind_eq rfl
    fun thenBlock => ?_
  rw [Once.alternative, Reader.bind_take?, accept?_eq_pick, accept?_eq_pick, needTerminal_eq]
  cases pick (terminal? .elseifWord) thenBlock.rest with
  | some keyword => exact Reader.bind_eq rfl fun nested => rfl
  | none =>
      dsimp only
      rw [Reader.bind_take?]
      cases pick (terminal? .elseWord) thenBlock.rest with
      | some keyword => exact Reader.bind_eq rfl fun elseBlock => Reader.bind_eq rfl fun stop => rfl
      | none => exact Reader.bind_eq rfl fun stop => rfl

theorem fields_once : Once.fields parser = parser.fields := by
  funext stop ts
  show _ = answer (Parser.fields (finAt stop) ts)
  rw [Once.fields, Reader.bind_take?, Parser.fields, needTerminal_eq, needIdent_eq, pick]
  cases next? ts with
  | none => rfl
  | some p =>
      obtain ⟨⟨token, span⟩, rest, hrest⟩ := p
      cases token with
      | identifier name =>
          exact Reader.bind_eq rfl fun colon => Reader.bind_eq rfl fun typeName =>
            Reader.bind_eq rfl fun others => rfl
      | _ => rfl

theorem recordBehind_once (start : Span) :
    Once.recordBehind parser start = .of (Parser.recordBehind · start) := by
  funext stop ts
  show _ = answer (Parser.recordBehind (finAt stop) start ts)
  rw [Once.recordBehind, Parser.recordBehind, needIdent_eq, needTerminal_eq]
  exact Reader.bind_eq rfl fun name => Reader.bind_eq rfl fun all => Reader.bind_eq rfl
    fun stop => rfl

theorem parameter_once : Once.parameter = .of Parser.parameter := by
  funext stop ts
  show _ = answer (Parser.parameter (finAt stop) ts)
  rw [Once.parameter, Parser.parameter, needIdent_eq, needTerminal_eq]
  exact Reader.bind_eq rfl fun name => Reader.bind_eq rfl fun colon => Reader.bind_eq rfl
    fun typeName => rfl

theorem parametersBehind_once : Once.parametersBehind parser = parser.parametersBehind := by
  funext stop ts
  show _ = answer (Parser.parametersBehind (finAt stop) ts)
  rw [Once.parametersBehind, Reader.bind_take?, Parser.parametersBehind, accept?_eq_pick,
    parameter_once]
  cases pick (terminal? .comma) ts with
  | none => rfl
  | some comma => exact Reader.bind_eq rfl fun first => Reader.bind_eq rfl fun others => rfl

theorem parameters_once : Once.parameters parser = .of Parser.parameters := by
  funext stop ts
  show _ = answer (Parser.parameters (finAt stop) ts)
  rw [Once.parameters, Reader.bind_looksAt, Parser.parameters, accept?_eq_pick, parameter_once,
    isTerminal_look]
  cases pick (terminal? .rightParen) ts with
  | some close => rfl
  | none => exact Reader.bind_eq rfl fun first => Reader.bind_eq rfl fun others => rfl

theorem functionBehind_once (start : Span) :
    Once.functionBehind parser start = .of (Parser.functionBehind · start) := by
  funext stop ts
  show _ = answer (Parser.functionBehind (finAt stop) start ts)
  rw [Once.functionBehind, Parser.functionBehind, needIdent_eq, needTerminal_eq, needTerminal_eq,
    needTerminal_eq, parameters_once, typeAnnotation_once]
  exact Reader.bind_eq rfl fun name => Reader.bind_eq rfl fun opening => Reader.bind_eq rfl
      fun params =>
    Reader.bind_eq rfl fun close => Reader.bind_eq rfl fun typeName => Reader.bind_eq rfl
      fun body =>
      Reader.bind_eq rfl fun stop => rfl

/-- A program whose rest is read by the parser. -/
theorem program_bind {f : Program → Program} :
    (parser.program >>= fun p => pure (f p)) stop ts =
      wholeAnswer (do let p ← Parser.program (finAt stop) ts; return f p) :=
  Reader.bind_map rfl fun _ => rfl

theorem eq_nil_of_next?_eq_none (h : next? ts = none)
    (hne : ∀ text span rest, ts = ⟨.comment text, span⟩ :: rest → False) : ts = [] := by
  cases ts with
  | nil => rfl
  | cons t rest =>
      obtain ⟨token, span⟩ := t
      rw [next?] at h
      cases token with
      | comment text => exact absurd rfl (hne text span rest)
      | _ => cases h

theorem program_once : Once.program parser = parser.program := by
  funext stop ts
  show _ = wholeAnswer (Parser.program (finAt stop) ts)
  rcases comment_first ts with ⟨text, span, rest, rfl⟩ | hnone
  · rw [Once.program, Reader.bind_comment?_some, Parser.program.eq_1]
    exact program_bind
  · have hstatement (hsome : (next? ts).isNone = false) :
        (atEnd >>= fun nothing => if nothing then pure ⟨[], [], []⟩ else do
          let s ← Reader.of Parser.statement
          let p ← parser.program
          pure { p with main := s :: p.main }) stop ts = wholeAnswer (do
            let s ← Parser.statement (finAt stop) ts
            let p ← Parser.program (finAt stop) s.rest
            return { p with main := s.value :: p.main }) := by
      rw [Reader.bind_atEnd, hsome]
      exact Reader.bind_whole rfl fun s => program_bind
    rw [Once.program, Reader.bind_comment?_none hnone, Parser.program.eq_2 _ _ hnone,
      statement_once]
    show (take? declaration? >>= _) stop ts = _
    rw [Reader.bind_take?, pick]
    cases hnext : next? ts with
    | none =>
        cases eq_nil_of_next?_eq_none hnext hnone
        rfl
    | some p =>
        obtain ⟨⟨token, span⟩, rest, hrest⟩ := p
        rw [hnext] at hstatement
        cases token with
        | terminal t =>
            cases t with
            | funWord =>
                show (Once.functionBehind parser span >>= _) stop rest = _
                rw [functionBehind_once]
                exact Reader.bind_whole rfl fun f => program_bind
            | recordWord =>
                show (Once.recordBehind parser span >>= _) stop rest = _
                rw [recordBehind_once]
                exact Reader.bind_whole rfl fun r => program_bind
            | _ => exact hstatement rfl
        | _ => exact hstatement rfl

/-- **The functions of the parser do one level of reading and call each other.** -/
theorem parser_once : parser.once = parser := by
  have hbehind : Once.binaryBehind parser = parser.binaryBehind :=
    funext fun p => funext (binaryBehind_once p)
  unfold Calls.once
  rw [funext fieldsBehind_once, unary_once, funext operand_once, hbehind, expression_once,
    arguments_once, argumentsBehind_once, block_once, funext conditional_once, fields_once,
    parametersBehind_once, program_once]

theorem leaves_operand (p : Precedence) : (Once.operand parser p).Leaves (·.length) :=
  operand_once p ▸ Reader.leaves_of (Parser.operand · p)

theorem leaves_binary (p : Precedence) : (Once.binary parser p).Leaves (·.length) :=
  binary_once p ▸ Reader.leaves_of _

theorem leaves_statement : (Once.statement parser).Leaves (·.length) :=
  statement_once ▸ Reader.leaves_of _

end Equations

end Stepwise.Parser
