import Stepwise.Proofs.Program.Recovery
import Stepwise.Proofs.Token.Slices

/-!
# Spans of program trees

The nodes of a program tree that know where they are written are its names, expressions, statements
and declarations. The tokens that the grammar makes a node of (`Node.Form`) are its own, and those
of the nodes that it consists of lie in them, one behind the other (`Node.Form.children`).

Spans are put together from the bottom, each from the spans of two parts. Where tokens are in order
and apart (`TokensApart`) the first part is in front, so that the result runs from the first to the
last token of the whole (`Span.RunsOver.merge`); by induction over the derivation the span of every
node runs over its own tokens (`Node.Form.runsOver`).
-/

set_option autoImplicit false

namespace Stepwise

open Grammar
open Stepwise.Parser (Tokens)

/-! ## Nodes -/

/-- The parts of a program tree that know where they are written. Fields and parameters have no
span: their names and the names of their types count as parts of the declaration. -/
inductive Node where
  | name (i : Ident)
  | expr (e : Expr)
  | stmt (s : Stmt)
  | record (d : RecordDecl)
  | function (d : FunctionDecl)

/-- What an expression consists of, as it is written from left to right. -/
def Expr.children : Expr → List Node
  | .number .. | .boolean .. | .string .. | .reference .. => []
  | .call _ name args _ => .name name :: args.map .expr
  | .field _ record name => [.expr record, .name name]
  | .unary _ _ e => [.expr e]
  | .binary _ _ left right => [.expr left, .expr right]

/-- What a statement consists of, as it is written from left to right. -/
def Stmt.children : Stmt → List Node
  | .expr e => [.expr e]
  | .var d => .name d.name :: (d.typeName.toList.map .name ++ [.expr d.value])
  | .assign target value _ => [.expr target, .expr value]
  | .cond condition thenBlock elseBlock _ =>
    .expr condition :: (thenBlock.map .stmt ++ elseBlock.map .stmt)
  | .whileLoop e body _ | .repeatLoop e body _ => .expr e :: body.map .stmt
  | .ret value _ => value.toList.map .expr
  | .breakLoop _ | .continueLoop _ | .comment .. => []

/-- The blocks of a statement. -/
def Stmt.blocks : Stmt → List (List Stmt)
  | .cond _ thenBlock elseBlock _ => [thenBlock, elseBlock]
  | .whileLoop _ body _ | .repeatLoop _ body _ => [body]
  | _ => []

namespace Node

/-- Where a node is written. -/
def span : Node → Span
  | name i => i.span
  | expr e => e.span
  | stmt s => s.span
  | record d => d.span
  | function d => d.span

/-- What a node consists of, as it is written from left to right. -/
def children : Node → List Node
  | name _ => []
  | expr e => e.children
  | stmt s => s.children
  | record d => .name d.name :: d.fields.flatMap fun f => [.name f.name, .name f.typeName]
  | function d =>
      .name d.name :: (d.params.flatMap (fun p => [.name p.name, .name p.typeName]) ++
        (d.returnTypeName.toList.map .name ++ d.body.map .stmt))

/-- The blocks of statements that a node holds itself. -/
def blocks : Node → List (List Stmt)
  | stmt s => s.blocks
  | function d => [d.body]
  | _ => []

/-- The rows of tokens that the grammar makes a node of. A conditional in the alternative of another
may begin with its `elseif`. -/
def Form (ys : Tokens) : Node → Prop
  | name i => ys = [i.token]
  | expr e => ExpressionForm ys e
  | stmt s =>
    StmtForm ys s ∨ ∃ keyword zs, ys = Terminal.elseifWord.token keyword :: zs ∧
    ConditionalForm keyword zs s
  | record d => RecordForm ys d
  | function d => FunctionForm ys d

end Node

/-! ## Nodes in a row -/

/-- A row of tokens that holds the tokens of these nodes, one node behind the other. -/
inductive Laid : Tokens → List Node → Prop where
  | nil (ys : Tokens) : Laid ys []
  | skip {ys : Tokens} {ns : List Node} (t : SourceToken) : Laid ys ns → Laid (t :: ys) ns
  | node {xs ys : Tokens} {n : Node} {ns : List Node} : n.Form xs → Laid ys ns →
      Laid (xs ++ ys) (n :: ns)

namespace Laid

variable {xs ys : Tokens} {ns ms : List Node}

theorem single {n : Node} (h : n.Form xs) : Laid xs [n] := by
  simpa using Laid.node h (.nil [])

theorem behind (xs : Tokens) (h : Laid ys ns) : Laid (xs ++ ys) ns := by
  induction xs with
  | nil => exact h
  | cons t _ ih => exact .skip t ih

theorem append (hx : Laid xs ns) (hy : Laid ys ms) : Laid (xs ++ ys) (ns ++ ms) := by
  induction hx with
  | nil xs => exact hy.behind xs
  | skip t _ ih => exact .skip t ih
  | node hn _ ih =>
      rw [List.append_assoc]
      exact .node hn ih

/-- More tokens may follow. -/
theorem before (hx : Laid xs ns) (ys : Tokens) : Laid (xs ++ ys) ns := by
  simpa using hx.append (.nil ys)

theorem name (i : Ident) (h : Laid ys ns) : Laid (i.token :: ys) (.name i :: ns) :=
  .node (show Node.Form [i.token] (.name i) from rfl) h

/-- The tokens of a node in the row are a stretch of it. -/
theorem exists_form (h : Laid ys ns) {n : Node} (hn : n ∈ ns) :
    ∃ front own back, ys = front ++ own ++ back ∧ n.Form own := by
  induction h with
  | nil => simp at hn
  | skip t _ ih =>
      obtain ⟨front, own, back, rfl, hform⟩ := ih hn
      exact ⟨t :: front, own, back, rfl, hform⟩
  | @node xs ys _ _ hform _ ih =>
      rcases List.mem_cons.mp hn with rfl | hn
      · exact ⟨[], xs, ys, rfl, hform⟩
      · obtain ⟨front, own, back, rfl, hown⟩ := ih hn
        exact ⟨xs ++ front, own, back, by simp, hown⟩

/-- Things of a form in a row, when the nodes of each lie in its tokens. -/
theorem of_star {α : Type} {form : Tokens → α → Prop} {nodes : α → List Node}
    (hform : ∀ ys a, form ys a → Laid ys (nodes a)) {as : List α} (h : Star form ys as) :
    Laid ys (as.flatMap nodes) := by
  induction h with
  | nil => exact .nil []
  | cons hfirst _ ih => exact (hform _ _ hfirst).append ih

end Laid

/-! ## The nodes of a node -/

namespace Grammar

theorem ExprForm.form {level : Level} {ys : Tokens} {e : Expr} (h : ExprForm level ys e) :
    Node.Form ys (.expr e) :=
  h.loosen level.rank_le_loosest

theorem FurtherForm.laid {ys : Tokens} {es : List Expr} (h : FurtherForm ys es) :
    Laid ys (es.map .expr) := by
  cases h with
  | nil => exact .nil []
  | cons comma hfirst hothers => exact .skip _ (.node hfirst.form hothers.laid)

theorem ArgumentsForm.laid {ys : Tokens} {es : List Expr} (h : ArgumentsForm ys es) :
    Laid ys (es.map .expr) := by
  cases h with
  | none => exact .nil []
  | some hfirst hothers => exact .node hfirst.form hothers.laid

theorem ExprForm.children : ∀ {level : Level} {ys : Tokens} {e : Expr}, ExprForm level ys e →
    Laid ys e.children
  | _, _, _, .operand h | _, _, _, .access h | _, _, _, .primary h => h.children
  | _, _, _, .operation span _ hleft hright => .node hleft.form (.skip _ (.single hright.form))
  | _, _, _, .prefixed span h => .skip _ (.single h.form)
  | _, _, _, .field dot name h => .node h.form (.skip _ (.name name (.nil [])))
  | _, _, _, .number .. | _, _, _, .string .. | _, _, _, .trueWord .. | _, _, _, .falseWord ..
  | _, _, _, .reference .. => .nil _
  | _, _, _, .call name opening close h => .name name (.skip _ (h.laid.before _))
  | _, _, _, @ExprForm.parentheses ys e opening close h => by
      have hchildren : (e.withSpan (opening.merge close)).children = e.children := by
        cases e <;> rfl
      rw [hchildren]
      exact .skip _ (h.children.before _)

theorem BlockForm.laid {ys : Tokens} {ss : List Stmt} (h : BlockForm ys ss) :
    Laid ys (ss.map .stmt) := by
  cases h with
  | nil => exact .nil []
  | cons hfirst hothers => exact .node (.inl hfirst) hothers.laid

theorem AnnotationForm.laid {ys : Tokens} {typeName : Option Ident}
    (h : AnnotationForm ys typeName) :
    Laid ys (typeName.toList.map .name) := by
  cases h with
  | absent => exact .nil []
  | present colon name => exact .skip _ (.name name (.nil []))

theorem ConditionalForm.children {start : Span} {ys : Tokens} {s : Stmt}
    (h : ConditionalForm start ys s) :
    Laid ys s.children := by
  cases h with
  | plain sign stop hcondition hthen =>
      exact .node hcondition.form (.skip _ (hthen.laid.append (.nil _)))
  | otherwise sign keyword stop hcondition hthen helse =>
      exact .node hcondition.form (.skip _ (hthen.laid.append (.skip _ (helse.laid.before _))))
  | chained sign keyword hcondition hthen hnested =>
      exact .node hcondition.form
        (.skip _ (hthen.laid.append (.single (.inr ⟨keyword, _, rfl, hnested⟩))))

theorem StmtForm.children {ys : Tokens} {s : Stmt} (h : StmtForm ys s) : Laid ys s.children := by
  cases h with
  | expression h => exact .single h.form
  | declaration start sign name htype hvalue =>
      exact .skip _ (.name name (htype.laid.append (.skip _ (.single hvalue.form))))
  | assignment sign htarget _ hvalue => exact .node htarget.form (.skip _ (.single hvalue.form))
  | conditional start h => exact .skip _ h.children
  | whileLoop start sign stop hcondition hbody =>
      exact .skip _ (.node hcondition.form (.skip _ (hbody.laid.before _)))
  | repeatLoop start sign stop hcount hbody =>
      exact .skip _ (.node hcount.form (.skip _ (hbody.laid.before _)))
  | returnNothing | breakLoop | continueLoop | comment => exact .nil _
  | returnValue start h => exact .skip _ (.single h.form)

theorem FieldForm.laid {ys : Tokens} {d : FieldDecl} (h : FieldForm ys d) :
    Laid ys [.name d.name, .name d.typeName] := by
  cases h with
  | field name colon typeName => exact .name name (.skip _ (.name typeName (.nil [])))

theorem RecordForm.children {ys : Tokens} {d : RecordDecl} (h : RecordForm ys d) :
    Laid ys (Node.record d).children := by
  cases h with
  | record start stop name hfields =>
      exact .skip _ (.name name ((Laid.of_star (fun _ _ h => h.laid) hfields).before _))

theorem ParamForm.laid {ys : Tokens} {p : Param} (h : ParamForm ys p) :
    Laid ys [.name p.name, .name p.typeName] := by
  cases h with
  | param name colon typeName => exact .name name (.skip _ (.name typeName (.nil [])))

theorem ParamsForm.laid {ys : Tokens} {ps : List Param} (h : ParamsForm ys ps) :
    Laid ys (ps.flatMap fun p => [.name p.name, .name p.typeName]) := by
  cases h with
  | none => exact .nil []
  | some hfirst hothers =>
      refine hfirst.laid.append (Laid.of_star (fun ys p h => ?_) hothers)
      cases h with
      | behind comma h => exact .skip _ h.laid

theorem FunctionForm.children {ys : Tokens} {d : FunctionDecl} (h : FunctionForm ys d) :
    Laid ys (Node.function d).children := by
  cases h with
  | function start opening close stop name hparams htype hbody =>
      exact .skip _
        (.name name
          (.skip _ (hparams.laid.append (.skip _ (htype.laid.append (hbody.laid.before _))))))

end Grammar

/-- **The nodes that a node consists of are made of tokens of its own**, one node behind the
other. -/
theorem Node.Form.children {n : Node} {ys : Tokens} (h : n.Form ys) : Laid ys n.children := by
  cases n with
  | name => exact .nil ys
  | expr => exact ExprForm.children h
  | stmt =>
      rcases h with h | ⟨keyword, zs, rfl, h⟩
      · exact h.children
      · exact .skip _ h.children
  | record => exact RecordForm.children h
  | function => exact FunctionForm.children h

/-! ## Spans of nodes -/

/-- Tokens in order and apart, each with some text. -/
structure TokensApart (ts : List SourceToken) : Prop where
  ordered : ts.Pairwise fun t u => t.span.stop.offset ≤ u.span.start.offset
  filled : ∀ t ∈ ts, t.span.start.offset < t.span.stop.offset

namespace TokensApart

variable {ts us : List SourceToken}

theorem sublist (h : TokensApart us) (hsub : ts.Sublist us) : TokensApart ts :=
  ⟨h.ordered.sublist hsub, fun t ht => h.filled t (hsub.subset ht)⟩

theorem front (h : TokensApart (ts ++ us)) : TokensApart ts :=
  h.sublist (List.sublist_append_left ts us)

theorem back (h : TokensApart (ts ++ us)) : TokensApart us :=
  h.sublist (List.sublist_append_right ts us)

theorem tail {t : SourceToken} (h : TokensApart (t :: ts)) : TokensApart ts :=
  h.sublist (List.sublist_cons_self t ts)

end TokensApart

namespace Span.RunsOver

variable {s t : Span} {xs ys zs : List SourceToken}

theorem single (u : SourceToken) : u.span.RunsOver [u] := ⟨rfl, rfl⟩

/-- Tokens of a row lie inside of the span that runs over it. -/
theorem covers (h : s.RunsOver ys) (hapart : TokensApart ys) :
    ∀ u ∈ ys, s.start.offset ≤ u.span.start.offset ∧ u.span.stop.offset ≤ s.stop.offset := by
  obtain ⟨first, hfirst, hstart⟩ := Option.map_eq_some_iff.mp h.1
  obtain ⟨last, hlast, hstop⟩ := Option.map_eq_some_iff.mp h.2
  obtain ⟨others, hothers⟩ := List.head?_eq_some_iff.mp hfirst
  obtain ⟨init, hinit⟩ := List.getLast?_eq_some_iff.mp hlast
  intro u hu
  rw [← hstart, ← hstop]
  have hfilled := hapart.filled
  constructor
  · have hordered := hothers ▸ hapart.ordered
    rcases List.mem_cons.mp (hothers ▸ hu) with rfl | hu'
    · exact le_rfl
    · have hafter := List.rel_of_pairwise_cons hordered hu'
      have hpos := hfilled first (by simp [hothers])
      omega
  · have hordered := hinit ▸ hapart.ordered
    rcases List.mem_append.mp (hinit ▸ hu) with hu' | hu'
    · have hbefore := (List.pairwise_append.mp hordered).2.2 u hu' last (by simp)
      have hpos := hfilled last (by simp [hinit])
      omega
    · rw [List.mem_singleton.mp hu']

/-- A span that runs over tokens begins and ends as two of them do. -/
theorem exists_ends (h : s.RunsOver ys) : ∃ first ∈ ys, ∃ last ∈ ys, first.span.start = s.start ∧
    last.span.stop = s.stop := by
  obtain ⟨first, hfirst, hstart⟩ := Option.map_eq_some_iff.mp h.1
  obtain ⟨last, hlast, hstop⟩ := Option.map_eq_some_iff.mp h.2
  exact ⟨first, List.mem_of_mem_head? hfirst, last, List.mem_of_mem_getLast? hlast, hstart, hstop⟩

/-- A span over some of the tokens lies inside of the span over all. -/
theorem inside (h : s.RunsOver ys) (ht : t.RunsOver xs) (hsub : xs ⊆ ys) (hapart : TokensApart ys) :
    s.start.offset ≤ t.start.offset ∧ t.stop.offset ≤ s.stop.offset := by
  obtain ⟨first, hfirst, last, hlast, hstart, hstop⟩ := ht.exists_ends
  exact ⟨hstart ▸ (h.covers hapart first (hsub hfirst)).1,
    hstop ▸ (h.covers hapart last (hsub hlast)).2⟩

/-- A span over tokens in front ends before a span over tokens behind them starts. -/
theorem before (hs : s.RunsOver xs) (ht : t.RunsOver zs) (hsub : zs ⊆ ys)
    (hapart : TokensApart (xs ++ ys)) :
    s.stop.offset ≤ t.start.offset := by
  obtain ⟨-, -, last, hlast, -, hstop⟩ := hs.exists_ends
  obtain ⟨first, hfirst, -, -, hstart, -⟩ := ht.exists_ends
  rw [← hstop, ← hstart]
  exact (List.pairwise_append.mp hapart.ordered).2.2 last hlast first (hsub hfirst)

/-- A span over tokens holds some text. -/
theorem filled (h : s.RunsOver ys) (hapart : TokensApart ys) : s.start.offset < s.stop.offset := by
  obtain ⟨first, hfirst, -⟩ := h.exists_ends
  have hinside := h.covers hapart first hfirst
  have hpos := hapart.filled first hfirst
  omega

/-- Merging the spans of a first and a last part gives the span of the whole. -/
theorem merge (mid : List SourceToken) (hs : s.RunsOver xs) (ht : t.RunsOver ys)
    (hzs : zs = xs ++ (mid ++ ys)) (hapart : TokensApart zs) : (s.merge t).RunsOver zs := by
  subst hzs
  have hbefore := hs.before ht (List.subset_append_right mid ys) hapart
  have hfirst := hs.filled hapart.front
  have hsecond := ht.filled hapart.back.back
  have hmerge : s.merge t = ⟨s.start, t.stop⟩ := by
    rw [Span.merge, if_neg (by omega), if_pos (by omega)]
  obtain ⟨first, hhead, hstart⟩ := Option.map_eq_some_iff.mp hs.1
  obtain ⟨last, hlast, hstop⟩ := Option.map_eq_some_iff.mp ht.2
  rw [hmerge]
  constructor
  · rw [List.head?_append, hhead, Option.some_or, Option.map_some, hstart]
  · rw [List.getLast?_append, List.getLast?_append, hlast, Option.some_or, Option.some_or,
      Option.map_some, hstop]

end Span.RunsOver

namespace Grammar

open Span.RunsOver (single merge)

/-- The span of an expression runs over its tokens, parentheses of its own included. -/
theorem ExprForm.runsOver : ∀ {level : Level} {ys : Tokens} {e : Expr}, ExprForm level ys e →
    TokensApart ys →
    e.span.RunsOver ys
  | _, _, _, .operand h, hapart | _, _, _, .access h, hapart | _, _, _, .primary h, hapart =>
    h.runsOver hapart
  | _, _, _, @ExprForm.operation op _ xs ys _ _ span _ hleft hright, hapart => by
      have hys : TokensApart ys := hapart.back.tail
      exact merge [op.terminal.token span] (hleft.runsOver hapart.front) (hright.runsOver hys)
        rfl hapart
  | _, _, _, @ExprForm.prefixed op _ _ span h, hapart =>
      merge [] (single (op.terminal.token span)) (h.runsOver hapart.tail) rfl hapart
  | _, _, _, .field dot name h, hapart =>
      merge [Terminal.dot.token dot] (h.runsOver hapart.front) (single name.token) rfl hapart
  | _, _, _, .number .. , _ | _, _, _, .string .., _ | _, _, _, .trueWord .., _ | _, _, _,
      .falseWord .., _
  | _, _, _, .reference .., _ => single _
  | _, _, _, @ExprForm.call ys _ name opening close _, hapart =>
      merge (Terminal.leftParen.token opening :: ys) (single name.token)
        (single (Terminal.rightParen.token close)) rfl
        hapart
  | _, _, _, @ExprForm.parentheses ys e opening close _, hapart => by
      have hspan : (e.withSpan (opening.merge close)).span = opening.merge close := by
        cases e <;> rfl
      rw [hspan]
      exact merge ys (single (Terminal.leftParen.token opening))
        (single (Terminal.rightParen.token close)) rfl hapart

/-- The span of a conditional runs over its keyword and what stands behind it. -/
theorem ConditionalForm.runsOver :
    ∀ {start : Span} {ys : Tokens} {s : Stmt}, ConditionalForm start ys s →
    ∀ keyword : Terminal, TokensApart (keyword.token start :: ys) →
    s.span.RunsOver (keyword.token start :: ys)
  | start, _, _, @ConditionalForm.plain _ xs ys _ _ sign stop _ _, keyword, hapart =>
      merge (xs ++ Terminal.thenWord.token sign :: ys) (single (keyword.token start))
        (single (Terminal.endWord.token stop)) (by simp) hapart
  | start, _, _, @ConditionalForm.otherwise _ xs ys zs _ _ _ sign other stop _ _ _, keyword,
      hapart =>
      merge (xs ++ Terminal.thenWord.token sign :: (ys ++ Terminal.elseWord.token other :: zs))
        (single (keyword.token start)) (single (Terminal.endWord.token stop)) (by simp) hapart
  | start, _, _, @ConditionalForm.chained _ xs ys zs _ _ nested sign other _ _ hnested, keyword,
      hapart => by
      have hsplit : keyword.token start ::
          (xs ++ Terminal.thenWord.token sign :: (ys ++ Terminal.elseifWord.token other :: zs)) =
          [keyword.token start] ++
            ((xs ++ Terminal.thenWord.token sign :: ys) ++
              (Terminal.elseifWord.token other :: zs)) := by simp
      have hrest : TokensApart (Terminal.elseifWord.token other :: zs) :=
        (hsplit ▸ hapart).back.back
      exact merge _ (single (keyword.token start)) (hnested.runsOver .elseifWord hrest)
        hsplit hapart

theorem StmtForm.runsOver {ys : Tokens} {s : Stmt} (h : StmtForm ys s) (hapart : TokensApart ys) :
    s.span.RunsOver ys := by
  cases h with
  | expression h => exact ExprForm.runsOver h hapart
  | @declaration xs zs _ _ start sign name _ hvalue =>
      have hsplit :
          Terminal.varWord.token start :: name.token :: (xs ++ Terminal.assign.token sign :: zs) =
          [Terminal.varWord.token start] ++
            ((name.token :: (xs ++ [Terminal.assign.token sign])) ++ zs) := by simp
      have hzs : TokensApart zs := (hsplit ▸ hapart).back.back
      exact merge _ (single (Terminal.varWord.token start)) (ExprForm.runsOver hvalue hzs)
        hsplit hapart
  | @assignment xs zs _ _ sign htarget _ hvalue =>
      have hzs : TokensApart zs := hapart.back.tail
      exact merge [Terminal.assign.token sign] (ExprForm.runsOver htarget hapart.front)
        (ExprForm.runsOver hvalue hzs) rfl hapart
  | conditional start h => exact h.runsOver .ifWord hapart
  | @whileLoop xs zs _ _ start sign stop _ _ =>
      exact merge (xs ++ Terminal.doWord.token sign :: zs) (single (Terminal.whileWord.token start))
        (single (Terminal.endWord.token stop)) (by simp) hapart
  | @repeatLoop xs zs _ _ start sign stop _ _ =>
      exact merge (xs ++ Terminal.timesWord.token sign :: zs)
        (single (Terminal.repeatWord.token start)) (single (Terminal.endWord.token stop))
          (by simp) hapart
  | returnNothing | breakLoop | continueLoop | comment => exact single _
  | returnValue start h =>
      exact merge [] (single (Terminal.returnWord.token start)) (ExprForm.runsOver h hapart.tail)
        rfl hapart

theorem RecordForm.runsOver {ys : Tokens} {d : RecordDecl} (h : RecordForm ys d)
    (hapart : TokensApart ys) :
    d.span.RunsOver ys := by
  cases h with
  | @record zs _ start stop name _ =>
      exact merge (name.token :: zs) (single (Terminal.recordWord.token start))
        (single (Terminal.endWord.token stop)) rfl hapart

theorem FunctionForm.runsOver {ys : Tokens} {d : FunctionDecl} (h : FunctionForm ys d)
    (hapart : TokensApart ys) :
    d.span.RunsOver ys := by
  cases h with
  | @function xs ys zs _ _ _ start opening close stop name _ _ _ =>
      exact merge (name.token :: Terminal.leftParen.token opening ::
          (xs ++ Terminal.rightParen.token close :: (ys ++ zs)))
        (single (Terminal.funWord.token start)) (single (Terminal.endWord.token stop))
          (by simp) hapart

end Grammar

/-- **The span of a node runs over its tokens**, from the start of the first to the end of the
last. -/
theorem Node.Form.runsOver {n : Node} {ys : Tokens} (h : n.Form ys) (hapart : TokensApart ys) :
    n.span.RunsOver ys := by
  cases n with
  | name i =>
      cases h
      exact .single i.token
  | expr => exact ExprForm.runsOver h hapart
  | stmt =>
      rcases h with h | ⟨keyword, zs, rfl, h⟩
      · exact h.runsOver hapart
      · exact h.runsOver .elseifWord hapart
  | record => exact RecordForm.runsOver h hapart
  | function => exact FunctionForm.runsOver h hapart

/-! ## Spans of nodes in a row -/

namespace Laid

variable {ys : Tokens} {ns : List Node} {n : Node}

/-- The spans of nodes in a row are in order and apart. -/
theorem ordered (h : Laid ys ns) (hapart : TokensApart ys) :
    ns.Pairwise fun n m => n.span.stop.offset ≤ m.span.start.offset := by
  induction h with
  | nil => exact .nil
  | skip _ _ ih => exact ih hapart.tail
  | node hform hlaid ih =>
      refine .cons (fun m hm => ?_) (ih hapart.back)
      obtain ⟨front, own, back, rfl, hown⟩ := hlaid.exists_form hm
      have hspan := hown.runsOver hapart.back.front.back
      exact (hform.runsOver hapart.front).before hspan (by simp) hapart

/-- The spans of nodes in a row lie inside of every span that runs over it. -/
theorem inside (h : Laid ys ns) (hapart : TokensApart ys) {s : Span} (hs : s.RunsOver ys)
    (hn : n ∈ ns) :
    s.start.offset ≤ n.span.start.offset ∧ n.span.stop.offset ≤ s.stop.offset := by
  obtain ⟨front, own, back, rfl, hown⟩ := h.exists_form hn
  exact hs.inside (hown.runsOver hapart.front.back) (by simp) hapart

end Laid

end Stepwise
