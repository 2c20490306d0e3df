import Stepwise.Compile
import Stepwise.Proofs.Bare.Reading
import Stepwise.Proofs.Program.RoundTrip
import Stepwise.Proofs.Program.Spans

/-!
# Spans cut the tree out of the text

A node of a program that was read from a source is made of a stretch of the tokens of the source,
but for comments that were passed over inside of it (`Node.MadeOf`). Its span begins where the first
of these tokens begins and ends where the last one ends, and so the spans of what it consists of lie
in it, in order and apart (`Node.CutOut`).

The text at the span of an expression reads as the tokens of the expression, and these as the
expression: expressions of every level are whole expressions, and what comments stand between the
tokens changes places alone (`Parser.program_expression`).

**Spans** (`spans_cut_out`): the parts of a program that was read from a source follow one behind
the other; each of its nodes is cut out of the tokens by its span; and the text at the span of an
expression is a program of this expression alone, equal to it up to places.
-/

set_option autoImplicit false

namespace Stepwise

open Diagnosed Grammar
open Stepwise.Parser (Tokens Takes Reads)

/-! ## Yields in the tokens -/

namespace Parser

variable {ts xs ys rest : Tokens}

/-- Where a yield lies its parts do, one behind the other. -/
theorem Takes.split (h : Takes ts (xs ++ ys) rest) :
    ∃ mid, Takes ts xs mid ∧ Takes mid ys rest := by
  generalize hzs : xs ++ ys = zs at h
  induction h generalizing xs with
  | done ts =>
      obtain ⟨rfl, rfl⟩ := List.append_eq_nil_iff.mp hzs
      exact ⟨ts, .done ts, .done ts⟩
  | token h ih =>
      cases xs with
      | nil =>
          subst hzs
          exact ⟨_, .done _, .token h⟩
      | cons x xs =>
          cases hzs
          obtain ⟨mid, hxs, hys⟩ := ih rfl
          exact ⟨mid, .token hxs, hys⟩
  | skip hcomment h ih =>
      cases xs with
      | nil =>
          subst hzs
          exact ⟨_, .done _, .skip hcomment h⟩
      | cons x xs =>
          obtain ⟨mid, hxs, hys⟩ := ih hzs
          cases hzs
          exact ⟨mid, .skip hcomment hxs, hys⟩

/-- A yield has its own stretch of the tokens, which begins and ends as the yield does. In front of
it are comments, and inside of it are comments that the yield lacks, if any. -/
theorem Takes.exists_own (h : Takes ts ys rest) (hys : ys ≠ []) : ∃ comments own,
    ts = comments ++ own ++ rest ∧ (∀ c ∈ comments, c.token.isComment = true) ∧ ys.Sublist own ∧
      ys.filter (!·.token.isComment) = own.filter (!·.token.isComment) ∧
      own.head? = ys.head? ∧ own.getLast? = ys.getLast? := by
  induction h with
  | done => contradiction
  | @token t ts ys rest h ih =>
      cases ys with
      | nil =>
          cases h
          exact ⟨[], [t], rfl, by simp, .refl _, rfl, rfl, rfl⟩
      | cons u ys =>
          obtain ⟨comments, own, rfl, hcomments, hsub, hfilter, hhead, hlast⟩ :=
            ih (List.cons_ne_nil u ys)
          have hnone : comments.filter (!·.token.isComment) = [] := by
            simpa [List.filter_eq_nil_iff] using hcomments
          refine ⟨[], t :: (comments ++ own), by simp, by simp, ?_, ?_, rfl, ?_⟩
          · exact (hsub.trans (List.sublist_append_right comments own)).cons_cons t
          · rw [List.filter_cons, hfilter, List.filter_cons, List.filter_append, hnone,
              List.nil_append]
          · have hall : t :: (comments ++ own) = (t :: comments) ++ own := rfl
            rw [hall, List.getLast?_append, hlast, List.getLast?_cons_cons, List.getLast?_cons,
              Option.some_or]
  | @skip c t ts ys rest hcomment _ ih =>
      obtain ⟨comments, own, rfl, hcomments, hown⟩ := ih hys
      exact ⟨c :: comments, own, rfl, List.forall_mem_cons.mpr ⟨hcomment, hcomments⟩, hown⟩

/-- A yield that lies somewhere in tokens. -/
def LiesIn (ys ts : Tokens) : Prop := ∃ front ahead rest, ts = front ++ ahead ∧ Takes ahead ys rest

/-- A stretch of a yield lies where the yield does. -/
theorem LiesIn.stretch {own : Tokens} (h : LiesIn (xs ++ own ++ ys) ts) : LiesIn own ts := by
  obtain ⟨front, ahead, rest, rfl, htakes⟩ := h
  obtain ⟨mid, htakes, -⟩ := htakes.split
  obtain ⟨ahead', hxs, hown⟩ := htakes.split
  obtain ⟨passed, rfl, -⟩ := hxs.exists_passed
  exact ⟨front ++ passed, ahead', mid, by rw [List.append_assoc], hown⟩

theorem LiesIn.sublist (h : LiesIn ys ts) : ys.Sublist ts := by
  obtain ⟨front, ahead, rest, rfl, htakes⟩ := h
  obtain ⟨passed, rfl, hsub, -⟩ := htakes.exists_passed
  exact (hsub.trans (List.sublist_append_left passed rest)).trans
    (List.sublist_append_right front _)

end Parser

/-! ## Nodes of programs -/

namespace Grammar.Item

/-- The node that a part of a program is. -/
def node : Item → Node
  | record d => .record d
  | function d => .function d
  | stmt s => .stmt s

end Grammar.Item

/-- What a program consists of. -/
def Program.parts (p : Program) : List Node :=
  p.records.map .record ++ p.functions.map .function ++ p.main.map .stmt

/-- The nodes of a program: its parts, and what its nodes consist of. -/
inductive Program.Has (p : Program) : Node → Prop where
  | part {n : Node} : n ∈ p.parts → Has p n
  | child {n c : Node} : Has p n → c ∈ n.children → Has p c

/-- A stretch of tokens that a node is made of. Comments inside of it may not belong to the form of
the node. -/
def Node.MadeOf (n : Node) (own : List SourceToken) : Prop :=
  ∃ ys, n.Form ys ∧ ys.Sublist own ∧
    ys.filter (!·.token.isComment) = own.filter (!·.token.isComment) ∧
    own.head? = ys.head? ∧ own.getLast? = ys.getLast?

/-- What the span of a node is to the tokens of a source and to the spans of other nodes. -/
structure Node.CutOut (ts : List SourceToken) (n : Node) : Prop where
  /-- The span begins where the first token of the node does and ends where the last one does. -/
  own : ∃ front own back, ts = front ++ own ++ back ∧ n.MadeOf own ∧ n.span.RunsOver own
  /-- The spans of what the node consists of lie in its span. -/
  inside : ∀ c ∈ n.children, n.span.start.offset ≤ c.span.start.offset ∧
    c.span.stop.offset ≤ n.span.stop.offset
  /-- They follow one another as they are written. -/
  ordered : n.children.Pairwise fun c d => c.span.stop.offset ≤ d.span.start.offset
  /-- So do the spans of the statements of a block. -/
  blocks : ∀ block ∈ n.blocks, block.Pairwise fun s t => s.span.stop.offset ≤ t.span.start.offset

theorem Grammar.ItemForm.form {ys : Tokens} {item : Item} (h : ItemForm ys item) :
    item.node.Form ys := by
  cases h with
  | record h => exact h
  | function h => exact h
  | stmt h => exact .inl h

theorem Program.mem_nodes_of_parts {items : List Item} {n : Node}
    (h : n ∈ (Program.ofItems items).parts) :
    n ∈ items.map Item.node := by
  simp only [Program.parts, Program.ofItems, List.mem_append, List.mem_map, List.mem_filterMap] at h
  rw [List.mem_map]
  rcases h with (⟨d, ⟨item, hitem, hd⟩, rfl⟩ | ⟨d, ⟨item, hitem, hd⟩, rfl⟩) |
    ⟨s, ⟨item, hitem, hs⟩, rfl⟩
  all_goals
    refine ⟨item, hitem, ?_⟩
    cases item <;> simp_all [Item.record?, Item.function?, Item.stmt?, Item.node]

theorem Program.main_sublist (items : List Item) :
    ((Program.ofItems items).main.map Node.stmt).Sublist (items.map Item.node) := by
  induction items with
  | nil => exact .refl []
  | cons item rest ih =>
      cases item with
      | record d => exact ih.cons (.record d)
      | function d => exact ih.cons (.function d)
      | stmt s => exact ih.cons_cons (.stmt s)

/-- The blocks of a node are among what it consists of. -/
theorem Node.blocks_sublist {n : Node} {block : List Stmt} (h : block ∈ n.blocks) :
    (block.map Node.stmt).Sublist n.children := by
  cases n with
  | stmt s =>
      cases s with
      | cond condition thenBlock elseBlock span =>
          simp only [Node.blocks, Stmt.blocks, List.mem_cons, List.not_mem_nil, or_false] at h
          rcases h with rfl | rfl
          · exact (List.sublist_append_left _ _).cons _
          · exact (List.sublist_append_right _ _).cons _
      | whileLoop condition body span | repeatLoop count body span =>
          cases List.mem_singleton.mp h
          exact List.sublist_cons_self _ _
      | _ => cases h
  | function d =>
      cases List.mem_singleton.mp h
      exact ((List.sublist_append_right _ _).trans (List.sublist_append_right _ _)).cons _
  | _ => cases h

theorem Grammar.Star.laid {items : List Item} {ys : Tokens} (h : Star ItemForm ys items) :
    Laid ys (items.map Item.node) := by
  rw [List.map_eq_flatMap]
  exact Laid.of_star (fun _ _ h => .single h.form) h

/-- Every node of a program has a form, and the yield of it lies in the tokens. -/
theorem Program.Has.form {items : List Item} {ts ys : Tokens} (hitems : Star ItemForm ys items)
    (hys : Parser.LiesIn ys ts) {n : Node} (h : (Program.ofItems items).Has n) :
    ∃ zs, n.Form zs ∧ Parser.LiesIn zs ts := by
  induction h with
  | part hn =>
      obtain ⟨front, zs, back, rfl, hform⟩ :=
        hitems.laid.exists_form (Program.mem_nodes_of_parts hn)
      exact ⟨zs, hform, hys.stretch⟩
  | child _ hc ih =>
      obtain ⟨zs, hform, hzs⟩ := ih
      obtain ⟨front, own, back, rfl, hown⟩ := hform.children.exists_form hc
      exact ⟨own, hown, hzs.stretch⟩

/-- A node whose yield lies in tokens is made of a stretch of them, over which its span runs. -/
theorem Node.Form.exists_own {n : Node} {ys ts : Tokens} (h : n.Form ys) (hys : Parser.LiesIn ys ts)
    (hapart : TokensApart ys) :
    ∃ front own back, ts = front ++ own ++ back ∧ n.MadeOf own ∧ n.span.RunsOver own := by
  have hspan := h.runsOver hapart
  have hne : ys ≠ [] := by
    rintro rfl
    cases hspan.1
  obtain ⟨front, ahead, rest, rfl, htakes⟩ := hys
  obtain ⟨comments, own, rfl, -, hsub, hfilter, hhead, hlast⟩ := htakes.exists_own hne
  refine ⟨front ++ comments, own, rest, by simp, ⟨ys, h, hsub, hfilter, hhead, hlast⟩, ?_⟩
  rwa [Span.RunsOver, hhead, hlast]

/-- A node is cut out of tokens that are apart and hold its yield, whatever stands behind them. -/
theorem Node.Form.cutOut {n : Node} {ys ts : Tokens} (h : n.Form ys) (hys : Parser.LiesIn ys ts)
    (hts : TokensApart ts) (others : Tokens) : n.CutOut (ts ++ others) := by
  have hapart := hts.sublist hys.sublist
  obtain ⟨front, own, back, rfl, hmade, hown⟩ := h.exists_own hys hapart
  have hordered := h.children.ordered hapart
  refine ⟨⟨front, own, back ++ others, by simp, hmade, hown⟩, fun c hc => ?_, hordered,
    fun block hblock => ?_⟩
  · exact h.children.inside hapart (h.runsOver hapart) hc
  · exact List.pairwise_map.mp (hordered.sublist (Node.blocks_sublist hblock))

/-! ## Expressions on their own -/

theorem uncommented_eq (ts : List SourceToken) :
    uncommented ts = (ts.map (·.token)).filter (!·.isComment) := by
  rw [uncommented, List.filter_map]
  rfl

namespace Parser

/-- Rows of tokens that are the same but for comments and places are read as the same expression but
for places, and where nothing is left of one, comments at most are left of the other. -/
theorem expression_of_uncommented {fin : SourceToken} {ys ts : Tokens} {e : Expr}
    (h : Reads (expression fin ys) e []) (hsame : uncommented ts = uncommented ys) : ∃ e' rest,
    Reads (expression fin ts) e' rest ∧ e'.eraseSpans = e.eraseSpans ∧ ∀ t ∈ rest,
    t.token.isComment = true := by
  have hbare : bareTokens ts = bareTokens ys := by rw [bareTokens_eq, hsame, ← bareTokens_eq]
  obtain ⟨hshort, hread⟩ := h
  have hys :
      Alike (Leaves Expr.eraseSpans) (expression fin ys) (expression fin.bare (bareTokens ys)) :=
    expression_bare fin ys
  have hts :
      Alike (Leaves Expr.eraseSpans) (expression fin ts) (expression fin.bare (bareTokens ts)) :=
    expression_bare fin ts
  rw [hread, ← hbare] at hys
  obtain ⟨a, b, ha, hb, hvalue, hempty⟩ | ⟨d, e, hd, -⟩ := hys.results
  swap
  · cases hd
  cases ha
  obtain ⟨p, b', hp, hb', hvalue', hrest⟩ | ⟨d, e, -, hd, -⟩ := hts.results
  swap
  · cases hb.symm.trans hd
  cases hb.symm.trans hb'
  refine ⟨p.value, p.rest, ⟨p.shorter, hp⟩, hvalue'.symm.trans hvalue, ?_⟩
  have hnone : bareTokens p.rest = [] := hrest.symm.trans hempty
  simpa [bareTokens, List.filter_eq_nil_iff] using hnone

/-- Where comments at most are left behind an expression and the tokens do not end in one, nothing
is left. -/
theorem Reads.rest_eq_nil {fin : SourceToken} {ts rest : Tokens} {e : Expr}
    (h : Reads (expression fin ts) e rest) (hrest : ∀ t ∈ rest, t.token.isComment = true)
    (hlast : ∀ t ∈ ts.getLast?, t.token.isComment = false) :
    rest = [] := by
  obtain ⟨hshort, hread⟩ := h
  obtain ⟨ys, -, htakes⟩ := expression_derives hread
  obtain ⟨passed, hpassed, -⟩ := htakes.exists_passed
  by_contra hne
  have hback : ts.getLast? = some (rest.getLast hne) := by
    rw [hpassed, List.getLast?_append, List.getLast?_eq_some_getLast hne, Option.some_or]
  have hcomment := hrest _ (List.getLast_mem hne)
  rw [hlast _ hback] at hcomment
  cases hcomment

/-- Tokens that are those of an expression, but for comments inside and for where they are written,
are a program of this expression alone. -/
theorem program_expression {ys ts : Tokens} {e : Expr} (h : ExpressionForm ys e) {fin : SourceToken}
    (hfin : fin.token = .endOfInput) (hsame : uncommented ts = uncommented ys)
    (hhead : ts.head?.map (·.token) = ys.head?.map (·.token))
    (hlast : ts.getLast?.map (·.token) = ys.getLast?.map (·.token)) :
    ∃ e', program fin ts = .ok ⟨[], [], [.expr e']⟩ ∧ e'.eraseSpans = e.eraseSpans := by
  have hlook : (look fin []).token = .endOfInput := hfin
  have hread : Reads (expression fin ys) e [] := by
    have hread := h.expression_reads fin [] (not_continues (by rw [hlook]; rfl))
    rwa [List.append_nil] at hread
  obtain ⟨e', rest, hreads, herase, hrest⟩ := expression_of_uncommented hread hsame
  -- the last token is that of the expression, so that no comment is left behind it
  have hnil : rest = [] := by
    refine hreads.rest_eq_nil hrest fun t ht => ?_
    rw [ht] at hlast
    obtain ⟨u, hu, htoken⟩ := Option.map_eq_some_iff.mp hlast.symm
    have hcomment := List.filter_eq_nil_iff.mp h.comments u (List.mem_of_mem_getLast? hu)
    simpa [htoken] using hcomment
  subst hnil
  obtain ⟨t, others, rfl, hstarts⟩ : ∃ t others, ts = t :: others ∧
      startsExpression t.token = true := by
    obtain ⟨u, zs, rfl, hu⟩ := h.starts
    obtain ⟨t, ht, htoken⟩ := Option.map_eq_some_iff.mp hhead
    obtain ⟨others, rfl⟩ := List.head?_eq_some_iff.mp ht
    exact ⟨t, others, rfl, htoken ▸ hu⟩
  have hlookStarts : startsExpression (look fin (t :: others)).token = true := by
    rwa [look_cons (isComment_of_startsExpression hstarts)]
  have hstatement : Reads (statement fin (t :: others)) (.expr e') [] := by
    rw [Stmt.statement_of_startsExpression hlookStarts, expressionOrAssignment, if_pos hlookStarts]
    refine hreads.bind fun _ => ?_
    have hassign : accept? .assign [] = none := rfl
    simp only [hassign]
    exact Reads.ok _
  have hdone : program fin [] = .ok ⟨[], [], []⟩ := by
    rw [program.eq_def]
    rfl
  exact ⟨e', Program.program_statement (Stmt.startsStatement_of_startsExpression hstarts) hstatement
    hdone, herase⟩

end Parser

/-- The text at the span of an expression is a program of this expression alone. -/
theorem Node.MadeOf.slice {source : String} {front own back : List SourceToken} {fin : SourceToken}
    {e : Expr} (h : (Node.expr e).MadeOf own) (hspan : e.span.RunsOver own)
    (htokens : tokens source = .ok (front ++ own ++ back ++ [fin]))
    (hown : ∀ t ∈ own, t.token ≠ .endOfInput) :
    ∃ e', Program.ofSource (e.span.text source) = .ok ⟨[], [], [.expr e']⟩ ∧
    e'.eraseSpans = e.eraseSpans := by
  obtain ⟨ys, hform, -, hfilter, hhead, hlast⟩ := h
  obtain ⟨all, hall, hmap⟩ := tokens_slice htokens hspan
  obtain ⟨ts, others, rfl, hsame, hothers⟩ := List.map_eq_append_iff.mp hmap
  obtain ⟨fin', rfl, hfin⟩ := List.map_eq_singleton_iff.mp hothers
  have hts : ∀ t ∈ ts, t.token ≠ .endOfInput := by
    intro t ht
    obtain ⟨u, hu, htoken⟩ := List.mem_map.mp (hsame ▸ List.mem_map_of_mem ht)
    exact htoken ▸ hown u hu
  have huncommented : uncommented ts = uncommented ys := by
    rw [uncommented_eq, hsame, ← uncommented_eq, uncommented, uncommented, hfilter]
  obtain ⟨e', hread, herase⟩ := Parser.program_expression hform hfin huncommented
    (by rw [← List.head?_map, hsame, List.head?_map, hhead])
    (by rw [← List.getLast?_map, hsame, List.getLast?_map, hlast])
  exact ⟨e', bind_eq_ok.mpr ⟨_, hall, (Program.ofTokens_end hts hfin).trans hread⟩, herase⟩

/-! ## Programs -/

/-- What spans are to a program and to the source that it was read from. -/
structure Program.CutOut (source : String) (ts : List SourceToken) (p : Program) : Prop where
  /-- Records, functions and statements are parts that follow one another. -/
  parts : ∃ items, p = .ofItems items ∧
    (items.map Item.node).Pairwise fun n m => n.span.stop.offset ≤ m.span.start.offset
  /-- The statements outside of functions follow one another. -/
  main : p.main.Pairwise fun s t => s.span.stop.offset ≤ t.span.start.offset
  /-- Every node is cut out of the tokens by its span. -/
  nodes : ∀ n, p.Has n → n.CutOut ts
  /-- The text of an expression is a program of this expression alone. -/
  slices : ∀ e, p.Has (.expr e) → ∃ e',
    Program.ofSource (e.span.text source) = .ok ⟨[], [], [.expr e']⟩ ∧ e'.eraseSpans = e.eraseSpans

/-- **Spans cut the tree out of the text.** -/
theorem spans_cut_out {source : String} {ts : List SourceToken} {p : Program}
    (hts : tokens source = .ok ts) (hp : Program.ofTokens ts = .ok p) : p.CutOut source ts := by
  have htiled := tokens_tiled hts
  obtain ⟨body, rfl, hbody⟩ := htiled.ends
  generalize hfin : (⟨.endOfInput, ⟨.behind source.toList, .behind source.toList⟩⟩ : SourceToken) =
    fin at *
  have hend : fin.token = .endOfInput := hfin ▸ rfl
  have hapart : TokensApart body := by
    refine ⟨htiled.ordered.sublist (List.sublist_append_left body [fin]), fun t ht => ?_⟩
    exact (htiled.alone t (List.mem_append_left [fin] ht) (hbody t ht)).1
  rw [Program.ofTokens_end hbody hend] at hp
  obtain ⟨items, ys, rest, rfl, hitems, htakes, -⟩ := Parser.program_derives body hp
  have hys : Parser.LiesIn ys body := ⟨[], body, rest, rfl, htakes⟩
  have hordered := hitems.laid.ordered (hapart.sublist hys.sublist)
  refine ⟨⟨items, rfl, hordered⟩, ?_, fun n hn => ?_, fun e he => ?_⟩
  · exact List.pairwise_map.mp (hordered.sublist (Program.main_sublist items))
  · obtain ⟨zs, hform, hzs⟩ := hn.form hitems hys
    exact hform.cutOut hzs hapart [fin]
  · obtain ⟨zs, hform, hzs⟩ := he.form hitems hys
    obtain ⟨front, own, back, rfl, hmade, hown⟩ := hform.exists_own hzs (hapart.sublist hzs.sublist)
    exact hmade.slice hown hts fun t ht => hbody t (by simp [ht])

/-- A comment inside of parentheses, and an alternative that begins with its `elseif`. -/
def spacedSource : String := "x = (a # sum\n  + b)\nif x then y() elseif z then end"

theorem spans_cut_out_spaced : ∃ ts p, tokens spacedSource = .ok ts ∧ Program.ofTokens ts = .ok p ∧
    (p.main.flatMap fun s => s.children.map fun n => n.span.text spacedSource) =
      ["x", "(a # sum\n  + b)", "x", "y()", "elseif z then end"] ∧
    p.CutOut spacedSource ts := by
  have htexts : ((tokens spacedSource).bind Program.ofTokens).map (fun p =>
      p.main.flatMap fun s => s.children.map fun n => n.span.text spacedSource) =
      .ok ["x", "(a # sum\n  + b)", "x", "y()", "elseif z then end"] := by decide +kernel
  obtain ⟨p, hread, htexts⟩ := map_eq_ok.mp htexts
  obtain ⟨ts, hts, hp⟩ := bind_eq_ok.mp hread
  exact ⟨ts, p, hts, hp, htexts, spans_cut_out hts hp⟩

end Stepwise
