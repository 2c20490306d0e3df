import Stepwise.Proofs.Program.Derivation
import Stepwise.Proofs.Program.Recovery

/-!
# Reading undoes writing

Declarations are recovered from their tokens piece by piece, as statements are, and a program is
recovered by going through its records, its functions and its statements. `read_undoes_write` is the
result, for programs and for expressions.
-/

set_option autoImplicit false

namespace Stepwise

open Stepwise.Parser Grammar

/-! ## Declarations -/

section

variable {chains : Stmt → Bool} (fin : SourceToken)

theorem FieldDecl.all_recovered {fs : List FieldDecl} (h : ∀ f ∈ fs, f.ty = none) {ts : Tokens}
    (hts : ts.map (·.token) = fs.flatMap FieldDecl.tokens) (stop : Span) (rest : Tokens) :
    ∃ fs', Reads (fields fin (ts ++ Terminal.endWord.token stop :: rest)) fs'
      (Terminal.endWord.token stop :: rest) ∧
      fs'.map FieldDecl.eraseSpans = fs.map FieldDecl.eraseSpans := by
  induction fs generalizing ts with
  | nil =>
      cases List.map_eq_nil_iff.mp hts
      refine ⟨[], ?_, rfl⟩
      rw [List.nil_append, fields, next?_cons rfl]
      exact Reads.ok _
  | cons f fs ih =>
      rw [List.flatMap_cons, FieldDecl.tokens] at hts
      obtain ⟨span, behindName, rfl, hname⟩ := exists_of_identifier hts
      obtain ⟨colon, behindColon, rfl, hcolon⟩ := exists_of_terminal hname
      obtain ⟨typeSpan, back, rfl, hback⟩ := exists_of_identifier hcolon
      obtain ⟨fs', hreads, herase⟩ := ih (fun g hg => h g (List.mem_cons_of_mem _ hg)) hback
      refine ⟨⟨⟨f.name.name, span⟩, ⟨f.typeName.name, typeSpan⟩, none⟩ :: fs', ?_, ?_⟩
      · rw [List.cons_append, List.cons_append, List.cons_append, fields, next?_cons rfl]
        simp only [Ident.token]
        refine (expect_reads .colon colon).bind fun _ => (identifier_reads ⟨_, typeSpan⟩).bind
          fun _ => ?_
        exact hreads.bind_pure fun _ => ⟨rfl, rfl⟩
      · rw [List.map_cons, List.map_cons, herase]
        simp only [FieldDecl.eraseSpans, Ident.eraseSpans, h f List.mem_cons_self]

theorem RecordDecl.recovered {d : RecordDecl} (h : d.Unannotated) {ts : Tokens} (start : Span)
    (hts : ts.map (·.token) = d.tokens.tail) (rest : Tokens) :
    ∃ d', Reads (recordBehind fin start (ts ++ rest)) d' rest ∧ d'.eraseSpans = d.eraseSpans := by
  obtain ⟨span, behind, rfl, hbehind⟩ := exists_of_identifier hts
  obtain ⟨inner, last, rfl, hinner, hlast⟩ := List.map_eq_append_iff.mp hbehind
  obtain ⟨stop, rfl⟩ := exists_of_lastTerminal hlast
  obtain ⟨fs', hreads, herase⟩ := FieldDecl.all_recovered fin h hinner stop rest
  refine ⟨⟨⟨d.name.name, span⟩, fs', start.merge stop⟩, ?_, ?_⟩
  · rw [List.cons_append, List.append_assoc, List.cons_append, List.nil_append, recordBehind]
    refine (identifier_reads _).bind fun _ => hreads.bind fun _ => ?_
    exact (expect_reads .endWord stop).bind_pure fun _ => ⟨rfl, rfl⟩
  · simp only [RecordDecl.eraseSpans, Ident.eraseSpans, herase]

theorem Param.recovered {p : Param} (h : p.ty = none ∧ p.slot = none) {ts : Tokens}
    (hts : ts.map (·.token) = p.tokens) (rest : Tokens) :
    ∃ p', Reads (parameter fin (ts ++ rest)) p' rest ∧ p'.eraseSpans = p.eraseSpans := by
  obtain ⟨span, behindName, rfl, hname⟩ := exists_of_identifier hts
  obtain ⟨colon, behindColon, rfl, hcolon⟩ := exists_of_terminal hname
  obtain ⟨typeSpan, rfl⟩ := exists_of_lastIdentifier hcolon
  refine ⟨⟨⟨p.name.name, span⟩, ⟨p.typeName.name, typeSpan⟩, none, none⟩, ?_, ?_⟩
  · rw [parameter]
    refine (identifier_reads _).bind fun _ => (expect_reads .colon colon).bind fun _ => ?_
    exact (identifier_reads _).bind_pure fun _ => ⟨rfl, rfl⟩
  · simp only [Param.eraseSpans, Ident.eraseSpans, h]

theorem Param.further_recovered {ps : List Param} (h : ∀ p ∈ ps, p.ty = none ∧ p.slot = none)
    {ts : Tokens} (hts : ts.map (·.token) = ps.flatMap fun p => .terminal .comma :: p.tokens)
    (close : Span) (rest : Tokens) :
    ∃ ps', Reads (parametersBehind fin (ts ++ Terminal.rightParen.token close :: rest)) ps'
        (Terminal.rightParen.token close :: rest) ∧
      ps'.map Param.eraseSpans = ps.map Param.eraseSpans := by
  induction ps generalizing ts with
  | nil =>
      cases List.map_eq_nil_iff.mp hts
      refine ⟨[], ?_, rfl⟩
      rw [List.nil_append, parametersBehind, accept?_cons_ne (by decide)]
      exact Reads.ok _
  | cons p ps ih =>
      obtain ⟨front, back, rfl, hfront, hback⟩ := List.map_eq_append_iff.mp hts
      obtain ⟨comma, behind, rfl, hbehind⟩ := exists_of_terminal hfront
      obtain ⟨p', hp, hpErase⟩ := Param.recovered fin (h p List.mem_cons_self) hbehind
        (back ++ Terminal.rightParen.token close :: rest)
      obtain ⟨ps', hreads, herase⟩ := ih (fun q hq => h q (List.mem_cons_of_mem _ hq)) hback
      refine ⟨p' :: ps', ?_, ?_⟩
      · rw [List.append_assoc, List.cons_append, parametersBehind, accept?_cons]
        exact hp.bind fun _ => hreads.bind_pure fun _ => ⟨rfl, rfl⟩
      · rw [List.map_cons, List.map_cons, hpErase, herase]

theorem Param.all_recovered {ps : List Param} (h : ∀ p ∈ ps, p.ty = none ∧ p.slot = none)
    {ts : Tokens} (hts : ts.map (·.token) = Param.listTokens ps) (close : Span) (rest : Tokens) :
    ∃ ps', Reads (parameters fin (ts ++ Terminal.rightParen.token close :: rest)) ps'
        (Terminal.rightParen.token close :: rest) ∧
      ps'.map Param.eraseSpans = ps.map Param.eraseSpans := by
  cases ps with
  | nil =>
      cases List.map_eq_nil_iff.mp hts
      refine ⟨[], ?_, rfl⟩
      rw [List.nil_append, parameters, accept?_cons]
      exact Reads.ok _
  | cons p ps =>
      obtain ⟨front, back, rfl, hfront, hback⟩ := List.map_eq_append_iff.mp hts
      obtain ⟨p', hp, hpErase⟩ := Param.recovered fin (h p List.mem_cons_self) hfront
        (back ++ Terminal.rightParen.token close :: rest)
      obtain ⟨ps', hreads, herase⟩ :=
        Param.further_recovered fin (fun q hq => h q (List.mem_cons_of_mem _ hq)) hback close rest
      have hparen :
          accept? .rightParen (front ++ (back ++ Terminal.rightParen.token close :: rest)) =
            none := by
        obtain ⟨span, behind, rfl, -⟩ := exists_of_identifier hfront
        rw [List.cons_append, accept?, nextTerminal?, next?_cons rfl]
        rfl
      refine ⟨p' :: ps', ?_, ?_⟩
      · rw [List.append_assoc, parameters, hparen]
        exact hp.bind fun _ => hreads.bind_pure fun _ => ⟨rfl, rfl⟩
      · rw [List.map_cons, List.map_cons, hpErase, herase]

theorem FunctionDecl.recovered {d : FunctionDecl} (h : d.Unannotated)
    (ht : Stmt.AllTargetsAssignable d.body) (hs : Stmt.AllSeparated chains d.body) {ts : Tokens}
    (start : Span) (hts : ts.map (·.token) = (d.tokens chains).tail) (rest : Tokens) :
    ∃ d', Reads (functionBehind fin start (ts ++ rest)) d' rest ∧ d'.eraseSpans = d.eraseSpans := by
  obtain ⟨hparams, hreturn, hbody⟩ := h
  obtain ⟨span, behind, rfl, hbehind⟩ := exists_of_identifier hts
  obtain ⟨opening, inside, rfl, hinside⟩ := exists_of_terminal hbehind
  obtain ⟨paramTokens, behindParams, rfl, hparamTokens, hbehindParams⟩ :=
    List.map_eq_append_iff.mp hinside
  obtain ⟨close, behindClose, rfl, hbehindClose⟩ := exists_of_terminal hbehindParams
  obtain ⟨typeTokens, behindType, rfl, htypeTokens, hbehindType⟩ :=
    List.map_eq_append_iff.mp hbehindClose
  obtain ⟨inner, last, rfl, hinner, hlast⟩ := List.map_eq_append_iff.mp hbehindType
  obtain ⟨stop, rfl⟩ := exists_of_lastTerminal hlast
  obtain ⟨params', hparams', hparamsErase⟩ := Param.all_recovered fin hparams hparamTokens close
    (typeTokens ++ (inner ++ Terminal.endWord.token stop :: rest))
  have hcolon : (look fin (inner ++ Terminal.endWord.token stop :: rest)).token ≠ .terminal
      .colon := by
    obtain ⟨next, -, -, hstarts⟩ | hlook :=
      Stmt.look_blockTokens hinner (Terminal.endWord.token stop :: rest)
    · intro ht
      rw [ht] at hstarts
      cases hstarts
    · rw [hlook]
      nofun
  obtain ⟨typeName', htype, htypeErase⟩ := Stmt.annotation_recovered fin _ htypeTokens hcolon
  obtain ⟨body', hblock, hbodyErase⟩ :=
    Stmt.allRecovered chains fin d.body hbody ht hs inner hinner (Terminal.endWord.token stop)
      rest rfl
  refine ⟨⟨⟨d.name.name, span⟩, params', typeName', none, body', start.merge stop⟩, ?_, ?_⟩
  · rw [List.cons_append, List.cons_append, List.append_assoc, List.cons_append, List.append_assoc,
      List.append_assoc, List.cons_append, List.nil_append, functionBehind]
    refine (identifier_reads _).bind fun _ => (expect_reads .leftParen opening).bind fun _ => ?_
    refine hparams'.bind fun _ => (expect_reads .rightParen close).bind fun _ => ?_
    refine htype.bind fun _ => hblock.bind fun _ => ?_
    exact (expect_reads .endWord stop).bind_pure fun _ => ⟨rfl, rfl⟩
  · simp only [FunctionDecl.eraseSpans, Ident.eraseSpans, hparamsErase, htypeErase, hbodyErase,
      hreturn]

end

/-! ## Programs -/

namespace Program

variable {chains : Stmt → Bool} {fin : SourceToken}

theorem program_comment {text : String} {span : Span} {ts : Tokens} {p : Program}
    (h : program fin ts = .ok p) :
    program fin (⟨.comment text, span⟩ :: ts) =
      .ok { p with main := .comment text span :: p.main } := by
  rw [program.eq_def]
  exact Diagnosed.bind_eq_ok.mpr ⟨p, h, rfl⟩

theorem program_statement {t : SourceToken} {ts mid : Tokens} {s : Stmt} {p : Program}
    (ht : Stmt.startsStatement t.token = true) (hs : Reads (statement fin (t :: ts)) s mid)
    (h : program fin mid = .ok p) : program fin (t :: ts) = .ok { p with main := s :: p.main } := by
  obtain ⟨hshorter, hs⟩ := hs
  have hrow : (do
      let s ← statement fin (t :: ts)
      let p ← program fin s.rest
      return { p with main := s.value :: p.main }) = (.ok { p with main := s :: p.main } :
        Diagnosed Program) :=
    Diagnosed.bind_eq_ok.mpr ⟨_, hs, Diagnosed.bind_eq_ok.mpr ⟨p, h, rfl⟩⟩
  have hnext : next? (t :: ts) = some ⟨t, ts, Nat.lt_succ_self _⟩ :=
    next?_cons (Stmt.isComment_of_startsStatement ht)
  obtain ⟨t, span⟩ := t
  rw [program.eq_def]
  cases t with
  | comment text => cases ht
  | endOfInput => cases ht
  | terminal t =>
      simp only [hnext]
      cases t <;> first | exact hrow | cases ht
  | _ =>
      simp only [hnext]
      exact hrow

theorem program_record {start : Span} {ts mid : Tokens} {d : RecordDecl} {p : Program}
    (hd : Reads (recordBehind fin start ts) d mid) (h : program fin mid = .ok p) :
    program fin (Terminal.recordWord.token start :: ts) =
      .ok { p with records := d :: p.records } := by
  obtain ⟨hshorter, hd⟩ := hd
  rw [program.eq_def]
  exact Diagnosed.bind_eq_ok.mpr ⟨_, hd, Diagnosed.bind_eq_ok.mpr ⟨p, h, rfl⟩⟩

theorem program_function {start : Span} {ts mid : Tokens} {d : FunctionDecl} {p : Program}
    (hd : Reads (functionBehind fin start ts) d mid) (h : program fin mid = .ok p) :
    program fin (Terminal.funWord.token start :: ts) =
      .ok { p with functions := d :: p.functions } := by
  obtain ⟨hshorter, hd⟩ := hd
  rw [program.eq_def]
  exact Diagnosed.bind_eq_ok.mpr ⟨_, hd, Diagnosed.bind_eq_ok.mpr ⟨p, h, rfl⟩⟩

/-- The statements of a program are given back up to the end of the input. -/
theorem main_recovered (hfin : fin.token = .endOfInput) {ss : List Stmt}
    (h : Stmt.AllUnannotated ss) (ht : Stmt.AllTargetsAssignable ss)
    (hs : Stmt.AllSeparated chains ss) {ts : Tokens}
    (hts : ts.map (·.token) = Stmt.blockTokens chains ss) :
    ∃ ss', program fin ts = .ok ⟨[], [], ss'⟩ ∧ Stmt.eraseAllSpans ss' = Stmt.eraseAllSpans ss := by
  induction ss generalizing ts with
  | nil =>
      cases List.map_eq_nil_iff.mp hts
      refine ⟨[], ?_, rfl⟩
      rw [program.eq_def]
      rfl
  | cons s ss ih =>
      obtain ⟨front, back, rfl, hfront, hback⟩ := List.map_eq_append_iff.mp hts
      obtain ⟨ss', hmain, hmainErase⟩ := ih h.2 ht.2 hs.2.2 hback
      cases hcomment : s.isComment with
      | true =>
          cases s with
          | comment text span =>
              obtain ⟨⟨_, span'⟩, rfl, rfl⟩ := List.map_eq_singleton_iff.mp hfront
              exact ⟨.comment text span' :: ss', program_comment hmain,
                congrArg (Stmt.comment text .origin :: ·) hmainErase⟩
          | _ => cases hcomment
      | false =>
          have hend : endsBlock (look fin []).token = true := by
            rw [show look fin [] = fin from rfl, hfin]
            rfl
          have hstops := Stmt.stops_of_row hs.2.1 hback hend
          rw [List.append_nil] at hstops
          obtain ⟨s', hreads, herase⟩ :=
            (Stmt.recovered chains fin s h.1 ht.1 hs.1).statement hcomment front back hfront hstops
          obtain ⟨t, ys, hys, hstarts⟩ := Stmt.tokens_starts chains hcomment
          obtain ⟨⟨_, span⟩, behind, rfl, rfl, -⟩ := List.map_eq_cons_iff.mp (hfront.trans hys)
          refine ⟨s' :: ss', program_statement hstarts hreads hmain, ?_⟩
          simp only [Stmt.eraseAllSpans, herase, hmainErase]

/-- Functions in front of a program are given back. -/
theorem functions_recovered {ds : List FunctionDecl} (h : ∀ d ∈ ds, d.Unannotated)
    (ht : ∀ d ∈ ds, Stmt.AllTargetsAssignable d.body)
    (hs : ∀ d ∈ ds, Stmt.AllSeparated chains d.body) {ts : Tokens}
    (hts : ts.map (·.token) = ds.flatMap (FunctionDecl.tokens chains)) {rest : Tokens} {p : Program}
    (hrest : program fin rest = .ok p) :
    ∃ ds', program fin (ts ++ rest) = .ok { p with functions := ds' ++ p.functions } ∧
      ds'.map FunctionDecl.eraseSpans = ds.map FunctionDecl.eraseSpans := by
  induction ds generalizing ts with
  | nil =>
      cases List.map_eq_nil_iff.mp hts
      exact ⟨[], hrest, rfl⟩
  | cons d ds ih =>
      obtain ⟨front, back, rfl, hfront, hback⟩ := List.map_eq_append_iff.mp hts
      obtain ⟨start, behind, rfl, hbehind⟩ := exists_of_terminal hfront
      obtain ⟨ds', hothers, hothersErase⟩ := ih (fun f hf => h f (List.mem_cons_of_mem _ hf))
        (fun f hf => ht f (List.mem_cons_of_mem _ hf))
          (fun f hf => hs f (List.mem_cons_of_mem _ hf)) hback
      obtain ⟨d', hreads, herase⟩ := FunctionDecl.recovered fin (h d List.mem_cons_self)
        (ht d List.mem_cons_self) (hs d List.mem_cons_self) start hbehind (back ++ rest)
      refine ⟨d' :: ds', ?_, ?_⟩
      · rw [List.append_assoc, List.cons_append]
        exact program_function hreads hothers
      · rw [List.map_cons, List.map_cons, herase, hothersErase]

/-- Records in front of a program are given back. -/
theorem records_recovered {ds : List RecordDecl} (h : ∀ d ∈ ds, d.Unannotated) {ts : Tokens}
    (hts : ts.map (·.token) = ds.flatMap RecordDecl.tokens) {rest : Tokens} {p : Program}
    (hrest : program fin rest = .ok p) :
    ∃ ds', program fin (ts ++ rest) = .ok { p with records := ds' ++ p.records } ∧
      ds'.map RecordDecl.eraseSpans = ds.map RecordDecl.eraseSpans := by
  induction ds generalizing ts with
  | nil =>
      cases List.map_eq_nil_iff.mp hts
      exact ⟨[], hrest, rfl⟩
  | cons d ds ih =>
      obtain ⟨front, back, rfl, hfront, hback⟩ := List.map_eq_append_iff.mp hts
      obtain ⟨start, behind, rfl, hbehind⟩ := exists_of_terminal hfront
      obtain ⟨ds', hothers, hothersErase⟩ := ih (fun f hf => h f (List.mem_cons_of_mem _ hf)) hback
      obtain ⟨d', hreads, herase⟩ :=
        RecordDecl.recovered fin (h d List.mem_cons_self) start hbehind (back ++ rest)
      refine ⟨d' :: ds', ?_, ?_⟩
      · rw [List.append_assoc, List.cons_append]
        exact program_record hreads hothers
      · rw [List.map_cons, List.map_cons, herase, hothersErase]

end Program

/-! ## Reading undoes writing -/

/-- **Reading undoes writing.** A program without annotations whose assignments set variables and
fields and whose statements can follow each other is read, from its tokens at any spans, as the same
program up to spans; which alternatives are written as `elseif` makes no difference. An expression
is read as itself in front of whatever does not continue it, and reading stops exactly there. -/
theorem read_undoes_write :
    (∀ (p : Program) (chains : Stmt → Bool) (ts : List SourceToken), p.Unannotated →
      (∀ d ∈ p.allFunctions, Stmt.AllTargetsAssignable d.body) → p.Separated chains →
      ts.map (·.token) = p.tokens chains → ∃ q, Program.ofTokens ts = .ok q ∧
      q.eraseSpans = p.eraseSpans) ∧
    ∀ (e : Expr) (fin : SourceToken) (ts rest : List SourceToken), e.Unannotated →
      ts.map (·.token) = e.tokens →
      ¬Continues .loosest e.tokens (look fin rest).token →
      ∃ e', Reads (expression fin (ts ++ rest)) e' rest ∧ e'.eraseSpans = e.eraseSpans := by
  constructor
  · intro p chains ts hplain htargets hseparated hts
    obtain ⟨records, behindRecords, rfl, hrecords, hbehindRecords⟩ := List.map_eq_append_iff.mp hts
    obtain ⟨functions, behindFunctions, rfl, hfunctions, hbehindFunctions⟩ :=
      List.map_eq_append_iff.mp hbehindRecords
    obtain ⟨main, last, rfl, hmain, hlast⟩ := List.map_eq_append_iff.mp hbehindFunctions
    obtain ⟨fin, rfl, hfin⟩ := List.map_eq_singleton_iff.mp hlast
    obtain ⟨main', hmain', hmainErase⟩ := Program.main_recovered hfin hplain.2.2
      (htargets _ List.mem_cons_self) (hseparated _ List.mem_cons_self) hmain
    obtain ⟨functions', hfunctions', hfunctionsErase⟩ := Program.functions_recovered hplain.2.1
      (fun d hd => htargets d (List.mem_cons_of_mem _ hd))
        (fun d hd => hseparated d (List.mem_cons_of_mem _ hd))
      hfunctions hmain'
    obtain ⟨records', hrecords', hrecordsErase⟩ :=
      Program.records_recovered hplain.1 hrecords hfunctions'
    have hbody : ∀ t ∈ records ++ (functions ++ main), t.token ≠ .endOfInput := by
      have hnot : Token.endOfInput ∉ (records ++ (functions ++ main)).map (·.token) := by
        simp only [List.map_append, hrecords, hfunctions, hmain, List.mem_append, List.mem_flatMap,
          not_or, not_exists, not_and]
        exact ⟨fun d _ => d.endOfInput_notMem, fun d _ => d.endOfInput_notMem chains,
          Stmt.endOfInput_notMem_block chains p.main⟩
      exact fun t ht heq => hnot (heq ▸ List.mem_map_of_mem ht)
    refine ⟨⟨records' ++ [], functions' ++ [], main'⟩, ?_, ?_⟩
    · rw [← List.append_assoc functions, ← List.append_assoc records, Program.ofTokens_end hbody
        hfin, hrecords']
    · simp only [Program.eraseSpans, List.append_nil, hrecordsErase, hfunctionsErase, hmainErase]
  · intro e fin ts rest hplain hts hrest
    obtain ⟨e', hform, herase⟩ := Expr.derives hplain hts
    exact ⟨e', hform.expression_reads fin rest (hts ▸ hrest), herase⟩

/-- A conditional with another alone in its alternative, a comment, and an assignment to a field
whose value needs parentheses. -/
def chainedProgram : Program :=
  let info : ExprInfo := unchecked .origin
  let x : Expr := .reference info "x" none
  let y : Expr := .reference info "y" none
  ⟨[], [], [
    .cond (.boolean info true) [.expr x] [.cond (.unary info .not x) [.ret none .origin] [] .origin]
      .origin,
    .comment "then" .origin,
    .assign (.field info x ⟨"a", .origin⟩) (.binary info .subtract y (.binary info .subtract x y))
      .origin]⟩

theorem read_undoes_write_chained :
    chainedProgram.tokens (fun _ => true) =
      [.terminal .ifWord, .terminal .trueWord, .terminal .thenWord, .identifier "x",
        .terminal .elseifWord,
        .terminal .notWord, .identifier "x", .terminal .thenWord, .terminal .returnWord,
        .terminal .endWord,
        .comment "then", .identifier "x", .terminal .dot, .identifier "a", .terminal .assign,
        .identifier "y",
        .terminal .minus, .terminal .leftParen, .identifier "x", .terminal .minus, .identifier "y",
        .terminal .rightParen, .endOfInput] ∧
    ∃ q, Program.ofTokens ((chainedProgram.tokens fun _ => true).map (⟨·, .origin⟩)) = .ok q ∧
      q.eraseSpans = chainedProgram.eraseSpans := by
  refine ⟨rfl, read_undoes_write.1 chainedProgram (fun _ => true) _ ?_ ?_ ?_ ?_⟩
  · simp [Program.Unannotated, chainedProgram, Stmt.AllUnannotated, Stmt.Unannotated,
      Expr.Unannotated, unchecked]
  · simp [Program.allFunctions, FunctionDecl.main, chainedProgram, Stmt.AllTargetsAssignable,
      Stmt.TargetsAssignable, Expr.isAssignable]
  · intro d hd
    cases List.mem_singleton.mp hd
    have hlast : ∀ s next : Stmt, next ∈ [].find? (!·.isComment) →
      s.Parted (fun _ => true) next := by simp
    exact ⟨⟨⟨trivial, hlast _, trivial⟩, ⟨⟨trivial, hlast _, trivial⟩, trivial⟩, hlast _, trivial⟩,
      fun _ _ => by constructor <;> rintro ⟨⟩, trivial,
      fun _ _ => by constructor <;> rintro ⟨⟩, trivial, hlast _, trivial⟩
  · rw [List.map_map]
    exact List.map_id _

end Stepwise
