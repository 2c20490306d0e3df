import Stepwise.Proofs.Code.Flow

/-!
# The numbers of statements

Statements are numbered in the order in which they begin, within each function, and every
instruction carries the number of a statement. Which number it carries follows from the tree:
`Stmt.marks` lists the numbers along the code of a statement. An instruction carries the number of
the statement that it is part of, with two exceptions. The jump behind the first block of an `if`,
and the closing `return` of a function, carry the number that is current when they are made, and
that is the number of whatever statement began last (`Stmt.last`).

Making code numbers it so (`emitStmt_numbered`, `emitFunction_numbered`).
-/

set_option autoImplicit false

namespace Stepwise

/-! ## Numbers along a tree -/

mutual

/-- How many statements a statement is made of, itself counted. Comments do not count. -/
def Stmt.count : Stmt → Nat
  | .comment .. => 0
  | .cond _ thenBlock elseBlock _ => 1 + Stmt.counts thenBlock + Stmt.counts elseBlock
  | .whileLoop _ body _ | .repeatLoop _ body _ => 1 + Stmt.counts body
  | _ => 1

/-- The same for statements in a row. -/
def Stmt.counts : List Stmt → Nat
  | [] => 0
  | s :: rest => s.count + Stmt.counts rest

end

mutual

/-- The number that is current behind a statement of the number `n`, given the one before it. A loop
makes its own number current again, an `if` does not. -/
def Stmt.last (n before : Nat) : Stmt → Nat
  | .comment .. => before
  | .cond _ thenBlock elseBlock _ =>
    Stmt.lasts (n + 1 + Stmt.counts thenBlock) (Stmt.lasts (n + 1) n thenBlock) elseBlock
  | _ => n

/-- The same for statements in a row, numbered from `n`. -/
def Stmt.lasts (n before : Nat) : List Stmt → Nat
  | [] => before
  | s :: rest => Stmt.lasts (n + s.count) (s.last n before) rest

end

mutual

/-- The numbers that the instructions of a statement of the number `n` carry. -/
def Stmt.marks (n : Nat) : Stmt → List Nat
  | .cond condition thenBlock elseBlock _ =>
    List.replicate (condition.size + 1) n ++ Stmt.marksIn (n + 1) thenBlock ++
      [Stmt.lasts (n + 1) n thenBlock] ++
      Stmt.marksIn (n + 1 + Stmt.counts thenBlock) elseBlock
  | .whileLoop condition body _ =>
    List.replicate (condition.size + 1) n ++ Stmt.marksIn (n + 1) body ++ [n]
  | .repeatLoop count body _ =>
    List.replicate (count.size + 4) n ++ Stmt.marksIn (n + 1) body ++ List.replicate 4 n
  | s => List.replicate s.size n

/-- The numbers that the instructions of statements in a row carry, numbered from `n`. -/
def Stmt.marksIn (n : Nat) : List Stmt → List Nat
  | [] => []
  | s :: rest => s.marks n ++ Stmt.marksIn (n + s.count) rest

end

/-- The numbers that the instructions of a function carry. -/
def FunctionDecl.marks (d : FunctionDecl) : List Nat :=
  Stmt.marksIn 0 d.body ++ if endsWithReturn d.body then [] else [Stmt.lasts 0 0 d.body]

mutual

@[simp] theorem Stmt.length_marks : ∀ (s : Stmt) (n : Nat), (s.marks n).length = s.size
  | .cond condition thenBlock elseBlock span, n => by
      simp [Stmt.marks, Stmt.size, Stmt.length_marksIn thenBlock, Stmt.length_marksIn elseBlock]
      omega
  | .whileLoop condition body span, n => by
      simp [Stmt.marks, Stmt.size, Stmt.length_marksIn body]
      omega
  | .repeatLoop count body span, n => by
      simp [Stmt.marks, Stmt.size, Stmt.length_marksIn body]
      omega
  | .comment .., n | .expr _, n | .var _, n | .assign .., n | .ret (some _) _, n | .ret none _, n
  | .breakLoop _, n | .continueLoop _, n => by simp [Stmt.marks]

@[simp] theorem Stmt.length_marksIn :
    ∀ (ss : List Stmt) (n : Nat), (Stmt.marksIn n ss).length = Stmt.sizes ss
  | [], n => rfl
  | s :: rest, n => by
      simp [Stmt.marksIn, Stmt.sizes, Stmt.length_marks s, Stmt.length_marksIn rest]

end

theorem Stmt.count_pos {s : Stmt} (h : s.isComment = false) : 0 < s.count := by
  cases s with
  | comment text span => cases h
  | _ =>
      simp only [Stmt.count]
      omega

/-- Comments in a row have no numbers and leave the current number alone. -/
theorem Stmt.counts_of_all_comments {ss : List Stmt} (h : ss.all Stmt.isComment = true)
    (n before : Nat) :
    Stmt.counts ss = 0 ∧ Stmt.lasts n before ss = before := by
  induction ss generalizing n before with
  | nil => exact ⟨rfl, rfl⟩
  | cons s rest ih =>
      rw [List.all_cons, Bool.and_eq_true] at h
      cases s with
      | comment text span =>
          obtain ⟨hcounts, hlasts⟩ := ih h.2 n before
          refine ⟨by rw [Stmt.counts, hcounts, Stmt.count], ?_⟩
          rw [Stmt.lasts, Stmt.count, Stmt.last, Nat.add_zero, hlasts]
      | _ => cases h.1

/-! ## Numbers of what is made -/

/-- The code of a tree with the given numbers, made behind the state `st`. -/
structure Emitted.Numbered (em : Emitted) (st : EmitState) (marks : List Nat) (count last : Nat) :
    Prop where
  marks : em.code.map (·.info.index) = marks
  next : em.state.nextIndex = st.nextIndex + count
  current : em.state.current.index = last

theorem EmitState.map_index_lines (st : EmitState) (code : List Instruction) :
    (st.lines code).map (·.info.index) = List.replicate code.length st.current.index := by
  simp [EmitState.lines, Function.comp_def, List.map_const']

theorem Expr.length_of_emitExpr {r : Registry} {scopes : Scopes} {e : Expr}
    {code : List Instruction} (h : emitExpr r scopes e = .ok code) : code.length = e.size := by
  rw [emitExpr_eq e h, Expr.length_code]

theorem emitVariable_numbered {r : Registry} {blockEnd pc line : Nat} {st : EmitState}
    {decl : VarDecl} {em : Emitted} (h : emitVariable r blockEnd pc (st.enter line) decl = .ok em) :
    em.Numbered st ((Stmt.var decl).marks st.nextIndex) 1 st.nextIndex := by
  obtain ⟨value, t, slot, scopes, hvalue, -, -, rfl⟩ := emitVariable_eq_ok.mp h
  refine ⟨?_, rfl, rfl⟩
  rw [EmitState.map_index_lines, List.length_append, Expr.length_of_emitExpr hvalue]
  rfl

theorem emitJump_numbered {st : EmitState} {line : Nat} {span : Span} {target : Option Nat}
    {em : Emitted} (h : emitJump (st.enter line) span target = .ok em) :
    em.Numbered st [st.nextIndex] 1 st.nextIndex := by
  obtain ⟨pc, -, rfl⟩ := emitJump_eq_ok.mp h
  exact ⟨rfl, rfl, rfl⟩

mutual

/-- **Making the code of a statement numbers it by its tree.** -/
theorem emitStmt_numbered {r : Registry} :
    ∀ (s : Stmt) {loop : Option LoopTargets} {blockEnd pc : Nat} {st : EmitState} {em : Emitted},
      emitStmt r loop blockEnd pc st s = .ok em →
        em.Numbered st (s.marks st.nextIndex) s.count (s.last st.nextIndex st.current.index)
  | .comment text span, loop, blockEnd, pc, st, em, h => by
      cases h
      exact ⟨rfl, rfl, rfl⟩
  | .expr e, loop, blockEnd, pc, st, em, h => by
      obtain ⟨code, hcode, rfl⟩ := emitStmt_expr_eq_ok.mp h
      refine ⟨?_, rfl, rfl⟩
      rw [EmitState.map_index_lines, emitDropped_eq hcode, List.length_append, Expr.length_code,
        Expr.length_dropCode]
      rfl
  | .var decl, loop, blockEnd, pc, st, em, h => emitVariable_numbered h
  | .assign target value span, loop, blockEnd, pc, st, em, h => by
      obtain ⟨first, second, hfirst, hsecond, rfl⟩ := emitStmt_assign_eq_ok.mp h
      refine ⟨?_, rfl, rfl⟩
      rw [EmitState.map_index_lines, List.length_append, Expr.length_of_emitExpr hfirst,
        emitTarget_eq hsecond, Expr.length_targetCode]
      rfl
  | .cond condition thenBlock elseBlock span, loop, blockEnd, pc, st, em, h => by
      obtain ⟨test, first, second, htest, hfirst, hsecond, rfl⟩ := emitStmt_cond_eq_ok.mp h
      have hthen := emitStmts_numbered thenBlock hfirst
      have helse := emitStmts_numbered elseBlock hsecond
      have hnext : first.state.closeBlock.openBlock.nextIndex = st.nextIndex + 1 + Stmt.counts
        thenBlock := hthen.next
      have hcurrent : first.state.closeBlock.openBlock.current.index = first.state.current.index :=
        rfl
      refine ⟨?_, ?_, ?_⟩
      · simp only [List.map_append, EmitState.map_index_lines, hthen.marks, helse.marks, hnext,
          List.length_append, Expr.length_of_emitExpr htest, hthen.current, Stmt.marks]
        rfl
      · rw [Stmt.count, ← Nat.add_assoc, ← Nat.add_assoc]
        exact helse.next.trans (by rw [hnext])
      · exact helse.current.trans (by rw [hnext, hcurrent, hthen.current]; rfl)
  | .whileLoop condition body span, loop, blockEnd, pc, st, em, h => by
      obtain ⟨test, inner, htest, hinner, rfl⟩ := emitStmt_whileLoop_eq_ok.mp h
      have hbody := emitStmts_numbered body hinner
      refine ⟨?_, ?_, rfl⟩
      · simp only [List.map_append, EmitState.map_index_lines, hbody.marks, List.length_append,
          Expr.length_of_emitExpr htest, Stmt.marks]
        rfl
      · rw [Stmt.count, ← Nat.add_assoc]
        exact hbody.next
  | .repeatLoop count body span, loop, blockEnd, pc, st, em, h => by
      obtain ⟨times, inner, htimes, hinner, rfl⟩ := emitStmt_repeatLoop_eq_ok.mp h
      have hbody := emitStmts_numbered body hinner
      refine ⟨?_, ?_, rfl⟩
      · simp only [List.map_append, EmitState.map_index_lines, hbody.marks, List.length_append,
          Expr.length_of_emitExpr htimes, Stmt.marks]
        rfl
      · rw [Stmt.count, ← Nat.add_assoc]
        exact hbody.next
  | .ret value span, loop, blockEnd, pc, st, em, h => by
      obtain ⟨code, hcode, rfl⟩ := emitStmt_ret_eq_ok.mp h
      refine ⟨?_, rfl, rfl⟩
      rw [EmitState.map_index_lines, emitResult_eq hcode loop pc span, Stmt.length_code]
      rfl
  | .breakLoop span, loop, blockEnd, pc, st, em, h => emitJump_numbered h
  | .continueLoop span, loop, blockEnd, pc, st, em, h => emitJump_numbered h

/-- Making the code of statements in a row numbers it by their trees. -/
theorem emitStmts_numbered {r : Registry} :
    ∀ (ss : List Stmt) {loop : Option LoopTargets} {blockEnd pc : Nat} {st : EmitState}
      {em : Emitted},
      emitStmts r loop blockEnd pc st ss = .ok em →
        em.Numbered st (Stmt.marksIn st.nextIndex ss) (Stmt.counts ss)
          (Stmt.lasts st.nextIndex st.current.index ss)
  | [], loop, blockEnd, pc, st, em, h => by
      cases h
      exact ⟨rfl, rfl, rfl⟩
  | s :: rest, loop, blockEnd, pc, st, em, h => by
      obtain ⟨first, others, hfirst, hothers, rfl⟩ := emitStmts_cons_eq_ok.mp h
      have hhead := emitStmt_numbered s hfirst
      have htail := emitStmts_numbered rest hothers
      rw [hhead.next, hhead.current] at htail
      refine ⟨?_, ?_, htail.current⟩
      · rw [List.map_append, hhead.marks, htail.marks, Stmt.marksIn]
      · rw [Stmt.counts, ← Nat.add_assoc]
        exact htail.next.trans (by rw [hhead.next])

end

/-- The closing `return` carries the number that is current behind the body. -/
theorem map_index_closingReturn {d : FunctionDecl} {body : Emitted} {st : EmitState}
    (hst : st.nextIndex = 0)
    (h : body.Numbered st (Stmt.marksIn 0 d.body) (Stmt.counts d.body) (Stmt.lasts 0 0 d.body)) :
    (closingReturn d body).map (·.info.index) =
      if endsWithReturn d.body then [] else [Stmt.lasts 0 0 d.body] := by
  unfold closingReturn
  split
  · rfl
  · split
    · next hempty =>
        -- There is no code, so the body is made of comments and no statement has begun.
        have hsizes : Stmt.sizes d.body = 0 := by
          rw [← Stmt.length_marksIn d.body 0, ← h.marks, List.isEmpty_iff.mp hempty]
          rfl
        obtain ⟨hcounts, hlasts⟩ :=
          Stmt.counts_of_all_comments (Stmt.all_comments_of_sizes hsizes) 0 0
        rw [EmitState.map_index_lines, hlasts, EmitState.enter, h.next, hst, hcounts]
        rfl
    · rw [EmitState.map_index_lines, h.current]
      rfl

/-- **The instructions of a function carry the numbers of its tree.** -/
theorem emitFunction_numbered {r : Registry} {index : Nat} {d : FunctionDecl} {code : FunctionCode}
    (h : emitFunction r index d = .ok code) : code.lineInfos.toList.map (·.index) = d.marks := by
  obtain ⟨params, scopes, body, -, hbody, rfl⟩ := emitFunction_eq_ok.mp h
  have hnumbered := emitStmts_numbered d.body hbody
  rw [List.toList_toArray, List.map_map, List.map_append]
  exact congrArg₂ (· ++ ·) hnumbered.marks (map_index_closingReturn rfl hnumbered)

/-- Every function of a module was made from the function of that number in the program. -/
theorem emitModule_made {σ : Type} {p : CheckedProgram σ} {module : Module σ}
    (h : emitModule p.functions p.environment = .ok module) {index : Nat} {code : FunctionCode}
    (hcode : module.function? index = some code) :
    ∃ d : FunctionDecl, p.functions[index]? = some d ∧
    emitFunction p.environment.registry index d = .ok code := by
  obtain ⟨hcodes, -, -⟩ := emitModule_eq_ok.mp h
  obtain ⟨hlength, hmade⟩ := emitFunctions_getElem? hcodes
  have hindex : index < p.functions.length := hlength ▸ (List.getElem?_eq_some_iff.mp hcode).1
  have hd := List.getElem?_eq_getElem hindex
  have hemitted := hmade hd hcode
  rw [Nat.zero_add] at hemitted
  exact ⟨_, hd, hemitted⟩

end Stepwise
