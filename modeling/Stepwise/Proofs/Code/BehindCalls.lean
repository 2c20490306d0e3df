import Stepwise.Proofs.Code.BlockEnds
import Stepwise.Proofs.Code.Extent

/-!
# What stands behind calls

A machine that waits for a call points behind it. The instruction there carries the number of the
same statement, since the value of the call is still to be used or dropped, unless there is no
value: a call of a function that yields nothing ends its statement. Even then the jump behind the
first block of an `if` and the closing `return` carry the number of the statement that ends in front
of them. In all other places the statement is over, and no instruction behind the call carries its
number (`FunctionDecl.behind_call`).

Instructions that carry one number carry one line with it (`emitFunction_lined`), so that a debugger
that shows the number or the line of the next instruction shows those of the call in all but these
places.
-/

set_option autoImplicit false

namespace Stepwise

variable {C : BodyTyping} {vars : List Nat} {callee : Callee}

/-! ## Numbers in and behind a tree -/

theorem Stmt.marks_bounds {s : Stmt} {pc n here k : Nat} (h : Placed (s.marks n) pc here k) :
    n ≤ k ∧ k < n + s.count := by
  obtain ⟨start, stop, hextent, -, -⟩ := Stmt.marks_covered s 0 h
  exact hextent.bounds.2.2.2.2

theorem Stmt.marksIn_bounds {ss : List Stmt} {pc n here k : Nat}
    (h : Placed (Stmt.marksIn n ss) pc here k) :
    n ≤ k ∧ k < n + Stmt.counts ss := by
  obtain ⟨start, stop, hextent, -, -⟩ := Stmt.marks_covered_all ss 0 h
  exact hextent.bounds.2.2.2.2

theorem Stmt.le_of_mem_marksIn {ss : List Stmt} {n k : Nat} (h : k ∈ Stmt.marksIn n ss) :
    n ≤ k := by
  obtain ⟨i, hi⟩ := List.mem_iff_getElem?.mp h
  have hplaced : Placed (Stmt.marksIn n ss) 0 i k := ⟨i, (Nat.zero_add i).symm, hi⟩
  exact (Stmt.marksIn_bounds hplaced).1

/-- Behind statements in a row the number of one of them is current, if there is one that is no
comment. -/
theorem Stmt.le_lasts {ss : List Stmt} (h : ss.all Stmt.isComment = false) (n before : Nat) :
    n ≤ Stmt.lasts n before ss := by
  obtain ⟨start, stop, hextent, -⟩ := Stmt.exists_last_all ss 0 n before 0 h
  exact hextent.bounds.2.2.2.2.1

theorem Stmt.lasts_eq_or_le (ss : List Stmt) (n before : Nat) :
    Stmt.lasts n before ss = before ∨ n ≤ Stmt.lasts n before ss := by
  cases h : ss.all Stmt.isComment with
  | true => exact .inl (Stmt.counts_of_all_comments h n before).2
  | false => exact .inr (Stmt.le_lasts h n before)

/-! ## Behind a call -/

/-- What stands behind the call at `here`, in code that starts at `pc`, carries these numbers, and
has the number `last` current behind it. -/
inductive CallFollowed (C : BodyTyping) (callee : Callee) (marks : List Nat) (pc here last : Nat) :
    Prop
  /-- An instruction of the same number. -/
  | same {k : Nat} : Placed marks pc here k → Placed marks pc (here + 1) k →
      CallFollowed C callee marks pc here last
  /-- The code goes on, but the statement does not. -/
  | leaves {k : Nat} : C.YieldsNothing callee → Placed marks pc here k →
      here + 1 < pc + marks.length →
      (∀ later, here < later → ¬ Placed marks pc later k) → k ≠ last →
      CallFollowed C callee marks pc here last
  /-- The end of the code. -/
  | atEnd : C.YieldsNothing callee → Placed marks pc here last → here + 1 = pc + marks.length →
      CallFollowed C callee marks pc here last

/-- A call in a stretch of code, of which are known the numbers in front and behind. -/
theorem CallFollowed.within {marks : List Nat} (front behind : List Nat)
    {pc inner here innerLast last : Nat} (h : CallFollowed C callee marks inner here innerLast)
    (hinner : inner = pc + front.length)
    (hover : ∀ k, Placed marks inner here k → k ≠ innerLast → k ∉ behind ∧ k ≠ last)
    (hend : Placed marks inner here innerLast → behind = [] ∧ innerLast = last ∨
      behind.head? = some innerLast ∨ behind ≠ [] ∧ innerLast ∉ behind ∧ innerLast ≠ last) :
    CallFollowed C callee (front ++ marks ++ behind) pc here last := by
  subst hinner
  have hlift : ∀ {j k : Nat}, Placed marks (pc + front.length) j k →
      Placed (front ++ marks ++ behind) pc j k :=
    fun h => placed_append.mpr (.inl (placed_append.mpr (.inr h)))
  have hbehind : ∀ {j k : Nat}, here < j → Placed (front ++ marks ++ behind) pc j k →
      pc + front.length ≤ here → Placed marks (pc + front.length) j k ∨ k ∈ behind := by
    intro j k hj h hhere
    rw [placed_append, placed_append] at h
    rcases h with (h | h) | ⟨i, -, hi⟩
    · have := h.bounds
      omega
    · exact .inl h
    · exact .inr (List.mem_of_getElem? hi)
  cases h with
  | same hk hnext => exact .same (hlift hk) (hlift hnext)
  | leaves hnothing hk hmore hlater hne =>
      obtain ⟨hfree, hlast⟩ := hover _ hk hne
      refine .leaves hnothing (hlift hk) (by simp only [List.length_append]; omega) ?_ hlast
      intro later hlt h
      rcases hbehind hlt h hk.bounds.1 with h | h
      · exact hlater later hlt h
      · exact hfree h
  | atEnd hnothing hk hstop =>
      have hfirst : pc + (front ++ marks).length = here + 1 := by
        rw [List.length_append]
        omega
      rcases hend hk with ⟨rfl, rfl⟩ | hsame | ⟨hne, hfree, hlast⟩
      · refine .atEnd hnothing (hlift hk) ?_
        rw [List.append_nil]
        omega
      · refine .same (hlift hk) (placed_append.mpr (.inr ⟨0, hfirst.symm, ?_⟩))
        rwa [← List.head?_eq_getElem?]
      · refine .leaves hnothing (hlift hk) ?_ ?_ hlast
        · have := List.length_pos_iff.mpr hne
          simp only [List.length_append] at hfirst ⊢
          omega
        · intro later hlt h
          rcases hbehind hlt h hk.bounds.1 with h | h
          · have := h.bounds
            omega
          · exact hfree h

/-- A call in the body of a loop: behind the body instructions carry the number of the loop
again. -/
theorem CallFollowed.of_body {body : List Stmt} {front : List Nat} {n pc inner here innerLast : Nat}
    (h : CallFollowed C callee (Stmt.marksIn (n + 1) body) inner here innerLast) (more : Nat)
    (hinner : inner = pc + front.length) :
    CallFollowed C callee (front ++ Stmt.marksIn (n + 1) body ++ List.replicate (more + 1) n) pc
      here n := by
  refine h.within _ _ hinner ?_ ?_
  · intro k hk _
    have := Stmt.marksIn_bounds hk
    simp only [List.mem_replicate]
    omega
  · intro hk
    have := Stmt.marksIn_bounds hk
    refine .inr (.inr ⟨List.cons_ne_nil _ _, ?_⟩)
    simp only [List.mem_replicate]
    omega

/-- A call in code that carries one number throughout. -/
theorem CallFollowed.of_replicate {code : List Instruction} {pc here size n : Nat}
    (hsize : code.length = size) (hcall : Placed code pc here callee.instruction)
    (hlast : code.getLast? = some callee.instruction → C.YieldsNothing callee) :
    CallFollowed C callee (List.replicate size n) pc here n := by
  have hbounds := hcall.bounds
  rcases Nat.lt_or_ge (here + 1) (pc + size) with hmore | hend
  · exact .same (placed_replicate.mpr ⟨rfl, by omega, by omega⟩)
      (placed_replicate.mpr ⟨rfl, by omega, hmore⟩)
  · obtain ⟨i, rfl, hi⟩ := hcall
    refine .atEnd (hlast ?_) (placed_replicate.mpr ⟨rfl, by omega, by omega⟩)
      (by rw [List.length_replicate]; omega)
    rw [List.getLast?_eq_getElem?, show code.length - 1 = i by omega, hi]

/-- A call in a condition or count: an instruction of the statement is behind it. -/
theorem CallFollowed.of_test {code : List Instruction} {behind : List Nat}
    {pc here size more n last : Nat} (hsize : code.length = size) (hmore : 0 < more)
    (hcall : Placed code pc here callee.instruction) :
    CallFollowed C callee (List.replicate (size + more) n ++ behind) pc here last := by
  have hbounds := hcall.bounds
  exact .same (placed_append.mpr (.inl (placed_replicate.mpr ⟨rfl, by omega, by omega⟩)))
    (placed_append.mpr (.inl (placed_replicate.mpr ⟨rfl, by omega, by omega⟩)))

/-- A call in a statement whose instructions all carry its number. -/
theorem StmtTyped.behind_call_simple {s : Stmt} {inLoop : Bool} {loop : Option LoopTargets}
    {pc n here : Nat} (htyped : StmtTyped C inLoop vars s)
    (hmarks : s.marks n = List.replicate s.size n)
    (hcall : Placed (s.code C.registry loop pc) pc here callee.instruction) :
    CallFollowed C callee (s.marks n) pc here n := by
  rw [hmarks]
  exact .of_replicate (s.length_code C.registry loop pc) hcall (StmtTyped.last_call s htyped)

mutual

/-- What stands behind a call in a statement. -/
theorem StmtTyped.behind_call : ∀ (s : Stmt) {inLoop : Bool} {vars : List Nat}
    {loop : Option LoopTargets} {pc n here : Nat} (before : Nat), StmtTyped C inLoop vars s →
      Placed (s.code C.registry loop pc) pc here callee.instruction →
        CallFollowed C callee (s.marks n) pc here (s.last n before)
  | .cond condition thenBlock elseBlock span, _, _, loop, pc, n, here, before,
      .cond _ hthen helse, h => by
      rw [Stmt.marks, Stmt.last]
      rcases placed_cond.mp h with h | ⟨-, h⟩ | h | ⟨-, h⟩ | h
      · rw [List.append_assoc, List.append_assoc]
        exact .of_test (condition.length_code C.registry) Nat.one_pos h
      · exact absurd h (callee.instruction_ne rfl)
      · -- The jump behind the first block carries the number that is current behind the block.
        rw [List.append_assoc]
        refine (StmtsTyped.behind_call thenBlock (n := n + 1) n hthen h).within _ _
          (by simp; omega) ?_ fun _ => .inr (.inl rfl)
        intro k hk hne
        have hbounds := Stmt.marksIn_bounds hk
        refine ⟨?_, ?_⟩
        · intro hmem
          rcases List.mem_cons.mp hmem with rfl | hmem
          · exact hne rfl
          · have := Stmt.le_of_mem_marksIn hmem
            omega
        · rcases Stmt.lasts_eq_or_le elseBlock (n + 1 + Stmt.counts thenBlock)
              (Stmt.lasts (n + 1) n thenBlock) with
            hlast | hlast
          · rw [hlast]
            exact hne
          · omega
      · exact absurd h (callee.instruction_ne rfl)
      · have hfollowed := StmtsTyped.behind_call elseBlock (n := n + 1 + Stmt.counts thenBlock)
          (Stmt.lasts (n + 1) n thenBlock) helse h
        rw [← List.append_nil (_ ++ _ ++ _ ++ _)]
        exact hfollowed.within _ [] (by simp; omega) (fun k _ hne => ⟨List.not_mem_nil, hne⟩)
          fun _ => .inl ⟨rfl, rfl⟩
  | .whileLoop condition body span, _, _, loop, pc, n, here, before, .whileLoop _ hbody, h => by
      rw [Stmt.marks, show (Stmt.whileLoop condition body span).last n before = n from rfl]
      rcases placed_whileLoop.mp h with h | ⟨-, h⟩ | h | ⟨-, h⟩
      · rw [List.append_assoc]
        exact .of_test (condition.length_code C.registry) Nat.one_pos h
      · exact absurd h (callee.instruction_ne rfl)
      · exact (StmtsTyped.behind_call body (n := n + 1) n hbody h).of_body 0 (by simp; omega)
      · exact absurd h (callee.instruction_ne rfl)
  | .repeatLoop count body span, _, _, loop, pc, n, here, before, .repeatLoop _ hbody, h => by
      rw [Stmt.marks, show (Stmt.repeatLoop count body span).last n before = n from rfl]
      rcases placed_repeatLoop.mp h with h | h | h | h
      · rw [List.append_assoc]
        exact .of_test (count.length_code C.registry) (by omega) h
      · exact absurd h (not_placed_call rfl)
      · exact (StmtsTyped.behind_call body (n := n + 1) n hbody h).of_body 3 (by simp; omega)
      · exact absurd h (not_placed_call rfl)
  | .comment _ _, _, _, _, _, _, _, _, _, h => absurd h.bounds (by simp [Stmt.code])
  | .expr _, _, _, _, _, _, _, _, htyped, h => htyped.behind_call_simple rfl h
  | .var _, _, _, _, _, _, _, _, htyped, h => htyped.behind_call_simple rfl h
  | .assign _ _ _, _, _, _, _, _, _, _, htyped, h => htyped.behind_call_simple rfl h
  | .ret _ _, _, _, _, _, _, _, _, htyped, h => htyped.behind_call_simple rfl h
  | .breakLoop _, _, _, _, _, _, _, _, htyped, h => htyped.behind_call_simple rfl h
  | .continueLoop _, _, _, _, _, _, _, _, htyped, h => htyped.behind_call_simple rfl h

/-- What stands behind a call in statements in a row. -/
theorem StmtsTyped.behind_call : ∀ (ss : List Stmt) {inLoop : Bool} {vars : List Nat}
    {loop : Option LoopTargets} {pc n here : Nat} (before : Nat), StmtsTyped C inLoop vars ss →
      Placed (Stmt.codes C.registry loop pc ss) pc here callee.instruction →
        CallFollowed C callee (Stmt.marksIn n ss) pc here (Stmt.lasts n before ss)
  | [], _, _, _, _, _, _, _, _, h => absurd h.bounds (by simp [Stmt.codes])
  | s :: rest, _, _, loop, pc, n, here, before, .cons hs hrest, h => by
      rw [Stmt.codes, placed_append, Stmt.length_code] at h
      rw [Stmt.marksIn, Stmt.lasts]
      rcases h with h | h
      · have hfollowed := StmtTyped.behind_call s (n := n) before hs h
        refine hfollowed.within [] _ rfl ?_ ?_
        · intro k hk hne
          have hbounds := Stmt.marks_bounds hk
          refine ⟨fun hmem => ?_, ?_⟩
          · have := Stmt.le_of_mem_marksIn hmem
            omega
          · rcases Stmt.lasts_eq_or_le rest (n + s.count) (s.last n before) with hlast | hlast
            · rw [hlast]
              exact hne
            · omega
        · intro hk
          have hbounds := Stmt.marks_bounds hk
          cases hcomments : rest.all Stmt.isComment with
          | true =>
              refine .inl ⟨?_, (Stmt.counts_of_all_comments hcomments _ _).2.symm⟩
              rw [← List.length_eq_zero_iff, Stmt.length_marksIn, Stmt.sizes_of_all_comments
                hcomments]
          | false =>
              have hlast := Stmt.le_lasts hcomments (n + s.count) (s.last n before)
              refine .inr (.inr ⟨fun hnil => ?_, fun hmem => ?_, by omega⟩)
              · have hsizes := Stmt.length_marksIn rest (n + s.count)
                rw [hnil] at hsizes
                rw [Stmt.all_comments_of_sizes hsizes.symm] at hcomments
                cases hcomments
              · have := Stmt.le_of_mem_marksIn hmem
                omega
      · have hfollowed := StmtsTyped.behind_call rest (n := n + s.count) (s.last n before) hrest h
        rw [← List.append_nil (_ ++ _)]
        exact hfollowed.within _ [] (by simp) (fun k _ hne => ⟨List.not_mem_nil, hne⟩) fun _ =>
          .inl ⟨rfl, rfl⟩

end

/-- **The instruction behind a call carries the number of the call**, unless the function that is
called yields nothing and no instruction behind the call carries its number. -/
theorem FunctionDecl.behind_call {r : Registry} {arrows : Callee → Option Arrow} {d : FunctionDecl}
    (typed : FunctionTyped r arrows d) {here k : Nat}
    (hcall : (d.code r)[here]? = some callee.instruction) (hk : d.marks[here]? = some k) :
    d.marks[here + 1]? = some k ∨ (d.typing r arrows).YieldsNothing callee ∧
      ∀ later, here < later → d.marks[later]? ≠ some k := by
  have hbody := placed_body ⟨here, (Nat.zero_add here).symm, hcall⟩ (callee.instruction_ne rfl)
  have hfollowed :
      CallFollowed (d.typing r arrows) callee d.marks 0 here (Stmt.lasts 0 0 d.body) := by
    have hinner :=
      StmtsTyped.behind_call (C := d.typing r arrows) d.body (n := 0) 0 typed.body hbody
    refine hinner.within [] _ rfl ?_ ?_
    · intro k _ hne
      split
      · exact ⟨List.not_mem_nil, hne⟩
      · exact ⟨fun hmem => hne (List.mem_singleton.mp hmem), hne⟩
    · intro _
      split
      · exact .inl ⟨rfl, rfl⟩
      · exact .inr (.inl rfl)
  have hsame : ∀ {j k' : Nat}, Placed d.marks 0 j k' → d.marks[j]? = some k' := by
    rintro j k' ⟨i, rfl, hi⟩
    rwa [Nat.zero_add]
  cases hfollowed with
  | same hhere hnext =>
      cases hk.symm.trans (hsame hhere)
      exact .inl (hsame hnext)
  | leaves hnothing hhere _ hlater _ =>
      cases hk.symm.trans (hsame hhere)
      exact .inr
        ⟨hnothing, fun later hlt hat => hlater later hlt ⟨later, (Nat.zero_add later).symm, hat⟩⟩
  | atEnd _ _ hend =>
      have hlast := d.getLast?_code (r := r)
      rw [Nat.zero_add, length_marks, ← d.length_code r] at hend
      rw [List.getLast?_eq_getElem?, ← hend, Nat.add_sub_cancel, hcall, Option.some.injEq] at hlast
      exact absurd hlast (callee.instruction_ne rfl)

/-! ## Lines -/

mutual

/-- The lines on which a statement and those inside it start, by their numbers. -/
def Stmt.startLines : Stmt → List Nat
  | .comment .. => []
  | .cond _ thenBlock elseBlock span =>
    span.line :: (Stmt.startLinesIn thenBlock ++ Stmt.startLinesIn elseBlock)
  | .whileLoop _ body span | .repeatLoop _ body span => span.line :: Stmt.startLinesIn body
  | s => [s.span.line]

/-- The same for statements in a row. -/
def Stmt.startLinesIn : List Stmt → List Nat
  | [] => []
  | s :: rest => s.startLines ++ Stmt.startLinesIn rest

end

/-- The lines of the statements of a function by their numbers, and the function's own line behind
them. -/
def FunctionDecl.startLines (d : FunctionDecl) : List Nat :=
  Stmt.startLinesIn d.body ++ [d.span.line]

mutual

@[simp] theorem Stmt.length_startLines : ∀ s : Stmt, s.startLines.length = s.count
  | .cond condition thenBlock elseBlock span => by
      simp [Stmt.startLines, Stmt.count, Stmt.length_startLinesIn thenBlock,
        Stmt.length_startLinesIn elseBlock]
      omega
  | .whileLoop condition body span | .repeatLoop condition body span => by
      simp [Stmt.startLines, Stmt.count, Stmt.length_startLinesIn body]
      omega
  | .comment .. | .expr _ | .var _ | .assign .. | .ret .. | .breakLoop _ | .continueLoop _ => rfl

@[simp] theorem Stmt.length_startLinesIn :
    ∀ ss : List Stmt, (Stmt.startLinesIn ss).length = Stmt.counts ss
  | [] => rfl
  | s :: rest => by
      simp [Stmt.startLinesIn, Stmt.counts, Stmt.length_startLines s, Stmt.length_startLinesIn rest]

end

/-- The lines from a number on. -/
def LinesFrom (all : List Nat) (n : Nat) (lines : List Nat) : Prop := lines <+: all.drop n

theorem LinesFrom.head {all lines : List Nat} {n line : Nat} (h : LinesFrom all n (line :: lines)) :
    all[n]? = some line := by
  obtain ⟨back, hback⟩ := h
  rw [← Nat.add_zero n, ← List.getElem?_drop, ← hback]
  rfl

theorem LinesFrom.append {all first second : List Nat} {n : Nat}
    (h : LinesFrom all n (first ++ second)) :
    LinesFrom all n first ∧ LinesFrom all (n + first.length) second := by
  obtain ⟨back, hback⟩ := h
  rw [List.append_assoc] at hback
  refine ⟨⟨_, hback⟩, ⟨back, ?_⟩⟩
  rw [← List.drop_drop, ← hback, List.drop_left]

theorem LinesFrom.tail {all lines : List Nat} {n line : Nat} (h : LinesFrom all n (line :: lines)) :
    LinesFrom all (n + 1) lines := by
  have hsplit : LinesFrom all n ([line] ++ lines) := h
  exact hsplit.append.2

/-- A statement's number with the line that goes with it. -/
def LineInfo.Fits (all : List Nat) (info : LineInfo) : Prop := all[info.index]? = some info.line

/-- Code that carries lines with their numbers. What is current behind it is as before if there is
no code. -/
structure Emitted.Lined (em : Emitted) (st : EmitState) (all : List Nat) : Prop where
  code : ∀ line ∈ em.code, line.info.Fits all
  current : em.code = [] ∧ em.state.current = st.current ∨ em.state.current.Fits all

theorem EmitState.fits_lines {st : EmitState} {all : List Nat} (h : st.current.Fits all)
    (code : List Instruction) :
    ∀ line ∈ st.lines code, line.info.Fits all := by
  intro line hline
  obtain ⟨I, -, rfl⟩ := List.mem_map.mp hline
  exact h

/-- Instructions of one statement. -/
theorem Emitted.Lined.of_lines {st now after : EmitState} {all : List Nat} {code : List Instruction}
    {locals : List LocalInfo} (h : now.current.Fits all) (hafter : after.current = now.current) :
    Emitted.Lined ⟨now.lines code, locals, after⟩ st all :=
  ⟨EmitState.fits_lines h code, .inr (hafter ▸ h)⟩

theorem emitJump_lined {st : EmitState} {line : Nat} {span : Span} {target : Option Nat}
    {em : Emitted} {all : List Nat} (h : emitJump (st.enter line) span target = .ok em)
    (hline : all[st.nextIndex]? = some line) :
    em.Lined st all := by
  obtain ⟨pc, -, rfl⟩ := emitJump_eq_ok.mp h
  exact .of_lines hline rfl

mutual

/-- **Making the code of a statement writes down the line of each number.** -/
theorem emitStmt_lined {r : Registry} {all : List Nat} :
    ∀ (s : Stmt) {loop : Option LoopTargets} {blockEnd pc : Nat} {st : EmitState} {em : Emitted},
      emitStmt r loop blockEnd pc st s = .ok em → LinesFrom all st.nextIndex s.startLines →
      em.Lined st all
  | .comment text span, loop, blockEnd, pc, st, em, h, _ => by
      cases h
      exact ⟨nofun, .inl ⟨rfl, rfl⟩⟩
  | .expr e, loop, blockEnd, pc, st, em, h, hlines => by
      obtain ⟨code, -, rfl⟩ := emitStmt_expr_eq_ok.mp h
      exact .of_lines hlines.head rfl
  | .var decl, loop, blockEnd, pc, st, em, h, hlines => by
      obtain ⟨value, t, slot, scopes, -, -, -, rfl⟩ := emitVariable_eq_ok.mp h
      exact .of_lines hlines.head rfl
  | .assign target value span, loop, blockEnd, pc, st, em, h, hlines => by
      obtain ⟨first, second, -, -, rfl⟩ := emitStmt_assign_eq_ok.mp h
      exact .of_lines hlines.head rfl
  | .cond condition thenBlock elseBlock span, loop, blockEnd, pc, st, em, h, hlines => by
      obtain ⟨test, first, second, -, hfirst, hsecond, rfl⟩ := emitStmt_cond_eq_ok.mp h
      have hhead : (st.enter span.line).current.Fits all := hlines.head
      obtain ⟨hthenLines, helseLines⟩ := hlines.tail.append
      have hthen := emitStmts_lined thenBlock hfirst hthenLines
      have hnext : first.state.nextIndex = st.nextIndex + 1 + Stmt.counts thenBlock :=
        (emitStmts_numbered thenBlock hfirst).next
      have helse := emitStmts_lined elseBlock hsecond (by
        rw [Stmt.length_startLinesIn, ← hnext] at helseLines
        exact helseLines)
      have hcurrent : first.state.current.Fits all := by
        rcases hthen.current with ⟨-, hsame⟩ | hfits
        · rw [hsame]
          exact hhead
        · exact hfits
      refine ⟨?_, .inr ?_⟩
      · simp only [List.forall_mem_append]
        exact ⟨⟨⟨EmitState.fits_lines hhead _, hthen.code⟩, EmitState.fits_lines hcurrent _⟩,
          helse.code⟩
      · rcases helse.current with ⟨-, hsame⟩ | hfits
        · show second.state.current.Fits all
          rw [hsame]
          exact hcurrent
        · exact hfits
  | .whileLoop condition body span, loop, blockEnd, pc, st, em, h, hlines => by
      obtain ⟨test, inner, -, hinner, rfl⟩ := emitStmt_whileLoop_eq_ok.mp h
      have hhead : (st.enter span.line).current.Fits all := hlines.head
      have hbody := emitStmts_lined body hinner hlines.tail
      refine ⟨?_, .inr hhead⟩
      simp only [List.forall_mem_append]
      exact ⟨⟨EmitState.fits_lines hhead _, hbody.code⟩, EmitState.fits_lines hhead _⟩
  | .repeatLoop count body span, loop, blockEnd, pc, st, em, h, hlines => by
      obtain ⟨times, inner, -, hinner, rfl⟩ := emitStmt_repeatLoop_eq_ok.mp h
      have hhead : (st.enter span.line).current.Fits all := hlines.head
      have hbody := emitStmts_lined body hinner hlines.tail
      refine ⟨?_, .inr hhead⟩
      simp only [List.forall_mem_append]
      exact ⟨⟨EmitState.fits_lines hhead _, hbody.code⟩, EmitState.fits_lines hhead _⟩
  | .ret value span, loop, blockEnd, pc, st, em, h, hlines => by
      obtain ⟨code, -, rfl⟩ := emitStmt_ret_eq_ok.mp h
      exact .of_lines hlines.head rfl
  | .breakLoop span, loop, blockEnd, pc, st, em, h, hlines => emitJump_lined h hlines.head
  | .continueLoop span, loop, blockEnd, pc, st, em, h, hlines => emitJump_lined h hlines.head

/-- The same for statements in a row. -/
theorem emitStmts_lined {r : Registry} {all : List Nat} :
    ∀ (ss : List Stmt) {loop : Option LoopTargets} {blockEnd pc : Nat} {st : EmitState}
      {em : Emitted},
      emitStmts r loop blockEnd pc st ss = .ok em →
      LinesFrom all st.nextIndex (Stmt.startLinesIn ss) → em.Lined st all
  | [], loop, blockEnd, pc, st, em, h, _ => by
      cases h
      exact ⟨nofun, .inl ⟨rfl, rfl⟩⟩
  | s :: rest, loop, blockEnd, pc, st, em, h, hlines => by
      obtain ⟨first, others, hfirst, hothers, rfl⟩ := emitStmts_cons_eq_ok.mp h
      obtain ⟨hheadLines, htailLines⟩ := LinesFrom.append hlines
      have hhead := emitStmt_lined s hfirst hheadLines
      rw [Stmt.length_startLines, ← (emitStmt_numbered s hfirst).next] at htailLines
      have htail := emitStmts_lined rest hothers htailLines
      refine ⟨List.forall_mem_append.mpr ⟨hhead.code, htail.code⟩, ?_⟩
      rcases htail.current with ⟨hnone, hsame⟩ | hfits
      · rcases hhead.current with ⟨hnone', hsame'⟩ | hfits
        · exact .inl ⟨List.append_eq_nil_iff.mpr ⟨hnone', hnone⟩, hsame.trans hsame'⟩
        · refine .inr ?_
          show others.state.current.Fits all
          rw [hsame]
          exact hfits
      · exact .inr hfits

end

/-- **The instructions of a function carry lines with their numbers.** -/
theorem emitFunction_lined {r : Registry} {index : Nat} {d : FunctionDecl} {code : FunctionCode}
    (h : emitFunction r index d = .ok code) :
    ∀ info ∈ code.lineInfos.toList, info.Fits d.startLines := by
  obtain ⟨params, scopes, body, -, hbody, rfl⟩ := emitFunction_eq_ok.mp h
  have hlined := emitStmts_lined d.body hbody
    (show LinesFrom d.startLines _ (Stmt.startLinesIn d.body) from List.prefix_append _ _)
  intro info hinfo
  rw [List.toList_toArray] at hinfo
  obtain ⟨line, hline, rfl⟩ := List.mem_map.mp hinfo
  rcases List.mem_append.mp hline with hline | hline
  · exact hlined.code line hline
  · unfold closingReturn at hline
    split at hline
    · cases hline
    · split at hline
      · refine EmitState.fits_lines ?_ _ line hline
        show d.startLines[body.state.nextIndex]? = some d.span.line
        rw [(emitStmts_numbered d.body hbody).next, Nat.zero_add, FunctionDecl.startLines,
          ← Stmt.length_startLinesIn, List.getElem?_append_right (Nat.le_refl _), Nat.sub_self]
        rfl
      · next hsome =>
          refine EmitState.fits_lines (hlined.current.resolve_left ?_) _ line hline
          rintro ⟨hnone, -⟩
          exact hsome (List.isEmpty_iff.mpr hnone)

end Stepwise
