import Stepwise.Proofs.Code.Flow

/-!
# The table of locals

Beside its code a function has a table of its locals, with the instructions during which each holds
a value. The table follows from the tree (`FunctionDecl.table`): a parameter lives throughout the
function, a variable from behind the `store` of its first value to the last instruction of the block
that declares it.

So the range of a variable lies in the code, and right before it stands the `store` that it begins
with (`Stmt.table_bounds`, `Stmt.table_stored`). Control comes into the range by that `store` and in
no other way (`FunctionDecl.table_entered`). Every other `store` to a slot is that of an assignment
(`FunctionDecl.stores`).
-/

set_option autoImplicit false

namespace Stepwise

/-! ## The table of a tree -/

mutual

/-- The locals that a statement declares, if it starts at `pc` in a block that ends with the
instruction `blockEnd`. -/
def Stmt.table (blockEnd pc : Nat) : Stmt → List LocalInfo
  | .var decl =>
    [⟨decl.name.name, decl.ty.getD .nothing, decl.slot.getD 0, ⟨pc + decl.value.size + 1, blockEnd⟩,
      false,
      decl.name.span⟩]
  | .cond condition thenBlock elseBlock _ =>
    let thenStart := pc + condition.size + 1
    let elseStart := thenStart + Stmt.sizes thenBlock + 1
    Stmt.tables (thenStart + Stmt.sizes thenBlock - 1) thenStart thenBlock ++
      Stmt.tables (elseStart + Stmt.sizes elseBlock - 1) elseStart elseBlock
  | .whileLoop condition body _ =>
    let bodyStart := pc + condition.size + 1
    Stmt.tables (bodyStart + Stmt.sizes body - 1) bodyStart body
  | .repeatLoop count body _ =>
    let bodyStart := pc + count.size + 4
    Stmt.tables (bodyStart + Stmt.sizes body - 1) bodyStart body
  | _ => []

/-- The locals that statements in a row declare. -/
def Stmt.tables (blockEnd pc : Nat) : List Stmt → List LocalInfo
  | [] => []
  | s :: rest => s.table blockEnd pc ++ Stmt.tables blockEnd (pc + s.size) rest

end

/-- The entry of a parameter, in a function whose last instruction is given. -/
def Param.entry (last : Nat) (p : Param) : LocalInfo :=
  ⟨p.name.name, p.ty.getD .nothing, p.slot.getD 0, ⟨0, last⟩, true, p.name.span⟩

/-- The locals of a function: its parameters, then its variables as they are declared. -/
def FunctionDecl.table (d : FunctionDecl) : List LocalInfo :=
  d.params.map (Param.entry (d.size - 1)) ++ Stmt.tables (d.size - 1) 0 d.body

/-! ## What is made is the table of the tree -/

section Made

variable {r : Registry}

theorem emitVariable_table {blockEnd pc : Nat} {st : EmitState} {decl : VarDecl} {em : Emitted}
    (h : emitVariable r blockEnd pc st decl = .ok em) :
    em.locals = (Stmt.var decl).table blockEnd pc := by
  obtain ⟨value, t, slot, scopes, -, hty, hdeclare, rfl⟩ := emitVariable_eq_ok.mp h
  rw [Stmt.table, hty, declareSlot_eq_ok hdeclare]
  rfl

theorem emitJump_table {st : EmitState} {span : Span} {target : Option Nat} {em : Emitted}
    (h : emitJump st span target = .ok em) : em.locals = [] := by
  obtain ⟨pc, -, rfl⟩ := emitJump_eq_ok.mp h
  rfl

mutual

/-- **Making the code of a statement makes the table of its tree.** -/
theorem emitStmt_table : ∀ (s : Stmt) {loop : Option LoopTargets} {blockEnd pc : Nat}
    {st : EmitState} {em : Emitted}, emitStmt r loop blockEnd pc st s = .ok em →
    em.locals = s.table blockEnd pc
  | .comment text span, loop, blockEnd, pc, st, em, h => by
      cases h
      rfl
  | .expr e, loop, blockEnd, pc, st, em, h => by
      obtain ⟨code, -, rfl⟩ := emitStmt_expr_eq_ok.mp h
      rfl
  | .var decl, loop, blockEnd, pc, st, em, h => emitVariable_table h
  | .assign target value span, loop, blockEnd, pc, st, em, h => by
      obtain ⟨first, second, -, -, rfl⟩ := emitStmt_assign_eq_ok.mp h
      rfl
  | .cond condition thenBlock elseBlock span, loop, blockEnd, pc, st, em, h => by
      obtain ⟨test, first, second, -, hfirst, hsecond, rfl⟩ := emitStmt_cond_eq_ok.mp h
      exact congrArg₂ (· ++ ·) (emitStmts_table thenBlock hfirst)
        (emitStmts_table elseBlock hsecond)
  | .whileLoop condition body span, loop, blockEnd, pc, st, em, h => by
      obtain ⟨test, inner, -, hinner, rfl⟩ := emitStmt_whileLoop_eq_ok.mp h
      have hlocals := emitStmts_table body hinner
      exact hlocals
  | .repeatLoop count body span, loop, blockEnd, pc, st, em, h => by
      obtain ⟨times, inner, -, hinner, rfl⟩ := emitStmt_repeatLoop_eq_ok.mp h
      have hlocals := emitStmts_table body hinner
      exact hlocals
  | .ret value span, loop, blockEnd, pc, st, em, h => by
      obtain ⟨code, -, rfl⟩ := emitStmt_ret_eq_ok.mp h
      rfl
  | .breakLoop span, loop, blockEnd, pc, st, em, h => emitJump_table h
  | .continueLoop span, loop, blockEnd, pc, st, em, h => emitJump_table h

theorem emitStmts_table : ∀ (ss : List Stmt) {loop : Option LoopTargets} {blockEnd pc : Nat}
    {st : EmitState} {em : Emitted}, emitStmts r loop blockEnd pc st ss = .ok em →
    em.locals = Stmt.tables blockEnd pc ss
  | [], loop, blockEnd, pc, st, em, h => by
      cases h
      rfl
  | s :: rest, loop, blockEnd, pc, st, em, h => by
      obtain ⟨first, others, hfirst, hothers, rfl⟩ := emitStmts_cons_eq_ok.mp h
      exact congrArg₂ (· ++ ·) (emitStmt_table s hfirst) (emitStmts_table rest hothers)

end

theorem emitParams_table {last : Nat} {params : List Param} :
    ∀ {scopes after : Scopes} {locals : List LocalInfo},
      emitParams scopes last params = .ok (locals, after) →
      locals = params.map (Param.entry last) := by
  induction params with
  | nil =>
      intro scopes after locals h
      cases h
      rfl
  | cons p rest ih =>
      intro scopes after locals h
      obtain ⟨slot, next, others, hdeclare, hothers, rfl⟩ := emitParams_cons_eq_ok.mp h
      rw [List.map_cons, ih hothers, Param.entry, declareSlot_eq_ok hdeclare]
      rfl

/-- **Making the code of a function makes the table of its tree.** -/
theorem emitFunction_table {index : Nat} {d : FunctionDecl} {code : FunctionCode}
    (h : emitFunction r index d = .ok code) : code.locals = d.table := by
  obtain ⟨params, scopes, body, hparams, hbody, rfl⟩ := emitFunction_eq_ok.mp h
  exact congrArg₂ (· ++ ·) (emitParams_table hparams) (emitStmts_table d.body hbody)

end Made

/-! ## Ranges in the code -/

mutual

/-- The range of a variable begins inside the code of the statement that declares it, behind its
first instruction. It ends with the block around the statement, or else it ends in the statement. -/
theorem Stmt.table_bounds :
    ∀ (s : Stmt) {blockEnd pc : Nat} {l : LocalInfo}, pc + s.size ≤ blockEnd + 1 →
    l ∈ s.table blockEnd pc → l.isParameter = false ∧ pc + 1 < l.live.start ∧
      l.live.start ≤ pc + s.size ∧
      l.live.start ≤ l.live.stop + 1 ∧ (l.live.stop = blockEnd ∨ l.live.stop < pc + s.size)
  | .var decl, blockEnd, pc, l, hend, h => by
      have hpos := decl.value.size_pos
      rw [Stmt.size] at hend
      rw [Stmt.table, List.mem_singleton] at h
      subst h
      rw [Stmt.size]
      exact ⟨rfl, by dsimp only; omega, by dsimp only; omega, by dsimp only; omega, .inl rfl⟩
  | .cond condition thenBlock elseBlock span, blockEnd, pc, l, hend, h => by
      rw [Stmt.size]
      rcases List.mem_append.mp h with h | h
      · have := Stmt.tables_bounds thenBlock (by omega) h
        exact ⟨this.1, by omega⟩
      · have := Stmt.tables_bounds elseBlock (by omega) h
        exact ⟨this.1, by omega⟩
  | .whileLoop condition body span, blockEnd, pc, l, hend, h => by
      have := Stmt.tables_bounds body (by omega) h
      rw [Stmt.size]
      exact ⟨this.1, by omega⟩
  | .repeatLoop count body span, blockEnd, pc, l, hend, h => by
      have := Stmt.tables_bounds body (by omega) h
      rw [Stmt.size]
      exact ⟨this.1, by omega⟩
  | .expr _, _, _, _, _, h | .assign .., _, _, _, _, h | .ret .., _, _, _, _, h | .breakLoop _, _,
      _, _, _, h
  | .continueLoop _, _, _, _, _, h | .comment .., _, _, _, _, h => by cases h

theorem Stmt.tables_bounds : ∀ (ss : List Stmt) {blockEnd pc : Nat} {l : LocalInfo},
    pc + Stmt.sizes ss ≤ blockEnd + 1 → l ∈ Stmt.tables blockEnd pc ss →
      l.isParameter = false ∧ pc + 1 < l.live.start ∧ l.live.start ≤ pc + Stmt.sizes ss ∧
        l.live.start ≤ l.live.stop + 1 ∧ (l.live.stop = blockEnd ∨ l.live.stop < pc + Stmt.sizes ss)
  | s :: rest, blockEnd, pc, l, hend, h => by
      rw [Stmt.sizes] at hend ⊢
      rcases List.mem_append.mp h with h | h
      · have := Stmt.table_bounds s (by omega) h
        exact ⟨this.1, by omega⟩
      · have := Stmt.tables_bounds rest (by omega) h
        exact ⟨this.1, by omega⟩
  | [], _, _, _, _, h => by cases h

end

/-- Behind the code of a variable something follows, if the statements end with `return`. -/
theorem Stmt.tables_before_return {ss : List Stmt} (hend : endsWithReturn ss = true)
    {blockEnd pc : Nat} {l : LocalInfo} (hblock : pc + Stmt.sizes ss ≤ blockEnd + 1)
    (h : l ∈ Stmt.tables blockEnd pc ss) :
    l.live.start < pc + Stmt.sizes ss := by
  induction ss generalizing pc with
  | nil => cases h
  | cons s rest ih =>
      rw [Stmt.sizes] at hblock ⊢
      rw [endsWithReturn_cons, Bool.or_eq_true, Bool.and_eq_true] at hend
      rcases List.mem_append.mp h with h | h
      · rcases hend with hrest | ⟨-, hs⟩
        · have hpos : 0 < Stmt.sizes rest := by
            refine Nat.pos_of_ne_zero fun hzero => ?_
            rw [endsWithReturn_of_all_comments (Stmt.all_comments_of_sizes hzero)] at hrest
            cases hrest
          have := Stmt.table_bounds s (by omega) h
          omega
        · cases s with
          | ret value span => cases h
          | _ => cases hs
      · rcases hend with hrest | ⟨hcomments, -⟩
        · have := ih hrest (by omega) h
          omega
        · have hnone := Stmt.sizes_of_all_comments hcomments
          have := Stmt.tables_bounds rest (by omega) h
          omega

/-! ## Stores -/

/-- An instruction that sets no slot. -/
def Instruction.keepsSlots : Instruction → Bool
  | .store _ => false
  | _ => true

theorem not_placed_store {code : List Instruction} (h : code.all Instruction.keepsSlots = true)
    {pc here slot : Nat} :
    ¬ Placed code pc here (.store slot) := by
  rintro ⟨i, -, hi⟩
  have := List.all_eq_true.mp h _ (List.mem_of_getElem? hi)
  cases this

mutual

/-- Expressions set no slots. -/
theorem Expr.keepsSlots_code (r : Registry) :
    ∀ e : Expr, (e.code r).all Instruction.keepsSlots = true
  | .number .. | .boolean .. | .string .. | .reference .. => rfl
  | .call _ _ arguments callee => by
      have hcall : (callee.getD (.user 0)).instruction.keepsSlots = true := by
        cases callee.getD (.user 0) <;> rfl
      simp [Expr.code, Expr.keepsSlots_codes r arguments, hcall]
  | .field _ record _ => by simp [Expr.code, Expr.keepsSlots_code r record, Instruction.keepsSlots]
  | .unary _ _ operand =>
    by simp [Expr.code, Expr.keepsSlots_code r operand, Instruction.keepsSlots]
  | .binary _ op left right => by
      have hop : (binaryInstruction op).keepsSlots = true := by cases op <;> rfl
      simp [Expr.code, Expr.keepsSlots_code r left, Expr.keepsSlots_code r right, hop]

theorem Expr.keepsSlots_codes (r : Registry) :
    ∀ es : List Expr, (Expr.codes r es).all Instruction.keepsSlots = true
  | [] => rfl
  | e :: es => by simp [Expr.codes, Expr.keepsSlots_code r e, Expr.keepsSlots_codes r es]

end

theorem Expr.keepsSlots_dropCode (e : Expr) : e.dropCode.all Instruction.keepsSlots = true := by
  unfold Expr.dropCode
  split <;> rfl

mutual

/-- The places and slots of the assignments to variables in a statement that starts at `pc`. -/
def Stmt.assignments (pc : Nat) : Stmt → List (Nat × Nat)
  | .assign (.reference _ _ slot) value _ => [(pc + value.size, slot.getD 0)]
  | .cond condition thenBlock elseBlock _ =>
    Stmt.assignmentsIn (pc + condition.size + 1) thenBlock ++
      Stmt.assignmentsIn (pc + condition.size + 1 + Stmt.sizes thenBlock + 1) elseBlock
  | .whileLoop condition body _ => Stmt.assignmentsIn (pc + condition.size + 1) body
  | .repeatLoop count body _ => Stmt.assignmentsIn (pc + count.size + 4) body
  | _ => []

/-- The same for statements in a row. -/
def Stmt.assignmentsIn (pc : Nat) : List Stmt → List (Nat × Nat)
  | [] => []
  | s :: rest => s.assignments pc ++ Stmt.assignmentsIn (pc + s.size) rest

end

/-- The places and slots of the assignments to variables in a function. -/
def FunctionDecl.assignments (d : FunctionDecl) : List (Nat × Nat) := Stmt.assignmentsIn 0 d.body

section Stores

variable {r : Registry}

mutual

/-- **A range begins behind the `store` of the first value.** -/
theorem Stmt.table_stored : ∀ (s : Stmt) {loop : Option LoopTargets} {blockEnd pc : Nat}
    {l : LocalInfo},
    l ∈ s.table blockEnd pc →
      ∃ here, l.live.start = here + 1 ∧ Placed (s.code r loop pc) pc here (.store l.slot)
  | .var decl, loop, blockEnd, pc, l, h => by
      rw [Stmt.table, List.mem_singleton] at h
      subst h
      refine ⟨pc + decl.value.size, rfl, ?_⟩
      rw [Stmt.code, placed_append, Expr.length_code]
      exact .inr (placed_singleton.mpr ⟨rfl, rfl⟩)
  | .cond condition thenBlock elseBlock span, loop, blockEnd, pc, l, h => by
      rcases List.mem_append.mp h with h | h
      · obtain ⟨here, hstart, hplaced⟩ := Stmt.tables_stored thenBlock h
        exact ⟨here, hstart, placed_cond.mpr (.inr (.inr (.inl hplaced)))⟩
      · obtain ⟨here, hstart, hplaced⟩ := Stmt.tables_stored elseBlock h
        exact ⟨here, hstart, placed_cond.mpr (.inr (.inr (.inr (.inr hplaced))))⟩
  | .whileLoop condition body span, loop, blockEnd, pc, l, h => by
      obtain ⟨here, hstart, hplaced⟩ := Stmt.tables_stored body h
      exact ⟨here, hstart, placed_whileLoop.mpr (.inr (.inr (.inl hplaced)))⟩
  | .repeatLoop count body span, loop, blockEnd, pc, l, h => by
      obtain ⟨here, hstart, hplaced⟩ := Stmt.tables_stored body h
      exact ⟨here, hstart, placed_repeatLoop.mpr (.inr (.inr (.inl hplaced)))⟩
  | .expr _, _, _, _, _, h | .assign .., _, _, _, _, h | .ret .., _, _, _, _, h | .breakLoop _, _,
      _, _, _, h
  | .continueLoop _, _, _, _, _, h | .comment .., _, _, _, _, h => by cases h

theorem Stmt.tables_stored : ∀ (ss : List Stmt) {loop : Option LoopTargets} {blockEnd pc : Nat}
    {l : LocalInfo},
    l ∈ Stmt.tables blockEnd pc ss →
      ∃ here, l.live.start = here + 1 ∧ Placed (Stmt.codes r loop pc ss) pc here (.store l.slot)
  | s :: rest, loop, blockEnd, pc, l, h => by
      rw [Stmt.codes]
      rcases List.mem_append.mp h with h | h
      · obtain ⟨here, hstart, hplaced⟩ := Stmt.table_stored s h
        exact ⟨here, hstart, placed_append.mpr (.inl hplaced)⟩
      · obtain ⟨here, hstart, hplaced⟩ := Stmt.tables_stored rest h
        refine ⟨here, hstart, placed_append.mpr (.inr ?_)⟩
        rwa [Stmt.length_code]
  | [], _, _, _, _, h => by cases h

end

mutual

/-- **A `store` is that of an assignment, or that of a first value.** -/
theorem Stmt.stores : ∀ (s : Stmt) {loop : Option LoopTargets} {blockEnd pc here slot : Nat},
    Placed (s.code r loop pc) pc here (.store slot) →
      (here, slot) ∈ s.assignments pc ∨ ∃ l ∈ s.table blockEnd pc, l.slot = slot ∧
      l.live.start = here + 1
  | .expr e, loop, blockEnd, pc, here, slot, h => by
      rw [Stmt.code] at h
      refine absurd h (not_placed_store ?_)
      rw [List.all_append, e.keepsSlots_code, e.keepsSlots_dropCode, Bool.and_self]
  | .var decl, loop, blockEnd, pc, here, slot, h => by
      rw [Stmt.code, placed_append, Expr.length_code, placed_singleton] at h
      rcases h with h | ⟨rfl, h⟩
      · exact absurd h (not_placed_store (Expr.keepsSlots_code r _))
      · cases h
        exact .inr ⟨_, List.mem_singleton.mpr rfl, rfl, rfl⟩
  | .assign target value span, loop, blockEnd, pc, here, slot, h => by
      rw [Stmt.code, placed_append, Expr.length_code] at h
      rcases h with h | h
      · exact absurd h (not_placed_store (Expr.keepsSlots_code r _))
      · cases target with
        | reference i name place =>
            rw [Expr.targetCode, placed_singleton] at h
            obtain ⟨rfl, h⟩ := h
            cases h
            exact .inl (List.mem_singleton.mpr rfl)
        | field i record name =>
            refine absurd h (not_placed_store ?_)
            rw [Expr.targetCode, List.all_append, Expr.keepsSlots_code]
            rfl
        | _ => exact absurd h (not_placed_store rfl)
  | .cond condition thenBlock elseBlock span, loop, blockEnd, pc, here, slot, h => by
      rcases placed_cond.mp h with h | ⟨-, h⟩ | h | ⟨-, h⟩ | h
      · exact absurd h (not_placed_store (Expr.keepsSlots_code r _))
      · cases h
      · exact (Stmt.stores_all thenBlock h).imp (List.mem_append_left _)
          fun ⟨l, hl, hlocal⟩ => ⟨l, List.mem_append_left _ hl, hlocal⟩
      · cases h
      · exact (Stmt.stores_all elseBlock h).imp (List.mem_append_right _)
          fun ⟨l, hl, hlocal⟩ => ⟨l, List.mem_append_right _ hl, hlocal⟩
  | .whileLoop condition body span, loop, blockEnd, pc, here, slot, h => by
      rcases placed_whileLoop.mp h with h | ⟨-, h⟩ | h | ⟨-, h⟩
      · exact absurd h (not_placed_store (Expr.keepsSlots_code r _))
      · cases h
      · exact Stmt.stores_all body h
      · cases h
  | .repeatLoop count body span, loop, blockEnd, pc, here, slot, h => by
      rcases placed_repeatLoop.mp h with h | h | h | h
      · exact absurd h (not_placed_store (Expr.keepsSlots_code r _))
      · exact absurd h (not_placed_store rfl)
      · exact Stmt.stores_all body h
      · exact absurd h (not_placed_store rfl)
  | .ret (some value) span, loop, blockEnd, pc, here, slot, h => by
      rw [Stmt.code] at h
      refine absurd h (not_placed_store ?_)
      rw [List.all_append, value.keepsSlots_code]
      rfl
  | .ret none span, loop, blockEnd, pc, here, slot, h => absurd h (not_placed_store rfl)
  | .breakLoop span, loop, blockEnd, pc, here, slot, h => absurd h (not_placed_store rfl)
  | .continueLoop span, loop, blockEnd, pc, here, slot, h => absurd h (not_placed_store rfl)
  | .comment text span, loop, blockEnd, pc, here, slot, h => absurd h (not_placed_store rfl)

theorem Stmt.stores_all : ∀ (ss : List Stmt) {loop : Option LoopTargets}
    {blockEnd pc here slot : Nat},
    Placed (Stmt.codes r loop pc ss) pc here (.store slot) →
      (here, slot) ∈ Stmt.assignmentsIn pc ss ∨
        ∃ l ∈ Stmt.tables blockEnd pc ss, l.slot = slot ∧ l.live.start = here + 1
  | [], loop, blockEnd, pc, here, slot, h => absurd h (not_placed_store rfl)
  | s :: rest, loop, blockEnd, pc, here, slot, h => by
      rw [Stmt.codes, placed_append, Stmt.length_code] at h
      rcases h with h | h
      · exact (Stmt.stores s h).imp (List.mem_append_left _)
          fun ⟨l, hl, hlocal⟩ => ⟨l, List.mem_append_left _ hl, hlocal⟩
      · exact (Stmt.stores_all rest h).imp (List.mem_append_right _)
          fun ⟨l, hl, hlocal⟩ => ⟨l, List.mem_append_right _ hl, hlocal⟩

end

mutual

/-- At the place of an assignment stands its `store`. -/
theorem Stmt.assignments_placed : ∀ (s : Stmt) {loop : Option LoopTargets} {pc here slot : Nat},
    (here, slot) ∈ s.assignments pc → Placed (s.code r loop pc) pc here (.store slot)
  | .assign target value span, loop, pc, here, slot, h => by
      cases target with
      | reference i name place =>
          rw [Stmt.assignments, List.mem_singleton, Prod.mk.injEq] at h
          obtain ⟨rfl, rfl⟩ := h
          rw [Stmt.code, placed_append, Expr.length_code]
          exact .inr (placed_singleton.mpr ⟨rfl, rfl⟩)
      | _ => cases h
  | .cond condition thenBlock elseBlock span, loop, pc, here, slot, h => by
      rcases List.mem_append.mp h with h | h
      · exact placed_cond.mpr (.inr (.inr (.inl (Stmt.assignmentsIn_placed thenBlock h))))
      · exact placed_cond.mpr (.inr (.inr (.inr (.inr (Stmt.assignmentsIn_placed elseBlock h)))))
  | .whileLoop condition body span, loop, pc, here, slot, h =>
      placed_whileLoop.mpr (.inr (.inr (.inl (Stmt.assignmentsIn_placed body h))))
  | .repeatLoop count body span, loop, pc, here, slot, h =>
      placed_repeatLoop.mpr (.inr (.inr (.inl (Stmt.assignmentsIn_placed body h))))
  | .expr _, _, _, _, _, h | .var _, _, _, _, _, h | .ret .., _, _, _, _, h | .breakLoop _, _,
      _, _, _, h
  | .continueLoop _, _, _, _, _, h | .comment .., _, _, _, _, h => by cases h

theorem Stmt.assignmentsIn_placed : ∀ (ss : List Stmt) {loop : Option LoopTargets}
    {pc here slot : Nat},
    (here, slot) ∈ Stmt.assignmentsIn pc ss → Placed (Stmt.codes r loop pc ss) pc here (.store slot)
  | s :: rest, loop, pc, here, slot, h => by
      rw [Stmt.codes, placed_append, Stmt.length_code]
      exact (List.mem_append.mp h).imp (Stmt.assignments_placed s) (Stmt.assignmentsIn_placed rest)
  | [], _, _, _, _, h => by cases h

end

end Stores

/-! ## Ways into a range -/

mutual

/-- **Control comes into the range of a variable by the `store` of its first value**, if the loop
around the statement lets it go nowhere into the statement's block. -/
theorem Stmt.table_entered {r : Registry} :
    ∀ (s : Stmt) {loop : Option LoopTargets} {blockEnd pc here target : Nat} {l : LocalInfo},
      pc + s.size ≤ blockEnd + 1 → l ∈ s.table blockEnd pc →
      Flows (s.code r loop pc) pc here target →
      GoesOutside loop pc (blockEnd + 1) → l.live.start ≤ target → target ≤ l.live.stop →
        (l.live.start ≤ here ∧ here ≤ l.live.stop) ∨ l.live.start = here + 1
  | .var decl, loop, blockEnd, pc, here, target, l, hend, hl, h, hloop, hstart, hstop => by
      have hflows := Stmt.flows_straight (Stmt.straight_var decl loop pc) h
      have hbounds := Stmt.table_bounds (.var decl) hend hl
      rw [Stmt.table, List.mem_singleton] at hl
      subst hl
      rw [Stmt.size] at hflows
      dsimp only at hstart ⊢
      omega
  | .cond condition thenBlock elseBlock span, loop, blockEnd, pc, here, target, l, hend, hl, h,
      hloop, hstart,
      hstop => by
      have hinside := hloop.within (Nat.le_refl pc) hend
      rw [Stmt.size] at hend
      rcases List.mem_append.mp hl with hl | hl
      · have hbounds := Stmt.tables_bounds thenBlock (by omega) hl
        have hinto := flows_into_thenBlock h hinside (by omega) (by omega)
        exact Stmt.tables_entered thenBlock (by omega) hl hinto (hloop.within (by omega) (by omega))
          hstart hstop
      · have hbounds := Stmt.tables_bounds elseBlock (by omega) hl
        have hinto := flows_into_elseBlock h hinside (by omega) (by omega)
        exact Stmt.tables_entered elseBlock (by omega) hl hinto (hloop.within (by omega) (by omega))
          hstart hstop
  | .whileLoop condition body span, loop, blockEnd, pc, here, target, l, hend, hl, h, hloop, hstart,
      hstop => by
      have hbounds := Stmt.tables_bounds body (by omega) hl
      have hinto := flows_into_whileBody h (by omega) (by omega)
      exact Stmt.tables_entered body (by omega) hl hinto (.ofTargets (by omega) (by omega))
        hstart hstop
  | .repeatLoop count body span, loop, blockEnd, pc, here, target, l, hend, hl, h, hloop, hstart,
      hstop => by
      have hbounds := Stmt.tables_bounds body (by omega) hl
      have hinto := flows_into_repeatBody h (by omega) (by omega)
      exact Stmt.tables_entered body (by omega) hl hinto (.ofTargets (by omega) (by omega))
        hstart hstop
  | .expr _, _, _, _, _, _, _, _, h, _, _, _, _ | .assign .., _, _, _, _, _, _, _, h, _, _, _, _
  | .ret .., _, _, _, _, _, _, _, h, _, _, _, _ | .breakLoop _, _, _, _, _, _, _, _, h, _, _, _, _
  | .continueLoop _, _, _, _, _, _, _, _, h, _, _, _, _ | .comment .., _, _, _, _, _, _, _, h, _, _,
      _, _ => by cases h

theorem Stmt.tables_entered {r : Registry} : ∀ (ss : List Stmt) {loop : Option LoopTargets}
    {blockEnd pc here target : Nat} {l : LocalInfo}, pc + Stmt.sizes ss ≤ blockEnd + 1 →
      l ∈ Stmt.tables blockEnd pc ss → Flows (Stmt.codes r loop pc ss) pc here target →
      GoesOutside loop pc (blockEnd + 1) → l.live.start ≤ target → target ≤ l.live.stop →
        (l.live.start ≤ here ∧ here ≤ l.live.stop) ∨ l.live.start = here + 1
  | s :: rest, loop, blockEnd, pc, here, target, l, hend, hl, h, hloop, hstart, hstop => by
      rw [Stmt.sizes] at hend
      rcases List.mem_append.mp hl with hl | hl
      · rw [Stmt.codes, flows_append, Stmt.length_code] at h
        rcases h with h | h
        · exact Stmt.table_entered s (by omega) hl h hloop hstart hstop
        · -- What follows the statement lies in the range, or else the range ends in the statement.
          have hbounds := Stmt.table_bounds s (by omega) hl
          have hhere := (Stmt.flows_within_all rest h).1
          have := hloop.lands_all h
          omega
      · have hbounds := Stmt.tables_bounds rest (by omega) hl
        have hinto := flows_into_tail h hloop (by omega) (by omega)
        exact Stmt.tables_entered rest (by omega) hl hinto (hloop.within (by omega) (Nat.le_refl _))
          hstart hstop
  | [], _, _, _, _, _, _, _, h, _, _, _, _ => by cases h

end

/-! ## Functions -/

theorem LiveRange.contains_iff {range : LiveRange} {pc : Nat} :
    range.contains pc = true ↔ range.start ≤ pc ∧ pc ≤ range.stop := by
  simp [LiveRange.contains]

namespace FunctionDecl

variable {d : FunctionDecl} {l : LocalInfo}

/-- The last instruction of a body is no later than that of the function. -/
theorem sizes_body_le (d : FunctionDecl) : 0 + Stmt.sizes d.body ≤ d.size - 1 + 1 := by
  unfold size
  omega

theorem mem_table : l ∈ d.table ↔
    (∃ p ∈ d.params, p.entry (d.size - 1) = l) ∨ l ∈ Stmt.tables (d.size - 1) 0 d.body := by
  rw [table, List.mem_append, List.mem_map]

/-- A parameter lives throughout the function. -/
theorem live_parameter (hl : l ∈ d.table) (hparam : l.isParameter = true) :
    l.live = ⟨0, d.size - 1⟩ := by
  rcases mem_table.mp hl with ⟨p, -, rfl⟩ | hl
  · rfl
  · have hvariable := (Stmt.tables_bounds d.body d.sizes_body_le hl).1
    rw [hparam] at hvariable
    cases hvariable

/-- A variable lives from behind the `store` of its first value, inside the function. -/
theorem live_variable (hl : l ∈ d.table) (hvariable : l.isParameter = false) (r : Registry) :
    1 ≤ l.live.start ∧ l.live.start ≤ d.size - 1 ∧ l.live.stop ≤ d.size - 1 ∧
      ∃ here, l.live.start = here + 1 ∧ (d.code r)[here]? = some (.store l.slot) := by
  rcases mem_table.mp hl with ⟨p, -, rfl⟩ | hl
  · cases hvariable
  · have hbounds := Stmt.tables_bounds d.body d.sizes_body_le hl
    obtain ⟨here, hstart, hstored⟩ : ∃ here, l.live.start = here + 1 ∧
        Placed (Stmt.codes r none 0 d.body) 0 here (.store l.slot) := Stmt.tables_stored d.body hl
    obtain ⟨i, rfl, hi⟩ := hstored
    have hlast : l.live.start ≤ d.size - 1 := by
      unfold size
      cases hend : endsWithReturn d.body with
      | true =>
          have := Stmt.tables_before_return hend d.sizes_body_le hl
          simp only [if_true]
          omega
      | false =>
          simp only [Bool.false_eq_true, if_false]
          omega
    have hbody := d.sizes_body_le
    exact ⟨by omega, hlast, by omega, 0 + i, hstart, d.codeAt_body r i _ hi⟩

/-- **Control comes into the range of a local by the `store` of its first value**; a parameter has
its value from the beginning. -/
theorem table_entered {r : Registry} {here target : Nat} (hl : l ∈ d.table)
    (h : Flows (d.code r) 0 here target) (hat : l.live.contains target = true) :
    l.live.contains here = true ∨ (l.isParameter = false ∧ l.live.start = here + 1) := by
  rw [LiveRange.contains_iff] at hat ⊢
  rcases mem_table.mp hl with ⟨p, -, rfl⟩ | hl
  · obtain ⟨I, hplaced, -⟩ := h
    have hbounds := hplaced.bounds
    rw [length_code] at hbounds
    refine .inl ⟨Nat.zero_le _, ?_⟩
    show here ≤ d.size - 1
    omega
  · have hbounds := Stmt.tables_bounds d.body d.sizes_body_le hl
    exact (Stmt.tables_entered d.body d.sizes_body_le hl (flows_body h) .ofNone hat.1
      hat.2).imp_right fun h => ⟨hbounds.1, h⟩

/-- **A `store` in a function is that of an assignment, or that of a first value.** -/
theorem stores {r : Registry} {here slot : Nat} (h : (d.code r)[here]? = some (.store slot)) :
    (here, slot) ∈ d.assignments ∨
      ∃ l ∈ d.table, l.isParameter = false ∧ l.slot = slot ∧ l.live.start = here + 1 := by
  have hbody := placed_body ⟨here, (Nat.zero_add _).symm, h⟩ nofun
  have hstores : (here, slot) ∈ Stmt.assignmentsIn 0 d.body ∨
      ∃ l ∈ Stmt.tables (d.size - 1) 0 d.body, l.slot = slot ∧ l.live.start = here + 1 :=
        Stmt.stores_all d.body hbody
  refine hstores.imp_right ?_
  rintro ⟨l, hl, hslot, hstart⟩
  exact ⟨l, mem_table.mpr (.inr hl), (Stmt.tables_bounds d.body d.sizes_body_le hl).1,
    hslot, hstart⟩

/-- At the place of an assignment stands its `store`. -/
theorem assignments_placed {here slot : Nat} (h : (here, slot) ∈ d.assignments) (r : Registry) :
    (d.code r)[here]? = some (.store slot) := by
  obtain ⟨i, rfl, hi⟩ : Placed (Stmt.codes r none 0 d.body) 0 here (.store slot) :=
    Stmt.assignmentsIn_placed d.body h
  exact d.codeAt_body r i _ hi

end FunctionDecl

end Stepwise
