import Stepwise.Proofs.Code.WellFormed

/-!
# Calls at the ends of blocks

The range of a variable ends with the last instruction of the block that declares it. If that
instruction is a call, the call is a statement, or closes one, and its value is not dropped; so the
function that is called yields nothing (`StmtsTyped.last_call`). Ranges that end with the function
do not end with a call at all (`FunctionDecl.ends_with_call`).
-/

set_option autoImplicit false

namespace Stepwise

variable {C : BodyTyping} {vars : List Nat} {callee : Callee}

/-- A call of the function leaves no value. -/
def BodyTyping.YieldsNothing (C : BodyTyping) (callee : Callee) : Prop :=
  ∃ arrow, C.arrows callee = some arrow ∧ arrow.result = .nothing

theorem Callee.instruction_injective {first second : Callee}
    (h : first.instruction = second.instruction) :
    first = second := by
  cases first <;> cases second <;> cases h <;> rfl

/-- An instruction that calls no function. -/
def Instruction.isCall : Instruction → Bool
  | .call _ | .callHost _ => true
  | _ => false

theorem Callee.isCall_instruction (callee : Callee) : callee.instruction.isCall = true := by
  cases callee <;> rfl

theorem Callee.instruction_ne (callee : Callee) {I : Instruction} (hI : I.isCall = false) :
    callee.instruction ≠ I := by
  rintro rfl
  rw [callee.isCall_instruction] at hI
  cases hI

theorem not_last_call {code : List Instruction} {I : Instruction} (hlast : code.getLast? = some I)
    (hI : I.isCall = false) : code.getLast? ≠ some callee.instruction := by
  rw [hlast, Ne, Option.some.injEq]
  exact (callee.instruction_ne hI).symm

/-- An expression whose last instruction is a call is that call. -/
theorem ExprTyped.last_call {e : Expr} {t : Ty} (h : ExprTyped C vars e t)
    (hlast : (e.code C.registry).getLast? = some callee.instruction) :
    ∃ params, C.arrows callee = some ⟨params, t⟩ := by
  cases h with
  | number | boolean | string | reference => exact absurd hlast (not_last_call rfl rfl)
  | @call _ _ arguments other tys _ _ harrow _ _ =>
      rw [Expr.code, List.getLast?_concat, Option.some.injEq, Option.getD_some] at hlast
      exact ⟨tys, Callee.instruction_injective hlast ▸ harrow⟩
  | field | unary => exact absurd hlast (not_last_call List.getLast?_concat rfl)
  | @binary _ op => exact absurd hlast (not_last_call List.getLast?_concat (by cases op <;> rfl))

mutual

/-- A statement whose last instruction is a call calls a function that yields nothing. -/
theorem StmtTyped.last_call : ∀ (s : Stmt) {inLoop : Bool} {vars : List Nat}
    {loop : Option LoopTargets} {pc : Nat},
    StmtTyped C inLoop vars s → (s.code C.registry loop pc).getLast? = some callee.instruction →
    C.YieldsNothing callee
  | .expr e, _, _, _, _, .expr htyped, h => by
      rw [Stmt.code, Expr.dropCode] at h
      split at h
      · next hnothing =>
          rw [htyped.ty?_eq, Option.some.injEq] at hnothing
          subst hnothing
          rw [List.append_nil] at h
          obtain ⟨params, harrow⟩ := htyped.last_call h
          exact ⟨_, harrow, rfl⟩
      · exact absurd h (not_last_call List.getLast?_concat rfl)
  | .var _, _, _, _, _, _, h => absurd h (not_last_call List.getLast?_concat rfl)
  | .assign target _ _, _, _, _, _, _, h => by
      cases target with
      | field i record name =>
          rw [Stmt.code, Expr.targetCode, ← List.append_assoc] at h
          exact absurd h (not_last_call List.getLast?_concat rfl)
      | _ => exact absurd h (not_last_call List.getLast?_concat rfl)
  | .cond condition thenBlock elseBlock _, _, _, _, _, .cond _ _ helse, h => by
      rw [Stmt.code, List.getLast?_append] at h
      rcases Option.or_eq_some_iff.mp h with hinside | ⟨-, hjump⟩
      · exact StmtsTyped.last_call elseBlock helse hinside
      · exact absurd hjump (not_last_call List.getLast?_concat rfl)
  | .whileLoop _ _ _, _, _, _, _, _, h => absurd h (not_last_call List.getLast?_concat rfl)
  | .repeatLoop _ _ _, _, _, _, _, _, h => by
      rw [Stmt.code] at h
      exact absurd h (not_last_call (List.getLast?_append_of_ne_nil _ (List.cons_ne_nil _ _)) rfl)
  | .ret (some _) _, _, _, _, _, _, h => absurd h (not_last_call List.getLast?_concat rfl)
  | .ret none _, _, _, _, _, _, h => absurd h (not_last_call rfl rfl)
  | .breakLoop _, _, _, _, _, _, h => absurd h (not_last_call rfl rfl)
  | .continueLoop _, _, _, _, _, _, h => absurd h (not_last_call rfl rfl)
  | .comment _ _, _, _, _, _, _, h => by cases h

/-- **A block whose last instruction is a call calls a function that yields nothing.** -/
theorem StmtsTyped.last_call : ∀ (ss : List Stmt) {inLoop : Bool} {vars : List Nat}
    {loop : Option LoopTargets} {pc : Nat}, StmtsTyped C inLoop vars ss →
      (Stmt.codes C.registry loop pc ss).getLast? = some callee.instruction →
      C.YieldsNothing callee
  | [], _, _, _, _, _, h => by cases h
  | s :: rest, _, _, _, _, .cons hs hrest, h => by
      rw [Stmt.codes, List.getLast?_append] at h
      rcases Option.or_eq_some_iff.mp h with hinside | ⟨-, hfirst⟩
      · exact StmtsTyped.last_call rest hrest hinside
      · exact StmtTyped.last_call s hs hfirst

end

theorem not_placed_call {code : List Instruction} (h : code.all (fun I => !I.isCall) = true)
    {pc here : Nat} :
    ¬ Placed code pc here callee.instruction := by
  rintro ⟨i, -, hi⟩
  have := List.all_eq_true.mp h _ (List.mem_of_getElem? hi)
  rw [callee.isCall_instruction] at this
  cases this

/-- If the last instruction of a block, or an instruction that calls for a function that yields
nothing, is a call, the function yields nothing. -/
theorem StmtsTyped.yieldsNothing {ss : List Stmt} {inLoop : Bool}
    (htyped : StmtsTyped C inLoop vars ss) {loop : Option LoopTargets} {pc here : Nat}
    (hplaced : Placed (Stmt.codes C.registry loop pc ss) pc here callee.instruction)
    (h : here = pc + Stmt.sizes ss - 1 ∨ C.YieldsNothing callee) :
    C.YieldsNothing callee := by
  rcases h with hend | h
  · have hbounds := hplaced.bounds
    obtain ⟨i, rfl, hi⟩ := hplaced
    rw [Stmt.length_codes] at hbounds
    have hlast : (Stmt.codes C.registry loop pc ss).getLast? = some callee.instruction := by
      rw [List.getLast?_eq_getElem?, Stmt.length_codes, show Stmt.sizes ss - 1 = i by omega, hi]
    exact StmtsTyped.last_call ss htyped hlast
  · exact h

mutual

/-- Where the range of a variable ends with a call, it ends with the block around the statement that
declares the variable, or the function that is called yields nothing. -/
theorem StmtTyped.ends_with_call : ∀ (s : Stmt) {inLoop : Bool} {vars : List Nat}
    {loop : Option LoopTargets} {blockEnd pc : Nat} {l : LocalInfo}, StmtTyped C inLoop vars s →
      pc + s.size ≤ blockEnd + 1 →
      l ∈ s.table blockEnd pc →
      Placed (s.code C.registry loop pc) pc l.live.stop callee.instruction →
      l.live.stop = blockEnd ∨ C.YieldsNothing callee
  | .var decl, _, _, _, blockEnd, pc, l, _, _, hl, _ => by
      cases List.mem_singleton.mp hl
      exact .inl rfl
  | .cond condition thenBlock elseBlock span, _, _, loop, blockEnd, pc, l, .cond _ hthen helse,
      hend, hl, h => by
      refine .inr ?_
      rcases List.mem_append.mp hl with hl | hl
      · have hbounds := Stmt.tables_bounds thenBlock (by omega) hl
        rcases placed_cond.mp h with h | ⟨-, h⟩ | h | ⟨-, h⟩ | h
        · have := h.bounds
          rw [Expr.length_code] at this
          omega
        · exact absurd h (callee.instruction_ne rfl)
        · exact hthen.yieldsNothing h (StmtsTyped.ends_with_call thenBlock hthen (by omega) hl h)
        · exact absurd h (callee.instruction_ne rfl)
        · have := h.bounds
          omega
      · have hbounds := Stmt.tables_bounds elseBlock (by omega) hl
        rcases placed_cond.mp h with h | ⟨-, h⟩ | h | ⟨-, h⟩ | h
        · have := h.bounds
          rw [Expr.length_code] at this
          omega
        · exact absurd h (callee.instruction_ne rfl)
        · have := h.bounds
          rw [Stmt.length_codes] at this
          omega
        · exact absurd h (callee.instruction_ne rfl)
        · exact helse.yieldsNothing h (StmtsTyped.ends_with_call elseBlock helse (by omega) hl h)
  | .whileLoop condition body span, _, _, loop, blockEnd, pc, l, .whileLoop _ hbody, hend,
      hl, h => by
      refine .inr ?_
      have hbounds := Stmt.tables_bounds body (by omega) hl
      rcases placed_whileLoop.mp h with h | ⟨-, h⟩ | h | ⟨-, h⟩
      · have := h.bounds
        rw [Expr.length_code] at this
        omega
      · exact absurd h (callee.instruction_ne rfl)
      · exact hbody.yieldsNothing h (StmtsTyped.ends_with_call body hbody (by omega) hl h)
      · exact absurd h (callee.instruction_ne rfl)
  | .repeatLoop count body span, _, _, loop, blockEnd, pc, l, .repeatLoop _ hbody, hend, hl, h => by
      refine .inr ?_
      have hbounds := Stmt.tables_bounds body (by omega) hl
      rcases placed_repeatLoop.mp h with h | h | h | h
      · have := h.bounds
        rw [Expr.length_code] at this
        omega
      · exact absurd h (not_placed_call rfl)
      · exact hbody.yieldsNothing h (StmtsTyped.ends_with_call body hbody (by omega) hl h)
      · exact absurd h (not_placed_call rfl)
  | .expr _, _, _, _, _, _, _, _, _, hl, _ | .assign .., _, _, _, _, _, _, _, _, hl, _
  | .ret .., _, _, _, _, _, _, _, _, hl, _ | .breakLoop _, _, _, _, _, _, _, _, _, hl, _
  | .continueLoop _, _, _, _, _, _, _, _, _, hl, _ | .comment .., _, _, _, _, _, _, _, _, hl, _ =>
    by cases hl

theorem StmtsTyped.ends_with_call : ∀ (ss : List Stmt) {inLoop : Bool} {vars : List Nat}
    {loop : Option LoopTargets} {blockEnd pc : Nat} {l : LocalInfo}, StmtsTyped C inLoop vars ss →
      pc + Stmt.sizes ss ≤ blockEnd + 1 →
      l ∈ Stmt.tables blockEnd pc ss →
      Placed (Stmt.codes C.registry loop pc ss) pc l.live.stop callee.instruction →
      l.live.stop = blockEnd ∨ C.YieldsNothing callee
  | s :: rest, _, _, loop, blockEnd, pc, l, .cons hs hrest, hend, hl, h => by
      rw [Stmt.sizes] at hend
      rw [Stmt.codes, placed_append, Stmt.length_code] at h
      rcases List.mem_append.mp hl with hl | hl
      · have hbounds := Stmt.table_bounds s (by omega) hl
        rcases h with h | h
        · exact StmtTyped.ends_with_call s hs (by omega) hl h
        · have := h.bounds
          omega
      · have hbounds := Stmt.tables_bounds rest (by omega) hl
        rcases h with h | h
        · have := h.bounds
          rw [Stmt.length_code] at this
          omega
        · exact StmtsTyped.ends_with_call rest hrest (by omega) hl h
  | [], _, _, _, _, _, _, _, _, hl, _ => by cases hl

end

/-- **A range that ends with a call** is that of a variable in a block inside the function, and the
function that is called yields nothing. -/
theorem FunctionDecl.ends_with_call {r : Registry} {arrows : Callee → Option Arrow}
    {d : FunctionDecl} (typed : FunctionTyped r arrows d) {l : LocalInfo} (hl : l ∈ d.table)
    (h : (d.code r)[l.live.stop]? = some callee.instruction) :
    l.isParameter = false ∧ l.live.stop < d.size - 1 ∧
    (d.typing r arrows).YieldsNothing callee := by
  have hstop : l.live.stop ≠ d.size - 1 := by
    intro heq
    have hlast := d.getLast?_code (r := r)
    rw [List.getLast?_eq_getElem?, length_code, ← heq, h, Option.some.injEq] at hlast
    exact callee.instruction_ne rfl hlast
  rcases mem_table.mp hl with ⟨p, -, rfl⟩ | hvariable
  · exact absurd rfl hstop
  · have hbounds := Stmt.tables_bounds d.body d.sizes_body_le hvariable
    have hbody := d.sizes_body_le
    have hplaced := placed_body ⟨_, (Nat.zero_add _).symm, h⟩ (callee.instruction_ne rfl)
    refine ⟨hbounds.1, by omega, ?_⟩
    exact (StmtsTyped.ends_with_call (C := d.typing r arrows) d.body typed.body d.sizes_body_le
      hvariable hplaced).resolve_left hstop

end Stepwise
