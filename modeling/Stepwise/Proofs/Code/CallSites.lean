import Stepwise.Proofs.Code.BlockEnds
import Stepwise.Proofs.Code.Extent

/-!
# Where calls stand

A call in the code of a function comes from a call in its tree. In front of it stands the code of
the arguments, one behind the other as in the source, and control comes to the call only through all
of it, from its first instruction on (`FunctionDecl.call_site`).
-/

set_option autoImplicit false

namespace Stepwise

variable {C : BodyTyping} {callee : Callee}

/-! ## Calls in trees -/

/-- The expression is a call of the function with the arguments, or contains one. -/
inductive Expr.Calls (callee : Callee) (arguments : List Expr) : Expr → Prop
  | self {i : ExprInfo} {name : Ident} :
      Calls callee arguments (.call i name arguments (some callee))
  | argument {i : ExprInfo} {name : Ident} {es : List Expr} {other : Option Callee} {e : Expr} :
      e ∈ es → Calls callee arguments e → Calls callee arguments (.call i name es other)
  | record {i : ExprInfo} {e : Expr} {name : Ident} :
      Calls callee arguments e → Calls callee arguments (.field i e name)
  | operand {i : ExprInfo} {op : UnaryOp} {e : Expr} :
      Calls callee arguments e → Calls callee arguments (.unary i op e)
  | left {i : ExprInfo} {op : BinaryOp} {left right : Expr} :
      Calls callee arguments left → Calls callee arguments (.binary i op left right)
  | right {i : ExprInfo} {op : BinaryOp} {left right : Expr} :
      Calls callee arguments right → Calls callee arguments (.binary i op left right)

/-- A statement in which there is such a call. -/
inductive Stmt.Calls (callee : Callee) (arguments : List Expr) : Stmt → Prop
  | expr {e : Expr} : e.Calls callee arguments → Calls callee arguments (.expr e)
  | initial {decl : VarDecl} : decl.value.Calls callee arguments →
      Calls callee arguments (.var decl)
  | value {target value : Expr} {span : Span} :
      value.Calls callee arguments → Calls callee arguments (.assign target value span)
  | target {target value : Expr} {span : Span} :
      target.Calls callee arguments → Calls callee arguments (.assign target value span)
  | condition {condition : Expr} {thenBlock elseBlock : List Stmt} {span : Span} :
      condition.Calls callee arguments →
      Calls callee arguments (.cond condition thenBlock elseBlock span)
  | thenBlock {condition : Expr} {thenBlock elseBlock : List Stmt} {span : Span} {s : Stmt} :
      s ∈ thenBlock → Calls callee arguments s →
      Calls callee arguments (.cond condition thenBlock elseBlock span)
  | elseBlock {condition : Expr} {thenBlock elseBlock : List Stmt} {span : Span} {s : Stmt} :
      s ∈ elseBlock → Calls callee arguments s →
      Calls callee arguments (.cond condition thenBlock elseBlock span)
  | whileTest {condition : Expr} {body : List Stmt} {span : Span} :
      condition.Calls callee arguments → Calls callee arguments (.whileLoop condition body span)
  | whileBody {condition : Expr} {body : List Stmt} {span : Span} {s : Stmt} :
      s ∈ body → Calls callee arguments s → Calls callee arguments (.whileLoop condition body span)
  | count {count : Expr} {body : List Stmt} {span : Span} :
      count.Calls callee arguments → Calls callee arguments (.repeatLoop count body span)
  | repeatBody {count : Expr} {body : List Stmt} {span : Span} {s : Stmt} :
      s ∈ body → Calls callee arguments s → Calls callee arguments (.repeatLoop count body span)
  | result {value : Expr} {span : Span} :
      value.Calls callee arguments → Calls callee arguments (.ret (some value) span)

/-- A function in whose body there is such a call. -/
def FunctionDecl.Calls (d : FunctionDecl) (callee : Callee) (arguments : List Expr) : Prop :=
  ∃ s ∈ d.body, s.Calls callee arguments

/-! ## Their places in code -/

/-- In code that starts at `pc`, a call stands behind the code of its arguments, which starts at
`start`. From there on control comes to an instruction only from the one before. -/
structure CallSite (C : BodyTyping) (callee : Callee) (arguments : List Expr) (start : Nat)
    (code : List Instruction) (pc : Nat) : Prop where
  typed : ∃ (vars : List Nat) (ts : List Ty) (result : Ty), ExprsTyped C vars arguments ts ∧
    (∀ t ∈ ts, t.Storable) ∧ C.arrows callee = some ⟨ts, result⟩
  le_start : pc ≤ start
  placed : ∀ {here : Nat} {I : Instruction},
    Placed (Expr.codes C.registry arguments ++ [callee.instruction]) start here I →
    Placed code pc here I
  entered : ∀ {here target : Nat}, Flows code pc here target → start < target →
    target ≤ start + Expr.sizes arguments → start ≤ here ∧ target = here + 1

/-- The call at `here` comes from one in a tree. -/
def CalledAt (C : BodyTyping) (callee : Callee) (tree : List Expr → Prop) (code : List Instruction)
    (pc here : Nat) : Prop :=
  ∃ (arguments : List Expr) (start : Nat), here = start + Expr.sizes arguments ∧ tree arguments ∧
    CallSite C callee arguments start code pc

section CalledAt

variable {arguments : List Expr} {start pc here : Nat} {code : List Instruction}
    {tree more : List Expr → Prop}

theorem CallSite.end_lt (h : CallSite C callee arguments start code pc) :
    start + Expr.sizes arguments < pc + code.length := by
  have hcall : Placed (Expr.codes C.registry arguments ++ [callee.instruction]) start
      (start + Expr.sizes arguments) callee.instruction := by
    rw [placed_append, Expr.length_codes]
    exact .inr (placed_singleton.mpr ⟨rfl, rfl⟩)
  exact (h.placed hcall).bounds.2

/-- A call in a stretch of code is a call in the code around it, if control comes to the stretch
only from itself or from the instruction before. -/
theorem CalledAt.lift (h : CalledAt C callee tree code pc here) {outer : List Instruction}
    {first : Nat} (hmore : ∀ {arguments : List Expr}, tree arguments → more arguments)
    (hfirst : first ≤ pc)
    (hplaced : ∀ {here : Nat} {I : Instruction}, Placed code pc here I → Placed outer first here I)
    (hflows : ∀ {here target : Nat}, Flows outer first here target → pc < target →
      target < pc + code.length → Flows code pc here target ∨ target = here + 1) :
    CalledAt C callee more outer first here := by
  obtain ⟨arguments, start, hhere, htree, hsite⟩ := h
  have hend := hsite.end_lt
  have hstart := hsite.le_start
  refine ⟨arguments, start, hhere, hmore htree, hsite.typed,
    by omega, fun h => hplaced (hsite.placed h), ?_⟩
  intro here target h hlow hhigh
  rcases hflows h (by omega) (by omega) with h | rfl
  · exact hsite.entered h hlow hhigh
  · exact ⟨by omega, rfl⟩

/-- The same where the code around is gone through in order. -/
theorem CalledAt.lift_straight (h : CalledAt C callee tree code pc here) {outer : List Instruction}
    {first : Nat} (hmore : ∀ {arguments : List Expr}, tree arguments → more arguments)
    (hfirst : first ≤ pc)
    (hplaced : ∀ {here : Nat} {I : Instruction}, Placed code pc here I → Placed outer first here I)
    (hstraight : ∀ {here target : Nat}, Flows outer first here target → target = here + 1) :
    CalledAt C callee more outer first here :=
  h.lift hmore hfirst hplaced fun h _ _ => .inr (hstraight h)

end CalledAt

mutual

/-- A call in the code of an expression. -/
theorem ExprTyped.called_at : ∀ (e : Expr) {vars : List Nat} {t : Ty} {pc here : Nat},
    ExprTyped C vars e t →
    Placed (e.code C.registry) pc here callee.instruction →
      CalledAt C callee (e.Calls callee) (e.code C.registry) pc here
  | .call _ _ arguments _, vars, _, pc, here, .call htyped harrow hstorable _, h => by
      rw [Expr.code, placed_append, Expr.length_codes, placed_singleton] at h
      rcases h with h | ⟨rfl, hcallee⟩
      · refine (ExprsTyped.called_at arguments htyped h).lift_straight ?_ (Nat.le_refl _)
          (fun h => placed_append.mpr (.inl h)) fun h => (Expr.flows h).2.2
        rintro found ⟨e, he, hcalls⟩
        exact .argument he hcalls
      · rw [Option.getD_some] at hcallee
        cases Callee.instruction_injective hcallee
        refine ⟨arguments, pc, rfl, .self, ⟨vars, _, _, htyped, hstorable, harrow⟩, Nat.le_refl _,
          fun h => h, ?_⟩
        intro here target h hlow _
        have := Expr.flows h
        omega
  | .field _ record _, _, _, _, _, .field htyped _ _ _ _, h => by
      rw [Expr.code, placed_append, placed_singleton] at h
      rcases h with h | ⟨-, hI⟩
      · exact (ExprTyped.called_at record htyped h).lift_straight .record (Nat.le_refl _)
          (fun h => placed_append.mpr (.inl h)) fun h => (Expr.flows h).2.2
      · exact absurd hI (callee.instruction_ne rfl)
  | .unary _ _ operand, _, _, _, _, .unary htyped _, h => by
      rw [Expr.code, placed_append, placed_singleton] at h
      rcases h with h | ⟨-, hI⟩
      · exact (ExprTyped.called_at operand htyped h).lift_straight .operand (Nat.le_refl _)
          (fun h => placed_append.mpr (.inl h)) fun h => (Expr.flows h).2.2
      · exact absurd hI (callee.instruction_ne rfl)
  | .binary _ op left right, _, _, _, _, .binary hleft hright _, h => by
      rw [Expr.code, placed_append, placed_append, placed_singleton] at h
      rcases h with (h | h) | ⟨-, hI⟩
      · exact (ExprTyped.called_at left hleft h).lift_straight .left (Nat.le_refl _)
          (fun h => placed_append.mpr (.inl (placed_append.mpr (.inl h)))) fun h =>
          (Expr.flows h).2.2
      · exact (ExprTyped.called_at right hright h).lift_straight .right (Nat.le_add_right _ _)
          (fun h => placed_append.mpr (.inl (placed_append.mpr (.inr h)))) fun h =>
          (Expr.flows h).2.2
      · exact absurd hI (callee.instruction_ne (by cases op <;> rfl))
  | .number .., _, _, _, _, _, h => absurd h (not_placed_call rfl)
  | .boolean .., _, _, _, _, _, h => absurd h (not_placed_call rfl)
  | .string .., _, _, _, _, _, h => absurd h (not_placed_call rfl)
  | .reference .., _, _, _, _, _, h => absurd h (not_placed_call rfl)

/-- A call in the code of expressions in a row. -/
theorem ExprsTyped.called_at : ∀ (es : List Expr) {vars : List Nat} {ts : List Ty} {pc here : Nat},
    ExprsTyped C vars es ts → Placed (Expr.codes C.registry es) pc here callee.instruction →
      CalledAt C callee (fun arguments => ∃ e ∈ es, e.Calls callee arguments)
        (Expr.codes C.registry es) pc here
  | [], _, _, _, _, _, h => absurd h.bounds (by simp [Expr.codes])
  | e :: es, _, _, _, _, .cons he hes, h => by
      have hstraight {pc here target : Nat}
          (h : Flows (Expr.codes C.registry (e :: es)) pc here target) :=
        (flows_straight (Expr.straight_codes C.registry (e :: es)) h).2.2
      rw [Expr.codes, placed_append] at h
      rcases h with h | h
      · exact (ExprTyped.called_at e he h).lift_straight (fun h => ⟨e, List.mem_cons_self, h⟩)
          (Nat.le_refl _) (fun h => placed_append.mpr (.inl h)) hstraight
      · refine (ExprsTyped.called_at es hes h).lift_straight ?_ (Nat.le_add_right _ _)
          (fun h => placed_append.mpr (.inr h)) hstraight
        rintro arguments ⟨e', he', hcalls⟩
        exact ⟨e', List.mem_cons_of_mem _ he', hcalls⟩

end

section Compound

variable {inLoop : Bool} {vars : List Nat} {loop : Option LoopTargets} {span : Span} {pc here : Nat}

/-- A call in the code of these statements comes from one of their trees. -/
def Stmt.AllCalledAt (C : BodyTyping) (callee : Callee) (ss : List Stmt) : Prop :=
  ∀ {inLoop : Bool} {vars : List Nat} {loop : Option LoopTargets} {pc here : Nat},
    StmtsTyped C inLoop vars ss →
    GoesOutside loop pc (pc + Stmt.sizes ss) →
      Placed (Stmt.codes C.registry loop pc ss) pc here callee.instruction →
      CalledAt C callee (fun arguments => ∃ s ∈ ss, s.Calls callee arguments)
        (Stmt.codes C.registry loop pc ss) pc here

/-- A call in the code of an `if`: in its condition or in one of its blocks. -/
theorem StmtTyped.called_at_cond {condition : Expr} {thenBlock elseBlock : List Stmt}
    (hthen : Stmt.AllCalledAt C callee thenBlock) (helse : Stmt.AllCalledAt C callee elseBlock)
    (hcondition : ExprTyped C vars condition .boolean)
    (hthenTyped : StmtsTyped C inLoop vars thenBlock)
    (helseTyped : StmtsTyped C inLoop vars elseBlock)
    (hloop : GoesOutside loop pc (pc + (Stmt.cond condition thenBlock elseBlock span).size))
    (h : Placed ((Stmt.cond condition thenBlock elseBlock span).code C.registry loop pc) pc here
      callee.instruction) :
    CalledAt C callee ((Stmt.cond condition thenBlock elseBlock span).Calls callee)
      ((Stmt.cond condition thenBlock elseBlock span).code C.registry loop pc) pc here := by
  have hinside := hloop
  rw [Stmt.size] at hinside
  rcases placed_cond.mp h with h | ⟨-, hI⟩ | h | ⟨-, hI⟩ | h
  · refine (ExprTyped.called_at condition hcondition h).lift .condition (Nat.le_refl _)
      (fun h => placed_cond.mpr (.inl h)) fun h hlow hhigh => .inr ?_
    rw [Expr.length_code] at hhigh
    exact flows_into_condition h hloop hlow hhigh
  · exact absurd hI (callee.instruction_ne rfl)
  · refine (hthen hthenTyped (hinside.within (by omega) (by omega)) h).lift ?_ (by omega)
      (fun h => placed_cond.mpr (.inr (.inr (.inl h)))) fun h hlow hhigh => .inl ?_
    · rintro arguments ⟨s, hs, hcalls⟩
      exact .thenBlock hs hcalls
    · rw [Stmt.length_codes] at hhigh
      exact flows_into_thenBlock h hloop hlow (Nat.le_of_lt hhigh)
  · exact absurd hI (callee.instruction_ne rfl)
  · refine (helse helseTyped (hinside.within (by omega) (by omega)) h).lift ?_ (by omega)
      (fun h => placed_cond.mpr (.inr (.inr (.inr (.inr h))))) fun h hlow hhigh => .inl ?_
    · rintro arguments ⟨s, hs, hcalls⟩
      exact .elseBlock hs hcalls
    · rw [Stmt.length_codes] at hhigh
      exact flows_into_elseBlock h hloop hlow hhigh

/-- A call in the code of a `while`: in its condition or in its body. -/
theorem StmtTyped.called_at_whileLoop {condition : Expr} {body : List Stmt}
    (hbody : Stmt.AllCalledAt C callee body) (hcondition : ExprTyped C vars condition .boolean)
    (hbodyTyped : StmtsTyped C true vars body)
    (h : Placed ((Stmt.whileLoop condition body span).code C.registry loop pc) pc here
      callee.instruction) :
    CalledAt C callee ((Stmt.whileLoop condition body span).Calls callee)
      ((Stmt.whileLoop condition body span).code C.registry loop pc) pc here := by
  rcases placed_whileLoop.mp h with h | ⟨-, hI⟩ | h | ⟨-, hI⟩
  · refine (ExprTyped.called_at condition hcondition h).lift .whileTest (Nat.le_refl _)
      (fun h => placed_whileLoop.mpr (.inl h)) fun h hlow hhigh => .inr ?_
    rw [Expr.length_code] at hhigh
    exact flows_into_whileTest h hlow hhigh
  · exact absurd hI (callee.instruction_ne rfl)
  · refine (hbody hbodyTyped (.ofTargets (by omega) (by omega)) h).lift ?_ (by omega)
      (fun h => placed_whileLoop.mpr (.inr (.inr (.inl h)))) fun h hlow hhigh => .inl ?_
    · rintro arguments ⟨s, hs, hcalls⟩
      exact .whileBody hs hcalls
    · rw [Stmt.length_codes] at hhigh
      exact flows_into_whileBody h hlow (Nat.lt_succ_of_lt hhigh)
  · exact absurd hI (callee.instruction_ne rfl)

/-- A call in the code of a repetition: in its count or in its body. -/
theorem StmtTyped.called_at_repeatLoop {count : Expr} {body : List Stmt}
    (hbody : Stmt.AllCalledAt C callee body) (hcount : ExprTyped C vars count .number)
    (hbodyTyped : StmtsTyped C true vars body)
    (h : Placed ((Stmt.repeatLoop count body span).code C.registry loop pc) pc here
      callee.instruction) :
    CalledAt C callee ((Stmt.repeatLoop count body span).Calls callee)
      ((Stmt.repeatLoop count body span).code C.registry loop pc) pc here := by
  rcases placed_repeatLoop.mp h with h | h | h | h
  · refine (ExprTyped.called_at count hcount h).lift .count (Nat.le_refl _)
      (fun h => placed_repeatLoop.mpr (.inl h)) fun h hlow hhigh => .inr ?_
    rw [Expr.length_code] at hhigh
    exact flows_into_count h hhigh
  · exact absurd h (not_placed_call rfl)
  · refine (hbody hbodyTyped (.ofTargets (by omega) (by omega)) h).lift ?_ (by omega)
      (fun h => placed_repeatLoop.mpr (.inr (.inr (.inl h)))) fun h hlow hhigh => .inl ?_
    · rintro arguments ⟨s, hs, hcalls⟩
      exact .repeatBody hs hcalls
    · rw [Stmt.length_codes] at hhigh
      exact flows_into_repeatBody h hlow (Nat.le_of_lt hhigh)
  · exact absurd h (not_placed_call rfl)

end Compound

mutual

/-- A call in the code of a statement. -/
theorem StmtTyped.called_at : ∀ (s : Stmt) {inLoop : Bool} {vars : List Nat}
    {loop : Option LoopTargets} {pc here : Nat}, StmtTyped C inLoop vars s →
      GoesOutside loop pc (pc + s.size) →
      Placed (s.code C.registry loop pc) pc here callee.instruction →
        CalledAt C callee (fun arguments => s.Calls callee arguments)
          (s.code C.registry loop pc) pc here
  | .comment .., _, _, _, _, _, _, _, h => absurd h.bounds (by simp [Stmt.code])
  | .expr e, _, _, loop, pc, here, .expr htyped, _, h => by
      rw [Stmt.code, placed_append] at h
      rcases h with h | h
      · exact (ExprTyped.called_at e htyped h).lift_straight .expr (Nat.le_refl _)
          (fun h => placed_append.mpr (.inl h)) fun h =>
          (flows_straight (Stmt.straight_expr e loop pc) h).2.2
      · refine absurd h (not_placed_call ?_)
        unfold Expr.dropCode
        split <;> rfl
  | .var decl, _, _, loop, pc, here, .var htyped _ _ _ _, _, h => by
      rw [Stmt.code, placed_append, placed_singleton] at h
      rcases h with h | ⟨-, hI⟩
      · exact (ExprTyped.called_at decl.value htyped h).lift_straight .initial (Nat.le_refl _)
          (fun h => placed_append.mpr (.inl h)) fun h =>
          (flows_straight (Stmt.straight_var decl loop pc) h).2.2
      · exact absurd hI (callee.instruction_ne rfl)
  | .assign target value span, _, _, loop, pc, here, .assign hvalue htarget _, _, h => by
      rw [Stmt.code, placed_append, Expr.length_code] at h
      rcases h with h | h
      · exact (ExprTyped.called_at value hvalue h).lift_straight .value (Nat.le_refl _)
          (fun h => placed_append.mpr (.inl h))
          fun h => (flows_straight (Stmt.straight_assign target value span loop pc) h).2.2
      · cases htarget with
        | @field _ record _ _ _ _ _ hrecord _ _ _ _ =>
            rw [Expr.targetCode, placed_append, placed_singleton] at h
            rcases h with h | ⟨-, hI⟩
            · refine (ExprTyped.called_at record hrecord h).lift_straight
                (fun h => .target (.record h)) (Nat.le_add_right _ _) ?_ fun h =>
                (flows_straight (Stmt.straight_assign _ value span loop pc) h).2.2
              intro here I h
              rw [Stmt.code, placed_append, Expr.length_code]
              exact .inr (placed_append.mpr (.inl h))
            · exact absurd hI (callee.instruction_ne rfl)
        | _ => exact absurd h (not_placed_call rfl)
  | .cond _ thenBlock elseBlock _, _, _, _, _, _, .cond hcondition hthen helse, hloop, h =>
      StmtTyped.called_at_cond (StmtsTyped.called_at thenBlock) (StmtsTyped.called_at elseBlock)
        hcondition hthen helse
        hloop h
  | .whileLoop _ body _, _, _, _, _, _, .whileLoop hcondition hbody, _, h =>
      StmtTyped.called_at_whileLoop (StmtsTyped.called_at body) hcondition hbody h
  | .repeatLoop _ body _, _, _, _, _, _, .repeatLoop hcount hbody, _, h =>
      StmtTyped.called_at_repeatLoop (StmtsTyped.called_at body) hcount hbody h
  | .ret (some value) span, _, _, loop, pc, here, .retValue htyped _, _, h => by
      rw [Stmt.code, placed_append, placed_singleton] at h
      rcases h with h | ⟨-, hI⟩
      · exact (ExprTyped.called_at value htyped h).lift_straight .result (Nat.le_refl _)
          (fun h => placed_append.mpr (.inl h)) fun h => (flows_ret h).2.2
      · exact absurd hI (callee.instruction_ne rfl)
  | .ret none _, _, _, _, _, _, _, _, h => absurd h (not_placed_call rfl)
  | .breakLoop _, _, _, _, _, _, _, _, h => absurd h (not_placed_call rfl)
  | .continueLoop _, _, _, _, _, _, _, _, h => absurd h (not_placed_call rfl)

/-- A call in the code of statements in a row. -/
theorem StmtsTyped.called_at : ∀ ss : List Stmt, Stmt.AllCalledAt C callee ss
  | [], _, _, _, _, _, _, _, h => absurd h.bounds (by simp [Stmt.codes])
  | s :: rest, _, _, loop, pc, here, .cons hs hrest, hloop, h => by
      rw [Stmt.sizes] at hloop
      have hinside := hloop.within (Nat.le_refl pc) (show pc + s.size ≤ _ by omega)
      rw [Stmt.codes, placed_append, Stmt.length_code] at h
      rcases h with h | h
      · refine (StmtTyped.called_at s hs hinside h).lift (fun h => ⟨s, List.mem_cons_self, h⟩)
          (Nat.le_refl _) (fun h => placed_append.mpr (.inl h)) fun h hlow hhigh => .inl ?_
        rw [Stmt.length_code] at hhigh
        exact flows_into_head h hinside hlow hhigh
      · refine (StmtsTyped.called_at rest hrest (hloop.within (by omega) (by omega)) h).lift ?_
          (Nat.le_add_right _ _) ?_ fun h hlow hhigh => .inl ?_
        · rintro arguments ⟨s', hs', hcalls⟩
          exact ⟨s', List.mem_cons_of_mem _ hs', hcalls⟩
        · intro here I h
          rw [Stmt.codes, placed_append, Stmt.length_code]
          exact .inr h
        · rw [Stmt.length_codes] at hhigh
          exact flows_into_tail h hloop hlow (by omega)

end

/-- **A call in the code of a function comes from a call in its tree**, and stands behind the code
of its arguments. -/
theorem FunctionDecl.call_site {r : Registry} {arrows : Callee → Option Arrow} {d : FunctionDecl}
    (typed : FunctionTyped r arrows d) {here : Nat}
    (h : (d.code r)[here]? = some callee.instruction) :
    ∃ (arguments : List Expr) (start : Nat), here = start + Expr.sizes arguments ∧
      d.Calls callee arguments ∧
      CallSite (d.typing r arrows) callee arguments start (d.code r) 0 := by
  have hbody := placed_body ⟨here, (Nat.zero_add here).symm, h⟩ (callee.instruction_ne rfl)
  have hcalled : CalledAt (d.typing r arrows) callee (d.Calls callee) (d.code r) 0 here :=
    (StmtsTyped.called_at (C := d.typing r arrows) d.body typed.body .ofNone hbody).lift
      (fun h => h) (Nat.le_refl _)
      (fun h => placed_append.mpr (.inl h)) fun h _ _ => .inl (flows_body h)
  exact hcalled

end Stepwise
