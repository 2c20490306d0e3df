import Stepwise.Proofs.Code.Shape

/-!
# The flow of control

Which instruction may follow which, as far as the code tells. Instructions are followed by the next
one, jumps by their targets, and `return` by nothing (`Instruction.Leads`); in code that starts at a
place this makes a relation between places (`Flows`).

Expressions are gone through in order. Control leaves a statement only behind it, or to where the
loop around it lets it go (`Stmt.flows_within`), and never leaves the code of a function
(`FunctionDecl.flows_closed`). Behind the first instruction of a condition, a count or a block it
comes only from instructions of the same part (`flows_into_thenBlock` and the lemmas beside it).
-/

set_option autoImplicit false

namespace Stepwise

/-! ## Places -/

section Placed

variable {α : Type}

/-- An element of a list is at `here` if the first one is at `pc`. -/
def Placed (xs : List α) (pc here : Nat) (x : α) : Prop := ∃ i, here = pc + i ∧ xs[i]? = some x

theorem Placed.bounds {xs : List α} {pc here : Nat} {x : α} (h : Placed xs pc here x) :
    pc ≤ here ∧ here < pc + xs.length := by
  obtain ⟨i, rfl, hi⟩ := h
  have := (List.getElem?_eq_some_iff.mp hi).1
  omega

theorem placed_append {xs ys : List α} {pc here : Nat} {x : α} :
    Placed (xs ++ ys) pc here x ↔ Placed xs pc here x ∨ Placed ys (pc + xs.length) here x := by
  constructor
  · rintro ⟨i, rfl, hi⟩
    rcases Nat.lt_or_ge i xs.length with hlt | hge
    · rw [List.getElem?_append_left hlt] at hi
      exact .inl ⟨i, rfl, hi⟩
    · rw [List.getElem?_append_right hge] at hi
      exact .inr ⟨i - xs.length, by omega, hi⟩
  · rintro (⟨i, rfl, hi⟩ | ⟨i, rfl, hi⟩)
    · exact ⟨i, rfl, by rw [List.getElem?_append_left (List.getElem?_eq_some_iff.mp hi).1, hi]⟩
    · refine ⟨xs.length + i, by omega, ?_⟩
      rw [List.getElem?_append_right (Nat.le_add_right _ _), Nat.add_sub_cancel_left, hi]

theorem placed_singleton {pc here : Nat} {x y : α} : Placed [y] pc here x ↔ here = pc ∧ x = y := by
  constructor
  · rintro ⟨i, rfl, hi⟩
    cases i with
    | zero => simpa [eq_comm] using hi
    | succ i => simp at hi
  · rintro ⟨rfl, rfl⟩
    exact ⟨0, rfl, rfl⟩

theorem placed_replicate {pc here count : Nat} {x y : α} :
    Placed (List.replicate count y) pc here x ↔ x = y ∧ pc ≤ here ∧ here < pc + count := by
  constructor
  · rintro ⟨i, rfl, hi⟩
    rw [List.getElem?_replicate] at hi
    split at hi
    · cases hi
      exact ⟨rfl, by omega, by omega⟩
    · cases hi
  · rintro ⟨rfl, hle, hlt⟩
    refine ⟨here - pc, by omega, ?_⟩
    rw [List.getElem?_replicate, if_pos (by omega)]

end Placed

/-! ## What follows an instruction -/

/-- The instruction at `here` may be followed by the one at `target`. Nothing follows `return`. -/
def Instruction.Leads (here target : Nat) : Instruction → Prop
  | .jump goal => target = goal
  | .jumpIfTrue goal | .jumpIfFalse goal => target = goal ∨ target = here + 1
  | .ret => False
  | _ => target = here + 1

/-- An instruction that is followed by the next one and nothing else. -/
def Instruction.isStraight : Instruction → Bool
  | .jump _ | .jumpIfTrue _ | .jumpIfFalse _ | .ret => false
  | _ => true

theorem Instruction.leads_of_isStraight {I : Instruction} (h : I.isStraight = true)
    {here target : Nat} :
    I.Leads here target ↔ target = here + 1 := by
  cases I <;> first | rfl | cases h

/-- In code that starts at `pc`, the instruction at `here` may be followed by the one at
`target`. -/
def Flows (code : List Instruction) (pc here target : Nat) : Prop :=
  ∃ I, Placed code pc here I ∧ I.Leads here target

theorem flows_append {first second : List Instruction} {pc here target : Nat} :
    Flows (first ++ second) pc here target ↔
      Flows first pc here target ∨ Flows second (pc + first.length) here target := by
  simp only [Flows, placed_append, or_and_right, exists_or]

theorem flows_singleton {I : Instruction} {pc here target : Nat} :
    Flows [I] pc here target ↔ here = pc ∧ I.Leads pc target := by
  simp only [Flows, placed_singleton]
  constructor
  · rintro ⟨_, ⟨rfl, rfl⟩, h⟩
    exact ⟨rfl, h⟩
  · rintro ⟨rfl, h⟩
    exact ⟨_, ⟨rfl, rfl⟩, h⟩

/-- Code without jumps and returns is gone through in order. -/
theorem flows_straight {code : List Instruction}
    (hstraight : code.all Instruction.isStraight = true) {pc here target : Nat}
    (h : Flows code pc here target) :
    pc ≤ here ∧ here < pc + code.length ∧ target = here + 1 := by
  obtain ⟨I, hplaced, hleads⟩ := h
  have hbounds := hplaced.bounds
  obtain ⟨i, -, hi⟩ := hplaced
  have hI := List.all_eq_true.mp hstraight I (List.mem_of_getElem? hi)
  exact ⟨hbounds.1, hbounds.2, (Instruction.leads_of_isStraight hI).mp hleads⟩

mutual

/-- Expressions do not jump. -/
theorem Expr.straight_code (r : Registry) : ∀ e : Expr, (e.code r).all Instruction.isStraight = true
  | .number .. | .boolean .. | .string .. | .reference .. => rfl
  | .call _ _ arguments callee => by
      have hcall : (callee.getD (.user 0)).instruction.isStraight = true := by
        cases callee.getD (.user 0) <;> rfl
      simp [Expr.code, Expr.straight_codes r arguments, hcall]
  | .field _ record _ => by simp [Expr.code, Expr.straight_code r record, Instruction.isStraight]
  | .unary _ _ operand => by simp [Expr.code, Expr.straight_code r operand, Instruction.isStraight]
  | .binary _ op left right => by
      have hop : (binaryInstruction op).isStraight = true := by cases op <;> rfl
      simp [Expr.code, Expr.straight_code r left, Expr.straight_code r right, hop]

theorem Expr.straight_codes (r : Registry) :
    ∀ es : List Expr, (Expr.codes r es).all Instruction.isStraight = true
  | [] => rfl
  | e :: es => by simp [Expr.codes, Expr.straight_code r e, Expr.straight_codes r es]

end

theorem Expr.straight_targetCode (r : Registry) (e : Expr) :
    (e.targetCode r).all Instruction.isStraight = true := by
  cases e <;> simp [Expr.targetCode, Expr.straight_code, Instruction.isStraight]

theorem Expr.straight_dropCode (e : Expr) : e.dropCode.all Instruction.isStraight = true := by
  unfold Expr.dropCode
  split <;> rfl

/-- Control flows through an expression in order. -/
theorem Expr.flows {r : Registry} {e : Expr} {pc here target : Nat}
    (h : Flows (e.code r) pc here target) :
    pc ≤ here ∧ here < pc + e.size ∧ target = here + 1 := by
  have := flows_straight (e.straight_code r) h
  rwa [Expr.length_code] at this

/-! ## Statements without jumps -/

section Straight

variable {r : Registry}

theorem Stmt.straight_expr (e : Expr) (loop : Option LoopTargets) (pc : Nat) :
    ((Stmt.expr e).code r loop pc).all Instruction.isStraight = true := by
  rw [Stmt.code, List.all_append, e.straight_code, e.straight_dropCode, Bool.and_self]

theorem Stmt.straight_var (decl : VarDecl) (loop : Option LoopTargets) (pc : Nat) :
    ((Stmt.var decl).code r loop pc).all Instruction.isStraight = true := by
  rw [Stmt.code, List.all_append, Expr.straight_code]
  rfl

theorem Stmt.straight_assign (target value : Expr) (span : Span) (loop : Option LoopTargets)
    (pc : Nat) :
    ((Stmt.assign target value span).code r loop pc).all Instruction.isStraight = true := by
  rw [Stmt.code, List.all_append, value.straight_code, target.straight_targetCode, Bool.and_self]

/-- Control flows through such a statement in order. -/
theorem Stmt.flows_straight {s : Stmt} {loop : Option LoopTargets} {start pc here target : Nat}
    (hstraight : (s.code r loop start).all Instruction.isStraight = true)
    (h : Flows (s.code r loop start) pc here target) :
    pc ≤ here ∧ here < pc + s.size ∧ target = here + 1 := by
  have hflows := Stepwise.flows_straight hstraight h
  rwa [Stmt.length_code] at hflows

end Straight

/-! ## Comments in code -/

/-- Comments have no code. -/
theorem Stmt.sizes_of_all_comments {ss : List Stmt} (h : ss.all Stmt.isComment = true) :
    Stmt.sizes ss = 0 := by
  induction ss with
  | nil => rfl
  | cons s rest ih =>
      rw [List.all_cons, Bool.and_eq_true] at h
      rw [Stmt.sizes, ih h.2, (Stmt.eq_of_isComment h.1).1]

theorem Stmt.all_comments_of_sizes {ss : List Stmt} (h : Stmt.sizes ss = 0) :
    ss.all Stmt.isComment = true := by
  rw [List.all_eq_true]
  induction ss with
  | nil => simp
  | cons s rest ih =>
      rw [Stmt.sizes, Nat.add_eq_zero_iff] at h
      intro x hx
      rcases List.mem_cons.mp hx with rfl | hx
      · cases hcomment : x.isComment with
        | true => rfl
        | false => exact absurd h.1 (Nat.ne_of_gt (Stmt.size_pos hcomment))
      · exact ih h.2 x hx

theorem endsWithReturn_of_all_comments {ss : List Stmt} (h : ss.all Stmt.isComment = true) :
    endsWithReturn ss = false := by
  induction ss with
  | nil => rfl
  | cons s rest ih =>
      rw [List.all_cons, Bool.and_eq_true] at h
      rw [endsWithReturn_cons, ih h.2, (Stmt.eq_of_isComment h.1).2.2, Bool.and_false,
        Bool.or_false]

/-! ## Places in statements -/

section Places

variable {r : Registry} {loop : Option LoopTargets} {span : Span} {pc here : Nat} {I : Instruction}

/-- The code of an `if`, place by place. -/
theorem placed_cond {condition : Expr} {thenBlock elseBlock : List Stmt} :
    let thenStart := pc + condition.size + 1
    let elseStart := thenStart + Stmt.sizes thenBlock + 1
    Placed ((Stmt.cond condition thenBlock elseBlock span).code r loop pc) pc here I ↔
      Placed (condition.code r) pc here I ∨
        (here = pc + condition.size ∧ I = .jumpIfFalse elseStart) ∨
        Placed (Stmt.codes r loop thenStart thenBlock) thenStart here I ∨
        (here = thenStart + Stmt.sizes thenBlock ∧ I = .jump (elseStart + Stmt.sizes elseBlock)) ∨
        Placed (Stmt.codes r loop elseStart elseBlock) elseStart here I := by
  simp only [Stmt.code, placed_append, placed_singleton, List.length_append, Expr.length_code,
    Stmt.length_codes, List.length_singleton, ← Nat.add_assoc, or_assoc]

/-- The code of a `while`, place by place. -/
theorem placed_whileLoop {condition : Expr} {body : List Stmt} :
    let bodyStart := pc + condition.size + 1
    let exit := bodyStart + Stmt.sizes body + 1
    Placed ((Stmt.whileLoop condition body span).code r loop pc) pc here I ↔
      Placed (condition.code r) pc here I ∨ (here = pc + condition.size ∧ I = .jumpIfFalse exit) ∨
        Placed (Stmt.codes r (some ⟨exit, pc⟩) bodyStart body) bodyStart here I ∨
        (here = bodyStart + Stmt.sizes body ∧ I = .jump pc) := by
  simp only [Stmt.code, placed_append, placed_singleton, List.length_append, Expr.length_code,
    Stmt.length_codes, List.length_singleton, ← Nat.add_assoc, or_assoc]

/-- The code of a repetition, stretch by stretch. -/
theorem placed_repeatLoop {count : Expr} {body : List Stmt} :
    let bodyStart := pc + count.size + 4
    let next := bodyStart + Stmt.sizes body
    Placed ((Stmt.repeatLoop count body span).code r loop pc) pc here I ↔
      Placed (count.code r) pc here I ∨ Placed (repeatTest (next + 3)) (pc + count.size) here I ∨
        Placed (Stmt.codes r (some ⟨next + 3, next⟩) bodyStart body) bodyStart here I ∨
        Placed (repeatBack (pc + count.size)) next here I := by
  have htest (exit : Nat) : (repeatTest exit).length = 4 := rfl
  simp only [Stmt.code, placed_append, List.length_append, Expr.length_code,
    Stmt.length_codes, htest, ← Nat.add_assoc, or_assoc]

/-- The test of a repetition: a comparison, and the jump behind it. -/
theorem placed_repeatTest {exit : Nat} :
    Placed (repeatTest exit) pc here I ↔
      Placed [.dup, .push (.number 0), .binary .greater] pc here I ∨
      (here = pc + 3 ∧ I = .jumpIfFalse exit) := by
  rw [show repeatTest exit =
    ([.dup, .push (.number 0), .binary .greater] : List Instruction) ++
      [.jumpIfFalse exit] from rfl,
    placed_append, placed_singleton]
  rfl

/-- The end of a repetition: a subtraction, the jump back, and the instruction that drops the
count. -/
theorem placed_repeatBack {header : Nat} :
    Placed (repeatBack header) pc here I ↔
      Placed [.push (.number 1), .binary .subtract] pc here I ∨ (here = pc + 2 ∧ I = .jump header) ∨
        (here = pc + 3 ∧ I = .pop) := by
  rw [show repeatBack header =
    ([.push (.number 1), .binary .subtract] : List Instruction) ++
      ([.jump header] ++ [.pop]) from rfl,
    placed_append, placed_append, placed_singleton, placed_singleton]
  rfl

end Places

/-! ## The flow through statements -/

/-- Where `break` and `continue` of a loop go; outside of loops there is nowhere but the
beginning. -/
def GoesTo (loop : Option LoopTargets) (target : Nat) : Prop :=
  target = (loop.map (·.exit)).getD 0 ∨ target = (loop.map (·.next)).getD 0

@[simp] theorem goesTo_some {exit next target : Nat} :
    GoesTo (some ⟨exit, next⟩) target ↔ target = exit ∨ target = next := Iff.rfl

@[simp] theorem goesTo_none {target : Nat} : GoesTo none target ↔ target = 0 := or_self_iff

/-- The code of an `if`, flow by flow. -/
theorem flows_cond {r : Registry} {loop : Option LoopTargets} {condition : Expr}
    {thenBlock elseBlock : List Stmt} {span : Span} {pc here target : Nat}
    (h : Flows ((Stmt.cond condition thenBlock elseBlock span).code r loop pc) pc here target) :
    (pc ≤ here ∧ here < pc + condition.size ∧ target = here + 1) ∨
      (here = pc + condition.size ∧
        (target = pc + condition.size + 1 + Stmt.sizes thenBlock + 1 ∨ target = here + 1)) ∨
      Flows (Stmt.codes r loop (pc + condition.size + 1) thenBlock) (pc + condition.size + 1) here
        target ∨
      (here = pc + condition.size + 1 + Stmt.sizes thenBlock ∧
        target = pc + condition.size + 1 + Stmt.sizes thenBlock + 1 + Stmt.sizes elseBlock) ∨
      Flows (Stmt.codes r loop (pc + condition.size + 1 + Stmt.sizes thenBlock + 1) elseBlock)
        (pc + condition.size + 1 + Stmt.sizes thenBlock + 1) here target := by
  obtain ⟨I, h, hleads⟩ := h
  rcases placed_cond.mp h with h | ⟨rfl, rfl⟩ | h | ⟨rfl, rfl⟩ | h
  · exact .inl (Expr.flows ⟨I, h, hleads⟩)
  · exact .inr (.inl ⟨rfl, hleads⟩)
  · exact .inr (.inr (.inl ⟨I, h, hleads⟩))
  · exact .inr (.inr (.inr (.inl ⟨rfl, hleads⟩)))
  · exact .inr (.inr (.inr (.inr ⟨I, h, hleads⟩)))

/-- The code of a `while`, flow by flow. -/
theorem flows_whileLoop {r : Registry} {loop : Option LoopTargets} {condition : Expr}
    {body : List Stmt} {span : Span} {pc here target : Nat}
    (h : Flows ((Stmt.whileLoop condition body span).code r loop pc) pc here target) :
    let exit := pc + condition.size + 1 + Stmt.sizes body + 1
    (pc ≤ here ∧ here < pc + condition.size ∧ target = here + 1) ∨
      (here = pc + condition.size ∧ (target = exit ∨ target = here + 1)) ∨
      Flows (Stmt.codes r (some ⟨exit, pc⟩) (pc + condition.size + 1) body)
        (pc + condition.size + 1) here target ∨
      (here = pc + condition.size + 1 + Stmt.sizes body ∧ target = pc) := by
  obtain ⟨I, h, hleads⟩ := h
  rcases placed_whileLoop.mp h with h | ⟨rfl, rfl⟩ | h | ⟨rfl, rfl⟩
  · exact .inl (Expr.flows ⟨I, h, hleads⟩)
  · exact .inr (.inl ⟨rfl, hleads⟩)
  · exact .inr (.inr (.inl ⟨I, h, hleads⟩))
  · exact .inr (.inr (.inr ⟨rfl, hleads⟩))

/-- The code of a repetition, flow by flow. -/
theorem flows_repeatLoop {r : Registry} {loop : Option LoopTargets} {count : Expr}
    {body : List Stmt} {span : Span} {pc here target : Nat}
    (h : Flows ((Stmt.repeatLoop count body span).code r loop pc) pc here target) :
    let next := pc + count.size + 4 + Stmt.sizes body
    (pc ≤ here ∧ here < pc + count.size + 3 ∧ target = here + 1) ∨
      (here = pc + count.size + 3 ∧ (target = next + 3 ∨ target = here + 1)) ∨
      Flows (Stmt.codes r (some ⟨next + 3, next⟩) (pc + count.size + 4) body) (pc + count.size + 4)
        here target ∨
      (next ≤ here ∧ here < next + 4 ∧ (target = here + 1 ∨ target = pc + count.size)) := by
  obtain ⟨I, h, hleads⟩ := h
  rcases placed_repeatLoop.mp h with h | h | h | h
  · have := Expr.flows ⟨I, h, hleads⟩
    exact .inl (by omega)
  · rcases placed_repeatTest.mp h with h | ⟨rfl, rfl⟩
    · have := flows_straight rfl ⟨I, h, hleads⟩
      simp only [List.length_cons, List.length_nil] at this
      exact .inl (by omega)
    · exact .inr (.inl ⟨rfl, hleads⟩)
  · exact .inr (.inr (.inl ⟨I, h, hleads⟩))
  · have hhere := h.bounds
    have htarget : target = here + 1 ∨ target = pc + count.size := by
      rcases placed_repeatBack.mp h with h | ⟨rfl, rfl⟩ | ⟨rfl, rfl⟩
      · exact .inl (flows_straight rfl ⟨I, h, hleads⟩).2.2
      · exact .inr hleads
      · exact .inl hleads
    exact .inr (.inr (.inr ⟨hhere.1, hhere.2, htarget⟩))

/-- The code of a `return` is gone through in order, and nothing follows it. -/
theorem flows_ret {r : Registry} {loop : Option LoopTargets} {value : Option Expr} {span : Span}
    {pc here target : Nat} (h : Flows ((Stmt.ret value span).code r loop pc) pc here target) :
    pc ≤ here ∧ target < pc + (Stmt.ret value span).size ∧ target = here + 1 := by
  cases value with
  | none =>
      rw [Stmt.code, flows_singleton] at h
      cases h.2
  | some value =>
      rw [Stmt.code, flows_append, flows_singleton] at h
      rcases h with h | ⟨-, hret⟩
      · have := Expr.flows h
        rw [Stmt.size]
        omega
      · cases hret

mutual

/-- **Control leaves a statement only behind it, or to where the loop around it lets it go.** -/
theorem Stmt.flows_within {r : Registry} :
    ∀ (s : Stmt) {loop : Option LoopTargets} {pc here target : Nat},
    Flows (s.code r loop pc) pc here target →
      (pc ≤ here ∧ here < pc + s.size) ∧ ((pc ≤ target ∧ target ≤ pc + s.size) ∨ GoesTo loop target)
  | .comment text span, loop, pc, here, target, h => by
      obtain ⟨I, ⟨i, -, hi⟩, -⟩ := h
      cases hi
  | .expr e, loop, pc, here, target, h => by
      have := Stmt.flows_straight (Stmt.straight_expr e loop pc) h
      omega
  | .var decl, loop, pc, here, target, h => by
      have := Stmt.flows_straight (Stmt.straight_var decl loop pc) h
      omega
  | .assign target' value span, loop, pc, here, target, h => by
      have := Stmt.flows_straight (Stmt.straight_assign target' value span loop pc) h
      omega
  | .cond condition thenBlock elseBlock span, loop, pc, here, target, h => by
      rw [Stmt.size]
      rcases flows_cond h with h | h | h | h | h
      · omega
      · omega
      · have := Stmt.flows_within_all thenBlock h
        rcases this with ⟨hhere, htarget | hloop⟩
        · omega
        · exact ⟨by omega, .inr hloop⟩
      · omega
      · have := Stmt.flows_within_all elseBlock h
        rcases this with ⟨hhere, htarget | hloop⟩
        · omega
        · exact ⟨by omega, .inr hloop⟩
  | .whileLoop condition body span, loop, pc, here, target, h => by
      rw [Stmt.size]
      rcases flows_whileLoop h with h | h | h | h
      · omega
      · omega
      · have hbody := Stmt.flows_within_all body h
        rw [goesTo_some] at hbody
        omega
      · omega
  | .repeatLoop count body span, loop, pc, here, target, h => by
      rw [Stmt.size]
      rcases flows_repeatLoop h with h | h | h | h
      · omega
      · omega
      · have hbody := Stmt.flows_within_all body h
        rw [goesTo_some] at hbody
        omega
      · omega
  | .ret value span, loop, pc, here, target, h => by
      have := flows_ret h
      omega
  | .breakLoop span, loop, pc, here, target, h => by
      rw [Stmt.code, flows_singleton] at h
      obtain ⟨rfl, htarget⟩ := h
      exact ⟨by simp [Stmt.size], .inr (.inl htarget)⟩
  | .continueLoop span, loop, pc, here, target, h => by
      rw [Stmt.code, flows_singleton] at h
      obtain ⟨rfl, htarget⟩ := h
      exact ⟨by simp [Stmt.size], .inr (.inr htarget)⟩

/-- The same for statements in a row. -/
theorem Stmt.flows_within_all {r : Registry} : ∀ (ss : List Stmt) {loop : Option LoopTargets}
    {pc here target : Nat},
    Flows (Stmt.codes r loop pc ss) pc here target →
      (pc ≤ here ∧ here < pc + Stmt.sizes ss) ∧
      ((pc ≤ target ∧ target ≤ pc + Stmt.sizes ss) ∨ GoesTo loop target)
  | [], loop, pc, here, target, h => by
      obtain ⟨I, ⟨i, -, hi⟩, -⟩ := h
      cases hi
  | s :: rest, loop, pc, here, target, h => by
      rw [Stmt.codes, flows_append, Stmt.length_code] at h
      rw [Stmt.sizes]
      rcases h with h | h
      · rcases Stmt.flows_within s h with ⟨hhere, htarget | hloop⟩
        · omega
        · exact ⟨by omega, .inr hloop⟩
      · rcases Stmt.flows_within_all rest h with ⟨hhere, htarget | hloop⟩
        · omega
        · exact ⟨by omega, .inr hloop⟩

end

/-- The loop around a stretch of code lets control go to no place inside of it. -/
def GoesOutside (loop : Option LoopTargets) (pc stop : Nat) : Prop :=
  ∀ t, GoesTo loop t → t ≤ pc ∨ stop ≤ t

namespace GoesOutside

variable {loop : Option LoopTargets} {pc stop : Nat}

/-- A stretch within has the same loops around it. -/
theorem within {first last : Nat} (h : GoesOutside loop pc stop) (hfirst : pc ≤ first)
    (hlast : last ≤ stop) :
    GoesOutside loop first last := by
  intro t ht
  have := h t ht
  omega

/-- Outside of loops `break` and `continue` go to the beginning. -/
theorem ofNone : GoesOutside none pc stop := by
  rintro t (rfl | rfl) <;> exact .inl (Nat.zero_le _)

/-- The targets of one loop decide. -/
theorem ofTargets {exit next : Nat} (hexit : exit ≤ pc ∨ stop ≤ exit)
    (hnext : next ≤ pc ∨ stop ≤ next) :
    GoesOutside (some ⟨exit, next⟩) pc stop := by
  rintro t (rfl | rfl)
  · exact hexit
  · exact hnext

/-- Control leaves a statement to its end or to outside. -/
theorem lands {r : Registry} {s : Stmt} {first here target : Nat} (h : GoesOutside loop pc stop)
    (hflows : Flows (s.code r loop first) first here target) :
    (first ≤ target ∧ target ≤ first + s.size) ∨ target ≤ pc ∨ stop ≤ target :=
  (Stmt.flows_within s hflows).2.imp_right (h target)

/-- The same for statements in a row. -/
theorem lands_all {r : Registry} {ss : List Stmt} {first here target : Nat}
    (h : GoesOutside loop pc stop) (hflows : Flows (Stmt.codes r loop first ss) first here target) :
    (first ≤ target ∧ target ≤ first + Stmt.sizes ss) ∨ target ≤ pc ∨ stop ≤ target :=
  (Stmt.flows_within_all ss hflows).2.imp_right (h target)

end GoesOutside

/-! ## Ways into a part of a statement -/

section Ways

variable {r : Registry} {loop : Option LoopTargets} {span : Span} {pc here target : Nat}

/-- Inside the condition of an `if` control only goes on. -/
theorem flows_into_condition {condition : Expr} {thenBlock elseBlock : List Stmt}
    (h : Flows ((Stmt.cond condition thenBlock elseBlock span).code r loop pc) pc here target)
    (hloop : GoesOutside loop pc (pc + (Stmt.cond condition thenBlock elseBlock span).size))
    (hlow : pc < target) (hhigh : target < pc + condition.size) : target = here + 1 := by
  rw [Stmt.size] at hloop
  rcases flows_cond h with h | h | h | h | h
  · exact h.2.2
  · omega
  · have := hloop.lands_all h
    omega
  · omega
  · have := hloop.lands_all h
    omega

/-- The first block of an `if` and the jump behind it are entered only at their beginning. -/
theorem flows_into_thenBlock {condition : Expr} {thenBlock elseBlock : List Stmt}
    (h : Flows ((Stmt.cond condition thenBlock elseBlock span).code r loop pc) pc here target)
    (hloop : GoesOutside loop pc (pc + (Stmt.cond condition thenBlock elseBlock span).size))
    (hlow : pc + condition.size + 1 < target)
    (hhigh : target ≤ pc + condition.size + 1 + Stmt.sizes thenBlock) :
    Flows (Stmt.codes r loop (pc + condition.size + 1) thenBlock) (pc + condition.size + 1) here
      target := by
  rw [Stmt.size] at hloop
  rcases flows_cond h with h | h | h | h | h
  · omega
  · omega
  · exact h
  · omega
  · have := hloop.lands_all h
    omega

/-- The second block of an `if` is entered only at its beginning. -/
theorem flows_into_elseBlock {condition : Expr} {thenBlock elseBlock : List Stmt}
    (h : Flows ((Stmt.cond condition thenBlock elseBlock span).code r loop pc) pc here target)
    (hloop : GoesOutside loop pc (pc + (Stmt.cond condition thenBlock elseBlock span).size))
    (hlow : pc + condition.size + 1 + Stmt.sizes thenBlock + 1 < target)
    (hhigh : target < pc + condition.size + 1 + Stmt.sizes thenBlock + 1 + Stmt.sizes elseBlock) :
    Flows (Stmt.codes r loop (pc + condition.size + 1 + Stmt.sizes thenBlock + 1) elseBlock)
      (pc + condition.size + 1 + Stmt.sizes thenBlock + 1) here target := by
  rw [Stmt.size] at hloop
  rcases flows_cond h with h | h | h | h | h
  · omega
  · omega
  · have := hloop.lands_all h
    omega
  · omega
  · exact h

/-- Inside the condition of a `while` control only goes on. -/
theorem flows_into_whileTest {condition : Expr} {body : List Stmt}
    (h : Flows ((Stmt.whileLoop condition body span).code r loop pc) pc here target)
    (hlow : pc < target) (hhigh : target < pc + condition.size) : target = here + 1 := by
  rcases flows_whileLoop h with h | h | h | h
  · exact h.2.2
  · omega
  · have hbody := (Stmt.flows_within_all body h).2
    rw [goesTo_some] at hbody
    omega
  · omega

/-- The body of a `while` is entered only at its beginning. -/
theorem flows_into_whileBody {condition : Expr} {body : List Stmt}
    (h : Flows ((Stmt.whileLoop condition body span).code r loop pc) pc here target)
    (hlow : pc + condition.size + 1 < target)
    (hhigh : target < pc + condition.size + 1 + Stmt.sizes body + 1) :
    Flows (Stmt.codes r (some ⟨pc + condition.size + 1 + Stmt.sizes body + 1, pc⟩)
      (pc + condition.size + 1) body)
      (pc + condition.size + 1) here target := by
  rcases flows_whileLoop h with h | h | h | h
  · omega
  · omega
  · exact h
  · omega

/-- Inside the count of a repetition control only goes on. -/
theorem flows_into_count {count : Expr} {body : List Stmt}
    (h : Flows ((Stmt.repeatLoop count body span).code r loop pc) pc here target)
    (hhigh : target < pc + count.size) : target = here + 1 := by
  rcases flows_repeatLoop h with h | h | h | h
  · exact h.2.2
  · omega
  · have hbody := (Stmt.flows_within_all body h).2
    rw [goesTo_some] at hbody
    omega
  · omega

/-- The body of a repetition is entered only at its beginning. -/
theorem flows_into_repeatBody {count : Expr} {body : List Stmt}
    (h : Flows ((Stmt.repeatLoop count body span).code r loop pc) pc here target)
    (hlow : pc + count.size + 4 < target) (hhigh : target ≤ pc + count.size + 4 + Stmt.sizes body) :
    Flows (Stmt.codes r (some ⟨pc + count.size + 4 + Stmt.sizes body + 3,
      pc + count.size + 4 + Stmt.sizes body⟩)
      (pc + count.size + 4) body) (pc + count.size + 4) here target := by
  rcases flows_repeatLoop h with h | h | h | h
  · omega
  · omega
  · exact h
  · omega

/-- The first of several statements is left for good at its end. -/
theorem flows_into_head {s : Stmt} {rest : List Stmt}
    (h : Flows (Stmt.codes r loop pc (s :: rest)) pc here target)
    (hloop : GoesOutside loop pc (pc + s.size)) (hlow : pc < target)
    (hhigh : target < pc + s.size) :
    Flows (s.code r loop pc) pc here target := by
  rw [Stmt.codes, flows_append, Stmt.length_code] at h
  rcases h with h | h
  · exact h
  · have := hloop.lands_all h
    omega

/-- What stands behind a statement is entered only at its beginning. -/
theorem flows_into_tail {s : Stmt} {rest : List Stmt} {stop : Nat}
    (h : Flows (Stmt.codes r loop pc (s :: rest)) pc here target) (hloop : GoesOutside loop pc stop)
    (hlow : pc + s.size < target) (hhigh : target < stop) :
    Flows (Stmt.codes r loop (pc + s.size) rest) (pc + s.size) here target := by
  rw [Stmt.codes, flows_append, Stmt.length_code] at h
  rcases h with h | h
  · have := hloop.lands h
    omega
  · exact h

end Ways

/-- Nothing flows out at the end of statements that end with `return`. -/
theorem Stmt.flows_before_return {r : Registry} {ss : List Stmt} (hend : endsWithReturn ss = true)
    {loop : Option LoopTargets} {pc here target : Nat}
    (h : Flows (Stmt.codes r loop pc ss) pc here target) :
    target < pc + Stmt.sizes ss ∨ GoesTo loop target := by
  induction ss generalizing pc with
  | nil => cases hend
  | cons s rest ih =>
      rw [Stmt.codes, flows_append, Stmt.length_code] at h
      rw [endsWithReturn_cons, Bool.or_eq_true, Bool.and_eq_true] at hend
      rw [Stmt.sizes]
      rcases hend with hrest | ⟨hcomments, hs⟩
      · rcases h with h | h
        · have hpos : 0 < Stmt.sizes rest := by
            refine Nat.pos_of_ne_zero fun hzero => ?_
            rw [endsWithReturn_of_all_comments (Stmt.all_comments_of_sizes hzero)] at hrest
            cases hrest
          rcases (Stmt.flows_within s h).2 with htarget | htarget
          · exact .inl (by omega)
          · exact .inr htarget
        · rcases ih hrest h with htarget | htarget
          · exact .inl (by omega)
          · exact .inr htarget
      · rcases h with h | h
        · cases s with
          | ret value span =>
              have := flows_ret h
              exact .inl (by omega)
          | _ => cases hs
        · have hnone := Stmt.sizes_of_all_comments hcomments
          have := (Stmt.flows_within_all rest h).1
          omega

/-- Only the closing `return` is no instruction of the body. -/
theorem FunctionDecl.placed_body {r : Registry} {d : FunctionDecl} {here : Nat} {I : Instruction}
    (h : Placed (d.code r) 0 here I) (hI : I ≠ .ret) :
    Placed (Stmt.codes r none 0 d.body) 0 here I := by
  rw [code, placed_append] at h
  refine h.resolve_right ?_
  rintro ⟨i, -, hi⟩
  have hmem := List.mem_of_getElem? hi
  rw [closing] at hmem
  split at hmem
  · cases hmem
  · exact hI (List.mem_singleton.mp hmem)

/-- Nothing follows the closing `return`. -/
theorem FunctionDecl.flows_body {r : Registry} {d : FunctionDecl} {here target : Nat}
    (h : Flows (d.code r) 0 here target) : Flows (Stmt.codes r none 0 d.body) 0 here target := by
  obtain ⟨I, hplaced, hleads⟩ := h
  refine ⟨I, placed_body hplaced ?_, hleads⟩
  rintro rfl
  exact hleads

/-- **Control never leaves the code of a function.** -/
theorem FunctionDecl.flows_closed {r : Registry} {d : FunctionDecl} {here target : Nat}
    (h : Flows (d.code r) 0 here target) : target < d.size := by
  have hbody := flows_body h
  have hwithin := Stmt.flows_within_all d.body hbody
  rw [size]
  cases hend : endsWithReturn d.body with
  | true =>
      have hbefore := Stmt.flows_before_return hend hbody
      rw [goesTo_none] at hbefore
      simp only [if_true]
      omega
  | false =>
      rw [goesTo_none] at hwithin
      simp only [Bool.false_eq_true, if_false]
      omega

end Stepwise
