import Stepwise.Proofs.Evaluation.Expressions

/-!
# Statements keep pace

The code of a checked statement does what carrying the statement out does. Where the machine then is
depends on how the statement ended (`Site.Landed`): behind the code of the statement, at the exit or
the next round of the loop around it, or out of the activation.

While a loop repeats, fuel and instructions go down together: every round takes at least one
instruction, so a loop that runs out of fuel is one for which the machine still has something to do.
The count of a repetition lies on the stack of the machine, below everything that the body leaves
there for a while, and is an argument of the evaluation.
-/

set_option autoImplicit false

namespace Stepwise

open Machine

variable {σ : Type}

/-! ## Where a statement leaves the machine -/

/-- The slots of an activation, which hold the variables that the symbols name. -/
structure BodyTyping.Holds (C : BodyTyping) (symbols : List Symbol) (slots : List Value)
    (vars : Variables) : Prop where
  held : Held slots symbols vars
  length : slots.length = C.slotTys.length

/-- Scopes that name slots with values of the names' types, each slot once. -/
structure Scopes.Ready (scopes : Scopes) (C : BodyTyping) : Prop where
  fits : ∃ known, scopes.Fits C known
  orderly : scopes.Orderly

/-- Where the machine is behind a statement, according to how the statement ended: at `exit`, at one
of the targets of the loop, or back among the callers. The symbols are those visible before and
behind the statement; where a loop is left or continued there may be more of them than before. -/
inductive Site.Landed (A : Site σ) (C : BodyTyping) (loop : Option LoopTargets) (exit : Nat)
    (stack : List Value) (before after : List Symbol) : Left σ → Machine σ × List HostCall → Prop
  | next {slots : List Value} {vars : Variables} {out : Effects σ} :
      C.Holds after slots vars →
      Landed A C loop exit stack before after ⟨.next, vars, out⟩ (A.here exit slots stack out)
  | breakLoop {targets : LoopTargets} (new : List Symbol) {slots : List Value} {vars : Variables}
      {out : Effects σ} :
      loop = some targets → C.Holds (new ++ before) slots vars →
      Landed A C loop exit stack before after ⟨.breakLoop, vars, out⟩
        (A.here targets.exit slots stack out)
  | continueLoop {targets : LoopTargets} (new : List Symbol) {slots : List Value} {vars : Variables}
      {out : Effects σ} :
      loop = some targets → C.Holds (new ++ before) slots vars →
      Landed A C loop exit stack before after ⟨.continueLoop, vars, out⟩
        (A.here targets.next slots stack out)
  | returned {v : Value} {vars : Variables} {out : Effects σ} :
      Landed A C loop exit stack before after ⟨.returned v, vars, out⟩
        (A.back (C.result.pushValue v (A.below stack)) out)

theorem BodyTyping.Holds.leave {C : BodyTyping} {new symbols : List Symbol} {slots : List Value}
    {outer vars : Variables} (h : C.Holds (new ++ symbols) slots vars)
    (houter : outer.length = symbols.length) :
    C.Holds symbols slots (outer.leave vars) :=
  ⟨h.held.leave houter, h.length⟩

/-- A declared variable is held in its slot. -/
theorem BodyTyping.Holds.declare {C : BodyTyping} {symbols : List Symbol} {slots : List Value}
    {vars : Variables} (h : C.Holds symbols slots vars) {symbol : Symbol}
    (hfree : ∀ other ∈ symbols, other.slot ≠ symbol.slot)
    (hslot : C.slotTys[symbol.slot]? = some symbol.ty) {x : TypedValue} (hty : x.ty = symbol.ty) :
    C.Holds (symbol :: symbols) (slots.set symbol.slot x.value) (⟨symbol.name, x⟩ :: vars) := by
  refine ⟨.cons ⟨rfl, hty.symm, ?_⟩ (h.held.fill hfree x.value), List.length_set.trans h.length⟩
  rw [List.getElem?_set_self]
  rw [h.length]
  exact (List.getElem?_eq_some_iff.mp hslot).1

namespace Site.Landed

variable {A : Site σ} {C : BodyTyping} {loop : Option LoopTargets} {exit : Nat} {stack : List Value}
  {before after new : List Symbol} {l : Left σ} {y : Machine σ × List HostCall}

/-- Behind a block its variables are gone. -/
theorem outOf (h : A.Landed C loop exit stack before (new ++ before) l y) {outer : Variables}
    (houter : outer.length = before.length) :
    A.Landed C loop exit stack before before (l.outOf outer) y := by
  cases h with
  | next hholds => exact .next (hholds.leave houter)
  | breakLoop new hloop hholds =>
      refine .breakLoop [] hloop ?_
      exact hholds.leave houter
  | continueLoop new hloop hholds =>
      refine .continueLoop [] hloop ?_
      exact hholds.leave houter
  | returned => exact .returned

/-- What is left behind a later statement is left behind both. -/
theorem behind (h : A.Landed C loop exit stack (new ++ before) after l y) :
    A.Landed C loop exit stack before after l y := by
  cases h with
  | next hholds => exact .next hholds
  | breakLoop new hloop hholds =>
      rw [← List.append_assoc] at hholds
      exact .breakLoop _ hloop hholds
  | continueLoop new hloop hholds =>
      rw [← List.append_assoc] at hholds
      exact .continueLoop _ hloop hholds
  | returned => exact .returned

/-- Behind the statement the machine may have to jump. -/
theorem jump (h : A.Landed C loop exit stack before after l y) {code : FunctionCode}
    (hruns : A.Runs code) {target : Nat}
    (hjump : code.instructions.toList[exit]? = some (.jump target)) :
    ∃ z, Goes y z ∧ A.Landed C loop target stack before after l z := by
  cases h with
  | next hholds => exact ⟨_, .of_traced (Site.jump hruns hjump), .next hholds⟩
  | breakLoop new hloop hholds => exact ⟨_, .refl _, .breakLoop new hloop hholds⟩
  | continueLoop new hloop hholds => exact ⟨_, .refl _, .continueLoop new hloop hholds⟩
  | returned => exact ⟨_, .refl _, .returned⟩

/-- What ends in no loop ends in the same way in any. -/
theorem inLoop (h : A.Landed C none exit stack before after l y) (loop : Option LoopTargets) :
    A.Landed C loop exit stack before after l y := by
  cases h with
  | next hholds => exact .next hholds
  | breakLoop new hloop => cases hloop
  | continueLoop new hloop => cases hloop
  | returned => exact .returned

/-- Behind a repetition its count is dropped. -/
theorem drop {count : Value} (h : A.Landed C none exit (count :: stack) before after l y)
    {code : FunctionCode} (hruns : A.Runs code) (hpop : code.instructions.toList[exit]? = some .pop)
    (hbase : A.base ≤ stack.length) (loop : Option LoopTargets) :
    ∃ z, Goes y z ∧ A.Landed C loop (exit + 1) stack before after l z := by
  cases h with
  | next hholds => exact ⟨_, .of_traced (Site.pop hruns hpop count), .next hholds⟩
  | breakLoop new hloop => cases hloop
  | continueLoop new hloop => cases hloop
  | returned =>
      rw [A.below_cons hbase]
      exact ⟨_, .refl _, .returned⟩

end Site.Landed

theorem Site.lasts_here (A : Site σ) (pc : Nat) (slots stack : List Value) (out : Effects σ) :
    Lasts 0 (A.here pc slots stack out) :=
  List.cons_ne_nil _ _

/-! ## Loops -/

section Loops

variable {C : BodyTyping} {A : Site σ} {code : FunctionCode} {n : Nat} {symbols new : List Symbol}

/-- A round of a loop and what follows it, given what follows each way in which the round may
end. -/
theorem pace_goThrough {body goOn : Carrying σ} {targets : LoopTargets} {bodyEnd : Nat}
    {stack : List Value} {vars : Variables} {out : Effects σ} {x : Machine σ × List HostCall}
    {post : Left σ → Machine σ × List HostCall → Prop}
    (hbody : Pace n x (body vars out) (A.Landed C (some targets) bodyEnd stack symbols
      (new ++ symbols)))
    (hvars : vars.length = symbols.length)
    (hnext : ∀ {slots : List Value} {vars : Variables} {out : Effects σ},
      C.Holds symbols slots vars →
      Pace n (A.here bodyEnd slots stack out) (goOn vars out) post)
    (hcontinue : ∀ {slots : List Value} {vars : Variables} {out : Effects σ},
      C.Holds symbols slots vars →
      Pace n (A.here targets.next slots stack out) (goOn vars out) post)
    (hbreak : ∀ {slots : List Value} {vars : Variables} {out : Effects σ},
      C.Holds symbols slots vars →
      post ⟨.next, vars, out⟩ (A.here targets.exit slots stack out))
    (hreturn : ∀ {v : Value} {vars : Variables} {out : Effects σ},
      post ⟨.returned v, vars, out⟩ (A.back (C.result.pushValue v (A.below stack)) out)) :
    Pace n x (goThrough body goOn vars out) post := by
  refine .bind hbody ?_
  intro l y hlanded
  cases hlanded with
  | next hholds => exact hnext (hholds.leave hvars)
  | breakLoop new hloop hholds =>
      cases hloop
      exact .pure (hbreak (hholds.leave hvars))
  | continueLoop new hloop hholds =>
      cases hloop
      exact hcontinue (hholds.leave hvars)
  | returned => exact .pure hreturn

/-- The code of a loop with a condition keeps pace with repeating the body. -/
theorem pace_whileTrue (new : List Symbol)
    {test : Variables → Effects σ → Option (TypedValue × Effects σ)} {body : Carrying σ}
    {pc branch bodyEnd exit : Nat} {stack : List Value} (hruns : A.Runs code)
    (htest : ∀ {slots : List Value} {vars : Variables} {out : Effects σ},
      C.Holds symbols slots vars →
      Pace n (A.here pc slots stack out) (test vars out) fun r y =>
        y = A.here branch slots (r.1.value :: stack) r.2)
    (hbranch : code.instructions.toList[branch]? = some (.jumpIfFalse exit))
    (hbody : ∀ {slots : List Value} {vars : Variables} {out : Effects σ},
      C.Holds symbols slots vars →
      Pace n (A.here (branch + 1) slots stack out) (body vars out)
        (A.Landed C (some ⟨exit, pc⟩) bodyEnd stack symbols (new ++ symbols)))
    (hback : code.instructions.toList[bodyEnd]? = some (.jump pc)) :
    ∀ k ≤ n, ∀ {slots : List Value} {vars : Variables} {out : Effects σ},
      C.Holds symbols slots vars →
      Pace k (A.here pc slots stack out) (whileTrue test body k vars out)
        (A.Landed C none exit stack symbols symbols) := by
  intro k
  induction k with
  | zero =>
      intro _ slots vars out _
      exact A.lasts_here pc slots stack out
  | succ k ih =>
      intro hle slots vars out hholds
      have hfewer : k ≤ n := Nat.le_of_succ_le hle
      rw [whileTrue]
      refine .bind ((htest hholds).mono hle) ?_
      rintro ⟨x, out⟩ y rfl
      refine .step (Site.jumpIfFalse hruns hbranch x.value) ?_
      cases hx : x.value.asBool with
      | false =>
          simp only [hx, Bool.false_eq_true, if_false]
          exact .pure (.next hholds)
      | true =>
          simp only [hx, if_true]
          refine pace_goThrough ((hbody hholds).mono hfewer) hholds.held.length_eq.symm ?_ ?_ ?_ ?_
          · intro slots vars out hholds
            exact .goes (.of_traced (Site.jump hruns hback)) (ih hfewer hholds)
          · intro slots vars out hholds
            exact ih hfewer hholds
          · intro slots vars out hholds
            exact .next hholds
          · intro v vars out
            exact .returned

/-- The code of a repetition keeps pace with repeating the body, from where the count is on the
stack. -/
theorem pace_repeatTimes (new : List Symbol) {body : Carrying σ} {header bodyEnd exit : Nat}
    {stack : List Value} (hruns : A.Runs code)
    (htest : CodeAt code.instructions.toList header (repeatTest exit))
    (hbody : ∀ {slots : List Value} {vars : Variables} {out : Effects σ} (count : Value),
      C.Holds symbols slots vars →
      Pace n (A.here (header + 4) slots (count :: stack) out) (body vars out)
        (A.Landed C (some ⟨exit, bodyEnd⟩) bodyEnd (count :: stack) symbols (new ++ symbols)))
    (hback : CodeAt code.instructions.toList bodyEnd (repeatBack header)) :
    ∀ k ≤ n, ∀ {slots : List Value} {vars : Variables} {out : Effects σ} (count : Value),
      C.Holds symbols slots vars →
      Pace k (A.here header slots (count :: stack) out) (repeatTimes body k count.asNumber vars out)
        fun l y =>
        ∃ rest, A.Landed C none exit (rest :: stack) symbols symbols l y := by
  intro k
  induction k with
  | zero =>
      intro _ slots vars out count _
      exact A.lasts_here header slots (count :: stack) out
  | succ k ih =>
      intro hle slots vars out count hholds
      have hfewer : k ≤ n := Nat.le_of_succ_le hle
      -- The test puts a copy of the count on the stack and compares it.
      have hcompared : Goes (A.here header slots (count :: stack) out)
          (A.here (header + 3) slots (BinaryOp.greater.apply count (.number 0) :: count :: stack)
            out) :=
        (Goes.of_traced (Site.dup hruns htest.head count)).trans
          ((Goes.of_traced (Site.push hruns htest.tail.head)).trans
            (.of_traced (Site.binary hruns .greater htest.tail.tail.head count (.number 0))))
      have htrue : (BinaryOp.greater.apply count (.number 0)).asBool =
        decide (0 < count.asNumber) := rfl
      -- Behind the body the count goes down by one.
      have hagain {slots : List Value} {vars : Variables} {out : Effects σ}
          (hholds : C.Holds symbols slots vars) :
          Pace k (A.here bodyEnd slots (count :: stack) out)
            (repeatTimes body k (count.asNumber - 1) vars out)
            fun l y => ∃ rest, A.Landed C none exit (rest :: stack) symbols symbols l y := by
        refine .goes (.of_traced (Site.push hruns hback.head)) ?_
        refine .goes (.of_traced (Site.binary hruns .subtract hback.tail.head count (.number 1))) ?_
        refine .goes (.of_traced (Site.jump hruns hback.tail.tail.head)) ?_
        exact ih hfewer (.number (count.asNumber - 1)) hholds
      rw [repeatTimes]
      refine .goes hcompared (.step (Site.jumpIfFalse hruns htest.tail.tail.tail.head _) ?_)
      rw [htrue]
      by_cases hpositive : 0 < count.asNumber
      · simp only [hpositive, decide_true, if_true]
        refine pace_goThrough ((hbody count hholds).mono hfewer) hholds.held.length_eq.symm hagain
          hagain ?_ ?_
        · intro slots vars out hholds
          exact ⟨count, .next hholds⟩
        · intro v vars out
          exact ⟨count, .returned⟩
      · simp only [hpositive, decide_false, Bool.false_eq_true, if_false]
        exact .pure ⟨count, .next hholds⟩

end Loops

/-! ## Statements -/

namespace Scopes.Ready

variable {scopes after : Scopes} {C : BodyTyping}

theorem push (h : scopes.Ready C) : scopes.push.Ready C := by
  obtain ⟨⟨known, fits⟩, orderly⟩ := h
  exact ⟨⟨known, fits.push⟩, orderly.push⟩

/-- Behind a checked statement scopes are as they should be. -/
theorem behind (h : scopes.Ready C) (sound : C.registry.Sound C.arrows) {ctx : BodyContext}
    (hctx : ctx.registry = C.registry) (hresult : ctx.resultTy = C.result) {inLoop : Bool}
    {stmt checked : Stmt} (htargets : stmt.TargetsAssignable)
    (hcheck : checkStmt ctx inLoop scopes stmt = .ok (checked, after))
    (hslots : Assigns C.slotTys scopes.nextSlot checked.declared) :
    after.Ready C ∧ after.nextSlot = scopes.nextSlot + checked.declared.length := by
  obtain ⟨⟨known, fits⟩, orderly⟩ := h
  obtain ⟨-, hfollows⟩ := checkStmt_typed sound hctx hresult stmt htargets fits hcheck hslots
  exact ⟨⟨⟨_, hfollows.fits⟩, (checkStmt_widens stmt hcheck).orderly orderly⟩, hfollows.nextSlot⟩

/-- Behind a checked block scopes are as they should be. -/
theorem behindBlock (h : scopes.Ready C) (sound : C.registry.Sound C.arrows) {ctx : BodyContext}
    (hctx : ctx.registry = C.registry) (hresult : ctx.resultTy = C.result) {inLoop : Bool}
    {block checked : List Stmt} (htargets : Stmt.AllTargetsAssignable block)
    (hcheck : checkStmts ctx inLoop scopes.push block = .ok (checked, after))
    (hslots : Assigns C.slotTys scopes.nextSlot (Stmt.declaredIn checked)) :
    after.pop.Ready C ∧
    after.pop.nextSlot = scopes.nextSlot + (Stmt.declaredIn checked).length := by
  obtain ⟨⟨known, fits⟩, orderly⟩ := h
  obtain ⟨-, hfollows⟩ := checkStmts_typed sound hctx hresult block htargets fits.push hcheck hslots
  have hpop := hfollows.pop fits
  exact ⟨⟨⟨_, hpop.fits⟩, (checkStmts_widens block hcheck).pop.orderly orderly⟩, hpop.nextSlot⟩

end Scopes.Ready

/-- A site runs the code of a body, and calls are answered there as the machine carries them out. -/
structure Site.Executes (A : Site σ) (code : FunctionCode) (C : BodyTyping) (s : Setting σ)
    (answer : Answering σ) (n : Nat) : Prop where
  runs : A.Runs code
  returnType : code.returnType = C.result
  registry : s.registry = C.registry
  sound : C.registry.Sound C.arrows
  paced : answer.Paced C.arrows A.machine.module n

section Pacing

variable {A : Site σ} {code : FunctionCode} {C : BodyTyping} {s : Setting σ} {answer : Answering σ}
    {n : Nat}
  {slots : List Value} {vars : Variables} {scopes : Scopes}

/-- The code of an expression that yields a value pushes it. -/
theorem Expr.paceValue (executes : A.Executes code C s answer n) (ready : scopes.Ready C)
    (holds : C.Holds scopes.visible slots vars) {e checked : Expr} {t : Ty} {pc : Nat}
    {stack : List Value} {out : Effects σ}
    (hcheck : checkExpr C.registry scopes e = .ok (checked, t)) (hne : t ≠ .nothing)
    (hcode : CodeAt code.instructions.toList pc (checked.code C.registry)) :
    Pace n (A.here pc slots stack out) (e.evaluate s answer vars out) fun r y =>
      r.1.ty = t ∧ y = A.here (pc + checked.size) slots (r.1.value :: stack) r.2 := by
  obtain ⟨known, fits⟩ := ready.fits
  have hpace : Pace n (A.here pc slots stack out) _ _ := Expr.pace executes.paced executes.sound
    executes.registry rfl executes.runs fits holds.held e hcheck hcode
  simpa only [Ty.pushValue_of_ne hne] using hpace

/-- The code of a target keeps pace with assigning to it. -/
theorem Expr.paceAssign (executes : A.Executes code C s answer n) (ready : scopes.Ready C)
    (holds : C.Holds scopes.visible slots vars) {target checked : Expr} {t : Ty} {pc : Nat}
    {stack : List Value} {out : Effects σ} (htarget : target.isAssignable = true)
    (hcheck : checkExpr C.registry scopes target = .ok (checked, t))
    (hcode : CodeAt code.instructions.toList pc (checked.targetCode C.registry)) (v : Value) :
    Pace n (A.here pc slots (v :: stack) out) (target.assign s answer vars v out) fun r y =>
      ∃ slots', C.Holds scopes.visible slots' r.1 ∧
      y = A.here (pc + checked.targetSize) slots' stack r.2 := by
  obtain ⟨known, fits⟩ := ready.fits
  cases target with
  | reference i name slot =>
      obtain ⟨symbol, hfound, rfl, rfl⟩ := checkExpr_reference_eq_ok.mp hcheck
      refine .goes (.of_traced (Site.store executes.runs hcode.head v)) (.pure ?_)
      refine ⟨_, ⟨holds.held.write ready.orderly.distinct hfound v, ?_⟩, rfl⟩
      rw [List.length_set, holds.length]
  | field i record name =>
      obtain ⟨inner, recordName, f, hinner, hfound, rfl, rfl⟩ := checkExpr_field_eq_ok.mp hcheck
      obtain ⟨index, hfield⟩ := Registry.fieldAt?_of_field? hfound
      obtain ⟨hfirst, hstore⟩ := hcode.expr
      rw [(checkExpr_typed executes.sound fits record hinner).ty_eq,
        Registry.fieldPlace?_of_fieldAt? hfield, Option.getD_some] at hstore
      have hne : Ty.record recordName ≠ .nothing := by simp
      rw [Expr.assign]
      refine .bind (Expr.paceValue executes ready holds hinner hne hfirst) ?_
      rintro ⟨x, out⟩ y ⟨hty, rfl⟩
      dsimp only at hty ⊢
      rw [executes.registry, hty, hfield, Option.bind_eq_bind, Option.bind_some]
      exact .goes (.of_traced (Site.storeField executes.runs hstore.head x.value v))
        (.pure ⟨slots, holds, rfl⟩)
  | _ => cases htarget

theorem Ty.pushValue_dropped {e : Expr} {t : Ty} (h : e.ty? = some t) (v : Value)
    (stack : List Value) :
    (e.dropCode = [] ∧ e.dropSize = 0 ∧ t.pushValue v stack = stack) ∨
      (e.dropCode = [.pop] ∧ e.dropSize = 1 ∧ t.pushValue v stack = v :: stack) := by
  by_cases ht : t = .nothing
  · subst ht
    exact .inl ⟨if_pos h, if_pos h, if_pos rfl⟩
  · have hne : ¬ e.ty? = some .nothing := by
      rw [h, Option.some.injEq]
      exact ht
    exact .inr ⟨if_neg hne, if_neg hne, if_neg ht⟩

/-- The code that checking leaves for this statement keeps pace with carrying it out, wherever it
stands. -/
def Stmt.KeepsPace (A : Site σ) (code : FunctionCode) (C : BodyTyping) (s : Setting σ)
    (answer : Answering σ) (n : Nat) (ctx : BodyContext) (stmt : Stmt) : Prop :=
  ∀ {inLoop : Bool} {loop : Option LoopTargets} {scopes after : Scopes} {checked : Stmt} {pc : Nat}
    {slots stack : List Value} {vars : Variables} {out : Effects σ},
    stmt.TargetsAssignable → (inLoop = true → ∃ targets, loop = some targets) → scopes.Ready C →
    C.Holds scopes.visible slots vars → A.base ≤ stack.length →
    checkStmt ctx inLoop scopes stmt = .ok (checked, after) →
    Assigns C.slotTys scopes.nextSlot checked.declared →
    CodeAt code.instructions.toList pc (checked.code C.registry loop pc) →
    Pace n (A.here pc slots stack out) (stmt.carryOut s answer n vars out)
      (A.Landed C loop (pc + checked.size) stack scopes.visible after.visible)

/-- The same for statements in a row. -/
def Stmt.AllKeepPace (A : Site σ) (code : FunctionCode) (C : BodyTyping) (s : Setting σ)
    (answer : Answering σ) (n : Nat) (ctx : BodyContext) (stmts : List Stmt) : Prop :=
  ∀ {inLoop : Bool} {loop : Option LoopTargets} {scopes after : Scopes} {checked : List Stmt}
    {pc : Nat}
    {slots stack : List Value} {vars : Variables} {out : Effects σ},
    Stmt.AllTargetsAssignable stmts → (inLoop = true → ∃ targets, loop = some targets) →
    scopes.Ready C →
    C.Holds scopes.visible slots vars → A.base ≤ stack.length →
    checkStmts ctx inLoop scopes stmts = .ok (checked, after) →
    Assigns C.slotTys scopes.nextSlot (Stmt.declaredIn checked) →
    CodeAt code.instructions.toList pc (Stmt.codes C.registry loop pc checked) →
    Pace n (A.here pc slots stack out) (Stmt.carryOutAll s answer n stmts vars out)
      (A.Landed C loop (pc + Stmt.sizes checked) stack scopes.visible after.visible)

section Forms

variable (executes : A.Executes code C s answer n) {ctx : BodyContext}
    (hctx : ctx.registry = C.registry)

include executes hctx

theorem Stmt.pace_expr (e : Expr) : Stmt.KeepsPace A code C s answer n ctx (.expr e) := by
  intro inLoop loop scopes after checked pc slots stack vars out htargets hloop ready holds hbase
    hcheck hslots hcode
  obtain ⟨inner, t, hinner, rfl, rfl⟩ := checkStmt_expr_eq_ok.mp hcheck
  rw [hctx] at hinner
  obtain ⟨known, fits⟩ := ready.fits
  obtain ⟨hfirst, hdrop⟩ := hcode.expr
  have hty := (checkExpr_typed executes.sound fits e hinner).ty?_eq
  rw [Stmt.carryOut]
  refine .bind (Expr.pace executes.paced executes.sound executes.registry rfl executes.runs fits
    holds.held e hinner hfirst) ?_
  rintro ⟨x, out⟩ y ⟨-, rfl⟩
  rw [Stmt.size]
  rcases Ty.pushValue_dropped hty x.value stack with ⟨-, hsize, hpushed⟩ | ⟨hpop, hsize, hpushed⟩
  · rw [hsize, hpushed]
    exact .pure (.next holds)
  · rw [hpop] at hdrop
    rw [hsize, hpushed]
    exact .goes (.of_traced (Site.pop executes.runs hdrop.head x.value)) (.pure (.next holds))

theorem Stmt.pace_var (decl : VarDecl) : Stmt.KeepsPace A code C s answer n ctx (.var decl) := by
  intro inLoop loop scopes after checked pc slots stack vars out htargets hloop ready holds hbase
    hcheck hslots hcode
  obtain ⟨inner, hinner, rfl⟩ := checkStmt_var_eq_ok.mp hcheck
  obtain ⟨value, t, hvalue, hdeclare, hne, -, rfl⟩ := checkVariable_eq_ok.mp hinner
  obtain ⟨-, rfl⟩ := declareVariable_eq hdeclare
  rw [hctx] at hvalue
  obtain ⟨hfirst, hstore⟩ := hcode.expr
  rw [Stmt.carryOut]
  refine .bind (Expr.paceValue executes ready holds hvalue hne hfirst) ?_
  rintro ⟨x, out⟩ y ⟨hty, rfl⟩
  refine .goes (.of_traced (Site.store executes.runs hstore.head x.value)) (.pure (.next ?_))
  exact holds.declare (fun symbol hsymbol => Nat.ne_of_lt (ready.orderly.below symbol hsymbol))
    (hslots 0 t rfl) hty

theorem Stmt.pace_assign (target value : Expr) (span : Span) :
    Stmt.KeepsPace A code C s answer n ctx (.assign target value span) := by
  intro inLoop loop scopes after checked pc slots stack vars out htargets hloop ready holds hbase
    hcheck hslots hcode
  obtain ⟨first, second, t, hfirst, hsecond, rfl, rfl⟩ := checkStmt_assign_eq_ok.mp hcheck
  rw [hctx] at hfirst hsecond
  obtain ⟨known, fits⟩ := ready.fits
  have hne := ((checkExpr_typed executes.sound fits target hsecond).storable_of_isAssignable
    (isAssignable_of_checkExpr hsecond htargets)).1
  obtain ⟨hcodeValue, hcodeTarget⟩ := hcode.expr
  rw [Stmt.carryOut]
  refine .bind (Expr.paceValue executes ready holds hfirst hne hcodeValue) ?_
  rintro ⟨x, out⟩ y ⟨-, rfl⟩
  refine .bind (Expr.paceAssign executes ready holds htargets hsecond hcodeTarget x.value) ?_
  rintro ⟨vars, out⟩ y ⟨slots', holds', rfl⟩
  rw [Stmt.size, ← Nat.add_assoc]
  exact .pure (.next holds')

/-- Where the condition of an `if` leads, the block of the evaluation is carried out. -/
theorem Stmt.pace_cond (hresult : ctx.resultTy = C.result) (condition : Expr)
    {thenBlock elseBlock : List Stmt}
    (hpaceThen : Stmt.AllKeepPace A code C s answer n ctx thenBlock)
    (hpaceElse : Stmt.AllKeepPace A code C s answer n ctx elseBlock) (span : Span) :
    Stmt.KeepsPace A code C s answer n ctx (.cond condition thenBlock elseBlock span) := by
  intro inLoop loop scopes after checked pc slots stack vars out htargets hloop ready holds hbase
    hcheck hslots hcode
  obtain ⟨test, first, afterThen, second, afterElse, htest, hfirst, hsecond, rfl, rfl⟩ :=
    checkStmt_cond_eq_ok.mp hcheck
  rw [hctx] at htest
  obtain ⟨hslotsThen, hslotsElse⟩ := hslots.of_append _
  obtain ⟨hready, hnextSlot⟩ :=
    ready.behindBlock executes.sound hctx hresult htargets.1 hfirst hslotsThen
  have hwidensThen := checkStmts_widens thenBlock hfirst
  have hwidensElse := checkStmts_widens elseBlock hsecond
  obtain ⟨newThen, hnewThen⟩ := hwidensThen.visible
  obtain ⟨newElse, hnewElse⟩ := hwidensElse.visible
  obtain ⟨hcodeTest, hcodeBranch, hcodeThen, hcodeSkip, hcodeElse⟩ := hcode.cond
  rw [Stmt.carryOut, Stmt.size]
  simp only [← Nat.add_assoc]
  refine .bind (Expr.paceValue executes ready holds htest (by decide) hcodeTest) ?_
  rintro ⟨x, out⟩ y ⟨-, rfl⟩
  refine .goes (.of_traced (Site.jumpIfFalse executes.runs hcodeBranch x.value)) ?_
  rw [hwidensElse.visible_pop, hwidensThen.visible_pop]
  cases hx : x.value.asBool with
  | true =>
      have hthen :
          Pace n (A.here _ slots stack out) (Stmt.carryOutAll s answer n thenBlock vars out) _ :=
        hpaceThen htargets.1 hloop ready.push (scopes.visible_push ▸ holds) hbase
          hfirst hslotsThen hcodeThen
      rw [hnewThen, Scopes.visible_push] at hthen
      simp only [if_true]
      refine .bind hthen ?_
      intro l y hlanded
      obtain ⟨z, hgoes, hlanded⟩ :=
        (hlanded.outOf holds.held.length_eq.symm).jump executes.runs hcodeSkip
      exact .goes hgoes (.pure hlanded)
  | false =>
      have helse :
          Pace n (A.here _ slots stack out) (Stmt.carryOutAll s answer n elseBlock vars out) _ :=
        hpaceElse htargets.2 hloop hready.push
          (by rwa [Scopes.visible_push, hwidensThen.visible_pop]) hbase hsecond
            (hnextSlot ▸ hslotsElse) hcodeElse
      rw [hnewElse, Scopes.visible_push, hwidensThen.visible_pop] at helse
      simp only [Bool.false_eq_true, if_false]
      refine .bind helse ?_
      intro l y hlanded
      exact .pure (hlanded.outOf holds.held.length_eq.symm)

/-- The rounds of a `while` are those of the evaluation. -/
theorem Stmt.pace_whileLoop (condition : Expr) {body : List Stmt}
    (hpaceBody : Stmt.AllKeepPace A code C s answer n ctx body) (span : Span) :
    Stmt.KeepsPace A code C s answer n ctx (.whileLoop condition body span) := by
  intro inLoop loop scopes after checked pc slots stack vars out htargets hloop ready holds hbase
    hcheck hslots hcode
  obtain ⟨test, inner, afterBody, htest, hinner, rfl, rfl⟩ := checkStmt_whileLoop_eq_ok.mp hcheck
  rw [hctx] at htest
  have hwidens := checkStmts_widens body hinner
  obtain ⟨new, hnew⟩ := hwidens.visible
  rw [Scopes.visible_push] at hnew
  obtain ⟨hcodeTest, hcodeBranch, hcodeBody, hcodeBack⟩ := hcode.whileLoop
  rw [Stmt.carryOut, Stmt.size, hwidens.visible_pop]
  simp only [← Nat.add_assoc]
  refine (pace_whileTrue new executes.runs ?_ hcodeBranch ?_ hcodeBack n (Nat.le_refl n) holds).imp
    (fun hlanded => hlanded.inLoop loop)
  · intro slots vars out holds
    refine (Expr.paceValue executes ready holds htest (by decide) hcodeTest).imp ?_
    rintro r y ⟨-, rfl⟩
    rfl
  · intro slots vars out holds
    have hbody : Pace n (A.here _ slots stack out) (Stmt.carryOutAll s answer n body vars out) _ :=
      hpaceBody htargets (fun _ => ⟨_, rfl⟩) ready.push
        (scopes.visible_push ▸ holds) hbase hinner hslots hcodeBody
    rwa [hnew, Scopes.visible_push] at hbody

/-- The rounds of a repetition are those of the evaluation, whose count is on the stack below
them. -/
theorem Stmt.pace_repeatLoop (count : Expr) {body : List Stmt}
    (hpaceBody : Stmt.AllKeepPace A code C s answer n ctx body) (span : Span) :
    Stmt.KeepsPace A code C s answer n ctx (.repeatLoop count body span) := by
  intro inLoop loop scopes after checked pc slots stack vars out htargets hloop ready holds hbase
    hcheck hslots hcode
  obtain ⟨times, inner, afterBody, htimes, hinner, rfl, rfl⟩ := checkStmt_repeatLoop_eq_ok.mp hcheck
  rw [hctx] at htimes
  have hwidens := checkStmts_widens body hinner
  obtain ⟨new, hnew⟩ := hwidens.visible
  rw [Scopes.visible_push] at hnew
  obtain ⟨hcodeTimes, hcodeTest, hcodeBody, hcodeBack⟩ := hcode.repeatLoop
  rw [Stmt.carryOut, Stmt.size, hwidens.visible_pop]
  simp only [← Nat.add_assoc]
  refine .bind (Expr.paceValue executes ready holds htimes (by decide) hcodeTimes) ?_
  rintro ⟨x, out⟩ y ⟨-, rfl⟩
  refine (pace_repeatTimes new executes.runs hcodeTest ?_ hcodeBack n (Nat.le_refl n) x.value
    holds).andGo ?_
  · intro slots vars out count holds
    have hbody :
        Pace n (A.here _ slots (count :: stack) out)
          (Stmt.carryOutAll s answer n body vars out) _ :=
      hpaceBody htargets (fun _ => ⟨_, rfl⟩) ready.push
        (scopes.visible_push ▸ holds) (Nat.le_succ_of_le hbase) hinner hslots hcodeBody
    rwa [hnew, Scopes.visible_push] at hbody
  · rintro l y ⟨rest, hlanded⟩
    exact hlanded.drop executes.runs hcodeBack.tail.tail.tail.head hbase loop

theorem Stmt.pace_ret (hresult : ctx.resultTy = C.result) (value : Option Expr) (span : Span) :
    Stmt.KeepsPace A code C s answer n ctx (.ret value span) := by
  intro inLoop loop scopes after checked pc slots stack vars out htargets hloop ready holds hbase
    hcheck hslots hcode
  obtain ⟨hchecked, rfl⟩ := checkStmt_ret_eq_ok.mp hcheck
  rcases checkReturn_eq_ok.mp hchecked with ⟨e, first, rfl, -, hfirst, hne, rfl⟩ |
    ⟨rfl, hnothing, rfl⟩
  · rw [hctx] at hfirst
    obtain ⟨hvalue, hret⟩ := hcode.expr
    rw [Stmt.carryOut]
    refine .bind (Expr.paceValue executes ready holds hfirst hne hvalue) ?_
    rintro ⟨x, out⟩ y ⟨-, rfl⟩
    refine .goes (.of_traced (Site.ret_value executes.runs hret.head x.value hbase)) (.pure ?_)
    rw [executes.returnType]
    exact .returned
  · refine .goes (.of_traced (Site.ret executes.runs hcode.head)) (.pure ?_)
    have hreturned :
      A.Landed C loop (pc + 1) stack after.visible after.visible ⟨.returned .nothing, vars, out⟩
      (A.back (C.result.pushValue .nothing (A.below stack)) out) := .returned
    rw [← hresult, hnothing] at hreturned
    rw [executes.returnType, ← hresult, hnothing]
    exact hreturned

end Forms

mutual

/-- **The code of a statement keeps pace with carrying it out.** -/
theorem Stmt.pace (executes : A.Executes code C s answer n) {ctx : BodyContext}
    (hctx : ctx.registry = C.registry) (hresult : ctx.resultTy = C.result) :
    ∀ stmt : Stmt, Stmt.KeepsPace A code C s answer n ctx stmt
  | .comment text span => by
      intro htargets hloop ready holds hbase hcheck hslots hcode
      cases hcheck
      exact .pure (.next holds)
  | .expr e => Stmt.pace_expr executes hctx e
  | .var decl => Stmt.pace_var executes hctx decl
  | .assign target value span => Stmt.pace_assign executes hctx target value span
  | .cond condition thenBlock elseBlock span =>
      Stmt.pace_cond executes hctx hresult condition (Stmt.paceAll executes hctx hresult thenBlock)
        (Stmt.paceAll executes hctx hresult elseBlock) span
  | .whileLoop condition body span =>
      Stmt.pace_whileLoop executes hctx condition (Stmt.paceAll executes hctx hresult body) span
  | .repeatLoop count body span =>
      Stmt.pace_repeatLoop executes hctx count (Stmt.paceAll executes hctx hresult body) span
  | .ret value span => Stmt.pace_ret executes hctx hresult value span
  | .breakLoop span => by
      intro htargets hloop ready holds hbase hcheck hslots hcode
      obtain ⟨hin, rfl, rfl⟩ := checkStmt_breakLoop_eq_ok.mp hcheck
      obtain ⟨targets, rfl⟩ := hloop hin
      refine .goes (.of_traced (Site.jump executes.runs hcode.head)) (.pure ?_)
      exact .breakLoop [] rfl holds
  | .continueLoop span => by
      intro htargets hloop ready holds hbase hcheck hslots hcode
      obtain ⟨hin, rfl, rfl⟩ := checkStmt_continueLoop_eq_ok.mp hcheck
      obtain ⟨targets, rfl⟩ := hloop hin
      refine .goes (.of_traced (Site.jump executes.runs hcode.head)) (.pure ?_)
      exact .continueLoop [] rfl holds

theorem Stmt.paceAll (executes : A.Executes code C s answer n) {ctx : BodyContext}
    (hctx : ctx.registry = C.registry) (hresult : ctx.resultTy = C.result) :
    ∀ stmts : List Stmt, Stmt.AllKeepPace A code C s answer n ctx stmts
  | [], inLoop, loop, scopes, after, checked, pc, slots, stack, vars, out, htargets, hloop, ready,
      holds, hbase, hcheck,
      hslots, hcode => by
      cases hcheck
      exact .pure (.next holds)
  | stmt :: rest, inLoop, loop, scopes, after, checked, pc, slots, stack, vars, out, htargets,
      hloop, ready, holds,
      hbase, hcheck, hslots, hcode => by
      obtain ⟨first, between, others, hfirst, hothers, rfl⟩ := checkStmts_cons_eq_ok.mp hcheck
      obtain ⟨hslotsFirst, hslotsOthers⟩ := hslots.of_append _
      obtain ⟨hready, hnextSlot⟩ :=
        ready.behind executes.sound hctx hresult htargets.1 hfirst hslotsFirst
      rw [← hnextSlot] at hslotsOthers
      obtain ⟨new, hnew⟩ := (checkStmt_widens stmt hfirst).visible
      obtain ⟨hcodeFirst, hcodeOthers⟩ := hcode.stmt
      rw [Stmt.carryOutAll, Stmt.sizes, ← Nat.add_assoc]
      refine .bind (Stmt.pace executes hctx hresult stmt htargets.1 hloop ready holds hbase hfirst
        hslotsFirst hcodeFirst) ?_
      intro l y hlanded
      cases hlanded with
      | next holds' =>
          refine (Stmt.paceAll executes hctx hresult rest htargets.2 hloop hready holds' hbase
            hothers hslotsOthers hcodeOthers).imp ?_
          intro l y hlanded
          rw [hnew] at hlanded
          exact hlanded.behind
      | breakLoop inner hin holds' => exact .pure (.breakLoop inner hin holds')
      | continueLoop inner hin holds' => exact .pure (.continueLoop inner hin holds')
      | returned => exact .pure .returned

end

end Pacing

end Stepwise
