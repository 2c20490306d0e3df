import Stepwise.Proofs.Typing.Parts

/-!
# Scopes while checking

No two visible symbols share a slot (`Scopes.Orderly`). Checking a statement puts symbols in front
of the innermost block and closes every block that it opens (`Scopes.Widens`), so behind a block the
names from before it are visible again.
-/

set_option autoImplicit false

namespace Stepwise

namespace Scopes

/-- Visible symbols have slots of their own, all handed out already. -/
structure Orderly (scopes : Scopes) : Prop where
  below : ∀ symbol ∈ scopes.visible, symbol.slot < scopes.nextSlot
  distinct : scopes.visible.Pairwise fun a b => a.slot ≠ b.slot

/-- Symbols were put in front of the innermost block, in slots of their own. -/
structure Widens (before after : Scopes) : Prop where
  innermost : ∃ new, after.innermost = new ++ before.innermost
  enclosing : after.enclosing = before.enclosing
  nextSlot : before.nextSlot ≤ after.nextSlot
  orderly : before.Orderly → after.Orderly

variable {before between after : Scopes}

theorem Widens.refl (scopes : Scopes) : scopes.Widens scopes := ⟨⟨[], rfl⟩, rfl, Nat.le_refl _, id⟩

theorem Widens.trans (h : before.Widens between) (h' : between.Widens after) :
    before.Widens after := by
  obtain ⟨new, hnew⟩ := h.innermost
  obtain ⟨newer, hnewer⟩ := h'.innermost
  refine ⟨⟨newer ++ new, ?_⟩, h'.enclosing.trans h.enclosing, Nat.le_trans h.nextSlot h'.nextSlot,
    fun horderly => h'.orderly (h.orderly horderly)⟩
  rw [hnewer, hnew, List.append_assoc]

theorem Widens.visible (h : before.Widens after) :
    ∃ new, after.visible = new ++ before.visible := by
  obtain ⟨new, hnew⟩ := h.innermost
  refine ⟨new, ?_⟩
  rw [Scopes.visible, hnew, h.enclosing, List.append_assoc, ← Scopes.visible]

theorem visible_push (scopes : Scopes) : scopes.push.visible = scopes.visible := by
  simp [Scopes.visible, Scopes.push]

theorem Orderly.push (h : before.Orderly) : before.push.Orderly := by
  refine ⟨?_, ?_⟩
  · rw [visible_push]
    exact h.below
  · rw [visible_push]
    exact h.distinct

/-- Behind a block the same symbols are visible as before it. -/
theorem Widens.visible_pop (h : before.push.Widens after) : after.pop.visible = before.visible := by
  rw [Scopes.pop, h.enclosing]
  rfl

theorem Widens.pop (h : before.push.Widens after) : before.Widens after.pop := by
  have hpop : after.pop = ⟨before.innermost, before.enclosing, after.nextSlot⟩ := by
    rw [Scopes.pop, h.enclosing]
    rfl
  rw [hpop]
  refine ⟨⟨[], rfl⟩, rfl, h.nextSlot, ?_⟩
  rintro ⟨hbelow, hdistinct⟩
  exact ⟨fun symbol hsymbol => Nat.lt_of_lt_of_le (hbelow symbol hsymbol) h.nextSlot, hdistinct⟩

theorem widens_declare {scopes after : Scopes} {name : Ident} {t : Ty} {slot : Nat}
    (h : declareVariable scopes name t = .ok (slot, after)) : scopes.Widens after := by
  obtain ⟨-, rfl⟩ := declareVariable_eq h
  refine ⟨⟨[_], rfl⟩, rfl, Nat.le_succ _, ?_⟩
  rintro ⟨hbelow, hdistinct⟩
  refine ⟨?_, List.pairwise_cons.mpr ⟨?_, hdistinct⟩⟩
  · intro symbol hsymbol
    rcases List.mem_cons.mp hsymbol with rfl | hsymbol
    · exact Nat.lt_succ_self _
    · exact Nat.lt_succ_of_lt (hbelow symbol hsymbol)
  · intro symbol hsymbol
    exact Nat.ne_of_gt (hbelow symbol hsymbol)

end Scopes

mutual

/-- **Checking a statement widens the scopes.** -/
theorem checkStmt_widens {ctx : BodyContext} :
    ∀ (s : Stmt) {inLoop : Bool} {scopes after : Scopes} {checked : Stmt},
      checkStmt ctx inLoop scopes s = .ok (checked, after) → scopes.Widens after
  | .expr e, inLoop, scopes, after, checked, h => by
      obtain ⟨inner, t, -, -, rfl⟩ := checkStmt_expr_eq_ok.mp h
      exact .refl _
  | .var decl, inLoop, scopes, after, checked, h => by
      obtain ⟨inner, hinner, -⟩ := checkStmt_var_eq_ok.mp h
      obtain ⟨value, t, -, hdeclare, -, -⟩ := checkVariable_eq_ok.mp hinner
      exact Scopes.widens_declare hdeclare
  | .assign target value span, inLoop, scopes, after, checked, h => by
      obtain ⟨first, second, t, -, -, -, rfl⟩ := checkStmt_assign_eq_ok.mp h
      exact .refl _
  | .cond condition thenBlock elseBlock span, inLoop, scopes, after, checked, h => by
      obtain ⟨test, first, afterThen, second, afterElse, -, hfirst, hsecond, -, rfl⟩ :=
        checkStmt_cond_eq_ok.mp h
      have hthen := (checkStmts_widens thenBlock hfirst).pop
      have helse := (checkStmts_widens elseBlock hsecond).pop
      exact hthen.trans helse
  | .whileLoop condition body span, inLoop, scopes, after, checked, h => by
      obtain ⟨test, inner, afterBody, -, hinner, -, rfl⟩ := checkStmt_whileLoop_eq_ok.mp h
      exact (checkStmts_widens body hinner).pop
  | .repeatLoop count body span, inLoop, scopes, after, checked, h => by
      obtain ⟨times, inner, afterBody, -, hinner, -, rfl⟩ := checkStmt_repeatLoop_eq_ok.mp h
      exact (checkStmts_widens body hinner).pop
  | .ret value span, inLoop, scopes, after, checked, h => by
      obtain ⟨-, rfl⟩ := checkStmt_ret_eq_ok.mp h
      exact .refl _
  | .breakLoop span, inLoop, scopes, after, checked, h => by
      obtain ⟨-, -, rfl⟩ := checkStmt_breakLoop_eq_ok.mp h
      exact .refl _
  | .continueLoop span, inLoop, scopes, after, checked, h => by
      obtain ⟨-, -, rfl⟩ := checkStmt_continueLoop_eq_ok.mp h
      exact .refl _
  | .comment text span, inLoop, scopes, after, checked, h => by
      cases h
      exact .refl _

theorem checkStmts_widens {ctx : BodyContext} :
    ∀ (ss : List Stmt) {inLoop : Bool} {scopes after : Scopes} {checked : List Stmt},
      checkStmts ctx inLoop scopes ss = .ok (checked, after) → scopes.Widens after
  | [], inLoop, scopes, after, checked, h => by
      cases h
      exact .refl _
  | s :: rest, inLoop, scopes, after, checked, h => by
      obtain ⟨first, next, others, hfirst, hothers, -⟩ := checkStmts_cons_eq_ok.mp h
      exact (checkStmt_widens s hfirst).trans (checkStmts_widens rest hothers)

end

end Stepwise
