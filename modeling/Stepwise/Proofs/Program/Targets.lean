import Stepwise.Compile
import Stepwise.Proofs.Program.Derivation

/-!
# What assignments set

Reading only makes assignments to variables and fields, in whichever statement they stand. The
checker relies on it: it does not look at the form of a target again.
-/

set_option autoImplicit false

namespace Stepwise

mutual

/-- Every assignment in a statement sets a variable or a field. -/
def Stmt.TargetsAssignable : Stmt → Prop
  | .assign target _ _ => target.isAssignable = true
  | .cond _ thenBlock elseBlock _ =>
    Stmt.AllTargetsAssignable thenBlock ∧ Stmt.AllTargetsAssignable elseBlock
  | .whileLoop _ body _ | .repeatLoop _ body _ => Stmt.AllTargetsAssignable body
  | .expr _ | .var _ | .ret .. | .breakLoop _ | .continueLoop _ | .comment .. => True

/-- Every assignment in statements sets a variable or a field. -/
def Stmt.AllTargetsAssignable : List Stmt → Prop
  | [] => True
  | s :: rest => s.TargetsAssignable ∧ Stmt.AllTargetsAssignable rest

end

namespace Grammar

mutual

/-- A statement of the grammar sets variables and fields only. -/
theorem StmtForm.targets : ∀ {ys : Parser.Tokens} {s : Stmt}, StmtForm ys s → s.TargetsAssignable
  | _, _, .assignment _ _ htarget _ => htarget
  | _, _, .conditional _ h => h.targets
  | _, _, .whileLoop _ _ _ _ hbody | _, _, .repeatLoop _ _ _ _ hbody => hbody.targets
  | _, _, .expression _ | _, _, .declaration .. | _, _, .returnNothing _ | _, _, .returnValue .. |
      _, _, .breakLoop _
  | _, _, .continueLoop _ | _, _, .comment .. => trivial

theorem ConditionalForm.targets :
    ∀ {start : Span} {ys : Parser.Tokens} {s : Stmt}, ConditionalForm start ys s →
    s.TargetsAssignable
  | _, _, _, .plain _ _ _ hthen => ⟨hthen.targets, trivial⟩
  | _, _, _, .otherwise _ _ _ _ hthen helse => ⟨hthen.targets, helse.targets⟩
  | _, _, _, .chained _ _ _ hthen hnested => ⟨hthen.targets, hnested.targets, trivial⟩

theorem BlockForm.targets : ∀ {ys : Parser.Tokens} {ss : List Stmt}, BlockForm ys ss →
    Stmt.AllTargetsAssignable ss
  | _, _, .nil => trivial
  | _, _, .cons hfirst hothers => ⟨hfirst.targets, hothers.targets⟩

end

/-- The functions and the statements among some parts of a program set variables and fields only. -/
theorem Star.targets {ys : Parser.Tokens} {items : List Item} (h : Star ItemForm ys items) :
    ∀ d ∈ (Program.ofItems items).allFunctions, Stmt.AllTargetsAssignable d.body := by
  induction h with
  | nil =>
    simp [Program.ofItems, Program.allFunctions, FunctionDecl.main, Stmt.AllTargetsAssignable]
  | cons hform _ ih =>
      obtain ⟨hmain, hfunctions⟩ := List.forall_mem_cons.mp ih
      cases hform with
      | record _ => exact ih
      | function h =>
          cases h with
          | function _ _ _ _ _ _ _ hbody =>
              exact List.forall_mem_cons.mpr
                ⟨hmain, List.forall_mem_cons.mpr ⟨hbody.targets, hfunctions⟩⟩
      | stmt h => exact List.forall_mem_cons.mpr ⟨⟨h.targets, hmain⟩, hfunctions⟩

end Grammar

/-- **Every assignment of a source text sets a variable or a field.** -/
theorem Program.targetsAssignable_of_ofSource {source : String} {p : Program}
    (h : Program.ofSource source = .ok p) :
    ∀ d ∈ p.allFunctions, Stmt.AllTargetsAssignable d.body := by
  obtain ⟨ts, -, hp⟩ := Diagnosed.bind_eq_ok.mp h
  obtain ⟨items, ys, rest, rfl, hform, -, -⟩ := Parser.program_derives _ hp
  exact hform.targets

end Stepwise
