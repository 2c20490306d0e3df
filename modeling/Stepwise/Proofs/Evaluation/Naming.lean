import Mathlib.Data.List.Forall2
import Stepwise.Proofs.Evaluation.Evaluator
import Stepwise.Proofs.Typing.Scoping

/-!
# Variables and their slots

An evaluation finds variables by name, an activation by slot. The scopes of a function say which
slot a name stands for, and the visible symbols and the variables in scope go along with each other,
one by one (`Held`). No two visible symbols share a slot, so assigning to a variable leaves the
others alone.
-/

set_option autoImplicit false

namespace Stepwise

/-! ## Held variables -/

/-- The slots hold the variables in scope, which the symbols name. -/
def Held (slots : List Value) (symbols : List Symbol) (vars : Variables) : Prop :=
  List.Forall₂ (fun symbol x =>
    symbol.name = x.name ∧ symbol.ty = x.content.ty ∧
    slots[symbol.slot]? = some x.content.value) symbols vars

namespace Held

variable {slots : List Value} {symbols : List Symbol} {vars : Variables} {name : String}
    {symbol : Symbol}

/-- The symbol and the variable of a name stand for the same. -/
theorem read? (h : Held slots symbols vars)
    (hfound : symbols.find? (·.name == name) = some symbol) :
    ∃ x, vars.read? name = some x ∧ x.ty = symbol.ty ∧ slots[symbol.slot]? = some x.value := by
  induction h with
  | nil => cases hfound
  | @cons first x others rest hx _ ih =>
      obtain ⟨hname, hty, hvalue⟩ := hx
      rw [List.find?_cons, hname] at hfound
      unfold Variables.read? at ih ⊢
      rw [List.find?_cons]
      cases hsame : x.name == name with
      | true =>
          rw [hsame] at hfound
          cases hfound
          exact ⟨x.content, rfl, hty.symm, hvalue⟩
      | false =>
          rw [hsame] at hfound
          exact ih hfound

/-- A slot that no symbol has may be filled. -/
theorem fill (h : Held slots symbols vars) {slot : Nat}
    (hfree : ∀ symbol ∈ symbols, symbol.slot ≠ slot) (v : Value) :
    Held (slots.set slot v) symbols vars := by
  induction h with
  | nil => exact .nil
  | @cons first x others rest hx _ ih =>
      obtain ⟨hname, hty, hvalue⟩ := hx
      refine .cons ⟨hname, hty, ?_⟩
        (ih fun symbol hsymbol => hfree symbol (List.mem_cons_of_mem _ hsymbol))
      rw [List.getElem?_set_ne (hfree first List.mem_cons_self).symm]
      exact hvalue

/-- Assigning to a variable is filling its slot. -/
theorem write (h : Held slots symbols vars)
    (hdistinct : symbols.Pairwise fun a b => a.slot ≠ b.slot)
    (hfound : symbols.find? (·.name == name) = some symbol) (v : Value) :
    Held (slots.set symbol.slot v) symbols (vars.write name v) := by
  induction h with
  | nil => cases hfound
  | @cons first x others rest hx hrest ih =>
      obtain ⟨hname, hty, hvalue⟩ := hx
      obtain ⟨hfirst, hothers⟩ := List.pairwise_cons.mp hdistinct
      rw [List.find?_cons, hname] at hfound
      rw [Variables.write]
      cases hsame : x.name == name with
      | true =>
          rw [hsame] at hfound
          cases hfound
          have hlt : symbol.slot < slots.length := (List.getElem?_eq_some_iff.mp hvalue).1
          rw [if_pos rfl]
          refine .cons ⟨hname, hty, ?_⟩
            (Held.fill hrest (fun symbol hsymbol => (hfirst symbol hsymbol).symm) v)
          rw [List.getElem?_set_self hlt]
      | false =>
          rw [hsame] at hfound
          rw [if_neg Bool.false_ne_true]
          refine .cons ⟨hname, hty, ?_⟩ (ih hothers hfound)
          rw [List.getElem?_set_ne (hfirst symbol (List.mem_of_find?_eq_some hfound)).symm]
          exact hvalue

/-- Behind a block the variables from before it are left. -/
theorem leave {outer : Variables} {new : List Symbol} (houter : outer.length = symbols.length)
    (h : Held slots (new ++ symbols) vars) : Held slots symbols (outer.leave vars) := by
  have hlength := h.length_eq
  rw [List.length_append] at hlength
  have hdrop := List.forall₂_drop new.length h
  rw [List.drop_left] at hdrop
  rw [Variables.leave, show vars.length - outer.length = new.length by omega]
  exact hdrop

end Held

end Stepwise
