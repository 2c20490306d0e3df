import Stepwise.Proofs.Code.WellFormed

/-!
# Jumps that wait for their targets

Patching changes the code at the noted places and nowhere else, and what stands there afterwards
goes to the target (`Patches.getElem?`). So when the emitter is done with a statement, its code is
as it stays but for the places that the context of the loop around it has noted meanwhile; at these
stand the jumps that will go to the exit of this loop or to where it goes on
(`Emitter.Makes.settled`).
-/

set_option autoImplicit false

namespace Stepwise

open Diagnosed

/-! ## Patching -/

theorem Instruction.goal?_of_withTarget? {I J : Instruction} {target : Nat}
    (h : I.withTarget? target = some J) :
    J.goal? = some target := by
  cases I <;> cases h <;> rfl

namespace Emitter

variable {E E' : Emitter} {target : Nat}

/-- Patching a jump changes its target. -/
theorem patchJump_getElem? {place : Nat} (h : E.patchJump target place = .ok E') :
    (∀ other, other ≠ place → E'.code[other]? = E.code[other]?) ∧
      ∃ line, E'.code[place]? = some line ∧ line.instruction.goal? = some target := by
  unfold patchJump at h
  split at h
  · simp at h
  · next line hline =>
      split at h
      · simp at h
      · next jump hjump =>
          cases h
          obtain ⟨hlt, -⟩ := Array.getElem?_eq_some_iff.mp hline
          refine ⟨fun other hne => ?_, ⟨jump, line.info⟩, ?_,
            Instruction.goal?_of_withTarget? hjump⟩
          · exact Array.getElem?_setIfInBounds_ne hne.symm
          · simp [hlt]

theorem patchJumps_getElem? {places : List Nat} (h : E.patchJumps target places = .ok E') :
    (∀ other, other ∉ places → E'.code[other]? = E.code[other]?) ∧
      ∀ place ∈ places, ∃ line, E'.code[place]? = some line ∧
      line.instruction.goal? = some target := by
  induction places generalizing E with
  | nil =>
      cases h
      exact ⟨fun _ _ => rfl, nofun⟩
  | cons first rest ih =>
      obtain ⟨E₁, hfirst, hrest⟩ := bind_eq_ok.mp h
      obtain ⟨hother, line, hline, hgoal⟩ := patchJump_getElem? hfirst
      obtain ⟨hother', hplaces⟩ := ih hrest
      refine ⟨fun other hnot => ?_, fun place hplace => ?_⟩
      · rw [List.mem_cons, not_or] at hnot
        rw [hother' other hnot.2, hother other hnot.1]
      · by_cases hin : place ∈ rest
        · exact hplaces place hin
        · obtain rfl : place = first := (List.mem_cons.mp hplace).resolve_right hin
          exact ⟨line, by rw [hother' place hin, hline], hgoal⟩

end Emitter

/-- **Patched code differs at the noted places**, where it goes to the target. -/
theorem Patches.getElem? {target pc : Nat} {places : List Nat} {code code' : List CodeLine}
    (h : Patches target pc places code code') (i : Nat) :
    (pc + i ∉ places → code'[i]? = code[i]?) ∧
      (pc + i ∈ places → ∃ line, code'[i]? = some line ∧ line.instruction.goal? = some target) := by
  -- The code may stand anywhere, so let it stand behind as many instructions as `pc` says.
  let front : List CodeLine := List.replicate pc ⟨.ret, ⟨0, 0⟩⟩
  have hfront : front.length = pc := List.length_replicate
  have hpatched :=
    h.patchJumps { Emitter.initial 0 with code := (front ++ code ++ []).toArray } front []
      hfront rfl
  obtain ⟨hother, hplaces⟩ := Emitter.patchJumps_getElem? hpatched
  have hat (code : List CodeLine) : (front ++ code ++ []).toArray[pc + i]? = code[i]? := by
    rw [List.append_nil, List.getElem?_toArray, List.getElem?_append_right
      (hfront ▸ Nat.le_add_right pc i), hfront, Nat.add_sub_cancel_left]
  refine ⟨fun hnot => ?_, fun hin => ?_⟩
  · rw [← hat, ← hat]
    exact hother _ hnot
  · rw [← hat]
    exact hplaces _ hin

/-! ## What waits behind a statement -/

/-- What becomes of the instruction that an emitter has at a place: it stays, or it is a jump that
the context of the loop around has noted and that goes to a target of this loop. -/
inductive Emitter.Settles (loop : Option LoopTargets) (context : LoopContext) (E : Emitter)
    (here : Nat) (I : Option Instruction) : Prop
  | stays : I = E.code[here]?.map (·.instruction) → Settles loop context E here I
  | exits {t : LoopTargets} {J : Instruction} : loop = some t → here ∈ context.breaks → I = some J →
      J.goal? = some t.exit → Settles loop context E here I
  | continues {t : LoopTargets} {J : Instruction} : loop = some t → here ∈ context.continues →
      I = some J →
      J.goal? = some t.next → Settles loop context E here I

/-- **Behind a making, only jumps that the loop around has noted wait for their targets.** -/
theorem Emitter.Makes.settled {loop : Option LoopTargets} {blockEnd : Nat} {E E' : Emitter}
    {em : Emitted} (h : Makes loop blockEnd E em E') :
    ∃ context, E'.loops = E.loops.modifyHead (·.join context) ∧ ∀ i < em.code.length,
      E'.Settles loop context (E.offset + i) (em.code[i]?.map (·.instruction)) := by
  obtain ⟨context, code, hcode, hloops, hawaits⟩ := h.code
  have hmade (i : Nat) : E'.code[E.offset + i]? = code[i]? := by
    have hlength : E.code.toList.length = E.offset := Array.length_toList
    rw [← Array.getElem?_toList, hcode, List.getElem?_append_right (hlength ▸ Nat.le_add_right _ i),
      hlength, Nat.add_sub_cancel_left]
  refine ⟨context, hloops, fun i hi => ?_⟩
  cases loop with
  | none =>
      obtain ⟨-, rfl⟩ := hawaits
      exact .stays (by rw [hmade])
  | some t =>
      obtain ⟨between, hnext, hexit⟩ := hawaits
      obtain ⟨hkept, hleft⟩ := hexit.getElem? i
      obtain ⟨hkept', hwent⟩ := hnext.getElem? i
      by_cases hbreak : E.offset + i ∈ context.breaks
      · obtain ⟨line, hline, hgoal⟩ := hleft hbreak
        exact .exits rfl hbreak (by rw [hline]; rfl) hgoal
      · by_cases hcontinue : E.offset + i ∈ context.continues
        · obtain ⟨line, hline, hgoal⟩ := hwent hcontinue
          exact .continues rfl hcontinue (by rw [hkept hbreak, hline]; rfl) hgoal
        · exact .stays (by rw [hkept hbreak, hkept' hcontinue, hmade])

end Stepwise
