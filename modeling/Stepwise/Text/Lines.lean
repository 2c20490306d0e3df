/-!
# The lines of a text

Lines end at a line feed; a carriage return right before it belongs to the line's end. A text that
ends with a line feed has no further, empty line.
-/

set_option autoImplicit false

namespace Stepwise.Text

/-- The lines of a text, without their ends. -/
def lines : List Char → List (List Char)
  | [] => []
  | '\r' :: '\n' :: rest => [] :: lines rest
  | c :: rest =>
    if c = '\n' then [] :: lines rest
    else match lines rest with
      | [] => [[c]]
      | line :: others => (c :: line) :: others

/-- No line holds a line feed. -/
theorem lineFeed_not_mem_lines (cs : List Char) : ∀ line ∈ lines cs, '\n' ∉ line := by
  fun_induction lines cs with
  | case1 => simp
  | case2 rest ih => simpa using ih
  | case3 rest _ ih => simpa using ih
  | case4 c rest _ hc hl ih => simpa using Ne.symm hc
  | case5 c rest _ hc line others hl ih =>
    rw [hl] at ih
    intro l hmem
    rcases List.mem_cons.1 hmem with rfl | hmem
    · have := ih line (by simp)
      simp only [List.mem_cons, not_or]
      exact ⟨Ne.symm hc, this⟩
    · exact ih l (List.mem_cons_of_mem _ hmem)

end Stepwise.Text
