import Mathlib.Data.String.Basic
import Stepwise.Source.Position

/-!
# The places of a source text

A position is kept while a text is passed, one character after the other. What it says about the
text is told here without passing it: how many bytes the characters before it take, how many line
feeds they hold, and how many of them stand behind the last line feed (`Position.behind`). Passing a
text from its start leads to exactly this position (`Position.start_after`), so that a position is a
place of a source if it lies behind some of its first characters (`Position.LiesIn`).

A span names its text by offsets alone. Between two places of a source, that is the characters that
stand between them (`Span.text_eq`).
-/

set_option autoImplicit false

namespace Stepwise

open String (utf8Len)

namespace Position

/-! ## Positions -/

/-- The position behind the first characters of a source, told by what they are. -/
def behind (before : List Char) : Position where
  line := 1 + before.count '\n'
  column := 1 + (before.reverse.takeWhile (· != '\n')).length
  offset := utf8Len before

@[simp] theorem behind_offset (before : List Char) : (behind before).offset = utf8Len before := rfl

/-- One character more. -/
theorem advance_behind (before : List Char) (c : Char) :
    (behind before).advance c = behind (before ++ [c]) := by
  unfold advance behind
  split
  · next hc => simp [hc, Nat.add_assoc]
  · next hc => simp [hc, Nat.add_comm]

/-- Some characters more. -/
theorem after_behind (before text : List Char) :
    (behind before).after text = behind (before ++ text) := by
  induction text generalizing before with
  | nil => simp
  | cons c text ih => rw [after_cons, advance_behind, ih, List.append_assoc, List.singleton_append]

/-- Passing a text from the start of a source leads behind it. -/
theorem start_after (before : List Char) : start.after before = behind before :=
  after_behind [] before

/-- A position that a source has: behind some of its first characters. -/
def LiesIn (p : Position) (source : String) : Prop :=
  ∃ before rest, source.toList = before ++ rest ∧ p = behind before

end Position

/-! ## Spans -/

namespace Span

/-- The characters of a source from one offset to the other. -/
def text (s : Span) (source : String) : String :=
  String.Pos.Raw.extract source ⟨s.start.offset⟩ ⟨s.stop.offset⟩

/-- A span that an offset falls into. -/
def Covers (s : Span) (offset : Nat) : Prop := s.start.offset ≤ offset ∧ offset < s.stop.offset

/-- The text between two places is what stands between them. -/
theorem text_eq {source : String} {before taken rest : List Char}
    (h : source.toList = before ++ taken ++ rest) :
    (⟨.behind before, .behind (before ++ taken)⟩ : Span).text source = String.ofList taken := by
  have hsource : source = String.ofList (before ++ taken ++ rest) := by
    rw [← h, String.ofList_toList]
  rw [text, Position.behind_offset, Position.behind_offset, String.utf8Len_append, hsource]
  exact String.extract_of_valid before taken rest

end Span

end Stepwise
