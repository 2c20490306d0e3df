import Stepwise.Text.Alphabetic
import Stepwise.Text.Blank
import Stepwise.Text.Extending
import Stepwise.Text.Ignorable
import Stepwise.Text.Numeral
import Stepwise.Text.Unprintable

/-!
# Classes of characters

What a program's text and quoted text ask of a character: whether it is blank, may start or continue
a word, and whether quoted text shows it as it is.

No blank character belongs to a word: `isWordPart_eq_false_of_isBlank`.
-/

set_option autoImplicit false

namespace Stepwise.Text

/-- A character that only separates tokens. -/
def isBlank (c : Char) : Bool := blankRanges.has c.toNat

/-- An alphabetic character of any script. -/
def isAlphabetic (c : Char) : Bool := alphabeticRanges.has c.toNat

/-- A numeral of any script, digits of positional notation or not. -/
def isNumeral (c : Char) : Bool := numeralRanges.has c.toNat

/-- A character that a word may start with. -/
def isWordStart (c : Char) : Bool := isAlphabetic c || c == '_'

/-- A character that a word may go on with. -/
def isWordPart (c : Char) : Bool := isAlphabetic c || isNumeral c || c == '_'

/-- The sound marks of half width. They extend the character before them, but stand beside it. -/
def isSoundMark (c : Char) : Bool := c == '\uff9e' || c == '\uff9f'

/-- A character that quoted text writes by its number: it draws over another, or does not show at
all. -/
def isHidden (c : Char) : Bool :=
  extendingRanges.has c.toNat && !isSoundMark c || ignorableRanges.has c.toNat ||
    unprintableRanges.has c.toNat

/-- What may start a word may continue one. -/
theorem isWordPart_of_isWordStart {c : Char} (h : isWordStart c = true) : isWordPart c = true := by
  simp only [isWordStart, isWordPart, Bool.or_eq_true] at h ⊢
  rcases h with h | h
  · exact Or.inl (Or.inl h)
  · exact Or.inr h

/-- No blank character belongs to a word. -/
theorem isWordPart_eq_false_of_isBlank {c : Char} (h : isBlank c = true) :
    isWordPart c = false := by
  have ha : isAlphabetic c = false :=
    @Ranges.has_eq_false_of_apart blankRanges _ (by decide +kernel) _ h
  have hn : isNumeral c = false :=
    @Ranges.has_eq_false_of_apart blankRanges _ (by decide +kernel) _ h
  have hu : (c == '_') = false := by
    cases hc : c == '_' with
    | false => rfl
    | true =>
      rw [beq_iff_eq] at hc
      subst hc
      exact absurd h (by decide)
  simp [isWordPart, ha, hn, hu]

end Stepwise.Text
