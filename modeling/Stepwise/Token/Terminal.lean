/-!
# Terminals

The tokens with one spelling: the reserved words and the signs.
-/

set_option autoImplicit false

namespace Stepwise

/-- A token with one spelling. -/
inductive Terminal where
  | trueWord
  | falseWord
  | funWord
  | recordWord
  | varWord
  | ifWord
  | thenWord
  | elseifWord
  | elseWord
  | endWord
  | whileWord
  | doWord
  | repeatWord
  | timesWord
  | returnWord
  | breakWord
  | continueWord
  | andWord
  | orWord
  | xorWord
  | notWord
  | leftParen
  | rightParen
  | comma
  | colon
  | dot
  | assign
  | plus
  | minus
  | star
  | slash
  | dots
  | less
  | greater
  | lessEqual
  | greaterEqual
  | equals
  | notEquals
  deriving Repr, DecidableEq

namespace Terminal

/-- The spelling of a terminal. -/
def spelling : Terminal → String
  | trueWord => "true"
  | falseWord => "false"
  | funWord => "fun"
  | recordWord => "record"
  | varWord => "var"
  | ifWord => "if"
  | thenWord => "then"
  | elseifWord => "elseif"
  | elseWord => "else"
  | endWord => "end"
  | whileWord => "while"
  | doWord => "do"
  | repeatWord => "repeat"
  | timesWord => "times"
  | returnWord => "return"
  | breakWord => "break"
  | continueWord => "continue"
  | andWord => "and"
  | orWord => "or"
  | xorWord => "xor"
  | notWord => "not"
  | leftParen => "("
  | rightParen => ")"
  | comma => ","
  | colon => ":"
  | dot => "."
  | assign => "="
  | plus => "+"
  | minus => "-"
  | star => "*"
  | slash => "/"
  | dots => ".."
  | less => "<"
  | greater => ">"
  | lessEqual => "<="
  | greaterEqual => ">="
  | equals => "=="
  | notEquals => "!="

/-- The reserved words. -/
def words : List Terminal :=
  [trueWord, falseWord, funWord, recordWord, varWord, ifWord, thenWord, elseifWord, elseWord,
    endWord, whileWord, doWord, repeatWord, timesWord, returnWord, breakWord, continueWord,
    andWord, orWord, xorWord, notWord]

/-- The signs of operators and punctuation. -/
def signs : List Terminal :=
  [leftParen, rightParen, comma, colon, dot, assign, plus, minus, star, slash, dots, less, greater,
    lessEqual, greaterEqual, equals, notEquals]

/-- The reserved word spelled so, if there is one. -/
def ofWord? (word : String) : Option Terminal := words.find? (·.spelling == word)

/-- Every terminal is a reserved word or a sign. -/
theorem mem_words_or_mem_signs (t : Terminal) : t ∈ words ∨ t ∈ signs := by
  cases t <;> decide

/-- A terminal is found by its spelling, so no two are spelled alike. -/
theorem find?_spelling (t : Terminal) :
    (words ++ signs).find? (·.spelling == t.spelling) = some t := by
  cases t <;> decide

theorem spelling_injective {s t : Terminal} (h : s.spelling = t.spelling) : s = t := by
  have hs := find?_spelling s
  rw [h, find?_spelling t] at hs
  exact (Option.some.inj hs).symm

end Terminal

end Stepwise
