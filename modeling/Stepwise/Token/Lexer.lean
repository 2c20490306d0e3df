import Stepwise.Decimal.Read
import Stepwise.Diagnostic
import Stepwise.Text.CharClass

/-!
# Reading tokens

A source text is cut into tokens from left to right. Blanks separate tokens; every other character
belongs to one. `scan` reads one token and hands out the characters it took beside the rest, so that
positions follow from the text alone: `scan_taken_append_rest`. `tokens` reads a whole text and ends
the list with the end of input.
-/

set_option autoImplicit false

namespace Stepwise

/-! ## One token -/

/-- What reading one token comes to, with the characters taken. -/
inductive Scan where
  | token (t : Token) (taken rest : List Char)
  | fault (cause : Cause) (taken : List Char)
  deriving Repr

/-- What reading a string behind its opening quote comes to: its text with the characters taken, or
the characters taken up to where it breaks off. -/
inductive StringScan where
  | closed (value taken rest : List Char)
  | cut (taken : List Char)
  deriving Repr

/-- Puts one character of a string, and the characters it is written with, in front. -/
def StringScan.push (value : Char) (written : List Char) : StringScan → StringScan
  | .closed v taken rest => .closed (value :: v) (written ++ taken) rest
  | .cut taken => .cut (written ++ taken)

/-- The character that a backslash and a character stand for. -/
def unescape (c : Char) : Char :=
  if c = 'n' then '\n' else if c = 't' then '\t' else if c = 'r' then '\r' else c

/-- Reads a string behind its opening quote. It ends at the same quote and breaks off at a line
feed; a backslash takes the next character with it, a line feed included. -/
def scanString (quote : Char) : List Char → StringScan
  | [] => .cut []
  | [c] =>
    if c = '\n' then .cut [c] else if c = quote then .closed [] [c] [] else .cut [c]
  | c :: d :: rest =>
    if c = '\n' then .cut [c]
    else if c = quote then .closed [] [c] (d :: rest)
    else if c = '\\' then (scanString quote rest).push (unescape d) [c, d]
    else (scanString quote (d :: rest)).push c [c]

/-- Reads a number: digits, and a point with more digits if one follows the point at once. -/
def scanNumber (c : Char) (rest : List Char) : Scan :=
  let whole := c :: rest.takeWhile Char.isDigit
  match rest.dropWhile Char.isDigit with
  | '.' :: d :: tail =>
    if d.isDigit then
      let fraction := d :: tail.takeWhile Char.isDigit
      .token (.number (Decimal.ofDigits whole fraction)) (whole ++ '.' :: fraction)
        (tail.dropWhile Char.isDigit)
    else .token (.number (Decimal.ofDigits whole [])) whole ('.' :: d :: tail)
  | after => .token (.number (Decimal.ofDigits whole [])) whole after

/-- The token of a word: a reserved word or else an identifier. -/
def wordToken (word : String) : Token :=
  match Terminal.ofWord? word with
  | some t => .terminal t
  | none => .identifier word

/-- Reads a word. -/
def scanWord (c : Char) (rest : List Char) : Scan :=
  let word := c :: rest.takeWhile Text.isWordPart
  .token (wordToken (String.ofList word)) word (rest.dropWhile Text.isWordPart)

/-- The text without the carriage returns at its end. -/
def dropReturns (text : List Char) : List Char :=
  (text.reverse.dropWhile (· == '\r')).reverse

/-- Reads a comment up to the end of its line. -/
def scanComment (c : Char) (rest : List Char) : Scan :=
  let text := rest.takeWhile (· != '\n')
  .token (.comment (String.ofList (dropReturns text))) (c :: text) (rest.dropWhile (· != '\n'))

/-- Reads a sign that means something else with an equals sign behind it. -/
def scanEquals (plain withEquals : Terminal) (c : Char) : List Char → Scan
  | '=' :: rest => .token (.terminal withEquals) [c, '='] rest
  | rest => .token (.terminal plain) [c] rest

/-- The sign of a character that always stands alone. -/
def singleSign? (c : Char) : Option Terminal :=
  if c = '(' then some .leftParen
  else if c = ')' then some .rightParen
  else if c = ',' then some .comma
  else if c = ':' then some .colon
  else if c = '+' then some .plus
  else if c = '-' then some .minus
  else if c = '*' then some .star
  else if c = '/' then some .slash
  else none

/-- Reads one or two dots. -/
def scanDots (c : Char) : List Char → Scan
  | '.' :: rest => .token (.terminal .dots) [c, '.'] rest
  | rest => .token (.terminal .dot) [c] rest

/-- Reads an exclamation mark, which only an equals sign makes a token of. -/
def scanExclamation (c : Char) : List Char → Scan
  | '=' :: rest => .token (.terminal .notEquals) [c, '='] rest
  | _ => .fault .loneExclamation [c]

/-- Reads a string with its quotes. -/
def scanQuoted (c : Char) (rest : List Char) : Scan :=
  match scanString c rest with
  | .closed value taken rest => .token (.string (String.ofList value)) (c :: taken) rest
  | .cut taken => .fault .unterminatedString (c :: taken)

/-- Reads the token that starts with a character that is no blank. -/
def scan (c : Char) (rest : List Char) : Scan :=
  if c = '#' then scanComment c rest
  else match singleSign? c with
  | some t => .token (.terminal t) [c] rest
  | none =>
    if c = '.' then scanDots c rest
    else if c = '<' then scanEquals .less .lessEqual c rest
    else if c = '>' then scanEquals .greater .greaterEqual c rest
    else if c = '=' then scanEquals .assign .equals c rest
    else if c = '!' then scanExclamation c rest
    else if c = '"' ∨ c = '\'' then scanQuoted c rest
    else if c.isDigit then scanNumber c rest
    else if Text.isWordStart c then scanWord c rest
    else .fault (.unexpectedCharacter c) [c]

/-! ## What is taken and what is left -/

theorem StringScan.push_eq_closed {s : StringScan} {c : Char} {written v taken rest : List Char}
    (h : s.push c written = .closed v taken rest) :
    ∃ v' taken', s = .closed v' taken' rest ∧ v = c :: v' ∧ taken = written ++ taken' := by
  cases s with
  | cut t => simp [push] at h
  | closed v' taken' rest' =>
    simp only [push, closed.injEq] at h
    exact ⟨v', taken', by simp [h.2.2], h.1.symm, h.2.1.symm⟩

/-- A closed string takes a part of the text and leaves the others. -/
theorem scanString_taken_append_rest {quote : Char} {cs v taken rest : List Char}
    (h : scanString quote cs = .closed v taken rest) : taken ++ rest = cs := by
  fun_induction scanString quote cs generalizing v taken rest with
  | case1 => simp at h
  | case2 | case4 => simp at h
  | case3 => simp_all
  | case5 => simp at h
  | case6 => simp only [StringScan.closed.injEq] at h; simp [← h.2.1, ← h.2.2]
  | case7 d rest' _ _ ih =>
    obtain ⟨v', taken', hs, -, rfl⟩ := StringScan.push_eq_closed h
    simp [← ih hs]
  | case8 c d rest' _ _ _ ih =>
    obtain ⟨v', taken', hs, -, rfl⟩ := StringScan.push_eq_closed h
    simp [← ih hs]

/-- A token takes the first characters of the text and leaves the others. -/
theorem scan_taken_append_rest {c : Char} {rest taken left : List Char} {t : Token}
    (h : scan c rest = .token t taken left) : taken ++ left = c :: rest := by
  unfold scan at h
  split at h
  · simp only [scanComment, Scan.token.injEq] at h
    simp [← h.2.1, ← h.2.2]
  split at h
  · simp only [Scan.token.injEq] at h
    simp [← h.2.1, ← h.2.2]
  split at h
  · unfold scanDots at h
    split at h <;> · simp only [Scan.token.injEq] at h; simp [← h.2.1, ← h.2.2]
  split at h
  · unfold scanEquals at h
    split at h <;> · simp only [Scan.token.injEq] at h; simp [← h.2.1, ← h.2.2]
  split at h
  · unfold scanEquals at h
    split at h <;> · simp only [Scan.token.injEq] at h; simp [← h.2.1, ← h.2.2]
  split at h
  · unfold scanEquals at h
    split at h <;> · simp only [Scan.token.injEq] at h; simp [← h.2.1, ← h.2.2]
  split at h
  · unfold scanExclamation at h
    split at h
    · simp only [Scan.token.injEq] at h
      simp [← h.2.1, ← h.2.2]
    · simp at h
  split at h
  · unfold scanQuoted at h
    split at h
    · rename_i hs
      simp only [Scan.token.injEq] at h
      simp [← h.2.1, ← h.2.2, scanString_taken_append_rest hs]
    · simp at h
  split at h
  · unfold scanNumber at h
    have hsplit := List.takeWhile_append_dropWhile (p := Char.isDigit) (l := rest)
    split at h
    · rename_i d tail hd
      split at h
      · simp only [Scan.token.injEq] at h
        simpa [← h.2.1, ← h.2.2, hd] using hsplit
      · simp only [Scan.token.injEq] at h
        simpa [← h.2.1, ← h.2.2, hd] using hsplit
    · simp only [Scan.token.injEq] at h
      simp [← h.2.1, ← h.2.2]
  split at h
  · simp only [scanWord, Scan.token.injEq] at h
    simp [← h.2.1, ← h.2.2]
  · simp at h

/-- What reading a token stops at: an exclamation mark alone, a string without its end or a
character that starts no token. -/
theorem scan_fault_cases {c : Char} {rest taken : List Char} {cause : Cause}
    (h : scan c rest = .fault cause taken) :
    (cause = .loneExclamation ∧ taken = [c]) ∨
      (∃ cut, scanString c rest = .cut cut ∧ cause = .unterminatedString ∧ taken = c :: cut) ∨
      (cause = .unexpectedCharacter c ∧ taken = [c]) := by
  have hequals (plain withEquals : Terminal) :
      scanEquals plain withEquals c rest ≠ .fault cause taken := by
    unfold scanEquals
    split <;> simp
  unfold scan at h
  split at h
  · simp [scanComment] at h
  split at h
  · simp at h
  split at h
  · unfold scanDots at h
    split at h <;> simp at h
  split at h
  · exact absurd h (hequals _ _)
  split at h
  · exact absurd h (hequals _ _)
  split at h
  · exact absurd h (hequals _ _)
  split at h
  · unfold scanExclamation at h
    split at h <;> cases h
    exact .inl ⟨rfl, rfl⟩
  split at h
  · unfold scanQuoted at h
    split at h <;> cases h
    next cut hcut => exact .inr (.inl ⟨cut, hcut, rfl, rfl⟩)
  split at h
  · unfold scanNumber at h
    dsimp only at h
    split at h
    · split at h <;> simp at h
    · simp at h
  split at h
  · simp [scanWord] at h
  · cases h
    exact .inr (.inr ⟨rfl, rfl⟩)

/-- A token takes at least one character. -/
theorem scan_taken_ne_nil {c : Char} {rest taken left : List Char} {t : Token}
    (h : scan c rest = .token t taken left) : taken ≠ [] := by
  intro hnil
  have happ := scan_taken_append_rest h
  unfold scan at h
  repeat' split at h
  all_goals
    simp_all [scanComment, scanDots, scanEquals, scanExclamation, scanQuoted, scanNumber, scanWord]
  all_goals
    repeat' split at h
  all_goals simp_all

/-- What a token leaves is shorter than the text. -/
theorem scan_rest_length_lt {c : Char} {rest taken left : List Char} {t : Token}
    (h : scan c rest = .token t taken left) : left.length < (c :: rest).length := by
  have happ := congrArg List.length (scan_taken_append_rest h)
  have hpos := List.length_pos_iff.2 (scan_taken_ne_nil h)
  simp only [List.length_append] at happ
  omega

/-! ## A whole text -/

/-- The tokens of a text that starts at a position, with the end of input behind them. -/
def tokensFrom (pos : Position) (text : List Char) : Diagnosed (List SourceToken) :=
  let start := pos.after (text.takeWhile Text.isBlank)
  match h : text.dropWhile Text.isBlank with
  | [] => .ok [⟨.endOfInput, ⟨start, start⟩⟩]
  | c :: rest =>
    match hs : scan c rest with
    | .fault cause taken => failAt ⟨start, start.after taken⟩ cause
    | .token t taken left => do
      have : left.length < text.length :=
        Nat.lt_of_lt_of_le (h ▸ scan_rest_length_lt hs) (List.dropWhile_suffix _).length_le
      let others ← tokensFrom (start.after taken) left
      return ⟨t, ⟨start, start.after taken⟩⟩ :: others
termination_by text.length

/-- The tokens of a source text. -/
def tokens (source : String) : Diagnosed (List SourceToken) := tokensFrom .start source.toList

end Stepwise
