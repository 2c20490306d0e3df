import Stepwise.Decimal.Read

/-!
# Tokens of data text

A text of data is cut into punctuation, words, numbers and strings; blanks between them are dropped.
Of numbers only plain naturals have a value here. A string has a text unless one of its escapes
stands for half of a surrogate pair.

* `tokens` is the list of tokens, or none if some character begins no token.
* `length_token_lt` says that every token takes at least one character.
-/

set_option autoImplicit false

namespace Stepwise.Json

/-- A token of data text. -/
inductive Token where
  | openArray
  | closeArray
  | openObject
  | closeObject
  | colon
  | comma
  /-- One of `null`, `true` and `false`. -/
  | word
  /-- A number, with its value if it is written as a natural. -/
  | number (value : Option Nat)
  /-- A string, with its text if it has one. -/
  | string (text : Option String)
  deriving Repr, DecidableEq

/-! ## Strings -/

/-- A part of a string: a character as it stands, or the number of an escape in hexadecimal
digits. -/
inductive Piece where
  | char (c : Char)
  | unit (n : Nat)
  deriving Repr, DecidableEq

/-- The value of a hexadecimal digit. -/
def hexValue? (c : Char) : Option Nat :=
  if '0' ≤ c ∧ c ≤ '9' then some (c.toNat - '0'.toNat)
  else if 'a' ≤ c ∧ c ≤ 'f' then some (c.toNat - 'a'.toNat + 10)
  else if 'A' ≤ c ∧ c ≤ 'F' then some (c.toNat - 'A'.toNat + 10)
  else none

/-- The number of four hexadecimal digits. -/
def hexNumber? (a b c d : Char) : Option Nat := do
  let a ← hexValue? a
  let b ← hexValue? b
  let c ← hexValue? c
  let d ← hexValue? d
  return ((a * 16 + b) * 16 + c) * 16 + d

/-- The character that a backslash and a letter stand for. -/
def escape? : Char → Option Char
  | '"' => some '"'
  | '\\' => some '\\'
  | '/' => some '/'
  | 'b' => some '\x08'
  | 'f' => some '\x0c'
  | 'n' => some '\n'
  | 'r' => some '\r'
  | 't' => some '\t'
  | _ => none

/-- The pieces of a string behind its opening quote, and what follows the closing one. Control
characters have to be escaped. -/
def stringBody : List Char → Option (List Piece × List Char)
  | [] => none
  | '"' :: rest => some ([], rest)
  | '\\' :: 'u' :: a :: b :: c :: d :: rest => do
    let n ← hexNumber? a b c d
    let (pieces, rest) ← stringBody rest
    return (.unit n :: pieces, rest)
  | '\\' :: c :: rest => do
    let c ← escape? c
    let (pieces, rest) ← stringBody rest
    return (.char c :: pieces, rest)
  | c :: rest =>
    if c.toNat < 32 then none
    else do
      let (pieces, rest) ← stringBody rest
      return (.char c :: pieces, rest)

/-- Whether a number is the first half of a surrogate pair. -/
def isHighSurrogate (n : Nat) : Bool := 0xD800 ≤ n && n < 0xDC00

/-- Whether a number is the second half of a surrogate pair. -/
def isLowSurrogate (n : Nat) : Bool := 0xDC00 ≤ n && n < 0xE000

/-- The text of pieces; none if half of a surrogate pair stands alone. -/
def pieceText : List Piece → Option (List Char)
  | [] => some []
  | .char c :: rest => do
    let cs ← pieceText rest
    return c :: cs
  | .unit n :: .unit m :: rest =>
    if isHighSurrogate n then
      if isLowSurrogate m then do
        let cs ← pieceText rest
        return Char.ofNat (0x10000 + (n - 0xD800) * 0x400 + (m - 0xDC00)) :: cs
      else none
    else if isLowSurrogate n then none
    else do
      let cs ← pieceText (.unit m :: rest)
      return Char.ofNat n :: cs
  | .unit n :: rest =>
    if isHighSurrogate n || isLowSurrogate n then none
    else do
      let cs ← pieceText rest
      return Char.ofNat n :: cs

/-! ## Numbers -/

/-- What follows the digits at the beginning, of which there has to be one. -/
def afterDigits : List Char → Option (List Char)
  | [] => none
  | c :: rest => if c.isDigit then some (rest.dropWhile Char.isDigit) else none

/-- What follows a whole number at the beginning: a zero, or digits that do not begin with one. -/
def afterWhole : List Char → Option (List Char)
  | '0' :: rest => some rest
  | cs => afterDigits cs

/-- What follows a point with its digits, if there is one. -/
def afterFraction : List Char → Option (List Char)
  | '.' :: rest => afterDigits rest
  | cs => some cs

/-- What follows an exponent, if there is one. -/
def afterExponent : List Char → Option (List Char)
  | 'e' :: '+' :: rest | 'e' :: '-' :: rest | 'E' :: '+' :: rest | 'E' :: '-' :: rest =>
    afterDigits rest
  | 'e' :: rest | 'E' :: rest => afterDigits rest
  | cs => some cs

/-- The number at the beginning, without a sign, and what follows it. -/
def unsigned (cs : List Char) : Option (Option Nat × List Char) := do
  let whole ← afterWhole cs
  let fraction ← afterFraction whole
  let rest ← afterExponent fraction
  let natural := rest.length = whole.length
  return (if natural then some (Decimal.digitsValue (cs.take (cs.length - whole.length))) else
    none, rest)

/-! ## Tokens -/

/-- The word at the beginning, which the given characters spell behind their first. -/
def wordRest (spelled : List Char) (rest : List Char) : Option (Token × List Char) :=
  if spelled.isPrefixOf rest then some (.word, rest.drop spelled.length) else none

/-- The token that begins with a character, and what follows it. -/
def token (c : Char) (rest : List Char) : Option (Token × List Char) :=
  match c with
  | '[' => some (.openArray, rest)
  | ']' => some (.closeArray, rest)
  | '\x7b' => some (.openObject, rest)
  | '\x7d' => some (.closeObject, rest)
  | ':' => some (.colon, rest)
  | ',' => some (.comma, rest)
  | 'n' => wordRest ['u', 'l', 'l'] rest
  | 't' => wordRest ['r', 'u', 'e'] rest
  | 'f' => wordRest ['a', 'l', 's', 'e'] rest
  | '"' => (stringBody rest).map fun (pieces, after) =>
      (.string ((pieceText pieces).map String.ofList), after)
  | '-' => (unsigned rest).map fun (_, after) => (.number none, after)
  | c => (unsigned (c :: rest)).map fun (value, after) => (.number value, after)

/-- Whether a character is dropped between tokens. -/
def isBlank (c : Char) : Bool := c == ' ' || c == '\n' || c == '\t' || c == '\r'

/-! ### Progress -/

theorem length_stringBody_lt {cs : List Char} {pieces : List Piece} {rest : List Char}
    (h : stringBody cs = some (pieces, rest)) : rest.length < cs.length := by
  fun_induction stringBody cs generalizing pieces with
  | case1 => simp at h
  | case2 => simp_all
  | case3 a b c d r ih =>
    simp only [bind, Option.bind_eq_some_iff, pure, Option.some.injEq, Prod.mk.injEq] at h
    obtain ⟨n, -, ⟨p, q⟩, hr, -, rfl⟩ := h
    have := ih hr
    simp only [List.length_cons] at this ⊢
    omega
  | case4 c r _ ih =>
    simp only [bind, Option.bind_eq_some_iff, pure, Option.some.injEq, Prod.mk.injEq] at h
    obtain ⟨n, -, ⟨p, q⟩, hr, -, rfl⟩ := h
    have := ih hr
    simp only [List.length_cons] at this ⊢
    omega
  | case5 => simp at h
  | case6 c r _ _ _ _ ih =>
    simp only [bind, Option.bind_eq_some_iff, pure, Option.some.injEq, Prod.mk.injEq] at h
    obtain ⟨⟨p, q⟩, hr, -, rfl⟩ := h
    have := ih hr
    simp only [List.length_cons] at this ⊢
    omega

theorem length_afterDigits_lt {cs rest : List Char} (h : afterDigits cs = some rest) :
    rest.length < cs.length := by
  cases cs with
  | nil => simp [afterDigits] at h
  | cons c cs =>
    simp only [afterDigits] at h
    split at h
    · have := (List.dropWhile_sublist Char.isDigit (l := cs)).length_le
      simp only [Option.some.injEq] at h
      subst h
      simp only [List.length_cons]
      omega
    · simp at h

theorem length_afterWhole_lt {cs rest : List Char} (h : afterWhole cs = some rest) :
    rest.length < cs.length := by
  unfold afterWhole at h
  split at h
  · simp_all
  · exact length_afterDigits_lt h

theorem length_afterFraction_le {cs rest : List Char} (h : afterFraction cs = some rest) :
    rest.length ≤ cs.length := by
  unfold afterFraction at h
  split at h
  · have := length_afterDigits_lt h
    simp only [List.length_cons]
    omega
  · simp_all

theorem length_afterExponent_le {cs rest : List Char} (h : afterExponent cs = some rest) :
    rest.length ≤ cs.length := by
  unfold afterExponent at h
  split at h
  case h_7 => simp_all
  all_goals
    have shorter := length_afterDigits_lt h
    simp only [List.length_cons]
    omega

theorem length_unsigned_lt {cs rest : List Char} {value : Option Nat}
    (h : unsigned cs = some (value, rest)) :
    rest.length < cs.length := by
  simp only [unsigned, bind, Option.bind_eq_some_iff, pure, Option.some.injEq, Prod.mk.injEq] at h
  obtain ⟨whole, hw, fraction, hf, q, hq, -, rfl⟩ := h
  have := length_afterWhole_lt hw
  have := length_afterFraction_le hf
  have := length_afterExponent_le hq
  omega

theorem length_wordRest_le {spelled cs rest : List Char} {t : Token}
    (h : wordRest spelled cs = some (t, rest)) :
    rest.length ≤ cs.length := by
  unfold wordRest at h
  split at h
  · simp only [Option.some.injEq, Prod.mk.injEq] at h
    rw [← h.2, List.length_drop]
    omega
  · simp at h

/-- A token takes its first character at least. -/
theorem length_token_lt {c : Char} {cs rest : List Char} {t : Token}
    (h : token c cs = some (t, rest)) :
    rest.length < cs.length + 1 := by
  unfold token at h
  split at h
  case h_10 =>
    obtain ⟨⟨p, q⟩, hp, hq⟩ := Option.map_eq_some_iff.1 h
    have := length_stringBody_lt hp
    simp only [Prod.mk.injEq] at hq
    rw [← hq.2]
    omega
  case h_11 =>
    obtain ⟨⟨p, q⟩, hp, hq⟩ := Option.map_eq_some_iff.1 h
    have := length_unsigned_lt hp
    simp only [Prod.mk.injEq] at hq
    rw [← hq.2]
    omega
  case h_12 =>
    obtain ⟨⟨p, q⟩, hp, hq⟩ := Option.map_eq_some_iff.1 h
    have := length_unsigned_lt hp
    simp only [Prod.mk.injEq] at hq
    rw [← hq.2]
    simpa using this
  case h_7 => exact Nat.lt_succ_of_le (length_wordRest_le h)
  case h_8 => exact Nat.lt_succ_of_le (length_wordRest_le h)
  case h_9 => exact Nat.lt_succ_of_le (length_wordRest_le h)
  all_goals simp_all

/-- The tokens of a text. -/
def tokensOf (cs : List Char) : Option (List Token) :=
  match cs with
  | [] => some []
  | c :: rest =>
    if isBlank c then tokensOf rest
    else
      match _h : token c rest with
      | none => none
      | some (t, after) => (tokensOf after).map (t :: ·)
termination_by cs.length
decreasing_by
  · simp
  · simpa using length_token_lt _h

/-- The tokens of a text. -/
def tokens (text : String) : Option (List Token) := tokensOf text.toList

end Stepwise.Json
