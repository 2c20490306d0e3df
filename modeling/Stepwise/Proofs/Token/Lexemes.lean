import Mathlib.Data.List.DropRight
import Stepwise.Proofs.Token.Slices

/-!
# Lexemes and the tokens that they stand for

A source can be written from lexemes: signs and reserved words, names, numbers, comments, and
strings in either quote, in which the quote, backslashes and line feeds are escaped. `Lexeme.Row` is
such a writing, with blanks between the lexemes, and `Lexeme.Means` says which token a lexeme stands
for. Each kind of lexeme has a lemma that its scanner stops right behind it, whatever follows, as
long as that cannot go on with it. `Lexeme.lexemes_recovered` puts them together: the tokens that
are read are the ones that were written.
-/

set_option autoImplicit false

namespace Stepwise

open Stepwise.Text (isBlank isWordStart isWordPart)

/-! ## Lexemes -/

/-- Digits in a row, at least one. -/
structure Digits where
  chars : List Char
  ne_nil : chars ≠ []
  isDigit : ∀ c ∈ chars, c.isDigit = true

/-- A word that is not reserved. -/
structure FreeWord where
  first : Char
  others : List Char
  starts : isWordStart first = true
  goesOn : ∀ c ∈ others, isWordPart c = true
  free : ∀ t ∈ Terminal.words, t.spelling.toList ≠ first :: others

/-- The quotes that strings are written in. -/
inductive Quote where
  | single
  | double
  deriving Repr, DecidableEq

/-- The character of a quote. -/
def Quote.char : Quote → Char
  | single => '\''
  | double => '"'

/-- The pieces that a source is written from. -/
inductive Lexeme where
  | terminal (t : Terminal)
  | identifier (word : FreeWord)
  | number (whole : Digits) (fraction : Option Digits)
  | comment (text : List Char) (oneLine : '\n' ∉ text)
  | string (quote : Quote) (value : List Char)

/-- A character as it is written between quotes. -/
def Quote.written (q : Quote) (c : Char) : List Char :=
  if c = q.char ∨ c = '\\' then ['\\', c] else if c = '\n' then ['\\', 'n'] else [c]

namespace Lexeme

/-- How a lexeme is written. -/
def text : Lexeme → List Char
  | terminal t => t.spelling.toList
  | identifier w => w.first :: w.others
  | number whole none => whole.chars
  | number whole (some fraction) => whole.chars ++ '.' :: fraction.chars
  | comment text _ => '#' :: text
  | string q value => q.char :: (value.flatMap q.written ++ [q.char])

/-- The token that a lexeme stands for. The text of a comment is without the carriage returns at its
end. -/
inductive Means : Lexeme → Token → Prop where
  | terminal (t : Terminal) : Means (.terminal t) (.terminal t)
  | identifier (w : FreeWord) :
      Means (.identifier w) (.identifier (String.ofList (w.first :: w.others)))
  | number {whole : Digits} {fraction : Option Digits} {value : Float}
      (hvalue : Decimal.read? (String.ofList (Lexeme.number whole fraction).text) = some value) :
      Means (.number whole fraction) (.number value)
  | comment {text kept : List Char} {oneLine : '\n' ∉ text} (returns : Nat)
      (htext : text = kept ++ List.replicate returns '\r') (hkept : kept.getLast? ≠ some '\r') :
      Means (.comment text oneLine) (.comment (String.ofList kept))
  | string (q : Quote) (value : List Char) : Means (.string q value) (.string (String.ofList value))

/-- Blanks that may stand behind a lexeme. Behind a comment they begin with a line feed. -/
structure Parts (l : Lexeme) (gap : List Char) : Prop where
  blank : ∀ c ∈ gap, isBlank c = true
  lineFeed : ∀ text h, l = .comment text h → ∀ c ∈ gap.head?, c = '\n'

/-- Lexemes written one behind the other, with blanks between them and perhaps behind the last. -/
inductive Row : List Lexeme → List Char → Prop where
  | nil : Row [] []
  | last {l : Lexeme} {gap : List Char} (hgap : l.Parts gap) : Row [l] (l.text ++ gap)
  | next {l m : Lexeme} {ls : List Lexeme} {gap text : List Char} (hgap : l.Parts gap)
      (hne : gap ≠ [])
      (htail : Row (m :: ls) text) : Row (l :: m :: ls) (l.text ++ gap ++ text)

end Lexeme

/-! ## Characters -/

/-- The characters that signs, comments and strings begin with. -/
def leadingSigns : List Char :=
  ['#', '(', ')', ',', ':', '+', '-', '*', '/', '.', '<', '>', '=', '!', '"', '\'']

/-- No letter comes before `A`. -/
theorem isWordStart_eq_false_of_lt {c : Char} (h : c.toNat < 0x41) : isWordStart c = false := by
  have halpha : Text.isAlphabetic c = false :=
    @Text.Ranges.has_eq_false_of_lt 0x41 _ _ (by decide +kernel) h
  have hline : (c == '_') = false := by
    apply beq_false_of_ne
    rintro rfl
    exact absurd h (by decide)
  simp [isWordStart, halpha, hline]

/-- Neither a word nor a number begins with a sign. -/
theorem ne_of_mem_leadingSigns {c d : Char} (hd : d ∈ leadingSigns)
    (hc : isWordStart c = true ∨ c.isDigit = true) :
    c ≠ d := by
  rintro rfl
  have hall : leadingSigns.all (fun d => d.toNat < 0x41 && !d.isDigit) = true := by decide
  have hlow := List.all_eq_true.mp hall c hd
  simp only [Bool.and_eq_true, decide_eq_true_eq, Bool.not_eq_true'] at hlow
  simp [isWordStart_eq_false_of_lt hlow.1, hlow.2] at hc

theorem isDigit_toNat {c : Char} (h : c.isDigit = true) : 0x30 ≤ c.toNat ∧ c.toNat ≤ 0x39 := by
  simp only [Char.isDigit, Bool.and_eq_true, decide_eq_true_eq] at h
  exact ⟨UInt32.le_iff_toNat_le.mp h.1, UInt32.le_iff_toNat_le.mp h.2⟩

/-- The range of the digits. -/
def digitRanges : Text.Ranges := [(0x30, 0x39)]

/-- Digits are neither blank nor the start of a word. -/
theorem isBlank_eq_false_of_isDigit {c : Char} (h : c.isDigit = true) :
    isBlank c = false ∧ isWordStart c = false := by
  have hdigit : digitRanges.has c.toNat = true := by
    obtain ⟨hlow, hhigh⟩ := isDigit_toNat h
    simp [digitRanges, Text.Ranges.has, hhigh, Nat.not_lt.mpr hlow]
  have hblank : isBlank c = false :=
    @Text.Ranges.has_eq_false_of_apart digitRanges _ (by decide +kernel) _ hdigit
  exact ⟨hblank, isWordStart_eq_false_of_lt (by have := isDigit_toNat h; omega)⟩

/-! ## Reading lexemes -/

/-- What begins with no sign is a number or a word. -/
theorem scan_of_noSign {c : Char} (h : ∀ d ∈ leadingSigns, c ≠ d) (rest : List Char) :
    scan c rest = if c.isDigit then scanNumber c rest else if isWordStart c then scanWord c rest
      else .fault (.unexpectedCharacter c) [c] := by
  simp only [leadingSigns, List.forall_mem_cons, ne_eq] at h
  simp [scan, singleSign?, h]

theorem scan_word {c : Char} {others behind : List Char} (hc : isWordStart c = true)
    (hothers : ∀ d ∈ others, isWordPart d = true) (hbehind : ∀ d ∈ behind.head?, isBlank d = true) :
    scan c (others ++ behind) = .token (wordToken (String.ofList (c :: others))) (c :: others)
      behind := by
  have hdigit : c.isDigit = false := by
    by_contra h
    have := (isBlank_eq_false_of_isDigit (by simpa using h)).2
    simp [this] at hc
  obtain ⟨htake, hdrop⟩ := takeWhile_stops _ hothers
    fun d hd => Text.isWordPart_eq_false_of_isBlank (hbehind d hd)
  rw [scan_of_noSign fun d hd => ne_of_mem_leadingSigns hd (.inl hc), if_neg (by simp [hdigit]),
    if_pos hc, scanWord, htake, hdrop]

/-- Reserved words are words. -/
theorem isWord_of_mem_words {t : Terminal} (h : t ∈ Terminal.words) :
    ∃ c others, t.spelling.toList = c :: others ∧ isWordStart c = true ∧
      (∀ d ∈ others, isWordPart d = true) ∧
      wordToken t.spelling = .terminal t := by
  have hall : Terminal.words.all (fun t => t.spelling.toList.head?.any isWordStart &&
      t.spelling.toList.tail.all isWordPart && (Terminal.ofWord? t.spelling == some t)) = true := by
    decide +kernel
  have hword := List.all_eq_true.mp hall t h
  simp only [Bool.and_eq_true, beq_iff_eq] at hword
  obtain ⟨⟨hstart, hothers⟩, hfound⟩ := hword
  cases hspelling : t.spelling.toList with
  | nil =>
      rw [hspelling] at hstart
      cases hstart
  | cons c others =>
      rw [hspelling] at hstart hothers
      exact ⟨c, others, rfl, hstart, List.all_eq_true.mp hothers, by simp [wordToken, hfound]⟩

/-- A sign ends in front of a blank. -/
theorem scan_sign {t : Terminal} (h : t ∈ Terminal.signs) :
    ∃ c others, t.spelling.toList = c :: others ∧ isBlank c = false ∧
      ∀ behind : List Char, (∀ d ∈ behind.head?, isBlank d = true) →
        scan c (others ++ behind) = .token (.terminal t) (c :: others) behind := by
  have hmore {behind : List Char} {c : Char} (hc : isBlank c = false) (hbehind : ∀ d ∈ behind.head?,
      isBlank d = true) :
      ∀ more, behind ≠ c :: more := by
    rintro more rfl
    simp [hbehind c rfl] at hc
  have hequals (plain withEquals : Terminal) (c : Char) {behind : List Char}
      (hbehind : ∀ d ∈ behind.head?, isBlank d = true) :
      scanEquals plain withEquals c behind = .token (.terminal plain) [c] behind := by
    unfold scanEquals
    split
    · next rest => exact absurd rfl (hmore (by decide) hbehind rest)
    · rfl
  have hdots (c : Char) {behind : List Char} (hbehind : ∀ d ∈ behind.head?, isBlank d = true) :
      scanDots c behind = .token (.terminal .dot) [c] behind := by
    unfold scanDots
    split
    · next rest => exact absurd rfl (hmore (by decide) hbehind rest)
    · rfl
  cases t with
  | less => exact ⟨'<', [], rfl, by decide, fun behind hb => hequals .less .lessEqual '<' hb⟩
  | greater =>
    exact ⟨'>', [], rfl, by decide, fun behind hb => hequals .greater .greaterEqual '>' hb⟩
  | assign => exact ⟨'=', [], rfl, by decide, fun behind hb => hequals .assign .equals '=' hb⟩
  | dot => exact ⟨'.', [], rfl, by decide, fun behind hb => hdots '.' hb⟩
  | leftParen | rightParen | comma | colon | plus | minus | star | slash | dots | lessEqual |
      greaterEqual | equals
  | notEquals => exact ⟨_, _, rfl, by decide, fun _ _ => rfl⟩
  | _ => exact absurd h (by decide)

theorem scan_number (whole : Digits) (fraction : Option Digits) {value : Float}
    (hvalue : value = Decimal.ofDigits whole.chars (fraction.elim [] Digits.chars)) :
    ∃ c others, (Lexeme.number whole fraction).text = c :: others ∧ isBlank c = false ∧
      ∀ behind : List Char, (∀ d ∈ behind.head?, isBlank d = true) →
        scan c (others ++ behind) = .token (.number value) (c :: others) behind := by
  obtain ⟨chars, hne, hdigits⟩ := whole
  cases chars with
  | nil => exact absurd rfl hne
  | cons c others =>
      have hc : c.isDigit = true := hdigits c (by simp)
      have hothers : ∀ d ∈ others, d.isDigit = true := fun d hd => hdigits d (by simp [hd])
      have hscan (rest : List Char) : scan c rest = scanNumber c rest := by
        rw [scan_of_noSign fun d hd => ne_of_mem_leadingSigns hd (.inr hc), if_pos hc]
      have hstops {behind : List Char} (hbehind : ∀ d ∈ behind.head?, isBlank d = true) :
          ∀ d ∈ behind.head?, d.isDigit = false := by
        intro d hd
        by_contra h
        have := (isBlank_eq_false_of_isDigit (by simpa using h)).1
        simp [hbehind d hd] at this
      cases fraction with
      | none =>
          refine ⟨c, others, rfl, (isBlank_eq_false_of_isDigit hc).1, fun behind hbehind => ?_⟩
          obtain ⟨htake, hdrop⟩ := takeWhile_stops _ hothers (hstops hbehind)
          rw [hscan, hvalue]
          simp only [scanNumber, htake, hdrop]
          split
          · next d tail => exact absurd (hbehind '.' rfl) (by decide)
          · rfl
      | some fraction =>
          obtain ⟨ds, hds, hfraction⟩ := fraction
          refine ⟨c, others ++ '.' :: ds, rfl, (isBlank_eq_false_of_isDigit hc).1,
            fun behind hbehind => ?_⟩
          obtain ⟨htake, hdrop⟩ := takeWhile_stops ('.' :: (ds ++ behind)) hothers (by
            intro d hd
            cases Option.mem_some.mp hd
            decide)
          obtain ⟨d, ds, rfl⟩ := List.exists_cons_of_ne_nil hds
          have hmore : ∀ x ∈ ds, x.isDigit = true := fun x hx => hfraction x (by simp [hx])
          obtain ⟨htake', hdrop'⟩ := takeWhile_stops _ hmore (hstops hbehind)
          rw [hscan, hvalue]
          have happ : others ++ '.' :: (d :: ds) ++ behind = others ++
            '.' :: (d :: ds ++ behind) := by simp
          simp only [happ, scanNumber, htake, hdrop]
          simp [hfraction d (by simp), htake', hdrop']

/-- A string of any characters is read up to its closing quote. -/
theorem scanString_written (q : Quote) (value behind : List Char) :
    scanString q.char (value.flatMap q.written ++ q.char :: behind) =
      .closed value (value.flatMap q.written ++ [q.char]) behind := by
  have hquote : q.char ≠ '\n' ∧ q.char ≠ '\\' ∧ unescape q.char = q.char := by cases q <;> decide
  obtain ⟨hline, hslash, hescape⟩ := hquote
  induction value with
  | nil => cases behind <;> simp [scanString, hline]
  | cons c value ih =>
      have hescaped (d : Char) (rest : List Char) :
          scanString q.char ('\\' :: d :: rest) = (scanString q.char rest).push (unescape d)
            ['\\', d] := by
        simp [scanString, hslash.symm]
      rw [List.flatMap_cons, List.append_assoc]
      by_cases hc : c = q.char ∨ c = '\\'
      · have hplain : unescape c = c := by
          rcases hc with rfl | rfl
          · exact hescape
          · decide
        rw [Quote.written, if_pos hc, List.cons_append, List.cons_append, List.nil_append, hescaped,
          ih, hplain]
        rfl
      · by_cases hfeed : c = '\n'
        · subst hfeed
          rw [Quote.written, if_neg hc, if_pos rfl, List.cons_append, List.cons_append,
            List.nil_append, hescaped, ih]
          rfl
        · rw [Quote.written, if_neg hc, if_neg hfeed, List.singleton_append]
          obtain ⟨d, rest, hrest⟩ : ∃ d rest, value.flatMap q.written ++
              q.char :: behind = d :: rest :=
            List.exists_cons_of_ne_nil (by simp)
          rw [not_or] at hc
          rw [hrest, scanString, if_neg hfeed, if_neg hc.1, if_neg hc.2, ← hrest, ih]
          rfl

/-- A text is cut into what is left of it and the carriage returns at its end. -/
theorem exists_dropReturns (text : List Char) : ∃ returns,
    text = dropReturns text ++ List.replicate returns '\r' ∧
    (dropReturns text).getLast? ≠ some '\r' := by
  have hdrop : dropReturns text = text.rdropWhile (· == '\r') := rfl
  rw [hdrop]
  refine ⟨(text.rtakeWhile (· == '\r')).length, ?_, fun hlast => ?_⟩
  · have hreturns :
        text.rtakeWhile (· == '\r') = List.replicate (text.rtakeWhile (· == '\r')).length '\r' :=
      List.eq_replicate_iff.mpr ⟨rfl, fun c hc => by simpa using List.mem_rtakeWhile_imp hc⟩
    rw [← hreturns, List.rdropWhile_append_rtakeWhile]
  · have hstop := List.head?_dropWhile_not (· == '\r') text.reverse
    rw [List.rdropWhile, List.getLast?_reverse] at hlast
    rw [hlast] at hstop
    simp at hstop

/-- Digits, a point and digits are the text of a number without a sign. -/
theorem Lexeme.unsigned?_number (whole : Digits) (fraction : Option Digits) :
    Decimal.unsigned? (Lexeme.number whole fraction).text =
      some (Decimal.ofDigits whole.chars (fraction.elim [] Digits.chars)) := by
  have hwhole : whole.chars.isEmpty = false := by simpa using whole.ne_nil
  cases fraction with
  | none =>
      obtain ⟨htake, hdrop⟩ := takeWhile_stops (p := Char.isDigit) [] whole.isDigit (by simp)
      rw [List.append_nil] at htake hdrop
      simp [text, Decimal.unsigned?, htake, hdrop, hwhole, Decimal.exponent?, Decimal.ofDigits]
  | some fraction =>
      have hpoint : ∀ d ∈ ('.' :: fraction.chars).head?, d.isDigit = false := by simp
      obtain ⟨htake, hdrop⟩ := takeWhile_stops (p := Char.isDigit) _ whole.isDigit hpoint
      obtain ⟨htake', hdrop'⟩ := takeWhile_stops (p := Char.isDigit) [] fraction.isDigit (by simp)
      rw [List.append_nil] at htake' hdrop'
      simp [text, Decimal.unsigned?, htake, hdrop, htake', hdrop', hwhole, Decimal.exponent?,
        Decimal.ofDigits]

/-- Digits, a point and digits are the text of a number. -/
theorem Lexeme.read?_number (whole : Digits) (fraction : Option Digits) :
    Decimal.read? (String.ofList (Lexeme.number whole fraction).text) =
      some (Decimal.ofDigits whole.chars (fraction.elim [] Digits.chars)) := by
  obtain ⟨c, others, htext, hc⟩ : ∃ c others,
      (Lexeme.number whole fraction).text = c :: others ∧ c.isDigit = true := by
    obtain ⟨c, others, hchars⟩ := List.exists_cons_of_ne_nil whole.ne_nil
    have hc : c.isDigit = true := whole.isDigit c (by simp [hchars])
    cases fraction with
    | none => exact ⟨c, others, hchars, hc⟩
    | some fraction => exact ⟨c, others ++ '.' :: fraction.chars, by simp [text, hchars], hc⟩
  have hnumber := Lexeme.unsigned?_number whole fraction
  rw [htext] at hnumber ⊢
  have hminus : c ≠ '-' := ne_of_mem_leadingSigns (by decide) (.inr hc)
  have hplus : c ≠ '+' := ne_of_mem_leadingSigns (by decide) (.inr hc)
  have hlower : c.toLower = c := by
    refine dif_neg ?_
    rintro ⟨hlow, -⟩
    have hhigh := (isDigit_toNat hc).2
    have : 0x41 ≤ c.toNat := UInt32.le_iff_toNat_le.mp hlow
    omega
  -- a digit begins none of the names that a number may have
  have hname (name : String) (hd : ∀ d ∈ name.toList.head?, d.isDigit = false) :
      String.ofList ((c :: others).map Char.toLower) ≠ name := by
    rintro rfl
    have := hd c (by simp [hlower])
    simp [hc] at this
  simp only [Decimal.read?, String.toList_ofList]
  split
  · next h =>
      cases h
      exact absurd rfl hminus
  · next h =>
      cases h
      exact absurd rfl hplus
  · simp only [Bool.false_eq_true, if_false]
    split
    · next h => exact absurd h (hname "inf" (by simp))
    · next h => exact absurd h (hname "infinity" (by simp))
    · next h => exact absurd h (hname "nan" (by simp))
    · simp [hnumber]

/-- Characters in front of which a lexeme ends: a blank, behind a comment a line feed, or none at
all. -/
structure Lexeme.EndsBefore (l : Lexeme) (behind : List Char) : Prop where
  blank : ∀ c ∈ behind.head?, isBlank c = true
  lineFeed : ∀ text h, l = .comment text h → ∀ c ∈ behind.head?, c = '\n'

theorem Lexeme.Parts.endsBefore {l : Lexeme} {gap : List Char} (h : l.Parts gap) :
    l.EndsBefore gap :=
  ⟨fun c hc => h.blank c (List.mem_of_head? hc), h.lineFeed⟩

theorem Lexeme.Parts.endsBefore_append {l : Lexeme} {gap : List Char} (h : l.Parts gap)
    (hne : gap ≠ []) (behind : List Char) : l.EndsBefore (gap ++ behind) := by
  obtain ⟨c, gap, rfl⟩ := List.exists_cons_of_ne_nil hne
  exact ⟨h.endsBefore.blank, h.lineFeed⟩

/-- A lexeme is read as the token that it stands for, in front of blanks that may stand behind
it. -/
theorem Lexeme.scan_text (l : Lexeme) : ∃ c others t, l.text = c :: others ∧ isBlank c = false ∧
    l.Means t ∧
    ∀ behind : List Char, l.EndsBefore behind →
    scan c (others ++ behind) = .token t l.text behind := by
  cases l with
  | terminal t =>
      rcases Terminal.mem_words_or_mem_signs t with hword | hsign
      · obtain ⟨c, others, hspelling, hc, hothers, htoken⟩ := isWord_of_mem_words hword
        refine ⟨c, others, .terminal t, hspelling, ?_, .terminal t, fun behind hbehind => ?_⟩
        · by_contra hblank
          have := Text.isWordPart_eq_false_of_isBlank (by simpa using hblank)
          simp [Text.isWordPart_of_isWordStart hc] at this
        · rw [scan_word hc hothers hbehind.blank, ← hspelling, String.ofList_toList, htoken, text,
            hspelling]
      · obtain ⟨c, others, hspelling, hblank, hscan⟩ := scan_sign hsign
        refine ⟨c, others, .terminal t, hspelling, hblank, .terminal t, fun behind hbehind => ?_⟩
        rw [hscan behind hbehind.blank, text, hspelling]
  | identifier w =>
      refine ⟨w.first, w.others, _, rfl, ?_, .identifier w, fun behind hbehind => ?_⟩
      · by_contra hblank
        have := Text.isWordPart_eq_false_of_isBlank (by simpa using hblank)
        simp [Text.isWordPart_of_isWordStart w.starts] at this
      · have hfree : Terminal.ofWord? (String.ofList (w.first :: w.others)) = none := by
          apply List.find?_eq_none.mpr
          intro t ht hspelling
          apply w.free t ht
          rw [eq_of_beq hspelling, String.toList_ofList]
        rw [scan_word w.starts w.goesOn hbehind.blank, wordToken, hfree]
        rfl
  | number whole fraction =>
      obtain ⟨c, others, htext, hblank, hscan⟩ := scan_number whole fraction rfl
      refine ⟨c, others, _, htext, hblank, .number (read?_number whole fraction),
        fun behind hbehind => ?_⟩
      rw [hscan behind hbehind.blank, htext]
  | comment text oneLine =>
      obtain ⟨returns, htext, hkept⟩ := exists_dropReturns text
      refine ⟨'#', text, _, rfl, by decide, .comment returns htext hkept, fun behind hbehind => ?_⟩
      obtain ⟨htake, hdrop⟩ := takeWhile_stops (p := (· != '\n')) behind
        (fun c (hc : c ∈ text) => by
          rw [bne_iff_ne]
          rintro rfl
          exact oneLine hc)
        (fun d hd => by simpa using hbehind.lineFeed text oneLine rfl d hd)
      show scanComment '#' (text ++ behind) = _
      rw [scanComment, htake, hdrop]
      rfl
  | string q value =>
      refine ⟨q.char, _, _, rfl, by cases q <;> decide, .string q value, fun behind _ => ?_⟩
      have hscan : ∀ rest, scan q.char rest = scanQuoted q.char rest :=
        fun rest => by cases q <;> rfl
      have happ : value.flatMap q.written ++ [q.char] ++ behind = value.flatMap q.written ++
        q.char :: behind := by simp
      rw [hscan, happ, scanQuoted, scanString_written]
      rfl

/-! ## Rows of lexemes -/

theorem tokensFrom_blank (pos : Position) {gap : List Char} (h : ∀ c ∈ gap, isBlank c = true) :
    tokensFrom pos gap = .ok [⟨.endOfInput, ⟨pos.after gap, pos.after gap⟩⟩] := by
  have htake : gap.takeWhile isBlank = gap := List.takeWhile_eq_self_iff.mpr h
  have hdrop : gap.dropWhile isBlank = [] := List.dropWhile_eq_nil_iff.mpr h
  rw [tokensFrom]
  dsimp only
  rw [htake]
  split
  · rfl
  · next h => cases hdrop.symm.trans h

namespace Lexeme

/-- A row of lexemes behind blanks is read as the tokens that they stand for. -/
theorem Row.tokensFrom {ls : List Lexeme} {text : List Char} (h : Row ls text) (pos : Position)
    {lead : List Char} (hlead : ∀ c ∈ lead, isBlank c = true) :
    ∃ ts us, tokensFrom pos (lead ++ text) = .ok ts ∧ ts.map (·.token) = us ++ [.endOfInput] ∧
      List.Forall₂ Means ls us := by
  induction h generalizing pos lead with
  | nil =>
      rw [List.append_nil]
      exact ⟨_, [], tokensFrom_blank pos hlead, rfl, .nil⟩
  | @last l gap hgap =>
      obtain ⟨c, others, t, htext, hc, hmeans, hscan⟩ := l.scan_text
      have hread := hscan gap hgap.endsBefore
      have hrest := tokensFrom_blank ((pos.after lead).after l.text) hgap.blank
      rw [htext, List.cons_append]
      exact ⟨_, [t], tokensFrom_next pos hlead hc hread hrest, rfl, .cons hmeans .nil⟩
  | @next l m ls gap text hgap hne _ ih =>
      obtain ⟨c, others, t, htext, hc, hmeans, hscan⟩ := l.scan_text
      have hread := hscan (gap ++ text) (hgap.endsBefore_append hne text)
      obtain ⟨ts, us, hts, htokens, hall⟩ := ih ((pos.after lead).after l.text) hgap.blank
      have happ : lead ++ (l.text ++ gap ++ text) = lead ++ c :: (others ++ (gap ++ text)) := by
        rw [htext, List.append_assoc, List.cons_append]
      rw [happ]
      exact ⟨_, t :: us, tokensFrom_next pos hlead hc hread hts,
        by simp [htokens], .cons hmeans hall⟩

/-- **Reading undoes writing, for tokens.** Lexemes in a row, with blanks between them and perhaps
around them, are read as the tokens that they stand for, in their order, and the end of input. -/
theorem lexemes_recovered {ls : List Lexeme} {lead text : List Char}
    (hlead : ∀ c ∈ lead, isBlank c = true) (h : Row ls text) :
    ∃ ts us, tokens (String.ofList (lead ++ text)) = .ok ts ∧
      ts.map (·.token) = us ++ [.endOfInput] ∧
      List.Forall₂ Means ls us := by
  rw [tokens, String.toList_ofList]
  exact h.tokensFrom .start hlead

/-- A name, a sign, a string with its quote and a line feed in it, a comment, and a number. -/
def mixed : List Lexeme := [
  .identifier
    ⟨'é', ['_', '1'], by decide, by simp; decide, by simp [Terminal.words, Terminal.spelling]⟩,
  .terminal .assign,
  .string .single ['\'', '\n'],
  .comment [' ', 'c', '\r'] (by simp),
  .number ⟨['1'], by simp, by simp⟩ (some ⟨['5'], by simp, by simp⟩)]

theorem lexemes_recovered_mixed : Row mixed "é_1 =\t'\\'\\n' # c\r\n 1.5\n".toList ∧
    ∃ ts us, tokens (String.ofList ([' '] ++ "é_1 =\t'\\'\\n' # c\r\n 1.5\n".toList)) = .ok ts ∧
      ts.map (·.token) = us ++ [.endOfInput] ∧ List.Forall₂ Means mixed us := by
  have hparts {l : Lexeme} {gap : List Char} (hgap : gap.all isBlank = true)
      (hl : ∀ text h, l ≠ .comment text h) :
      l.Parts gap := ⟨List.all_eq_true.mp hgap, fun text h heq => absurd heq (hl text h)⟩
  have hcomment {text : List Char} {h : '\n' ∉ text} : (comment text h).Parts ['\n', ' '] :=
    ⟨by simp; decide, by simp⟩
  have hrow : Row mixed "é_1 =\t'\\'\\n' # c\r\n 1.5\n".toList :=
    @Row.next _ _ _ [' '] _ (hparts rfl nofun) nofun <|
      @Row.next _ _ _ ['\t'] _ (hparts rfl nofun) nofun <|
      @Row.next _ _ _ [' '] _ (hparts rfl nofun) nofun <|
        @Row.next _ _ _ ['\n', ' '] _ hcomment nofun <|
        @Row.last _ ['\n'] (hparts rfl nofun)
  exact ⟨hrow, lexemes_recovered (by simp; rfl) hrow⟩

end Lexeme

end Stepwise
