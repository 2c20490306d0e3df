import Mathlib.Data.List.TakeWhile
import Stepwise.Proofs.Diagnosed
import Stepwise.Proofs.Source.Places
import Stepwise.Token.Lexer

/-!
# Tokens tile their source

Reading a source leaves no character out: it is a row of blanks and tokens, and the spans of the
tokens are the places where they stand (`Tiles`, `tokensFrom_tiles`). Which token is read from some
characters does not depend on what stands behind them, so that these characters make the same token
when they stand alone (`scan_alone`).

**Tiling** (`tokens_tiled`): the spans of the tokens of a source are places of it, in order and
apart, with only blanks outside; the text of each is read as this token and the end of input, which
comes last and nowhere else.
-/

set_option autoImplicit false

namespace Stepwise

open Diagnosed
open String (utf8Len)

/-! ## Tokens that stand alone -/

/-- Reading that makes the same token, which is not the end of input, of the characters taken
alone. -/
def ReadsAlone (c : Char) (read : List Char → Scan) : Prop :=
  ∀ ⦃rest t taken left⦄, read rest = .token t taken left →
    t ≠ .endOfInput ∧ ∃ others, taken = c :: others ∧ read others = .token t taken []

/-- Reading that makes the same token, which is not the end of input, of the characters taken,
whatever of the characters left stands behind them. -/
def ReadsAhead (c : Char) (read : List Char → Scan) : Prop :=
  ∀ ⦃rest t taken left⦄, read rest = .token t taken left →
    t ≠ .endOfInput ∧ ∃ others, taken = c :: others ∧
      ∀ ⦃ahead⦄, ahead <+: left → read (others ++ ahead) = .token t taken ahead

theorem ReadsAhead.alone {c : Char} {read : List Char → Scan} (h : ReadsAhead c read) :
    ReadsAlone c read := by
  intro rest t taken left hread
  obtain ⟨hend, others, hothers, hahead⟩ := h hread
  exact ⟨hend, others, hothers, by simpa using hahead List.nil_prefix⟩

/-- A character of appended texts is one of the first or one of the second. -/
theorem append_eq_append_cons {xs ys front back : List Char} {c : Char}
    (h : xs ++ ys = front ++ c :: back) :
    (∃ more, xs = front ++ c :: more) ∨ ∃ front', front = xs ++ front' ∧
    ys = front' ++ c :: back := by
  rcases List.append_eq_append_iff.mp h with ⟨front', hfront, hys⟩ | ⟨more, hxs, hmore⟩
  · exact .inr ⟨front', hfront, hys⟩
  · cases more with
    | nil => exact .inr ⟨[], by simpa using hxs.symm, by simpa using hmore.symm⟩
    | cons d more =>
        cases hmore
        exact .inl ⟨more, hxs⟩

/-- Taking characters while they have a property stops in front of one that has not, and at the
end. -/
theorem takeWhile_stops {p : Char → Bool} {front : List Char} (behind : List Char)
    (hfront : ∀ c ∈ front, p c = true) (hbehind : ∀ c ∈ behind.head?, p c = false) :
    (front ++ behind).takeWhile p = front ∧ (front ++ behind).dropWhile p = behind := by
  rw [List.takeWhile_append_of_pos hfront, List.dropWhile_append_of_pos hfront]
  cases behind with
  | nil => simp
  | cons c behind => simp [hbehind c rfl]

/-- What is taken while it has a property is taken also where the text breaks off further behind. -/
theorem takeWhile_ahead {p : Char → Bool} {text ahead : List Char}
    (h : ahead <+: text.dropWhile p) :
    (text.takeWhile p ++ ahead).takeWhile p = text.takeWhile p ∧
      (text.takeWhile p ++ ahead).dropWhile p = ahead := by
  refine takeWhile_stops ahead (fun _ => List.mem_takeWhile_imp) fun c hc => ?_
  obtain ⟨behind, hbehind⟩ := h
  obtain ⟨others, rfl⟩ := List.head?_eq_some_iff.mp hc
  simpa [← hbehind] using List.head?_dropWhile_not p text

/-- A prefix does not start with a character that the text does not start with. -/
theorem prefix_ne_cons {text ahead more : List Char} {c : Char} (h : ahead <+: text)
    (hne : ∀ others, text = c :: others → False) : ahead ≠ c :: more := by
  rintro rfl
  obtain ⟨behind, rfl⟩ := h
  exact hne _ rfl

theorem scanComment_ahead (c : Char) : ReadsAhead c (scanComment c) := by
  rintro rest t taken left ⟨⟩
  refine ⟨by simp, _, rfl, fun ahead hahead => ?_⟩
  obtain ⟨htake, hdrop⟩ := takeWhile_ahead hahead
  simp only [scanComment, htake, hdrop]

theorem wordToken_ne_endOfInput (word : String) : wordToken word ≠ .endOfInput := by
  unfold wordToken
  split <;> nofun

theorem scanWord_ahead (c : Char) : ReadsAhead c (scanWord c) := by
  rintro rest t taken left ⟨⟩
  refine ⟨wordToken_ne_endOfInput _, _, rfl, fun ahead hahead => ?_⟩
  obtain ⟨htake, hdrop⟩ := takeWhile_ahead hahead
  simp only [scanWord, htake, hdrop]

theorem scanSign_ahead (c : Char) (sign : Terminal) :
    ReadsAhead c fun rest => .token (.terminal sign) [c] rest := by
  rintro rest t taken left ⟨⟩
  exact ⟨by simp, [], rfl, fun _ _ => rfl⟩

theorem scanDots_ahead (c : Char) : ReadsAhead c (scanDots c) := by
  intro rest t taken left h
  unfold scanDots at h
  split at h <;> cases h
  · exact ⟨by simp, ['.'], rfl, fun _ _ => rfl⟩
  · next hne =>
      refine ⟨by simp, [], rfl, fun ahead hahead => ?_⟩
      unfold scanDots
      split
      · next hdot => exact absurd hdot (prefix_ne_cons hahead hne)
      · rfl

theorem scanEquals_ahead (plain withEquals : Terminal) (c : Char) :
    ReadsAhead c (scanEquals plain withEquals c) := by
  intro rest t taken left h
  unfold scanEquals at h
  split at h <;> cases h
  · exact ⟨by simp, ['='], rfl, fun _ _ => rfl⟩
  · next hne =>
      refine ⟨by simp, [], rfl, fun ahead hahead => ?_⟩
      unfold scanEquals
      split
      · next hequals => exact absurd hequals (prefix_ne_cons hahead hne)
      · rfl

theorem scanExclamation_ahead (c : Char) : ReadsAhead c (scanExclamation c) := by
  intro rest t taken left h
  unfold scanExclamation at h
  split at h <;> cases h
  exact ⟨by simp, ['='], rfl, fun _ _ => rfl⟩

/-- A string ends where it does whatever stands behind. -/
theorem scanString_ahead {quote : Char} {text v taken rest : List Char}
    (h : scanString quote text = .closed v taken rest) (ahead : List Char) :
    scanString quote (taken ++ ahead) = .closed v taken ahead := by
  have hquote {c : Char} (hc : c ≠ '\n') (ahead : List Char) :
      scanString c (c :: ahead) = .closed [] [c] ahead := by
    cases ahead <;> simp [scanString, hc]
  fun_induction scanString quote text generalizing v taken rest ahead with
  | case1 | case2 | case4 | case5 => cases h
  | case3 hc =>
      cases h
      exact hquote hc ahead
  | case6 d rest hc =>
      cases h
      exact hquote hc ahead
  | case7 d rest hc hq ih =>
      obtain ⟨v', taken', hs, rfl, rfl⟩ := StringScan.push_eq_closed h
      simp [scanString, hq, ih hs ahead, StringScan.push]
  | case8 c d rest hc hq hb ih =>
      obtain ⟨v', taken', hs, rfl, rfl⟩ := StringScan.push_eq_closed h
      cases taken' with
      | nil => cases ih hs []
      | cons e others =>
          have hrest := ih hs ahead
          simp only [List.cons_append] at hrest
          simp [scanString, hc, hq, hb, hrest, StringScan.push]

theorem scanQuoted_ahead (c : Char) : ReadsAhead c (scanQuoted c) := by
  intro rest t taken left h
  unfold scanQuoted at h
  split at h <;> cases h
  next hs =>
    refine ⟨by simp, _, rfl, fun ahead _ => ?_⟩
    simp only [scanQuoted, scanString_ahead hs ahead]

/-- Digits are a number without a fraction in front of what is no fraction. -/
theorem scanNumber_digits (c : Char) {text ahead : List Char}
    (hahead : ahead <+: text.dropWhile Char.isDigit)
    (hfraction : ∀ d tail, ahead = '.' :: d :: tail → d.isDigit = false) :
    scanNumber c (text.takeWhile Char.isDigit ++ ahead) =
      .token (.number (Decimal.ofDigits (c :: text.takeWhile Char.isDigit) []))
        (c :: text.takeWhile Char.isDigit)
        ahead := by
  obtain ⟨htake, hdrop⟩ := takeWhile_ahead hahead
  simp only [scanNumber, htake, hdrop]
  split
  · next d tail => rw [if_neg (by simp [hfraction d tail rfl])]
  · rfl

theorem scanNumber_ahead (c : Char) : ReadsAhead c (scanNumber c) := by
  intro rest t taken left h
  have hpoint : ('.' : Char).isDigit = false := rfl
  unfold scanNumber at h
  split at h
  · next d tail hdrop =>
      split at h <;> cases h
      · next hd =>
          refine ⟨by simp, _, rfl, fun ahead hahead => ?_⟩
          obtain ⟨htake, hbehind⟩ := takeWhile_ahead hahead
          have hwhole : ∀ x ∈ rest.takeWhile Char.isDigit, x.isDigit = true :=
            fun _ => List.mem_takeWhile_imp
          simp [scanNumber, List.takeWhile_append_of_pos hwhole, List.dropWhile_append_of_pos
            hwhole, hpoint, hd, htake, hbehind]
      · next hd =>
          refine ⟨by simp, _, rfl, fun ahead hahead => ?_⟩
          refine scanNumber_digits c (hdrop ▸ hahead) ?_
          rintro e tail' rfl
          simp only [List.cons_prefix_cons] at hahead
          simpa [hahead.2.1] using hd
  · next after hafter =>
      cases h
      refine ⟨by simp, _, rfl, fun ahead hahead => scanNumber_digits c hahead ?_⟩
      rintro d tail rfl
      obtain ⟨behind, hbehind⟩ := hahead
      exact absurd hbehind.symm (hafter _ _)

/-- Reading that goes one of two ways, whichever the text is. -/
theorem ReadsAhead.ite {c : Char} {p : Prop} [Decidable p] {f g : List Char → Scan}
    (hf : ReadsAhead c f) (hg : ReadsAhead c g) :
    ReadsAhead c fun rest => if p then f rest else g rest := by
  by_cases hp : p
  · simpa only [if_pos hp] using hf
  · simpa only [if_neg hp] using hg

/-- Which token the first characters make does not change where the text breaks off behind them. -/
theorem scan_ahead (c : Char) : ReadsAhead c (scan c) := by
  unfold scan
  refine .ite (scanComment_ahead c) ?_
  cases singleSign? c with
  | some sign => exact scanSign_ahead c sign
  | none =>
      refine .ite (scanDots_ahead c) (.ite (scanEquals_ahead _ _ c) (.ite (scanEquals_ahead _ _ c)
        (.ite (scanEquals_ahead _ _ c) (.ite (scanExclamation_ahead c) (.ite (scanQuoted_ahead c)
          (.ite (scanNumber_ahead c) (.ite (scanWord_ahead c) ?_)))))))
      intro rest t taken left h
      cases h

/-- Which token the first characters make does not depend on what stands behind them. -/
theorem scan_alone (c : Char) : ReadsAlone c (scan c) := (scan_ahead c).alone

/-! ## Tiles -/

/-- Tokens one behind the other in a text, with blanks between them, when some characters come
before. Each is read from its characters alone; the end of input is read behind them. -/
inductive Tiles : List Char → List Char → List SourceToken → Prop where
  | done {before blanks : List Char} (hblanks : ∀ c ∈ blanks, Text.isBlank c = true) :
      Tiles before blanks [⟨.endOfInput, ⟨.behind (before ++ blanks), .behind (before ++ blanks)⟩⟩]
  | next {before blanks others rest : List Char} {c : Char} {t : Token} {tail : List SourceToken}
      (hblanks : ∀ c ∈ blanks, Text.isBlank c = true) (hstart : Text.isBlank c = false)
      (hread : scan c others = .token t (c :: others) [])
      (htail : Tiles (before ++ blanks ++ c :: others) rest tail) :
      Tiles before (blanks ++ c :: others ++ rest)
        (⟨t, ⟨.behind (before ++ blanks), .behind (before ++ blanks ++ c :: others)⟩⟩ :: tail)

/-- Reading a text cuts it into tiles. -/
theorem tokensFrom_tiles (before text : List Char) {ts : List SourceToken}
    (h : tokensFrom (.behind before) text = .ok ts) : Tiles before text ts := by
  have hblanks : ∀ c ∈ text.takeWhile Text.isBlank, Text.isBlank c = true :=
    fun _ => List.mem_takeWhile_imp
  have htext := List.takeWhile_append_dropWhile (p := Text.isBlank) (l := text)
  rw [tokensFrom] at h
  dsimp only at h
  rw [Position.after_behind] at h
  split at h
  · next hdrop =>
      cases h
      rw [hdrop, List.append_nil] at htext
      rw [htext] at hblanks ⊢
      exact .done hblanks
  · next c rest hdrop =>
      have hstart : Text.isBlank c = false := by
        simpa [hdrop] using List.head?_dropWhile_not Text.isBlank text
      split at h
      · cases h
      · next t taken left hscan =>
          obtain ⟨others, hothers, h⟩ := bind_eq_ok.mp h
          cases h
          rw [Position.after_behind] at hothers ⊢
          obtain ⟨-, more, rfl, hread⟩ := scan_alone c hscan
          have hshort : left.length < text.length :=
            Nat.lt_of_lt_of_le (hdrop ▸ scan_rest_length_lt hscan)
              (List.dropWhile_suffix _).length_le
          have htail := tokensFrom_tiles _ left hothers
          have happ : text.takeWhile Text.isBlank ++ c :: more ++ left = text := by
            rw [List.append_assoc, scan_taken_append_rest hscan, ← hdrop, htext]
          simpa only [happ] using Tiles.next hblanks hstart hread htail
termination_by text.length

namespace Tiles

variable {before text : List Char} {ts : List SourceToken}

/-- No tile starts in what comes before. -/
theorem start_ge (h : Tiles before text ts) : ∀ t ∈ ts, utf8Len before ≤ t.span.start.offset := by
  induction h with
  | done => simp
  | next _ _ _ _ ih =>
      intro t ht
      rcases List.mem_cons.mp ht with rfl | ht
      · simp
      · have := ih t ht
        simp only [String.utf8Len_append] at this
        omega

/-- Tiles are in order and apart. -/
theorem ordered (h : Tiles before text ts) :
    ts.Pairwise fun t u => t.span.stop.offset ≤ u.span.start.offset := by
  induction h with
  | done => simp
  | next _ _ _ htail ih => exact .cons (fun u hu => htail.start_ge u hu) ih

/-- A tile is a token read from the characters at its span, or the end of input behind the last
character. -/
theorem read (h : Tiles before text ts) : ∀ t ∈ ts, ∃ front taken rest,
    before ++ text = front ++ taken ++ rest ∧ t.span = ⟨.behind front, .behind (front ++ taken)⟩ ∧
      (t.token = .endOfInput ∨
        ∃ c others, taken = c :: others ∧ Text.isBlank c = false ∧
        scan c others = .token t.token taken []) := by
  induction h with
  | @done before blanks _ =>
      intro t ht
      cases List.mem_singleton.mp ht
      exact ⟨before ++ blanks, [], [], by simp, by simp, .inl rfl⟩
  | @next before blanks others rest c t tail _ hstart hread _ ih =>
      intro u hu
      rcases List.mem_cons.mp hu with rfl | hu
      · exact ⟨before ++ blanks, c :: others, rest,
          by simp, rfl, .inr ⟨c, others, rfl, hstart, hread⟩⟩
      · obtain ⟨front, taken, back, happ, hspan, htoken⟩ := ih u hu
        exact ⟨front, taken, back, by simpa using happ, hspan, htoken⟩

/-- What no tile covers is blank. -/
theorem blank (h : Tiles before text ts) {front back : List Char} {c : Char}
    (htext : text = front ++ c :: back)
    (hfree : ∀ t ∈ ts, ¬ t.span.Covers (utf8Len (before ++ front))) : Text.isBlank c = true := by
  induction h generalizing front with
  | done hblanks => exact hblanks c (by simp [htext])
  | @next before blanks others rest d t tail hblanks _ _ _ ih =>
      -- in the blanks, in the token, or behind it
      rw [List.append_assoc] at htext
      rcases append_eq_append_cons htext with ⟨more, rfl⟩ | ⟨front, rfl, htoken⟩
      · exact hblanks c (by simp)
      rcases append_eq_append_cons htoken with ⟨more, hmore⟩ | ⟨front, rfl, hrest⟩
      · refine absurd ⟨?_, ?_⟩ (hfree _ List.mem_cons_self)
        · simp [← Nat.add_assoc]
        · have := c.utf8Size_pos
          simp only [hmore, Position.behind_offset, String.utf8Len_append, String.utf8Len_cons]
          omega
      · refine ih hrest fun u hu => ?_
        simpa using hfree u (List.mem_cons_of_mem _ hu)

/-- The end of input is the last tile and no other. -/
theorem ends (h : Tiles before text ts) : ∃ others,
    ts = others ++ [⟨.endOfInput, ⟨.behind (before ++ text), .behind (before ++ text)⟩⟩] ∧
      ∀ t ∈ others, t.token ≠ .endOfInput := by
  induction h with
  | done => exact ⟨[], rfl, nofun⟩
  | @next before blanks others rest c t tail _ _ hread _ ih =>
      obtain ⟨inner, rfl, hinner⟩ := ih
      refine ⟨⟨t, ⟨.behind (before ++ blanks), .behind (before ++ blanks ++ c :: others)⟩⟩ :: inner,
        by simp, ?_⟩
      intro u hu
      rcases List.mem_cons.mp hu with rfl | hu
      · exact (scan_alone c hread).1
      · exact hinner u hu

end Tiles

/-! ## One token alone -/

theorem tokensFrom_nil (pos : Position) : tokensFrom pos [] = .ok [⟨.endOfInput, ⟨pos, pos⟩⟩] := by
  rw [tokensFrom]
  rfl

/-- A token behind blanks is read first. -/
theorem tokensFrom_next (pos : Position) {blanks others taken left : List Char} {c : Char}
    {t : Token} {ts : List SourceToken} (hblanks : ∀ c ∈ blanks, Text.isBlank c = true)
    (hstart : Text.isBlank c = false) (hread : scan c others = .token t taken left)
    (htail : tokensFrom ((pos.after blanks).after taken) left = .ok ts) :
    tokensFrom pos (blanks ++ c :: others) =
      .ok (⟨t, ⟨pos.after blanks, (pos.after blanks).after taken⟩⟩ :: ts) := by
  have htake : (blanks ++ c :: others).takeWhile Text.isBlank = blanks := by
    rw [List.takeWhile_append_of_pos hblanks]
    simp [hstart]
  have hdrop : (blanks ++ c :: others).dropWhile Text.isBlank = c :: others := by
    rw [List.dropWhile_append_of_pos hblanks]
    simp [hstart]
  rw [tokensFrom]
  dsimp only
  rw [htake]
  split
  · next h => cases hdrop.symm.trans h
  · next h =>
      cases hdrop.symm.trans h
      split
      · next h => cases hread.symm.trans h
      · next h =>
          cases hread.symm.trans h
          rw [htail]
          rfl

/-- Characters that make a token are read as this token and the end of input. -/
theorem tokensFrom_of_scan (pos : Position) {c : Char} {others : List Char} {t : Token}
    (hstart : Text.isBlank c = false) (hread : scan c others = .token t (c :: others) []) :
    tokensFrom pos (c :: others) =
      .ok [⟨t, ⟨pos, pos.after (c :: others)⟩⟩,
        ⟨.endOfInput, ⟨pos.after (c :: others), pos.after (c :: others)⟩⟩] := by
  have hblanks : ∀ c ∈ [], Text.isBlank c = true := nofun
  exact tokensFrom_next pos hblanks hstart hread (tokensFrom_nil _)

/-! ## Whole sources -/

/-- What the tokens of a source are to it. -/
structure Tiled (source : String) (ts : List SourceToken) : Prop where
  /-- Each token ends before the next one starts. -/
  ordered : ts.Pairwise fun t u => t.span.stop.offset ≤ u.span.start.offset
  /-- Spans lie between places of the source. -/
  placed : ∀ t ∈ ts, t.span.start.LiesIn source ∧ t.span.stop.LiesIn source
  /-- What no span covers is blank. -/
  blank : ∀ before c rest, source.toList = before ++ c :: rest →
    (∀ t ∈ ts, ¬ t.span.Covers (utf8Len before)) → Text.isBlank c = true
  /-- The end of input comes last and nowhere else, behind the last character. -/
  ends : ∃ others, ts = others ++ [⟨.endOfInput, ⟨.behind source.toList, .behind source.toList⟩⟩] ∧
    ∀ t ∈ others, t.token ≠ .endOfInput
  /-- The text of a token is some text, read as the token and the end of input. -/
  alone : ∀ t ∈ ts, t.token ≠ .endOfInput → t.span.start.offset < t.span.stop.offset ∧
    let stop := Position.behind (t.span.text source).toList
    tokens (t.span.text source) = .ok [⟨t.token, ⟨.start, stop⟩⟩, ⟨.endOfInput, ⟨stop, stop⟩⟩]

/-- **The tokens of a source tile it.** -/
theorem tokens_tiled {source : String} {ts : List SourceToken} (h : tokens source = .ok ts) :
    Tiled source ts := by
  have htiles : Tiles [] source.toList ts := tokensFrom_tiles [] source.toList h
  refine ⟨htiles.ordered, ?_, ?_, by simpa using htiles.ends, ?_⟩
  · intro t ht
    obtain ⟨front, taken, rest, happ, hspan, -⟩ := htiles.read t ht
    rw [List.nil_append] at happ
    rw [hspan]
    exact ⟨⟨front, taken ++ rest, by rw [happ, List.append_assoc], rfl⟩,
      ⟨front ++ taken, rest, happ, rfl⟩⟩
  · intro before c rest hsource hfree
    exact htiles.blank hsource (by simpa using hfree)
  · intro t ht hend
    obtain ⟨front, taken, rest, happ, hspan, htoken⟩ := htiles.read t ht
    obtain ⟨c, others, rfl, hstart, hread⟩ := htoken.resolve_left hend
    have hpos := c.utf8Size_pos
    rw [hspan, Span.text_eq happ, String.toList_ofList, tokens, String.toList_ofList,
      tokensFrom_of_scan _ hstart hread, Position.start_after]
    refine ⟨?_, rfl⟩
    simp only [Position.behind_offset, String.utf8Len_append, String.utf8Len_cons]
    omega

/-- A source with a two-byte letter, a string over two lines, blanks and a comment. -/
def twoLinesSource : String := "é = 'a\\\nb' # c\n"

/-- It has five tokens, with the comment and the end of the source. -/
theorem tokens_tiled_twoLines : ∃ ts, tokens twoLinesSource = .ok ts ∧ ts.length = 5 ∧
    Tiled twoLinesSource ts := by
  have hlength : (tokens twoLinesSource).map List.length = .ok 5 := by decide +kernel
  obtain ⟨ts, htokens, hlength⟩ := map_eq_ok.mp hlength
  exact ⟨ts, htokens, hlength, tokens_tiled htokens⟩

end Stepwise
