import Stepwise.Proofs.Token.Tiling

/-!
# Slices of a source

A stretch of the tokens of a source can be read on its own. The text from the start of its first to
the end of its last token is read as the same tokens, at other places, and the end of input
(`tokens_slice`).

That a token is read from its characters alone does not suffice for this, since two signs side by
side may make one token. What is passed token after token is kept with what it leaves (`Passes`),
and reading what was passed alone makes the same tokens, because each of them is read where the text
breaks off as well (`scan_ahead`).
-/

set_option autoImplicit false

namespace Stepwise

open Diagnosed

/-! ## Passing tokens -/

/-- Reading passes these tokens of a text, with the blanks in front of each, when some characters
come before, and leaves the others of the text. -/
inductive Passes : List Char → List Char → List SourceToken → List Char → Prop where
  | done {before text : List Char} : Passes before text [] text
  | next {before blanks others taken left rest : List Char} {c : Char} {t : Token}
      {ts : List SourceToken}
      (hblanks : ∀ c ∈ blanks, Text.isBlank c = true) (hstart : Text.isBlank c = false)
      (hread : scan c others = .token t taken left)
      (htail : Passes (before ++ blanks ++ taken) left ts rest) :
      Passes before (blanks ++ c :: others)
        (⟨t, ⟨.behind (before ++ blanks), .behind (before ++ blanks ++ taken)⟩⟩ :: ts) rest

/-- Reading a text passes its tokens up to the end of input. -/
theorem tokensFrom_passes (before text : List Char) {ts : List SourceToken} {fin : SourceToken}
    (h : tokensFrom (.behind before) text = .ok (ts ++ [fin])) :
    ∃ rest, Passes before text ts rest := by
  have hblanks : ∀ c ∈ text.takeWhile Text.isBlank, Text.isBlank c = true :=
    fun _ => List.mem_takeWhile_imp
  rw [tokensFrom] at h
  dsimp only at h
  rw [Position.after_behind] at h
  split at h
  · cases ts with
    | nil => exact ⟨text, .done⟩
    | cons t ts => simp at h
  · next c others hdrop =>
      have hstart : Text.isBlank c = false := by
        simpa [hdrop] using List.head?_dropWhile_not Text.isBlank text
      split at h
      · cases h
      · next t taken left hscan =>
          obtain ⟨tail, htail, h⟩ := bind_eq_ok.mp h
          cases ts with
          | nil => exact ⟨text, .done⟩
          | cons u ts =>
              cases h
              rw [Position.after_behind] at htail ⊢
              have hshort : left.length < text.length :=
                Nat.lt_of_lt_of_le (hdrop ▸ scan_rest_length_lt hscan)
                  (List.dropWhile_suffix _).length_le
              obtain ⟨rest, hrest⟩ := tokensFrom_passes _ left htail
              have htext : text.takeWhile Text.isBlank ++ c :: others = text := by
                rw [← hdrop, List.takeWhile_append_dropWhile]
              exact ⟨rest, by simpa only [htext] using Passes.next hblanks hstart hscan hrest⟩
termination_by text.length

namespace Passes

variable {before text rest : List Char} {ts us : List SourceToken}

/-- Passing a row of tokens is passing the first of them and then the others. -/
theorem split (h : Passes before text (ts ++ us) rest) : ∃ passed mid, text = passed ++ mid ∧
    Passes before text ts mid ∧ Passes (before ++ passed) mid us rest := by
  induction ts generalizing before text with
  | nil => exact ⟨[], text, rfl, .done, by simpa using h⟩
  | cons t ts ih =>
      cases h with
      | @next _ blanks others taken left _ c t _ hblanks hstart hread htail =>
          obtain ⟨passed, mid, hleft, hts, hus⟩ := ih htail
          refine ⟨blanks ++ taken ++ passed, mid, ?_, .next hblanks hstart hread hts, ?_⟩
          · rw [← scan_taken_append_rest hread, hleft]
            simp only [List.append_assoc]
          · simpa only [List.append_assoc] using hus

/-- The text that was passed is passed where nothing stands behind it, and ends where the last token
does. -/
theorem cut (h : Passes before text ts rest) :
    ∃ passed, text = passed ++ rest ∧ Passes before passed ts [] ∧
    ∀ t ∈ ts.getLast?, t.span.stop = .behind (before ++ passed) := by
  induction h with
  | done => exact ⟨[], rfl, .done, by simp⟩
  | @next before blanks others taken left rest c t ts hblanks hstart hread _ ih =>
      obtain ⟨passed, hleft, hpasses, hlast⟩ := ih
      obtain ⟨-, more, rfl, hahead⟩ := scan_ahead c hread
      have hpassed := hahead (hleft ▸ List.prefix_append passed rest)
      refine ⟨blanks ++ c :: (more ++ passed), ?_, .next hblanks hstart hpassed hpasses,
        fun u hu => ?_⟩
      · rw [← scan_taken_append_rest hread, hleft]
        simp only [List.append_assoc, List.cons_append]
      · cases ts with
        | nil =>
            cases hpasses
            cases hu
            simp
        | cons v ts => simpa using hlast u (by simpa using hu)

/-- The blanks in front may be taken to come before. -/
theorem skip {t : SourceToken} (h : Passes before text (t :: ts) rest) :
    ∃ blanks more, text = blanks ++ more ∧ t.span.start = .behind (before ++ blanks) ∧
      Passes (before ++ blanks) more (t :: ts) rest := by
  cases h with
  | @next _ blanks others taken left _ c t _ _ hstart hread htail =>
      refine ⟨blanks, c :: others, rfl, rfl, ?_⟩
      have hpasses : Passes (before ++ blanks) ([] ++ c :: others) _ rest :=
        .next (by simp) hstart hread (by simpa using htail)
      simpa using hpasses

end Passes

/-! ## Reading what was passed -/

/-- Where nothing is left, the tokens that were passed are those of the text. -/
theorem Passes.reads {before text rest : List Char} {ts : List SourceToken}
    (h : Passes before text ts rest) (hrest : rest = []) (pos : Position) :
    ∃ us, tokensFrom pos text = .ok us ∧ us.map (·.token) = ts.map (·.token) ++ [.endOfInput] := by
  induction h generalizing pos with
  | done =>
      subst hrest
      exact ⟨_, tokensFrom_nil pos, rfl⟩
  | @next _ blanks _ taken _ _ _ _ _ hblanks hstart hread _ ih =>
      obtain ⟨us, hus, htokens⟩ := ih hrest ((pos.after blanks).after taken)
      exact ⟨_, tokensFrom_next pos hblanks hstart hread hus, by simp [htokens]⟩

/-! ## Slices -/

/-- A span that runs from the start of the first of some tokens to the end of the last. -/
def Span.RunsOver (s : Span) (ts : List SourceToken) : Prop :=
  ts.head?.map (·.span.start) = some s.start ∧ ts.getLast?.map (·.span.stop) = some s.stop

/-- **Slices of a source are read as the tokens in them.** -/
theorem tokens_slice {source : String} {front own back : List SourceToken} {fin : SourceToken}
    (h : tokens source = .ok (front ++ own ++ back ++ [fin])) {span : Span}
    (hspan : span.RunsOver own) :
    ∃ ts, tokens (span.text source) = .ok ts ∧ ts.map (·.token) = own.map (·.token) ++
      [.endOfInput] := by
  cases own with
  | nil => cases hspan.1
  | cons t own =>
      obtain ⟨rest, hall⟩ := tokensFrom_passes [] source.toList h
      rw [List.append_assoc] at hall
      obtain ⟨before, mid, hsource, -, hmid⟩ := hall.split
      obtain ⟨-, left, -, hown, -⟩ := hmid.split
      obtain ⟨blanks, more, rfl, hstart, hown⟩ := hown.skip
      obtain ⟨taken, rfl, htaken, hstop⟩ := hown.cut
      have hplace : span = ⟨.behind (before ++ blanks), .behind (before ++ blanks ++ taken)⟩ := by
        obtain ⟨last, hlast, hend⟩ := Option.map_eq_some_iff.mp hspan.2
        have hbegin : t.span.start = span.start := Option.some.inj hspan.1
        cases span
        simp only [Span.mk.injEq] at *
        exact ⟨hbegin.symm.trans hstart, hend.symm.trans (hstop last hlast)⟩
      have hcut : source.toList = before ++ blanks ++ taken ++ left := by
        rw [hsource]
        simp only [List.append_assoc]
      rw [hplace, Span.text_eq hcut, tokens, String.toList_ofList]
      exact htaken.reads rfl .start

end Stepwise
