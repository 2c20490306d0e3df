import Stepwise.Compile
import Stepwise.Proofs.Source.Shown
import Stepwise.Proofs.Token.Tiling
import Stepwise.Proofs.Typing.Located

/-!
# Where reading a source text stops

Reading tokens counts positions along the text, so tokens and faults lie in their source
(`tokensFrom_located`), and with them the spans of the program that is read
(`Program.ofSource_located`).
-/

set_option autoImplicit false

namespace Stepwise

open Diagnosed

/-! ## Tokens -/

theorem StringScan.push_eq_cut {s : StringScan} {c : Char} {written taken : List Char}
    (h : s.push c written = .cut taken) : ∃ inner, s = .cut inner ∧ taken = written ++ inner := by
  cases s with
  | closed => cases h
  | cut inner =>
      cases h
      exact ⟨inner, rfl, rfl⟩

/-- A string breaks off behind some of the first characters. -/
theorem prefix_of_scanString_cut {quote : Char} {text taken : List Char}
    (h : scanString quote text = .cut taken) :
    taken <+: text := by
  fun_induction scanString quote text generalizing taken with
  | case1 =>
      cases h
      exact List.prefix_refl []
  | case2 | case4 | case5 =>
      cases h
      simp
  | case3 | case6 => cases h
  | case7 d rest hc hq ih =>
      obtain ⟨inner, hinner, rfl⟩ := StringScan.push_eq_cut h
      exact (List.prefix_append_right_inj ['\\', d]).mpr (ih hinner)
  | case8 c d rest hc hq hb ih =>
      obtain ⟨inner, hinner, rfl⟩ := StringScan.push_eq_cut h
      exact (List.prefix_append_right_inj [c]).mpr (ih hinner)

/-- Reading a token stops behind some of the first characters. -/
theorem prefix_of_scan_fault {c : Char} {rest taken : List Char} {cause : Cause}
    (h : scan c rest = .fault cause taken) : taken <+: c :: rest := by
  have hfirst : [c] <+: c :: rest := List.prefix_append [c] rest
  obtain ⟨-, rfl⟩ | ⟨cut, hcut, -, rfl⟩ | ⟨-, rfl⟩ := scan_fault_cases h
  · exact hfirst
  · exact (List.prefix_append_right_inj [c]).mpr (prefix_of_scanString_cut hcut)
  · exact hfirst

/-- A span of the source that starts in front of no line feed. -/
theorem Span.LiesIn.of_split {source : String} {before covered rest : List Char}
    (h : source.toList = before ++ covered ++ rest) (hfeed : (covered ++ rest).head? ≠ some '\n') :
    (⟨.behind before, .behind (before ++ covered)⟩ : Span).LiesIn source where
  start := ⟨before, covered ++ rest,
    by rw [h, List.append_assoc], rfl, fun hsplit => hfeed hsplit.2⟩
  stop := ⟨before ++ covered, rest, h, rfl⟩
  ordered := by simp

/-- What reading a token stops at is a fault of grammar. -/
theorem kind_of_scan_fault {c : Char} {rest taken : List Char} {cause : Cause}
    (h : scan c rest = .fault cause taken) : cause.kind = .grammar := by
  obtain ⟨rfl, -⟩ | ⟨cut, -, rfl, -⟩ | ⟨rfl, -⟩ := scan_fault_cases h <;> rfl

/-- Tokens, and faults of reading them, lie in their source. -/
theorem tokensFrom_located {source : String} (before text : List Char)
    (hsource : source.toList = before ++ text) :
    Keeps (Blames .grammar (·.LiesIn source)) (fun ts => ∀ t ∈ ts, t.span.LiesIn source)
      (tokensFrom (.behind before) text) := by
  have htext := List.takeWhile_append_dropWhile (p := Text.isBlank) (l := text)
  rw [tokensFrom]
  dsimp only
  rw [Position.after_behind]
  split
  · next hdrop =>
      rw [hdrop, List.append_nil] at htext
      refine .ok (List.forall_mem_singleton.mpr ?_)
      have hhere : source.toList = before ++ text.takeWhile Text.isBlank ++ [] ++ [] := by
        simp [hsource, htext]
      simpa using Span.LiesIn.of_split hhere (by simp)
  · next c rest hdrop =>
      have hfeed : c ≠ '\n' := by
        have hblank : Text.isBlank c = false := by
          simpa [hdrop] using List.head?_dropWhile_not Text.isBlank text
        rintro rfl
        exact absurd hblank (by decide)
      rw [hdrop] at htext
      have hhere : source.toList = before ++ text.takeWhile Text.isBlank ++ c :: rest := by
        rw [hsource, List.append_assoc, htext]
      split
      · next hscan =>
          obtain ⟨left, hleft⟩ := prefix_of_scan_fault hscan
          rw [Position.after_behind]
          refine .failAt
            ⟨kind_of_scan_fault hscan, .of_split (?_ : source.toList = _ ++ _ ++ left) ?_⟩
          · rw [hhere, List.append_assoc _ _ left, hleft]
          · rw [hleft]
            simpa using hfeed
      · next t taken left hscan =>
          have hleft := scan_taken_append_rest hscan
          have hshort : left.length < text.length :=
            Nat.lt_of_lt_of_le (hdrop ▸ scan_rest_length_lt hscan)
              (List.dropWhile_suffix _).length_le
          have hbehind : source.toList = before ++ text.takeWhile Text.isBlank ++ taken ++
              left := by
            rw [hhere, List.append_assoc _ taken left, hleft]
          rw [Position.after_behind]
          refine .bind (tokensFrom_located _ left hbehind) fun _ hothers =>
            .pure (List.forall_mem_cons.mpr ⟨.of_split hbehind ?_, hothers⟩)
          rw [hleft]
          simpa using hfeed
termination_by text.length

/-! ## Programs -/

/-- Reading a source text stops in it, with a fault of grammar. -/
theorem Program.ofSource_located (source : String) :
    Keeps (Blames .grammar (·.LiesIn source)) (Program.Within (·.LiesIn source))
      (Program.ofSource source) := by
  have hlocated := tokensFrom_located [] source.toList rfl
  unfold Program.ofSource Stepwise.tokens
  cases hts : tokensFrom .start source.toList with
  | error d => exact hlocated.of_error hts
  | ok ts =>
      obtain ⟨others, rfl, -⟩ := (tokensFrom_tiles [] source.toList hts).ends
      exact Program.ofTokens_within (fun _ _ => Span.LiesIn.merge) (hlocated.of_ok hts)
        ⟨_, List.mem_append_right _ List.mem_cons_self, rfl⟩

end Stepwise
