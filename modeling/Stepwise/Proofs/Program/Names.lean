import Mathlib.Data.List.TakeWhile
import Stepwise.Compile
import Stepwise.Proofs.Program.Derivation

/-!
# Names are words

An identifier is a word: it is not empty and consists of characters that a word may hold, so no sign
occurs in it. What reading makes of a text keeps this for the names of records,
`Program.isWord_of_ofSource`, and that is why a type written into a call signature can be told from
the parentheses and commas around it.
-/

set_option autoImplicit false

namespace Stepwise

open Diagnosed

/-- A text that a word of the language may be. -/
def IsWord (name : String) : Prop := name.toList ≠ [] ∧ ∀ c ∈ name.toList, Text.isWordPart c = true

/-! ## Words among tokens -/

/-- An identifier is read where a word starts, and by reading that word. -/
theorem scan_eq_scanWord {c : Char} {rest taken left : List Char} {name : String}
    (h : scan c rest = .token (.identifier name) taken left) :
    Text.isWordStart c = true ∧ scanWord c rest = .token (.identifier name) taken left := by
  unfold scan at h
  split at h
  · simp [scanComment] at h
  split at h
  · simp at h
  split at h
  · unfold scanDots at h
    split at h <;> simp at h
  split at h
  · unfold scanEquals at h
    split at h <;> simp at h
  split at h
  · unfold scanEquals at h
    split at h <;> simp at h
  split at h
  · unfold scanEquals at h
    split at h <;> simp at h
  split at h
  · unfold scanExclamation at h
    split at h <;> simp at h
  split at h
  · unfold scanQuoted at h
    split at h <;> simp at h
  split at h
  · unfold scanNumber at h
    dsimp only at h
    split at h
    · split at h <;> simp at h
    · simp at h
  split at h
  · next hstart => exact ⟨hstart, h⟩
  · simp at h

theorem isWord_of_scan {c : Char} {rest taken left : List Char} {name : String}
    (h : scan c rest = .token (.identifier name) taken left) : IsWord name := by
  obtain ⟨hstart, hword⟩ := scan_eq_scanWord h
  simp only [scanWord, wordToken, Scan.token.injEq] at hword
  obtain ⟨htoken, -, -⟩ := hword
  split at htoken
  · cases htoken
  · cases htoken
    refine ⟨by simp, ?_⟩
    intro d hd
    rw [String.toList_ofList] at hd
    rcases List.mem_cons.mp hd with rfl | hd
    · exact Text.isWordPart_of_isWordStart hstart
    · exact List.mem_takeWhile_imp hd

theorem isWord_of_mem_tokensFrom {pos : Position} (text : List Char) {ts : List SourceToken}
    (h : tokensFrom pos text = .ok ts) {name : String} {span : Span}
    (hmem : ⟨.identifier name, span⟩ ∈ ts) :
    IsWord name := by
  rw [tokensFrom] at h
  dsimp only at h
  split at h
  · cases h
    simp at hmem
  · next c rest hdrop =>
      split at h
      · simp at h
      · next t taken left hscan =>
          obtain ⟨others, hothers, h⟩ := bind_eq_ok.mp h
          have hshort : left.length < text.length :=
            Nat.lt_of_lt_of_le (hdrop ▸ scan_rest_length_lt hscan)
              (List.dropWhile_suffix _).length_le
          cases h
          rcases List.mem_cons.mp hmem with hfirst | hmem
          · cases hfirst
            exact isWord_of_scan hscan
          · exact isWord_of_mem_tokensFrom left hothers hmem
termination_by text.length

/-! ## Words among the names of a program -/

open Grammar in
/-- The name of every record among some parts of a program is one of the identifiers of their
yield. -/
theorem name_mem_of_star {ys : Parser.Tokens} {items : List Item} (h : Star ItemForm ys items)
    {d : RecordDecl} (hd : .record d ∈ items) : d.name.token ∈ ys := by
  induction h with
  | nil => cases hd
  | cons hform _ ih =>
      rcases List.mem_cons.mp hd with rfl | hd
      · cases hform with
        | record hrecord =>
            cases hrecord
            simp
      · exact List.mem_append_right _ (ih hd)

/-- **Every record of a source text is named by a word.** -/
theorem Program.isWord_of_ofSource {source : String} {p : Program}
    (h : Program.ofSource source = .ok p) :
    ∀ d ∈ p.records, IsWord d.name.name := by
  obtain ⟨ts, hts, hp⟩ := bind_eq_ok.mp h
  intro d hd
  obtain ⟨items, ys, rest, rfl, hform, htakes, -⟩ := Parser.program_derives _ hp
  obtain ⟨item, hitem, hrecord⟩ := List.mem_filterMap.mp hd
  have hmem : d.name.token ∈ ys := by
    cases item <;> cases hrecord
    exact name_mem_of_star hform hitem
  have hmem := htakes.subset hmem
  exact isWord_of_mem_tokensFrom _ hts ((List.takeWhile_prefix _).subset hmem)

end Stepwise
