import Mathlib.Data.List.TakeWhile
import Stepwise.Proofs.Source.Places
import Stepwise.Source.Report

/-!
# Reports show the line they are about

A report finds its line by number and its carets by column, while lines are cut without the carriage
return at their end. That this fits together depends on where the span starts: it has to be a place
of the source, and not the one between a carriage return and the line feed behind it
(`Position.StartsIn`). Then the line shown is the one that the span starts on, the first caret
stands below the character there, and the carets go at most one column past the line
(`Report.render_shown`). The only other case is a span at the end of a source that has no line
there.
-/

set_option autoImplicit false

namespace Stepwise

open String (utf8Len)

/-! ## Lines -/

namespace Text

/-- A text behind which a line starts. -/
def EndsLine (text : List Char) : Prop := ∀ c ∈ text.getLast?, c = '\n'

/-- A line without the carriage return that belongs to its end. -/
def withoutReturn (line : List Char) : List Char :=
  if line.getLast? = some '\r' then line.dropLast else line

theorem withoutReturn_cons {c : Char} {line : List Char} (h : line ≠ []) :
    withoutReturn (c :: line) = c :: withoutReturn line := by
  obtain ⟨d, rest, rfl⟩ := List.exists_cons_of_ne_nil h
  unfold withoutReturn
  rw [List.getLast?_cons_cons]
  split <;> rfl

/-- At most a carriage return is missing. -/
theorem withoutReturn_append (line : List Char) :
    withoutReturn line = line ∨ line = withoutReturn line ++ ['\r'] := by
  unfold withoutReturn
  split
  · next h => exact .inr (List.dropLast_append_getLast? _ h).symm
  · exact .inl rfl

/-- The first line of a text that has a line feed. -/
theorem lines_append_lineFeed {line : List Char} (h : '\n' ∉ line) (below : List Char) :
    lines (line ++ '\n' :: below) = withoutReturn line :: lines below := by
  induction line with
  | nil => rfl
  | cons c rest ih =>
      have hc : c ≠ '\n' := fun hc => h (hc ▸ List.mem_cons_self)
      have hrest : '\n' ∉ rest := fun hmem => h (List.mem_cons_of_mem c hmem)
      cases rest with
      | nil =>
          rw [List.cons_append, List.nil_append]
          by_cases hreturn : c = '\r'
          · subst hreturn
            rw [lines]
            rfl
          · have hbelow : lines ('\n' :: below) = [] :: lines below := ih hrest
            rw [lines.eq_3 _ _ (fun _ hc => absurd hc hreturn), if_neg hc, hbelow]
            simp [withoutReturn, hreturn]
      | cons d rest =>
          have hd : d ≠ '\n' := fun hd => hrest (hd ▸ List.mem_cons_self)
          rw [List.cons_append, lines.eq_3 _ _ (by simp [hd]), if_neg hc, ih hrest,
            withoutReturn_cons (List.cons_ne_nil d rest)]

/-- A text without a line feed is its own and only line. -/
theorem lines_of_lineFeed_not_mem {line : List Char} (h : '\n' ∉ line) :
    lines line = if line = [] then [] else [line] := by
  induction line with
  | nil => rfl
  | cons c rest ih =>
      have hc : c ≠ '\n' := fun hc => h (hc ▸ List.mem_cons_self)
      have hrest : '\n' ∉ rest := fun hmem => h (List.mem_cons_of_mem c hmem)
      rw [lines.eq_3 _ _ (by rintro _ - rfl; simp at hrest), if_neg hc, ih hrest]
      cases rest <;> rfl

/-- Full lines in front put as many lines in front. -/
theorem lines_append_of_endsLine (above : List Char) (h : EndsLine above) :
    ∃ first : List (List Char), first.length = above.count '\n' ∧
      ∀ below, lines (above ++ below) = first ++ lines below := by
  by_cases hmem : '\n' ∈ above
  · obtain ⟨line, others, habove, hline⟩ := List.eq_append_cons_of_mem hmem
    have hothers : EndsLine others := by
      intro c hc
      exact h c (by simp [habove, List.getLast?_cons, Option.mem_def.mp hc])
    have hshort : others.length < above.length := by
      simp [habove]
      omega
    obtain ⟨first, hlength, hlines⟩ := lines_append_of_endsLine others hothers
    refine ⟨withoutReturn line :: first, ?_, fun below => ?_⟩
    · simp [habove, hlength, List.count_eq_zero_of_not_mem hline]
    · rw [habove, List.append_assoc, List.cons_append, lines_append_lineFeed hline, hlines,
        List.cons_append]
  · have hnil : above = [] := by
      cases hlast : above.getLast? with
      | none => exact List.getLast?_eq_none_iff.mp hlast
      | some c => exact absurd (h c hlast ▸ List.mem_of_getLast? hlast) hmem
    subst hnil
    exact ⟨[], rfl, fun below => rfl⟩
termination_by above.length

/-- Every text is full lines and a last piece without a line feed. -/
theorem exists_lastPiece (text : List Char) :
    ∃ above piece, text = above ++ piece ∧ EndsLine above ∧ '\n' ∉ piece := by
  refine ⟨(text.reverse.dropWhile (· != '\n')).reverse,
    (text.reverse.takeWhile (· != '\n')).reverse, ?_, ?_, ?_⟩
  · rw [← List.reverse_append, List.takeWhile_append_dropWhile, List.reverse_reverse]
  · intro c hc
    rw [List.getLast?_reverse] at hc
    have := List.head?_dropWhile_not (· != '\n') text.reverse
    rw [Option.mem_def.mp hc] at this
    simpa using this
  · intro hmem
    simpa using List.mem_takeWhile_imp (List.mem_reverse.mp hmem)

end Text

/-! ## Where spans start and stop -/

namespace Position

/-- A place of a source that is not between a carriage return and the line feed behind it. -/
def StartsIn (p : Position) (source : String) : Prop :=
  ∃ before rest, source.toList = before ++ rest ∧ p = .behind before ∧
    ¬ (before.getLast? = some '\r' ∧ rest.head? = some '\n')

theorem StartsIn.liesIn {p : Position} {source : String} (h : p.StartsIn source) :
    p.LiesIn source := by
  obtain ⟨before, rest, hsource, hp, -⟩ := h
  exact ⟨before, rest, hsource, hp⟩

/-- Columns count from the start of the line. -/
theorem behind_column {above piece : List Char} (h : Text.EndsLine above) (hpiece : '\n' ∉ piece) :
    (behind (above ++ piece)).column = 1 + piece.length := by
  have hkept : ∀ c ∈ piece.reverse, (c != '\n') = true := by
    intro c hc
    exact bne_iff_ne.mpr fun hfeed => hpiece (hfeed ▸ List.mem_reverse.mp hc)
  have hstop : above.reverse.takeWhile (· != '\n') = [] := by
    cases hlast : above.reverse with
    | nil => rfl
    | cons c others =>
        have hc : c = '\n' := h c (by rw [← List.head?_reverse, hlast]; rfl)
        simp [hc]
  simp [behind, List.takeWhile_append_of_pos hkept, hstop]

/-- Every source has its beginning. -/
theorem startsIn_start (source : String) : start.StartsIn source :=
  ⟨[], source.toList, rfl, rfl, by simp⟩

end Position

/-- A span from one place of a source to one that is not in front of it. -/
structure Span.LiesIn (s : Span) (source : String) : Prop where
  start : s.start.StartsIn source
  stop : s.stop.LiesIn source
  ordered : s.start.offset ≤ s.stop.offset

namespace Span.LiesIn

variable {a b : Span} {source : String}

theorem origin : Span.origin.LiesIn source :=
  ⟨Position.startsIn_start source, (Position.startsIn_start source).liesIn, le_rfl⟩

/-- The span around two spans of a source. -/
theorem merge (ha : a.LiesIn source) (hb : b.LiesIn source) : (a.merge b).LiesIn source := by
  have hordera := ha.ordered
  have horderb := hb.ordered
  refine ⟨?_, ?_, ?_⟩
  · unfold Span.merge
    dsimp only
    split
    · exact hb.start
    · exact ha.start
  · unfold Span.merge
    dsimp only
    split
    · exact hb.stop
    · exact ha.stop
  · unfold Span.merge
    dsimp only
    split <;> split <;> omega

/-- What a span covers, and what stands around it. -/
theorem split (h : a.LiesIn source) :
    ∃ before covered rest, source.toList = before ++ covered ++ rest ∧
    a = ⟨.behind before, .behind (before ++ covered)⟩ ∧
      ¬ (before.getLast? = some '\r' ∧ (covered ++ rest).head? = some '\n') := by
  obtain ⟨⟨before, behind, hsource, hstart, hwhole⟩, ⟨front, rest, hfront, hstop⟩, horder⟩ := h
  have hspan : a = ⟨.behind before, .behind front⟩ := by rw [← hstart, ← hstop]
  rw [hspan] at horder
  rcases List.append_eq_append_iff.mp (hsource.symm.trans hfront) with ⟨covered, rfl, rfl⟩ |
    ⟨extra, rfl, rfl⟩
  · exact ⟨before, covered, rest, hfront, hspan, hwhole⟩
  · have hnil : extra = [] := String.utf8Len_eq_zero.mp (by
      simp only [Position.behind_offset, String.utf8Len_append] at horder
      omega)
    subst hnil
    refine ⟨front, [], behind, by simpa using hsource, by simpa using hspan, by simpa using hwhole⟩

end Span.LiesIn

/-! ## The line shown -/

/-- A line of a source with carets below it: the first stands below the character at a position, or
right behind the line, and the last at most one column past it. -/
structure ShownLine (source : String) (start : Position) where
  above : List Char
  line : List Char
  ending : List Char
  below : List Char
  indent : Nat
  carets : Nat
  source_eq : source.toList = above ++ line ++ ending ++ below
  endsLine : Text.EndsLine above
  whole : '\n' ∉ line
  ending_eq : ending = ['\n'] ∨ ending = ['\r', '\n'] ∨ ending = [] ∧ below = []
  offset_eq : start.offset = utf8Len (above ++ line.take indent)
  indent_le : indent ≤ line.length
  carets_pos : 0 < carets
  carets_le : indent + carets ≤ line.length + 1

/-- The lines of a report below its header. -/
def ShownLine.text {source : String} {start : Position} (s : ShownLine source start) : String :=
  "\n" ++ String.ofList s.line ++ "\n" ++
    String.ofList (List.replicate s.indent ' ' ++ List.replicate s.carets '^')

namespace Report

variable {source : String} {s : Span}

theorem caretCount_pos (s : Span) : 0 < caretCount s := by
  unfold caretCount
  split <;> omega

/-- No more carets than the line has characters behind the start of the span, except for one. -/
theorem caretCount_le {above lead tail covered rest below : List Char} (hends : Text.EndsLine above)
    (hlead : '\n' ∉ lead) (hcut : covered ++ rest = tail ++ below)
    (hbelow : ∀ c ∈ below.head?, c = '\n') :
    caretCount ⟨.behind (above ++ lead), .behind (above ++ lead ++ covered)⟩ ≤
      max 1 tail.length := by
  by_cases hcovered : '\n' ∈ covered
  · have hline : (Position.behind (above ++ lead ++ covered)).line ≠
        (Position.behind (above ++ lead)).line := by
      have := List.count_pos_iff.mpr hcovered
      simp only [Position.behind, List.count_append]
      omega
    rw [caretCount, if_neg hline]
    exact Nat.le_max_left _ _
  · have hlength : covered.length ≤ tail.length := by
      rcases List.append_eq_append_iff.mp hcut with ⟨more, rfl, -⟩ | ⟨more, rfl, hbelow'⟩
      · simp
      · cases more with
        | nil => simp
        | cons c more =>
            rw [hbelow'] at hbelow
            exact absurd (hbelow c rfl) fun hc => hcovered (by simp [hc])
    have hpiece : '\n' ∉ lead ++ covered := by simp [hlead, hcovered]
    have hstart := Position.behind_column hends hlead
    have hstop := Position.behind_column hends hpiece
    rw [← List.append_assoc] at hstop
    unfold caretCount
    split
    · rw [hstart, hstop, List.length_append]
      omega
    · exact Nat.le_max_left _ _

/-- What stands below the header, as a line with carets. -/
theorem exists_shownLine {above lead shown : List Char} (ending below : List Char)
    (hstart : s.start = .behind (above ++ lead))
    (hsource : source.toList = above ++ (lead ++ shown) ++ ending ++ below)
    (hends : Text.EndsLine above) (hwhole : '\n' ∉ lead ++ shown)
    (hending : ending = ['\n'] ∨ ending = ['\r', '\n'] ∨ ending = [] ∧ below = [])
    (hcarets : caretCount s ≤ shown.length + 1) :
    ∃ l : ShownLine source s.start,
      l.text = "\n" ++ String.ofList (lead ++ shown) ++ "\n" ++ String.ofList (carets s) := by
  have hlead : '\n' ∉ lead := fun h => hwhole (List.mem_append_left shown h)
  refine ⟨⟨above, lead ++ shown, ending, below, lead.length, caretCount s, hsource, hends, hwhole,
    hending, ?_, ?_, caretCount_pos s, ?_⟩, ?_⟩
  · rw [hstart, Position.behind_offset, List.take_left]
  · simp
  · rw [List.length_append]
    omega
  · have hindent : s.start.column - 1 = lead.length := by
      rw [hstart, Position.behind_column hends hlead, Nat.add_sub_cancel_left]
    rw [carets, hindent]
    rfl

/-- **A report is shown with the line that its span starts on.** Only a report about the end of a
source, where no line starts, consists of its header alone. -/
theorem render_shown (r : Report) (h : r.span.LiesIn source) :
    (∃ l : ShownLine source r.span.start, r.render source = r.header ++ l.text) ∨
      r.render source = r.header ∧ r.span.start = .behind source.toList ∧
      Text.EndsLine source.toList := by
  obtain ⟨before, covered, rest, hsource, hspan, hunsplit⟩ := h.split
  obtain ⟨above, lead, rfl, hends, hlead⟩ := Text.exists_lastPiece before
  obtain ⟨first, hlength, hlines⟩ := Text.lines_append_of_endsLine above hends
  have hstart : r.span.start = .behind (above ++ lead) := by rw [hspan]
  have hindex : r.span.start.line - 1 = first.length := by
    rw [hstart, hlength]
    simp [Position.behind, List.count_eq_zero_of_not_mem hlead]
  have hshown : (Text.lines source.toList)[r.span.start.line - 1]? =
      (Text.lines (lead ++ (covered ++ rest)))[0]? := by
    rw [hsource, hindex, List.append_assoc, List.append_assoc, hlines, List.getElem?_append_right
      (Nat.le_refl _), Nat.sub_self]
  unfold render
  rw [hshown]
  by_cases hfeed : '\n' ∈ covered ++ rest
  · -- the line ends at a line feed
    obtain ⟨tail, below, hcut, htail⟩ := List.eq_append_cons_of_mem hfeed
    have hpiece : '\n' ∉ lead ++ tail := by simp [hlead, htail]
    have hcarets : caretCount r.span ≤ max 1 tail.length := by
      rw [hspan]
      exact caretCount_le hends hlead hcut (by simp)
    left
    rw [hcut, ← List.append_assoc, Text.lines_append_lineFeed hpiece]
    rcases Text.withoutReturn_append (lead ++ tail) with hline | hline
    · obtain ⟨l, hl⟩ := exists_shownLine ['\n'] below hstart
        (by rw [hsource, List.append_assoc, hcut]; simp) hends hpiece (.inl rfl) (by omega)
      refine ⟨l, ?_⟩
      rw [hl, hline]
      simp [String.append_assoc]
    · -- the carriage return in front of the line feed stands behind the start of the span
      rcases List.eq_nil_or_concat tail with rfl | ⟨shown, last, rfl⟩
      · rw [List.append_nil] at hline
        rw [hcut, hline, ← List.append_assoc, List.getLast?_concat] at hunsplit
        exact absurd ⟨rfl, rfl⟩ hunsplit
      · rw [List.concat_eq_append] at hline hcarets hcut hpiece
        rw [← List.append_assoc] at hline hpiece
        obtain ⟨hshorter, hlast⟩ := List.append_inj' hline rfl
        cases hlast
        have hwhole : '\n' ∉ lead ++ shown := fun hmem => hpiece (List.mem_append_left _ hmem)
        rw [List.length_append, List.length_singleton] at hcarets
        obtain ⟨l, hl⟩ := exists_shownLine ['\r', '\n'] below hstart
          (by rw [hsource, List.append_assoc, hcut]; simp) hends hwhole (.inr (.inl rfl)) (by omega)
        refine ⟨l, ?_⟩
        rw [hl, List.concat_eq_append, ← List.append_assoc, ← hshorter]
        simp [String.append_assoc]
  · -- the last line, which nothing ends
    have hpiece : '\n' ∉ lead ++ (covered ++ rest) := by simp_all
    have hcarets : caretCount r.span ≤ max 1 (covered ++ rest).length := by
      rw [hspan]
      exact caretCount_le hends hlead
        (show covered ++ rest = covered ++ rest ++ [] by rw [List.append_nil]) (by simp)
    rw [Text.lines_of_lineFeed_not_mem hpiece]
    by_cases hnone : lead ++ (covered ++ rest) = []
    · right
      rw [if_pos hnone]
      simp only [List.append_eq_nil_iff] at hnone
      obtain ⟨rfl, rfl, rfl⟩ := hnone
      simp only [List.append_nil] at hsource hstart
      exact ⟨rfl, by rw [hstart, hsource], hsource ▸ hends⟩
    · left
      rw [if_neg hnone]
      obtain ⟨l, hl⟩ := exists_shownLine [] [] hstart
        (by rw [hsource]; simp) hends hpiece (.inr (.inr ⟨rfl, rfl⟩)) (by omega)
      refine ⟨l, ?_⟩
      rw [hl]
      simp [String.append_assoc]

end Report

end Stepwise
