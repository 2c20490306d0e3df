import Mathlib.Data.List.TakeWhile
import Stepwise.Proofs.Program.Derivation
import Stepwise.Proofs.Program.Readers
import Stepwise.Proofs.Program.Reading

/-!
# Readers that foresee errors

A reader reports errors as early as possible if the tokens in front of the one that it stops at
could still have become something that it reads, and no tokens behind that one matter any more
(`Earliest`). This is a property of whole readers, but not one that readers in a row pass on: what
completes the tokens of the first of them has to be followed by something that the others read, and
the first one has looked at the token behind its own already.

So the property is stated with the tokens that meet at the seams. What a reader goes through is gone
through in the same way wherever the next token behind it is the same or of a kind that ends what it
reads, and what is put in place of the tokens ahead of it begins with the same token or with one of
a kind that lets it begin (`Foresees`). With the means to read something from nothing (`Completes`),
this is what a row of readers inherits from its parts. `Plans` has both, with a bound on the number
of tokens for the induction over the depth of recursion, and one rule for each way in which the
parser makes readers of others.
-/

set_option autoImplicit false

namespace Stepwise

/-- The token that a diagnostic is about: the one that its message names, at the reported span, or
else the equals sign behind what cannot be assigned to. -/
def Diagnostic.About (d : Diagnostic) (t : SourceToken) : Prop :=
  match d.cause with
  | .expectedTerminal _ found | .expectedIdentifier found | .expectedStatement found |
      .expectedExpression found
  | .nestedDeclaration found => t = ⟨found, d.span⟩
  | .notAssignable => t.token = .terminal .assign
  | _ => False

namespace Parser

open Reader (take? looksAt reject need refuse comment? atEnd)

variable {α β : Type} {stop : Span} {ts : Tokens}

/-! ## What is ahead -/

/-- The comments in front of the next token. -/
def lead (ts : Tokens) : Tokens := ts.takeWhile (·.token.isComment)

/-- Tokens without an end of the input among them. -/
def Live (ts : Tokens) : Prop := ∀ t ∈ ts, t.token ≠ .endOfInput

/-- Tokens that are comments. -/
def Comments (ts : Tokens) : Prop := ∀ t ∈ ts, t.token.isComment = true

theorem Live.append {us : Tokens} (h : Live ts) (h' : Live us) : Live (ts ++ us) := by
  intro t ht
  rcases List.mem_append.mp ht with ht | ht
  · exact h t ht
  · exact h' t ht

theorem Live.left {front : Tokens} (h : Live (ts ++ front)) : Live ts :=
  fun t ht => h t (List.mem_append_left _ ht)

theorem Live.right {front : Tokens} (h : Live (front ++ ts)) : Live ts := fun t ht =>
  h t (List.mem_append_right _ ht)

theorem comments_lead (ts : Tokens) : Comments (lead ts) := fun _ => List.mem_takeWhile_imp

theorem lead_comment {c : SourceToken} (hc : c.token.isComment = true) (ts : Tokens) :
    lead (c :: ts) = c :: lead ts :=
  List.takeWhile_cons_of_pos hc

theorem lead_comments {cs rest : Tokens} {t : SourceToken} (hcs : Comments cs)
    (ht : t.token.isComment = false) :
    lead (cs ++ t :: rest) = cs := by
  rw [lead, List.takeWhile_append_of_pos hcs, List.takeWhile_cons_of_neg (by simp [ht]),
    List.append_nil]

theorem look_comments {cs rest : Tokens} {t : SourceToken} {fin : SourceToken} (hcs : Comments cs)
    (ht : t.token.isComment = false) : look fin (cs ++ t :: rest) = t := by
  induction cs with
  | nil => exact look_cons ht
  | cons c cs ih =>
      obtain ⟨hc, hcs⟩ := List.forall_mem_cons.mp hcs
      rw [List.cons_append, look_comment hc, ih hcs]

/-- The tokens and the end behind them begin with comments and the next token. -/
theorem exists_row (stop : Span) (ts : Tokens) : ∃ behind,
    ts ++ [finAt stop] = lead ts ++ look (finAt stop) ts :: behind ∧
    (look (finAt stop) ts).token.isComment = false := by
  cases hnext : next? ts with
  | none =>
      have hall : Comments ts := by
        intro t ht
        induction ts with
        | nil => cases ht
        | cons c rest ih =>
            rw [next?] at hnext
            split at hnext
            · next hc =>
                rcases List.mem_cons.mp ht with rfl | ht
                · exact hc
                · exact ih (Option.map_eq_none_iff.mp hnext) ht
            · cases hnext
      have hlook : look (finAt stop) ts = finAt stop := by simp [look, hnext]
      refine ⟨[], ?_, by rw [hlook]; rfl⟩
      rw [hlook, lead, List.takeWhile_eq_self_iff.mpr hall]
  | some p =>
      obtain ⟨comments, hts, hall, hp⟩ := next?_eq_some hnext
      have hlook : look (finAt stop) ts = p.value := look_eq hnext
      refine ⟨p.rest ++ [finAt stop], ?_, by rw [hlook, hp]⟩
      have hlead : lead ts = comments := (congrArg lead hts).trans (lead_comments hall hp)
      rw [hlook, hlead]
      exact (congrArg (· ++ [finAt stop]) hts).trans (by simp)

theorem lead_look_eq {cs : Tokens} {t : SourceToken} (hcs : Comments cs)
    (ht : t.token.isComment = false) (h : cs ++ [t] <+: ts ++ [finAt stop]) :
    lead ts = cs ∧ look (finAt stop) ts = t := by
  obtain ⟨behind, hrow, hlook⟩ := exists_row stop ts
  obtain ⟨more, hmore⟩ := h
  have hsame : cs ++ t :: more = lead ts ++ look (finAt stop) ts :: behind := by
    rw [← hrow, ← hmore]
    simp
  have hlead := congrArg lead hsame
  rw [lead_comments hcs ht, lead_comments (comments_lead ts) hlook] at hlead
  rw [← hlead, List.append_cancel_left_eq] at hsame
  exact ⟨hlead.symm, (List.cons.inj hsame).1.symm⟩

/-- Tokens that begin alike, up to one that is no comment, have the same comments and the same token
ahead. -/
theorem ahead_eq {front ts' : Tokens} {t : SourceToken} {stop' : Span}
    (ht : t.token.isComment = false) (h : front ++ [t] <+: ts ++ [finAt stop])
    (h' : front ++ [t] <+: ts' ++ [finAt stop']) :
    lead ts' = lead ts ∧ look (finAt stop') ts' = look (finAt stop) ts := by
  obtain ⟨behind, hrow, hlook⟩ := exists_row stop ts
  have hhead : lead ts ++ [look (finAt stop) ts] <+: ts ++ [finAt stop] := ⟨behind, by simp [hrow]⟩
  apply lead_look_eq (comments_lead ts) hlook
  refine List.IsPrefix.trans ?_ h'
  rcases List.prefix_or_prefix_of_prefix hhead h with hle | hle
  · exact hle
  · rcases List.prefix_concat_iff.mp hle with heq | hle
    · exact heq ▸ List.prefix_refl _
    · have hmem : t ∈ lead ts := hle.subset (by simp)
      rw [comments_lead ts t hmem] at ht
      cases ht

/-! ## Primitive readers on what is ahead -/

section Primitives

variable {k : SourceToken → Option β} {g : Option β → Reader α} {cs rest : Tokens}
    {t : SourceToken} {b : β}

theorem pick_eq_none (h : k (look (finAt stop) ts) = none) : pick k ts = none := by
  unfold pick
  cases hnext : next? ts with
  | none => rfl
  | some p =>
      rw [look_eq hnext] at h
      simp [h]

theorem look_of_pick (hend : k (finAt stop) = none) (h : pick k ts = none) :
    k (look (finAt stop) ts) = none := by
  unfold pick at h
  cases hnext : next? ts with
  | none => simpa [look, hnext] using hend
  | some p =>
      rw [look_eq hnext]
      simpa [hnext] using h

theorem next?_comments (rest : Tokens) (hcs : Comments cs) (ht : t.token.isComment = false) :
    ∃ p, next? (cs ++ t :: rest) = some p ∧ p.value = t ∧ p.rest = rest := by
  induction cs with
  | nil => exact ⟨_, next?_cons ht, rfl, rfl⟩
  | cons c cs ih =>
      obtain ⟨hc, hcs⟩ := List.forall_mem_cons.mp hcs
      obtain ⟨p, hp, hvalue, hrest⟩ := ih hcs
      refine ⟨p.widen (Nat.le_succ _), ?_, hvalue, hrest⟩
      show next? (c :: (cs ++ t :: rest)) = _
      simp [next?, hc, hp]

theorem pick_comments (rest : Tokens) (hcs : Comments cs) (ht : t.token.isComment = false)
    (hk : k t = some b) :
    ∃ p, pick k (cs ++ t :: rest) = some p ∧ p.value = b ∧ p.rest = rest := by
  obtain ⟨p, hp, hvalue, hrest⟩ := next?_comments rest hcs ht
  refine ⟨p.map fun _ => b, ?_, rfl, hrest⟩
  unfold pick
  simp [hp, hvalue, hk]

theorem exists_pick {p : Parsed β ts.length} (h : pick k ts = some p) :
    ∃ cs t rest b, ts = cs ++ t :: rest ∧ Comments cs ∧ t.token.isComment = false ∧
    k t = some b := by
  obtain ⟨cs, t, hts, hcs, ht, hk⟩ := pick_eq_some h
  exact ⟨cs, t, p.rest, p.value, hts, hcs, ht, hk⟩

theorem take?_none (h : k (look (finAt stop) ts) = none) :
    (take? k >>= g) stop ts = g none stop ts := by
  rw [Reader.bind_take?, pick_eq_none h]

theorem take?_some (hcs : Comments cs) (ht : t.token.isComment = false) (hk : k t = some b) :
    (take? k >>= g) stop (cs ++ t :: rest) = g (some b) stop rest := by
  obtain ⟨p, hp, hvalue, hrest⟩ := pick_comments rest hcs ht hk
  rw [Reader.bind_take?, hp]
  simp only [hvalue, hrest]

theorem need_some {d : SourceToken → Diagnostic} {g : β → Reader α} (hcs : Comments cs)
    (ht : t.token.isComment = false) (hk : k t = some b) :
    (need k d >>= g) stop (cs ++ t :: rest) = g b stop rest := by
  obtain ⟨p, hp, hvalue, hrest⟩ := pick_comments rest hcs ht hk
  rw [Reader.bind_need, hp]
  simp only [hvalue, hrest]

theorem comment?_none {g : Option Stmt → Reader α} (h : lead ts = []) :
    (comment? >>= g) stop ts = g none stop ts := by
  apply Reader.bind_comment?_none
  rintro text span rest rfl
  cases h

end Primitives

/-! ## Conditions on what is ahead -/

/-- A condition on the tokens ahead and where they end. -/
abbrev Cond := Span → Tokens → Prop

/-- Exactly these comments are ahead, and then a token of a kind. -/
def After (cs : Tokens) (P : SourceToken → Prop) : Cond :=
  fun stop ts => lead ts = cs ∧ P (look (finAt stop) ts)

/-- A token of a kind is ahead, without comments in front of it. -/
abbrev Next (P : SourceToken → Prop) : Cond := After [] P

/-- The same comments are ahead as in other tokens, and then the same token or one of a kind. -/
def Near (P : SourceToken → Prop) (stop : Span) (ts : Tokens) : Cond :=
  After (lead ts) fun t => t = look (finAt stop) ts ∨ P t

theorem After.mono {cs : Tokens} {P P' : SourceToken → Prop} (hP : ∀ t, P t → P' t)
    (h : After cs P stop ts) :
    After cs P' stop ts :=
  ⟨h.1, hP _ h.2⟩

theorem Near.mono {P P' : SourceToken → Prop} {stop' : Span} {ts' : Tokens} (hP : ∀ t, P t → P' t)
    (h : Near P stop ts stop' ts') : Near P' stop ts stop' ts' :=
  After.mono (fun _ => Or.imp_right (hP _)) h

theorem near_of_begins {P : SourceToken → Prop} {front ts' : Tokens} {t : SourceToken}
    {stop' : Span} (ht : t.token.isComment = false) (h : front ++ [t] <+: ts ++ [finAt stop])
    (h' : front ++ [t] <+: ts' ++ [finAt stop']) : Near P stop ts stop' ts' := by
  obtain ⟨hlead, hlook⟩ := ahead_eq ht h h'
  exact ⟨hlead, .inl hlook⟩

/-! ## Readers that can be continued -/

/-- Reading goes through these tokens and comes to this result, whatever comes behind them and meets
the last condition; then the tokens meet the first one. -/
structure Gives (x : Reader α) (E Q : Cond) (whole : Tokens) (a : α) : Prop where
  live : Live whole
  reads : ∀ stop rest, Live rest → Q stop rest → x stop (whole ++ rest) = some (.ok (a, rest))
  enters : ∀ stop rest, Live rest → Q stop rest → E stop (whole ++ rest)

/-- Some tokens behind these make them something that is read. -/
def Completes (x : Reader α) (E Q : Cond) (front : Tokens) : Prop :=
  ∃ tail a, Gives x E Q (front ++ tail) a

/-- Reading stops with this diagnostic whatever comes behind these tokens. -/
def Stuck (x : Reader α) (tokens : Tokens) (d : Diagnostic) : Prop :=
  ∀ stop ts, Live ts → tokens <+: ts ++ [finAt stop] → x stop ts = some (.error d)

/-- A diagnostic is reported at the earliest token: at that token nothing can help any more, and in
front of it something could. -/
def Earliest (x : Reader α) (E Q : Cond) (stop : Span) (ts : Tokens) (d : Diagnostic) : Prop :=
  ∃ front t, front ++ [t] <+: ts ++ [finAt stop] ∧ t.token.isComment = false ∧ d.About t ∧
    Stuck x (front ++ [t]) d ∧ Completes x E Q front

/-- How a reader does with the tokens ahead: if it comes to a result, it does so again wherever it
finds the tokens that it went through, with a token behind them that is the same or of the last
kind; and it reports diagnostics at the earliest token. Where other tokens are put, they begin with
the same token or with one of the first kind. -/
structure Foresees (P Q : SourceToken → Prop) (x : Reader α) (stop : Span) (ts : Tokens) :
    Prop where
  repeats : ∀ a rest, x stop ts = some (.ok (a, rest)) →
    ∃ passed, ts = passed ++ rest ∧ Gives x (Near P stop ts) (Near Q stop rest) passed a
  reports : ∀ d, x stop ts = some (.error d) → Earliest x (Near P stop ts) (Next Q) stop ts d

namespace Gives

variable {x : Reader α} {E Q E' Q' M : Cond} {whole : Tokens} {a : α}

theorem mono (h : Gives x E Q whole a) (hE : ∀ stop ts, E stop ts → E' stop ts)
    (hQ : ∀ stop ts, Q' stop ts → Q stop ts) : Gives x E' Q' whole a :=
  ⟨h.live, fun stop rest hrest hq => h.reads stop rest hrest (hQ stop rest hq),
    fun stop rest hrest hq => hE _ _ (h.enters stop rest hrest (hQ stop rest hq))⟩

theorem pure (a : α) (h : ∀ stop ts, Q stop ts → E stop ts) : Gives (Pure.pure a) E Q [] a :=
  ⟨by simp [Live], fun _ _ _ _ => rfl, fun stop rest _ hq => h stop rest hq⟩

theorem bind {f : α → Reader β} {more : Tokens} {b : β} (hx : Gives x E M whole a)
    (hf : Gives (f a) M Q more b) :
    Gives (x >>= f) E Q (whole ++ more) b where
  live := hx.live.append hf.live
  reads stop rest hrest hq := by
    have hmid := hx.reads stop (more ++ rest) (hf.live.append hrest) (hf.enters stop rest hrest hq)
    rw [List.append_assoc]
    simpa [Bind.bind, hmid] using hf.reads stop rest hrest hq
  enters stop rest hrest hq := by
    rw [List.append_assoc]
    exact hx.enters stop (more ++ rest) (hf.live.append hrest) (hf.enters stop rest hrest hq)

end Gives

/-! ## Rows of readers -/

theorem Stuck.bind {x : Reader α} {f : α → Reader β} {tokens : Tokens} {d : Diagnostic}
    (h : Stuck x tokens d) :
    Stuck (x >>= f) tokens d := by
  intro stop ts hts htokens
  simp [Bind.bind, h stop ts hts htokens]

theorem error_of_bind {x : Reader α} {f : α → Reader β} {d : Diagnostic}
    (h : (x >>= f) stop ts = some (.error d)) :
    x stop ts = some (.error d) ∨ ∃ a mid, x stop ts = some (.ok (a, mid)) ∧
    f a stop mid = some (.error d) := by
  cases hread : x stop ts with
  | none => simp [Bind.bind, hread] at h
  | some r =>
      cases r with
      | error e => exact .inl (by simpa [Bind.bind, hread] using h)
      | ok p => exact .inr ⟨p.1, p.2, rfl, by simpa [Bind.bind, hread] using h⟩

/-- Tokens that are passed and a prefix of what is behind them. -/
theorem exists_behind {passed front : Tokens} {t : SourceToken}
    (h : passed ++ (front ++ [t]) <+: ts ++ [finAt stop]) :
    ∃ rest, ts = passed ++ rest ∧ front ++ [t] <+: rest ++ [finAt stop] := by
  have hlength := h.length_le
  simp only [List.length_append, List.length_singleton] at hlength
  have hpassed : passed <+: ts :=
    List.prefix_of_prefix_length_le ((List.prefix_append _ _).trans h) (List.prefix_append _ _)
      (by omega)
  obtain ⟨rest, rfl⟩ := hpassed
  rw [List.append_assoc] at h
  exact ⟨rest, rfl, (List.prefix_append_right_inj passed).mp h⟩

variable {P Q M : SourceToken → Prop}

theorem Foresees.bind {x : Reader α} {f : α → Reader β} (hx : Foresees P M x stop ts)
    (hf : ∀ a rest, x stop ts = some (.ok (a, rest)) → rest <:+ ts → Foresees M Q (f a) stop rest)
    (hfresh : ∀ a, Completes (f a) (Next M) (Next Q) []) : Foresees P Q (x >>= f) stop ts where
  repeats b rest h := by
    obtain ⟨a, mid, hread, hrest⟩ := Reader.bind_eq_ok h
    obtain ⟨passed, hpassed, hgives⟩ := hx.repeats a mid hread
    obtain ⟨more, hmore, hgives'⟩ := (hf a mid hread ⟨passed, hpassed.symm⟩).repeats b rest hrest
    exact ⟨passed ++ more, by rw [hpassed, hmore, List.append_assoc], hgives.bind hgives'⟩
  reports d h := by
    rcases error_of_bind h with hread | ⟨a, mid, hread, hrest⟩
    · obtain ⟨front, t, hfront, ht, habout, hstuck, tail, a, hgives⟩ := hx.reports d hread
      obtain ⟨more, b, hgives'⟩ := hfresh a
      refine ⟨front, t, hfront, ht, habout, hstuck.bind, tail ++ more, b, ?_⟩
      rw [← List.append_assoc]
      exact hgives.bind hgives'
    · obtain ⟨passed, hpassed, hgives⟩ := hx.repeats a mid hread
      obtain ⟨front, t, hfront, ht, habout, hstuck, tail, b, hgives'⟩ :=
        (hf a mid hread ⟨passed, hpassed.symm⟩).reports d hrest
      refine ⟨passed ++ front, t, ?_, ht, habout, ?_, tail, b, ?_⟩
      · rw [hpassed, List.append_assoc, List.append_assoc]
        exact (List.prefix_append_right_inj passed).mpr hfront
      · intro stop' ts' hts' hprefix
        rw [List.append_assoc] at hprefix
        obtain ⟨rest', rfl, hrest'⟩ := exists_behind hprefix
        have hmid := hgives.reads stop' rest' hts'.right (near_of_begins ht hfront hrest')
        simpa [Bind.bind, hmid] using hstuck stop' rest' hts'.right hrest'
      · rw [List.append_assoc]
        exact hgives.bind hgives'

theorem Foresees.mono {P' Q' : SourceToken → Prop} {x : Reader α} (h : Foresees P Q x stop ts)
    (hP : ∀ t, P t → P' t) (hQ : ∀ t, Q' t → Q t) : Foresees P' Q' x stop ts where
  repeats a rest hread := by
    obtain ⟨passed, hpassed, hgives⟩ := h.repeats a rest hread
    exact ⟨passed, hpassed, hgives.mono (fun _ _ => Near.mono hP) fun _ _ => Near.mono hQ⟩
  reports d hread := by
    obtain ⟨front, t, hfront, ht, habout, hstuck, tail, a, hgives⟩ := h.reports d hread
    refine ⟨front, t, hfront, ht, habout, hstuck, tail, a, ?_⟩
    exact hgives.mono (fun _ _ => Near.mono hP) fun _ _ => After.mono hQ

/-- A reader that does as another does, near these tokens. -/
theorem Foresees.congr {P' : SourceToken → Prop} {x y : Reader α} (hts : Live ts)
    (h : Foresees P' Q y stop ts)
    (heq : ∀ stop' ts', Live ts' → Near P' stop ts stop' ts' → x stop' ts' = y stop' ts')
    (hP : ∀ t, P' t → P t) :
    Foresees P Q x stop ts := by
  have hgives {Q' : Cond} {whole : Tokens} {a : α} (hy : Gives y (Near P' stop ts) Q' whole a) :
      Gives x (Near P stop ts) Q' whole a := by
    refine ⟨hy.live, fun stop' rest hrest hq => ?_, fun stop' rest hrest hq =>
      (hy.enters stop' rest hrest hq).mono hP⟩
    rw [heq _ _ (hy.live.append hrest) (hy.enters stop' rest hrest hq)]
    exact hy.reads stop' rest hrest hq
  have hhere : x stop ts = y stop ts := heq stop ts hts ⟨rfl, .inl rfl⟩
  constructor
  · intro a rest hread
    obtain ⟨passed, hpassed, hy⟩ := h.repeats a rest (hhere ▸ hread)
    exact ⟨passed, hpassed, hgives hy⟩
  · intro d hread
    obtain ⟨front, t, hfront, ht, habout, hstuck, tail, a, hy⟩ := h.reports d (hhere ▸ hread)
    refine ⟨front, t, hfront, ht, habout, fun stop' ts' hts' hprefix => ?_, tail, a, hgives hy⟩
    rw [heq stop' ts' hts' (near_of_begins ht hfront hprefix)]
    exact hstuck stop' ts' hts' hprefix

/-- A reader that does as another does behind tokens that it goes through first. -/
theorem Foresees.behind {P' : SourceToken → Prop} {x y : Reader α} {passed : Tokens}
    (hpassed : Live passed) (h : Foresees P' Q y stop ts)
    (heq : ∀ stop' ts', x stop' (passed ++ ts') = y stop' ts')
    (hP : ∀ stop' ts', Near P' stop ts stop' ts' →
      Near P stop (passed ++ ts) stop' (passed ++ ts')) :
    Foresees P Q x stop (passed ++ ts) := by
  have hgives {Q' : Cond} {whole : Tokens} {a : α} (hy : Gives y (Near P' stop ts) Q' whole a) :
      Gives x (Near P stop (passed ++ ts)) Q' (passed ++ whole) a := by
    refine ⟨hpassed.append hy.live, fun stop' rest hrest hq => ?_, fun stop' rest hrest hq => ?_⟩
    · rw [List.append_assoc, heq]
      exact hy.reads stop' rest hrest hq
    · rw [List.append_assoc]
      exact hP _ _ (hy.enters stop' rest hrest hq)
  constructor
  · intro a rest hread
    rw [heq] at hread
    obtain ⟨more, rfl, hy⟩ := h.repeats a rest hread
    exact ⟨passed ++ more, by rw [List.append_assoc], hgives hy⟩
  · intro d hread
    rw [heq] at hread
    obtain ⟨front, t, hfront, ht, habout, hstuck, tail, a, hy⟩ := h.reports d hread
    refine ⟨passed ++ front, t, ?_, ht, habout, fun stop' ts' hts' hprefix => ?_, tail, a, ?_⟩
    · rw [List.append_assoc, List.append_assoc]
      exact (List.prefix_append_right_inj passed).mpr hfront
    · rw [List.append_assoc] at hprefix
      obtain ⟨rest', rfl, hrest'⟩ := exists_behind hprefix
      rw [heq]
      exact hstuck stop' rest' hts'.right hrest'
    · rw [List.append_assoc]
      exact hgives hy

/-- Behind a token that a reader goes through, any other token may begin. -/
theorem Foresees.behindToken {P' : SourceToken → Prop} {x y : Reader α} {cs : Tokens}
    {t : SourceToken} (hcs : Comments cs) (ht : t.token.isComment = false)
    (hlive : Live (cs ++ t :: ts)) (h : Foresees P' Q y stop ts)
    (heq : ∀ stop' ts', x stop' (cs ++ t :: ts') = y stop' ts') :
    Foresees P Q x stop (cs ++ t :: ts) := by
  have hrow (us : Tokens) : cs ++ t :: us = (cs ++ [t]) ++ us := by simp
  rw [hrow] at hlive ⊢
  refine h.behind (fun u hu => hlive u (List.mem_append_left _ hu))
    (fun stop' ts' => hrow ts' ▸ heq stop' ts') ?_
  intro stop' ts' _
  rw [← hrow, ← hrow]
  refine ⟨?_, .inl ?_⟩
  · rw [lead_comments hcs ht, lead_comments hcs ht]
  · rw [look_comments hcs ht, look_comments hcs ht]

/-- A comment that a reader goes through changes nothing of what may begin behind it. -/
theorem Foresees.behindComment {x y : Reader α} {c : SourceToken} (hc : c.token.isComment = true)
    (h : Foresees P Q y stop ts) (heq : ∀ stop' ts', x stop' (c :: ts') = y stop' ts') :
    Foresees P Q x stop (c :: ts) := by
  have hlive : Live [c] := by
    intro t ht hend
    rw [List.mem_singleton.mp ht] at hend
    rw [hend] at hc
    cases hc
  refine h.behind hlive heq fun stop' ts' hnear => ⟨?_, ?_⟩
  · rw [List.singleton_append, List.singleton_append, lead_comment hc, lead_comment hc, hnear.1]
  · rw [List.singleton_append, List.singleton_append, look_comment hc, look_comment hc]
    exact hnear.2

/-- A reader that stops because of the token ahead. -/
theorem Foresees.stuck {x : Reader α} {d : Diagnostic} (habout : d.About (look (finAt stop) ts))
    (hstuck : ∀ stop' ts', look (finAt stop') ts' = look (finAt stop) ts →
      x stop' ts' = some (.error d))
    (hfresh : Completes x (Near P stop ts) (Next Q) (lead ts)) : Foresees P Q x stop ts := by
  have hhere := hstuck stop ts rfl
  obtain ⟨behind, hrow, hlook⟩ := exists_row stop ts
  have hfront : lead ts ++ [look (finAt stop) ts] <+: ts ++ [finAt stop] := ⟨behind, by simp [hrow]⟩
  constructor
  · intro a rest hread
    rw [hhere] at hread
    cases hread
  · intro e hread
    rw [hhere] at hread
    cases hread
    refine ⟨lead ts, look (finAt stop) ts, hfront, hlook, habout, fun stop' ts' _ hprefix =>
      ?_, hfresh⟩
    exact hstuck stop' ts' (ahead_eq hlook hfront hprefix).2

/-! ## What can be read from nothing -/

theorem Comments.live (h : Comments ts) : Live ts := by
  intro t ht hend
  have hcomment := h t ht
  rw [hend] at hcomment
  cases hcomment

namespace Completes

variable {x y : Reader α}

theorem pure (a : α) (h : ∀ t, Q t → P t) : Completes (Pure.pure a) (Next P) (Next Q) [] :=
  ⟨[], a, .pure a fun _ _ => After.mono h⟩

theorem bind {f : α → Reader β} (hx : Completes x (Next P) (Next M) [])
    (hf : ∀ a, Completes (f a) (Next M) (Next Q) []) :
    Completes (x >>= f) (Next P) (Next Q) [] := by
  obtain ⟨tail, a, hgives⟩ := hx
  obtain ⟨more, b, hgives'⟩ := hf a
  exact ⟨tail ++ more, b, hgives.bind hgives'⟩

theorem mono {P' Q' : SourceToken → Prop} (h : Completes x (Next P) (Next Q) [])
    (hP : ∀ t, P t → P' t) (hQ : ∀ t, Q' t → Q t) : Completes x (Next P') (Next Q') [] := by
  obtain ⟨tail, a, hgives⟩ := h
  exact ⟨tail, a, hgives.mono (fun _ _ => After.mono hP) fun _ _ => After.mono hQ⟩

theorem congr {P' : SourceToken → Prop} {cs front : Tokens}
    (h : Completes y (After cs P') (Next Q) front)
    (heq : ∀ stop ts, Live ts → After cs P' stop ts → x stop ts = y stop ts)
    (hP : ∀ t, P' t → P t) :
    Completes x (After cs P) (Next Q) front := by
  obtain ⟨tail, a, hy⟩ := h
  refine ⟨tail, a, hy.live, fun stop rest hrest hq => ?_, fun stop rest hrest hq =>
    (hy.enters _ _ hrest hq).mono hP⟩
  rw [heq _ _ (hy.live.append hrest) (hy.enters stop rest hrest hq)]
  exact hy.reads stop rest hrest hq

theorem map {E : Cond} {front : Tokens} (h : Completes x E (Next Q) front) (f : α → β) :
    Completes (x >>= fun a => Pure.pure (f a)) E (Next Q) front := by
  obtain ⟨tail, a, hgives⟩ := h
  refine ⟨tail, f a, ?_⟩
  rw [← List.append_nil (front ++ tail)]
  exact hgives.bind (.pure (f a) fun _ _ => id)

/-- A reader that takes comments into what it makes has them in front of what it can read. -/
theorem comments {cs : Tokens} (hcs : Comments cs) (h : Completes x (Next P) (Next Q) [])
    (hx : ∀ c : SourceToken, c.token.isComment = true →
      ∃ f : α → α, ∀ stop ts, x stop (c :: ts) = (x >>= fun a => Pure.pure (f a)) stop ts) :
    Completes x (After cs P) (Next Q) cs := by
  induction cs with
  | nil => exact h
  | cons c cs ih =>
      obtain ⟨hc, hcs'⟩ := List.forall_mem_cons.mp hcs
      obtain ⟨f, hf⟩ := hx c hc
      obtain ⟨tail, a, hgives⟩ := (ih hcs').map f
      refine ⟨tail, a, ?_, fun stop rest hrest hq => ?_, fun stop rest hrest hq => ?_⟩
      · exact List.forall_mem_cons.mpr ⟨hcs.live c (by simp), hgives.live⟩
      · rw [List.cons_append, List.cons_append, hf]
        exact hgives.reads stop rest hrest hq
      · obtain ⟨hlead, hlook⟩ := hgives.enters stop rest hrest hq
        rw [List.cons_append, List.cons_append]
        refine ⟨(lead_comment hc _).trans (congrArg (c :: ·) hlead), ?_⟩
        rw [look_comment hc]
        exact hlook

/-- A token that a reader goes through is put behind the comments that are there already. -/
theorem token {t : SourceToken} {cs : Tokens} {y : Reader α} {E : Cond} (hcs : Comments cs)
    (ht : t.token.isComment = false) (hend : t.token ≠ .endOfInput) (hP : P t)
    (heq : ∀ stop ts, x stop (cs ++ t :: ts) = y stop ts) (hy : Completes y E (Next Q) []) :
    Completes x (After cs P) (Next Q) cs := by
  obtain ⟨tail, a, hgives⟩ := hy
  refine ⟨t :: tail, a, ?_, fun stop rest hrest hq => ?_, fun stop rest _ _ => ?_⟩
  · exact hcs.live.append (List.forall_mem_cons.mpr ⟨hend, hgives.live⟩)
  · rw [List.append_assoc, List.cons_append, heq]
    exact hgives.reads stop rest hrest hq
  · rw [List.append_assoc, List.cons_append]
    refine ⟨lead_comments hcs ht, ?_⟩
    rw [look_comments hcs ht]
    exact hP

theorem take? {k : SourceToken → Option β} {g : Option β → Reader α} {P' : SourceToken → Prop}
    (h : Completes (g none) (Next P') (Next Q) []) (hP : ∀ t, P' t → P t ∧ k t = none) :
    Completes (Reader.take? k >>= g) (Next P) (Next Q) [] :=
  h.congr (fun _ _ _ hnext => take?_none (hP _ hnext.2).2) fun t ht => (hP t ht).1

theorem need {k : SourceToken → Option β} {d : SourceToken → Diagnostic} {g : β → Reader α}
    {E : Cond} {cs : Tokens} {t : SourceToken} {b : β} (hcs : Comments cs) (hk : k t = some b)
    (ht : t.token.isComment = false) (hend : t.token ≠ .endOfInput) (hP : P t)
    (hg : Completes (g b) E (Next Q) []) :
    Completes (Reader.need k d >>= g) (After cs P) (Next Q) cs :=
  .token hcs ht hend hP (fun _ _ => need_some hcs ht hk) hg

theorem looksAt {kind : Token → Bool} {g : Bool → Reader α} {P' : SourceToken → Prop}
    (h : Completes (g true) (Next P') (Next Q) []) (hP : ∀ t, P' t → P t ∧ kind t.token = true) :
    Completes (Reader.looksAt kind >>= g) (Next P) (Next Q) [] :=
  h.congr (fun _ _ _ hnext => by rw [Reader.bind_looksAt, (hP _ hnext.2).2]) fun t ht => (hP t ht).1

theorem comment? {g : Option Stmt → Reader α} (h : Completes (g none) (Next P) (Next Q) []) :
    Completes (Reader.comment? >>= g) (Next P) (Next Q) [] := by
  exact h.congr (fun _ _ _ hnext => comment?_none hnext.1) fun _ => id

end Completes

/-! ## Readers that foresee errors -/

/-- A reader that foresees errors where there are fewer tokens than the bound, and that can read
something from nothing. What is put in place of the tokens ahead begins with a token of the second
kind; where there is one of the first kind, it begins with this very token. -/
structure Plans (n : Nat) (G P Q : SourceToken → Prop) (x : Reader α) : Prop where
  fresh : Completes x (Next P) (Next Q) []
  foresees : ∀ stop ts, Live ts → ts.length < n →
    Foresees (fun t => P t ∧ ¬G (look (finAt stop) ts)) Q x stop ts

/-- No token. -/
abbrev Never : SourceToken → Prop := fun _ => False

/-- Any token. -/
abbrev Always : SourceToken → Prop := fun _ => True

namespace Plans

variable {n : Nat} {G P' G' : SourceToken → Prop} {x y : Reader α}

theorem fewer {m : Nat} (h : Plans n G P Q x) (hm : m ≤ n) : Plans m G P Q x :=
  ⟨h.fresh, fun stop ts hts hlength => h.foresees stop ts hts (Nat.lt_of_lt_of_le hlength hm)⟩

theorem mono {Q' : SourceToken → Prop} (h : Plans n G P Q x) (hG : ∀ t, G' t → G t)
    (hP : ∀ t, P t → P' t) (hQ : ∀ t, Q' t → Q t) : Plans n G' P' Q' x :=
  ⟨h.fresh.mono hP hQ, fun stop ts hts hlength =>
    (h.foresees stop ts hts hlength).mono (fun t ht => ⟨hP t ht.1, fun hg => ht.2 (hG _ hg)⟩) hQ⟩

theorem pure (a : α) (h : ∀ t, Q t → P t) : Plans n Never P Q (Pure.pure a : Reader α) where
  fresh := .pure a h
  foresees stop ts hts _ := by
    constructor
    · rintro b rest ⟨⟩
      exact ⟨[], rfl, .pure a fun _ _ => Near.mono fun t ht => ⟨h t ht, id⟩⟩
    · rintro d ⟨⟩

/-- Behind a reader that leaves few enough tokens. -/
theorem bind_of {m : Nat} {f : α → Reader β} (hx : Plans n G P M x)
    (hleaves : ∀ stop ts a rest, x stop ts = some (.ok (a, rest)) → rest <:+ ts → ts.length < n →
      rest.length < m)
    (hf : ∀ a, Plans m Never M Q (f a)) : Plans n G P Q (x >>= f) where
  fresh := hx.fresh.bind fun a => (hf a).fresh
  foresees stop ts hts hlength := by
    refine (hx.foresees stop ts hts hlength).bind (fun a rest hread hrest => ?_) fun a =>
      (hf a).fresh
    have hlive : Live rest := fun t ht => hts t (hrest.subset ht)
    exact ((hf a).foresees stop rest hlive (hleaves stop ts a rest hread hrest hlength)).mono
      (fun t ht => ht.1) fun _ => id

theorem bind {f : α → Reader β} (hx : Plans n G P M x) (hf : ∀ a, Plans n Never M Q (f a)) :
    Plans n G P Q (x >>= f) :=
  hx.bind_of (fun _ _ _ _ _ hrest => Nat.lt_of_le_of_lt hrest.length_le) hf

/-- Behind a reader that has read a token, the bound may be lower. -/
theorem behind {f : α → Reader β} (hx : Plans (n + 1) G P M x) (hleaves : x.Leaves (·.length))
    (hf : ∀ a, Plans n Never M Q (f a)) : Plans (n + 1) G P Q (x >>= f) :=
  hx.bind_of (fun stop ts a rest hread _ hlength =>
    Nat.lt_of_lt_of_le (hleaves stop ts a rest hread) (Nat.le_of_lt_succ hlength)) hf

/-- A token that may be there. -/
theorem take_of {m : Nat} {k : SourceToken → Option β} {g : Option β → Reader α}
    {P₁ : SourceToken → Prop} (hm : n ≤ m + 1) (hend : ∀ stop, k (finAt stop) = none)
    (hsome : ∀ b, Plans m Never P₁ Q (g (some b))) (hnone : Plans n G' P' Q (g none))
    (hP : ∀ t, P' t → P t ∧ k t = none) (hG : ∀ t, G t → k t = none → G' t) :
    Plans n G P Q (Reader.take? k >>= g) where
  fresh := hnone.fresh.take? hP
  foresees stop ts hts hlength := by
    cases hpick : pick k ts with
    | none =>
        have hhere := look_of_pick (hend stop) hpick
        refine (hnone.foresees stop ts hts hlength).congr hts
          (fun stop' ts' _ hnear => take?_none ?_) ?_
        · rcases hnear.2 with hsame | hother
          · rw [hsame, hhere]
          · exact (hP _ hother.1).2
        · exact fun t ht => ⟨(hP t ht.1).1, fun hg => ht.2 (hG _ hg hhere)⟩
    | some p =>
        obtain ⟨cs, t, rest, b, rfl, hcs, ht, hk⟩ := exists_pick hpick
        have hrest : Live rest := fun u hu => hts u (by simp [hu])
        simp only [List.length_append, List.length_cons] at hlength
        have hforesees := (hsome b).foresees stop rest hrest (by omega)
        exact hforesees.behindToken hcs ht hts fun stop' ts' => take?_some hcs ht hk

/-- A token that may be there, behind which the bound may be lower. -/
theorem take? {k : SourceToken → Option β} {g : Option β → Reader α} {P₁ : SourceToken → Prop}
    (hend : ∀ stop, k (finAt stop) = none) (hsome : ∀ b, Plans n Never P₁ Q (g (some b)))
    (hnone : Plans (n + 1) G' P' Q (g none)) (hP : ∀ t, P' t → P t ∧ k t = none)
    (hG : ∀ t, G t → k t = none → G' t) : Plans (n + 1) G P Q (Reader.take? k >>= g) :=
  take_of (Nat.le_refl _) hend hsome hnone hP hG

/-- A token that may be there, with the same bound behind it. -/
theorem takeOn? {k : SourceToken → Option β} {g : Option β → Reader α} {P₁ : SourceToken → Prop}
    (hend : ∀ stop, k (finAt stop) = none) (hsome : ∀ b, Plans n Never P₁ Q (g (some b)))
    (hnone : Plans n Never P' Q (g none)) (hP : ∀ t, P' t → P t ∧ k t = none) :
    Plans n Never P Q (Reader.take? k >>= g) :=
  take_of (Nat.le_succ n) hend hsome hnone hP fun _ h _ => h

/-- A token that is called for. -/
theorem need {k : SourceToken → Option β} {d : SourceToken → Diagnostic} {g : β → Reader α}
    {P₁ : SourceToken → Prop} {t₀ : SourceToken} {b₀ : β} (hg : ∀ b, Plans n Never P₁ Q (g b))
    (hk : k t₀ = some b₀) (hcomment : t₀.token.isComment = false) (hlive : t₀.token ≠ .endOfInput)
    (hP : P t₀) (hend : ∀ stop, k (finAt stop) = none) (hG : ∀ t, G t → k t ≠ none)
    (habout : ∀ t, (d t).About t) :
    Plans (n + 1) G P Q (Reader.need k d >>= g) where
  fresh := .need (fun _ => by simp) hk hcomment hlive hP (hg b₀).fresh
  foresees stop ts hts hlength := by
    cases hpick : pick k ts with
    | none =>
        have hhere := look_of_pick (hend stop) hpick
        refine .stuck (habout _) (fun stop' ts' hsame => ?_) ?_
        · rw [Reader.bind_need, pick_eq_none (hsame ▸ hhere), hsame]
        · exact .need (comments_lead ts) hk hcomment hlive (.inr ⟨hP, fun hg => hG _ hg hhere⟩)
            (hg b₀).fresh
    | some p =>
        obtain ⟨cs, t, rest, b, rfl, hcs, ht, hb⟩ := exists_pick hpick
        have hrest : Live rest := fun u hu => hts u (by simp [hu])
        simp only [List.length_append, List.length_cons] at hlength
        have hforesees := (hg b).foresees stop rest hrest (by omega)
        exact hforesees.behindToken hcs ht hts fun stop' ts' => need_some hcs ht hb

/-- A choice by the next token. -/
theorem looksAt {kind : Token → Bool} {g : Bool → Reader α} {P₁ P₂ : SourceToken → Prop}
    (htrue : Plans n Never P₁ Q (g true)) (hfalse : Plans n Never P₂ Q (g false))
    (hP₁ : ∀ t, P₁ t → P t ∧ kind t.token = true) (hP₂ : ∀ t, P₂ t → P t ∧ kind t.token = false) :
    Plans n Never P Q (Reader.looksAt kind >>= g) where
  fresh := htrue.fresh.looksAt hP₁
  foresees stop ts hts hlength := by
    have hchosen {b : Bool} {P₀ : SourceToken → Prop} (hb : Plans n Never P₀ Q (g b))
        (hP₀ : ∀ t, P₀ t → P t ∧ kind t.token = b) (hhere : kind (look (finAt stop) ts).token = b) :
        Foresees (fun t => P t ∧ ¬Never (look (finAt stop) ts)) Q (Reader.looksAt kind >>= g) stop
          ts := by
      refine (hb.foresees stop ts hts hlength).congr hts (fun stop' ts' _ hnear => ?_) fun t ht =>
        ⟨(hP₀ t ht.1).1, id⟩
      have hsame : kind (look (finAt stop') ts').token = b := by
        rcases hnear.2 with hsame | hother
        · rw [hsame, hhere]
        · exact (hP₀ _ hother.1).2
      rw [Reader.bind_looksAt, hsame]
    cases hhere : kind (look (finAt stop) ts).token with
    | true => exact hchosen htrue hP₁ hhere
    | false => exact hchosen hfalse hP₂ hhere

/-- A kind of token that must not be there. -/
theorem refuse {kind : Token → Bool} {d : SourceToken → Diagnostic} {g : Unit → Reader α}
    (P' : SourceToken → Prop)
    (hfresh : ∀ cs, Comments cs → Completes (Reader.refuse kind d >>= g) (After cs P) (Next Q) cs)
    (hg : ∀ stop ts, Live ts → ts.length < n → kind (look (finAt stop) ts).token = false →
      Foresees P' Q (g ()) stop ts)
    (hP : ∀ t, P' t → P t ∧ kind t.token = false)
    (habout : ∀ t, kind t.token = true → (d t).About t) :
    Plans n Never P Q (Reader.refuse kind d >>= g) where
  fresh := hfresh [] fun _ => by simp
  foresees stop ts hts hlength := by
    cases hhere : kind (look (finAt stop) ts).token with
    | true =>
        refine .stuck (habout _ hhere) (fun stop' ts' hsame => ?_) ?_
        · rw [Reader.bind_refuse, hsame, if_pos hhere]
        · obtain ⟨tail, a, hgives⟩ := hfresh (lead ts) (comments_lead ts)
          exact ⟨tail, a, hgives.mono (fun _ _ => After.mono fun t ht => .inr ⟨ht, id⟩)
            fun _ _ => id⟩
    | false =>
        refine (hg stop ts hts hlength hhere).congr hts (fun stop' ts' _ hnear => ?_) fun t ht =>
          ⟨(hP t ht).1, id⟩
        have hsame : kind (look (finAt stop') ts').token = false := by
          rcases hnear.2 with hsame | hother
          · rw [hsame, hhere]
          · exact (hP _ hother).2
        rw [Reader.bind_refuse, if_neg (by simp [hsame])]

/-- A comment that may be there. -/
theorem comment? {g : Option Stmt → Reader α} (hsome : ∀ s, Plans n Never P Q (g (some s)))
    (hnone : Plans (n + 1) Never P Q (g none)) :
    Plans (n + 1) Never P Q (Reader.comment? >>= g) where
  fresh := hnone.fresh.comment?
  foresees stop ts hts hlength := by
    rcases comment_first ts with ⟨text, span, rest, rfl⟩ | hcomment
    · have hrest : Live rest := fun u hu => hts u (List.mem_cons_of_mem _ hu)
      have hforesees :=
        (hsome (.comment text span)).foresees stop rest hrest (by simpa using hlength)
      rw [look_comment rfl]
      exact hforesees.behindComment rfl fun stop' ts' => Reader.bind_comment?_some
    · have hlead : lead ts = [] := by
        cases ts with
        | nil => rfl
        | cons t rest =>
            obtain ⟨token, span⟩ := t
            cases token with
            | comment text => exact (hcomment text span rest rfl).elim
            | _ => rfl
      exact (hnone.foresees stop ts hts hlength).congr hts
        (fun stop' ts' _ hnear => comment?_none (hnear.1.trans hlead)) fun _ => id

theorem anyhow (h : Plans n G P Q x) : Plans n Never Always Q x :=
  h.mono (fun _ => False.elim) (fun _ _ => trivial) fun _ => id

theorem zero (h : Completes x (Next P) (Next Q) []) : Plans 0 G P Q x := ⟨h, fun _ _ _ => nofun⟩

theorem congr (h : Plans n G P Q y) (heq : ∀ stop ts, Live ts → x stop ts = y stop ts) :
    Plans n G P Q x where
  fresh := h.fresh.congr (fun stop ts hts _ => heq stop ts hts) fun _ => id
  foresees stop ts hts hlength :=
    (h.foresees stop ts hts hlength).congr hts (fun stop' ts' hts' _ => heq stop' ts' hts')
      fun _ => id

/-- A choice by the end of the input. -/
theorem atEnd {g : Bool → Reader α} {P₁ P₂ : SourceToken → Prop}
    (htrue : Plans n Never P₁ Q (g true)) (hfalse : Plans n Never P₂ Q (g false))
    (hP₁ : ∀ t, P₁ t → P t ∧ t.token = .endOfInput)
    (hP₂ : ∀ t, P₂ t → P t ∧ t.token ≠ .endOfInput) : Plans n Never P Q (Reader.atEnd >>= g) := by
  have hlooks : Plans n Never P Q (Reader.looksAt isEnd >>= g) :=
    htrue.looksAt hfalse (fun t ht => (hP₁ t ht).imp_right isEnd_eq_true.mpr)
      fun t ht => (hP₂ t ht).imp_right isEnd_eq_false.mpr
  refine hlooks.congr fun stop ts hts => ?_
  rw [Reader.bind_atEnd, Reader.bind_looksAt]
  congr 1
  cases hnext : next? ts with
  | none =>
      rw [show look (finAt stop) ts = finAt stop by simp [look, hnext]]
      rfl
  | some p =>
      have hlive := hts p.value (next?_suffix hnext).2
      rw [look_eq hnext, isEnd_eq_false.mpr hlive]
      rfl

end Plans

end Parser

end Stepwise
