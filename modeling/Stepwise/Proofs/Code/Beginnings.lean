import Stepwise.Proofs.Code.BehindCalls
import Stepwise.Proofs.Code.Ranges
import Stepwise.Proofs.Typing.Completion

/-!
# Where the statements of a line begin

The statements of a function that are no comments begin at one instruction each
(`FunctionDecl.beginnings`). A search for a line goes through the numbers along the code and stops
at each number of the line that it has not seen. Numbers are given out in the order in which
statements begin, and what is behind a beginning carries no greater number until the next statement
begins. So what the search has seen when it comes to the statement of the number `n` are the numbers
below `n` on that line (`numbersOn`), and it stops where statements begin and nowhere else
(`Stmt.search_marks`, `emitFunction_locationsAt`). A function without statements begins with its
closing `return`.
-/

set_option autoImplicit false

namespace Stepwise

/-! ## Statements and where they begin -/

mutual

/-- A statement and those inside it, in order, without comments. -/
def Stmt.every : Stmt → List Stmt
  | .comment .. => []
  | .cond condition thenBlock elseBlock span =>
    .cond condition thenBlock elseBlock span :: (Stmt.everyIn thenBlock ++ Stmt.everyIn elseBlock)
  | .whileLoop condition body span => .whileLoop condition body span :: Stmt.everyIn body
  | .repeatLoop count body span => .repeatLoop count body span :: Stmt.everyIn body
  | s => [s]

/-- The same for statements in a row. -/
def Stmt.everyIn : List Stmt → List Stmt
  | [] => []
  | s :: rest => s.every ++ Stmt.everyIn rest

end

mutual

/-- The same with the instruction at which each begins, if the whole begins at `pc`. -/
def Stmt.beginnings (pc : Nat) : Stmt → List (Nat × Stmt)
  | .comment .. => []
  | .cond condition thenBlock elseBlock span =>
    (pc, .cond condition thenBlock elseBlock span) ::
      (Stmt.beginningsIn (pc + condition.size + 1) thenBlock ++
        Stmt.beginningsIn (pc + condition.size + 1 + Stmt.sizes thenBlock + 1) elseBlock)
  | .whileLoop condition body span =>
    (pc, .whileLoop condition body span) :: Stmt.beginningsIn (pc + condition.size + 1) body
  | .repeatLoop count body span =>
    (pc, .repeatLoop count body span) :: Stmt.beginningsIn (pc + count.size + 4) body
  | s => [(pc, s)]

/-- The same for statements in a row. -/
def Stmt.beginningsIn (pc : Nat) : List Stmt → List (Nat × Stmt)
  | [] => []
  | s :: rest => s.beginnings pc ++ Stmt.beginningsIn (pc + s.size) rest

end

/-- Where the statements of a line begin, of some that begin. -/
def startsIn (line : Nat) (beginnings : List (Nat × Stmt)) : List Nat :=
  (beginnings.filter fun b => b.2.span.line = line).map (·.1)

namespace FunctionDecl

/-- The statements of a function, at whatever depth, in order and without comments. -/
def statements (d : FunctionDecl) : List Stmt := Stmt.everyIn d.body

/-- The statements of a function and where they begin. -/
def beginnings (d : FunctionDecl) : List (Nat × Stmt) := Stmt.beginningsIn 0 d.body

/-- Where the statements of a line begin in a function. One without statements has its own line. -/
def startsOn (d : FunctionDecl) (line : Nat) : List Nat :=
  if d.body.all Stmt.isComment then if d.span.line = line then [0] else []
  else startsIn line d.beginnings

end FunctionDecl

mutual

theorem Stmt.map_beginnings : ∀ (s : Stmt) (pc : Nat), (s.beginnings pc).map (·.2) = s.every
  | .cond condition thenBlock elseBlock span, pc => by
      simp [Stmt.beginnings, Stmt.every, Stmt.map_beginningsIn thenBlock,
        Stmt.map_beginningsIn elseBlock]
  | .whileLoop condition body span, pc | .repeatLoop condition body span, pc => by
      simp [Stmt.beginnings, Stmt.every, Stmt.map_beginningsIn body]
  | .comment .., _ | .expr _, _ | .var _, _ | .assign .., _ | .ret .., _ | .breakLoop _,
      _ | .continueLoop _, _ => rfl

/-- The statements that begin somewhere are all statements. -/
theorem Stmt.map_beginningsIn :
    ∀ (ss : List Stmt) (pc : Nat), (Stmt.beginningsIn pc ss).map (·.2) = Stmt.everyIn ss
  | [], pc => rfl
  | s :: rest, pc => by
      simp [Stmt.beginningsIn, Stmt.everyIn, Stmt.map_beginnings s, Stmt.map_beginningsIn rest]

end

mutual

theorem Stmt.map_line_every : ∀ s : Stmt, s.every.map (·.span.line) = s.startLines
  | .cond condition thenBlock elseBlock span => by
      rw [Stmt.every, List.map_cons, List.map_append, Stmt.map_line_everyIn thenBlock,
        Stmt.map_line_everyIn elseBlock]
      rfl
  | .whileLoop condition body span | .repeatLoop condition body span => by
      rw [Stmt.every, List.map_cons, Stmt.map_line_everyIn body]
      rfl
  | .comment .. | .expr _ | .var _ | .assign .. | .ret .. | .breakLoop _ | .continueLoop _ => rfl

theorem Stmt.map_line_everyIn :
    ∀ ss : List Stmt, (Stmt.everyIn ss).map (·.span.line) = Stmt.startLinesIn ss
  | [] => rfl
  | s :: rest => by
      simp [Stmt.everyIn, Stmt.startLinesIn, Stmt.map_line_every s, Stmt.map_line_everyIn rest]

end

/-! ## Beginnings and ranges -/

theorem Stmt.mem_beginnings_self {s : Stmt} (hs : s.isComment = false) (pc : Nat) :
    (pc, s) ∈ s.beginnings pc := by
  cases s with
  | comment text span => cases hs
  | _ => exact List.mem_cons_self

section Ranges

variable {d : FunctionDecl}

mutual

/-- What begins in a statement of a function is a statement of the function. -/
theorem Stmt.occupies_of_mem : ∀ (s : Stmt) {rest : List Stmt} {around : LoopAround} {pc pc' : Nat}
    {s' : Stmt},
    d.Row around pc (s :: rest) → (pc', s') ∈ s.beginnings pc →
      (∃ around', d.Occupies around' pc' s') ∧ s'.isComment = false
  | .cond condition thenBlock elseBlock span, rest, around, pc, pc', s', hrow, hmem => by
      rcases List.mem_cons.mp hmem with heq | hmem
      · cases heq
        exact ⟨⟨around, rest, hrow⟩, rfl⟩
      · rcases List.mem_append.mp hmem with hmem | hmem
        · exact Stmt.occupies_of_mem_all thenBlock hrow.thenBlock hmem
        · exact Stmt.occupies_of_mem_all elseBlock hrow.elseBlock hmem
  | .whileLoop condition body span, rest, around, pc, pc', s', hrow, hmem => by
      rcases List.mem_cons.mp hmem with heq | hmem
      · cases heq
        exact ⟨⟨around, rest, hrow⟩, rfl⟩
      · exact Stmt.occupies_of_mem_all body hrow.whileBody hmem
  | .repeatLoop count body span, rest, around, pc, pc', s', hrow, hmem => by
      rcases List.mem_cons.mp hmem with heq | hmem
      · cases heq
        exact ⟨⟨around, rest, hrow⟩, rfl⟩
      · exact Stmt.occupies_of_mem_all body hrow.repeatBody hmem
  | .comment .., _, _, _, _, _, _, hmem => absurd hmem List.not_mem_nil
  | .expr _, rest, around, pc, pc', s', hrow, hmem | .var _, rest, around, pc, pc', s', hrow, hmem
  | .assign .., rest, around, pc, pc', s', hrow, hmem | .ret .., rest, around, pc, pc', s',
      hrow, hmem
  | .breakLoop _, rest, around, pc, pc', s', hrow, hmem | .continueLoop _, rest, around, pc, pc',
      s', hrow, hmem => by
      cases List.mem_singleton.mp hmem
      exact ⟨⟨around, rest, hrow⟩, rfl⟩

theorem Stmt.occupies_of_mem_all : ∀ (ss : List Stmt) {around : LoopAround} {pc pc' : Nat}
    {s' : Stmt},
    d.Row around pc ss → (pc', s') ∈ Stmt.beginningsIn pc ss →
      (∃ around', d.Occupies around' pc' s') ∧ s'.isComment = false
  | [], _, _, _, _, _, hmem => absurd hmem List.not_mem_nil
  | s :: rest, around, pc, pc', s', hrow, hmem => by
      rcases List.mem_append.mp hmem with hmem | hmem
      · exact Stmt.occupies_of_mem s hrow hmem
      · exact Stmt.occupies_of_mem_all rest hrow.next hmem

end

/-- What begins in a row of a function begins in the function. -/
theorem FunctionDecl.Row.beginningsIn_subset {around : LoopAround} {pc : Nat} {ss : List Stmt}
    (h : d.Row around pc ss) : Stmt.beginningsIn pc ss ⊆ d.beginnings := by
  induction h with
  | body => exact List.Subset.refl _
  | next _ ih => exact fun b hb => ih (List.mem_append_right _ hb)
  | thenBlock _ ih =>
    exact fun b hb =>
      ih (List.mem_append_left _ (List.mem_cons_of_mem _ (List.mem_append_left _ hb)))
  | elseBlock _ ih =>
      exact fun b hb =>
        ih (List.mem_append_left _ (List.mem_cons_of_mem _ (List.mem_append_right _ hb)))
  | whileBody _ ih | repeatBody _ ih =>
    exact fun b hb => ih (List.mem_append_left _ (List.mem_cons_of_mem _ hb))

/-- **What begins in a function** are its statements that are no comments, each where its range
starts. -/
theorem FunctionDecl.mem_beginnings {pc : Nat} {s : Stmt} :
    (pc, s) ∈ d.beginnings ↔ (∃ around, d.Occupies around pc s) ∧ s.isComment = false := by
  refine ⟨Stmt.occupies_of_mem_all d.body .body, ?_⟩
  rintro ⟨⟨around, rest, hrow⟩, hs⟩
  exact hrow.beginningsIn_subset (List.mem_append_left _ (Stmt.mem_beginnings_self hs pc))

end Ranges

/-! ## The search for a line -/

/-- The first occurrences come in order, on the line that was searched for, and not before the
search. -/
theorem firstOccurrences_bounds {line : Nat} {infos : List LineInfo} :
    ∀ {seen : List Nat} {pc here : Nat},
    here ∈ firstOccurrences line seen pc infos → pc ≤ here ∧ ∃ i,
    infos[here - pc]? = some ⟨i, line⟩ := by
  induction infos with
  | nil => exact fun h => absurd h List.not_mem_nil
  | cons info rest ih =>
      intro seen pc here h
      have hlater {seen' : List Nat} (h : here ∈ firstOccurrences line seen' (pc + 1) rest) :
          pc ≤ here ∧ ∃ i, (info :: rest)[here - pc]? = some ⟨i, line⟩ := by
        obtain ⟨hle, i, hi⟩ := ih h
        refine ⟨by omega, i, ?_⟩
        rw [show here - pc = here - (pc + 1) + 1 by omega, List.getElem?_cons_succ, hi]
      rw [firstOccurrences] at h
      split at h
      · next hfirst =>
          rcases List.mem_cons.mp h with rfl | h
          · refine ⟨Nat.le_refl _, info.index, ?_⟩
            rw [Nat.sub_self, List.getElem?_cons_zero, ← hfirst.1]
          · exact hlater h
      · exact hlater h

theorem firstOccurrences_sorted (line : Nat) (infos : List LineInfo) :
    ∀ (seen : List Nat) (pc : Nat),
    (firstOccurrences line seen pc infos).Pairwise (· < ·) := by
  induction infos with
  | nil => exact fun _ _ => .nil
  | cons info rest ih =>
      intro seen pc
      rw [firstOccurrences]
      split
      · exact .cons (fun here h => (firstOccurrences_bounds h).1) (ih _ _)
      · exact ih _ _

section Search

variable {lines : List Nat} {line : Nat}

/-- What an instruction carries if it carries a number, given the lines by number. -/
def LineInfo.ofNumber (lines : List Nat) (n : Nat) : LineInfo := ⟨n, lines.getD n 0⟩

/-- The numbers on a line that are below a number. -/
def numbersOn (lines : List Nat) (line : Nat) : Nat → List Nat
  | 0 => []
  | n + 1 => if lines.getD n 0 = line then n :: numbersOn lines line n else numbersOn lines line n

theorem mem_numbersOn {n k : Nat} : k ∈ numbersOn lines line n ↔ k < n ∧ lines.getD k 0 = line := by
  induction n with
  | zero => simp [numbersOn]
  | succ n ih =>
      rw [numbersOn]
      split
      · next hline =>
          rw [List.mem_cons, ih, Nat.lt_succ_iff_lt_or_eq, or_and_right, or_comm]
          refine or_congr_right ⟨?_, And.left⟩
          rintro rfl
          exact ⟨rfl, hline⟩
      · next hline =>
          rw [ih, Nat.lt_succ_iff_lt_or_eq, or_and_right, or_iff_left]
          rintro ⟨rfl, h⟩
          exact hline h

/-- The search through code that carries numbers, at the place where the number `n` is next to
begin. -/
def search (lines : List Nat) (line n pc : Nat) (marks : List Nat) : List Nat :=
  firstOccurrences line (numbersOn lines line n) pc (marks.map (.ofNumber lines))

/-- The search passes over numbers that have begun. -/
theorem search_old {n : Nat} {old : List Nat} (hold : ∀ k ∈ old, k < n) :
    ∀ (pc : Nat) (marks : List Nat),
    search lines line n pc (old ++ marks) = search lines line n (pc + old.length) marks := by
  induction old with
  | nil => exact fun _ _ => rfl
  | cons k rest ih =>
      intro pc marks
      have hrest := ih (fun k hk => hold k (List.mem_cons_of_mem _ hk)) (pc + 1) marks
      have hk : k < n := hold k List.mem_cons_self
      have hseen : ¬((LineInfo.ofNumber lines k).line = line ∧
          (LineInfo.ofNumber lines k).index ∉ numbersOn lines line n) :=
        fun h => h.2 (mem_numbersOn.mpr ⟨hk, h.1⟩)
      rw [List.length_cons, ← Nat.add_assoc, Nat.add_right_comm, ← hrest]
      show firstOccurrences _ _ _ (_ :: _) = _
      rw [firstOccurrences, if_neg hseen]
      rfl

/-- The search stops at a number that begins, if it is on the line. -/
theorem search_new (n pc : Nat) (marks : List Nat) :
    search lines line n pc (n :: marks) =
      (if lines.getD n 0 = line then [pc] else []) ++ search lines line (n + 1) (pc + 1) marks := by
  have hunseen : n ∉ numbersOn lines line n := fun h => Nat.lt_irrefl _ (mem_numbersOn.mp h).1
  show firstOccurrences _ _ _ (.ofNumber lines n :: _) = _
  rw [firstOccurrences, search, numbersOn]
  by_cases hline : lines.getD n 0 = line
  · rw [if_pos ⟨hline, hunseen⟩, if_pos hline, if_pos hline]
    rfl
  · rw [if_neg fun h => hline h.1, if_neg hline, if_neg hline]
    rfl

/-- The search through a number that begins and goes on. -/
theorem search_replicate {n size : Nat} (hsize : 0 < size) (pc : Nat) (marks : List Nat) :
    search lines line n pc (List.replicate size n ++ marks) =
      (if lines.getD n 0 = line then [pc] else []) ++
        search lines line (n + 1) (pc + size) marks := by
  obtain ⟨size, rfl⟩ := Nat.exists_eq_add_of_lt hsize
  have hold : ∀ k ∈ List.replicate (0 + size) n, k < n + 1 := by
    intro k hk
    rw [List.eq_of_mem_replicate hk]
    exact Nat.lt_succ_self n
  rw [List.replicate_succ, List.cons_append, search_new, search_old hold, List.length_replicate,
    Nat.add_right_comm, Nat.add_assoc]

theorem startsIn_append (line : Nat) (first second : List (Nat × Stmt)) :
    startsIn line (first ++ second) = startsIn line first ++ startsIn line second := by
  simp [startsIn]

theorem startsIn_cons (line pc : Nat) (s : Stmt) (rest : List (Nat × Stmt)) :
    startsIn line ((pc, s) :: rest) = (if s.span.line = line then [pc] else []) ++
      startsIn line rest := by
  by_cases h : s.span.line = line <;> simp [startsIn, h]

/-- Behind statements in a row the number of one of them is current, or that before them if all are
comments. -/
theorem Stmt.lasts_lt {ss : List Stmt} {n before : Nat}
    (h : ss.all Stmt.isComment = false ∨ before < n) :
    Stmt.lasts n before ss < n + Stmt.counts ss := by
  cases hcomments : ss.all Stmt.isComment with
  | true =>
      rw [(Stmt.counts_of_all_comments hcomments n before).2]
      have hbefore := h.resolve_left (by simp [hcomments])
      omega
  | false =>
      obtain ⟨start, stop, hextent, -⟩ := Stmt.exists_last_all ss 0 n before 0 hcomments
      exact hextent.bounds.2.2.2.2.2

/-- The search through a statement whose instructions all carry its number. -/
theorem Stmt.search_simple {s : Stmt} {n : Nat} (hs : s.isComment = false)
    (hmarks : s.marks n = List.replicate s.size n) (hline : lines.getD n 0 = s.span.line)
    (hcount : s.count = 1) {pc : Nat} (hbegins : s.beginnings pc = [(pc, s)]) (marks : List Nat) :
    search lines line n pc (s.marks n ++ marks) =
      startsIn line (s.beginnings pc) ++ search lines line (n + s.count) (pc + s.size) marks := by
  rw [hmarks, search_replicate (Stmt.size_pos hs), hline, hcount, hbegins, startsIn_cons]
  exact congrArg (· ++ _) (List.append_nil _).symm

theorem LinesFrom.getD {all lines : List Nat} {n line : Nat} (h : LinesFrom all n (line :: lines)) :
    all.getD n 0 = line := by
  rw [List.getD_eq_getElem?_getD, h.head]
  rfl

/-- The search through a loop: some instructions carry its number, then come those of its body, and
then some that carry its number again. -/
theorem Stmt.search_loop {body : List Stmt} {n pc front : Nat} {marks : List Nat}
    (hfront : 0 < front) (back : Nat)
    (hbody : search lines line (n + 1) (pc + front) (Stmt.marksIn (n + 1) body ++
        (List.replicate back n ++ marks)) =
      startsIn line (Stmt.beginningsIn (pc + front) body) ++
        search lines line (n + 1 + Stmt.counts body) (pc + front + Stmt.sizes body)
          (List.replicate back n ++ marks)) :
    search lines line n pc (List.replicate front n ++ Stmt.marksIn (n + 1) body ++
      List.replicate back n ++ marks) =
      (if lines.getD n 0 = line then [pc] else []) ++
        startsIn line (Stmt.beginningsIn (pc + front) body) ++
        search lines line (n + 1 + Stmt.counts body) (pc + front + Stmt.sizes body + back)
          marks := by
  have hold : ∀ k ∈ List.replicate back n, k < n + 1 + Stmt.counts body := by
    intro k hk
    rw [List.eq_of_mem_replicate hk]
    omega
  rw [List.append_assoc, List.append_assoc, search_replicate hfront, hbody, search_old hold,
    List.length_replicate, List.append_assoc]

mutual

/-- **The search goes through a statement** and stops where it and those inside it begin. -/
theorem Stmt.search_marks : ∀ (s : Stmt) {n : Nat} (pc : Nat) (marks : List Nat),
    LinesFrom lines n s.startLines →
    search lines line n pc (s.marks n ++ marks) =
      startsIn line (s.beginnings pc) ++ search lines line (n + s.count) (pc + s.size) marks
  | .comment .., n, pc, marks, _ => rfl
  | .expr _, n, pc, marks, h | .var _, n, pc, marks, h | .assign .., n, pc, marks, h | .ret .., n,
      pc, marks, h
  | .breakLoop _, n, pc, marks, h | .continueLoop _, n, pc, marks, h =>
    Stmt.search_simple rfl rfl h.getD rfl rfl marks
  | .cond condition thenBlock elseBlock span, n, pc, marks, h => by
      obtain ⟨hthen, helse⟩ := h.tail.append
      rw [Stmt.length_startLinesIn] at helse
      have hjump : ∀ k ∈ [Stmt.lasts (n + 1) n thenBlock], k < n + 1 + Stmt.counts thenBlock := by
        intro k hk
        rw [List.mem_singleton.mp hk]
        exact Stmt.lasts_lt (.inr (Nat.lt_succ_self n))
      have hcount : n + (Stmt.cond condition thenBlock elseBlock span).count =
          n + 1 + Stmt.counts thenBlock + Stmt.counts elseBlock := by
        rw [Stmt.count]
        omega
      have hsize : pc + (Stmt.cond condition thenBlock elseBlock span).size =
          pc + (condition.size + 1) + Stmt.sizes thenBlock + 1 + Stmt.sizes elseBlock := by
        rw [Stmt.size]
        omega
      have htest : 0 < condition.size + 1 := by omega
      rw [Stmt.marks, List.append_assoc, List.append_assoc, List.append_assoc,
        search_replicate htest, Stmt.search_marksIn thenBlock _ _ hthen, search_old hjump,
        Stmt.search_marksIn elseBlock _ _ helse,
        Stmt.beginnings, startsIn_cons, startsIn_append, h.getD, hcount, hsize]
      simp only [List.append_assoc, Nat.add_assoc, List.length_singleton]
      rfl
  | .whileLoop condition body span, n, pc, marks, h => by
      have hbody :=
        Stmt.search_marksIn body (n := n + 1) (pc + (condition.size + 1)) ([n] ++ marks) h.tail
      have hline : lines.getD n 0 = (Stmt.whileLoop condition body span).span.line := h.getD
      have hcount : n + (Stmt.whileLoop condition body span).count = n + 1 + Stmt.counts body := by
        rw [Stmt.count]
        omega
      have hsize : pc + (Stmt.whileLoop condition body span).size =
          pc + (condition.size + 1) + Stmt.sizes body + 1 := by
        rw [Stmt.size]
        omega
      rw [Stmt.marks, Stmt.beginnings, startsIn_cons, hcount, hsize, ← hline]
      exact Stmt.search_loop (Nat.succ_pos _) 1 hbody
  | .repeatLoop count body span, n, pc, marks, h => by
      have hbody :=
        Stmt.search_marksIn body (n := n + 1) (pc + (count.size + 4))
          (List.replicate 4 n ++ marks) h.tail
      have hline : lines.getD n 0 = (Stmt.repeatLoop count body span).span.line := h.getD
      have hcount : n + (Stmt.repeatLoop count body span).count = n + 1 + Stmt.counts body := by
        rw [Stmt.count]
        omega
      have hsize : pc + (Stmt.repeatLoop count body span).size = pc + (count.size + 4) + Stmt.sizes
          body + 4 := by
        rw [Stmt.size]
        omega
      rw [Stmt.marks, Stmt.beginnings, startsIn_cons, hcount, hsize, ← hline]
      exact Stmt.search_loop (Nat.succ_pos _) 4 hbody

/-- The same for statements in a row. -/
theorem Stmt.search_marksIn : ∀ (ss : List Stmt) {n : Nat} (pc : Nat) (marks : List Nat),
    LinesFrom lines n (Stmt.startLinesIn ss) →
      search lines line n pc (Stmt.marksIn n ss ++ marks) =
        startsIn line (Stmt.beginningsIn pc ss) ++
          search lines line (n + Stmt.counts ss) (pc + Stmt.sizes ss) marks
  | [], n, pc, marks, _ => rfl
  | s :: rest, n, pc, marks, h => by
      obtain ⟨hhead, htail⟩ := LinesFrom.append h
      rw [Stmt.length_startLines] at htail
      rw [Stmt.marksIn, List.append_assoc, Stmt.search_marks s _ _ hhead, Stmt.search_marksIn rest _
        _ htail, Stmt.beginningsIn, startsIn_append, Stmt.counts, Stmt.sizes]
      simp only [List.append_assoc, Nat.add_assoc]

end

end Search

/-! ## Functions -/

theorem Stmt.beginningsIn_of_all_comments {ss : List Stmt} (h : ss.all Stmt.isComment = true)
    (pc : Nat) :
    Stmt.beginningsIn pc ss = [] := by
  induction ss generalizing pc with
  | nil => rfl
  | cons s rest ih =>
      rw [List.all_cons, Bool.and_eq_true] at h
      rw [Stmt.beginningsIn, ih h.2, List.append_nil]
      cases s with
      | comment text span => rfl
      | _ => cases h.1

/-- The search through a function stops where its statements begin. -/
theorem FunctionDecl.search_marks (d : FunctionDecl) (line : Nat) :
    search d.startLines line 0 0 d.marks = d.startsOn line := by
  have hlines : LinesFrom d.startLines 0 (Stmt.startLinesIn d.body) := List.prefix_append _ _
  rw [marks, Stmt.search_marksIn d.body _ _ hlines, Nat.zero_add, startsOn]
  cases hcomments : d.body.all Stmt.isComment with
  | true =>
      obtain ⟨hcounts, hlasts⟩ := Stmt.counts_of_all_comments hcomments 0 0
      have hown : d.startLines.getD 0 0 = d.span.line := by
        have hnone : Stmt.startLinesIn d.body = [] := by
          rw [← List.length_eq_zero_iff, Stmt.length_startLinesIn, hcounts]
        rw [startLines, hnone]
        rfl
      rw [Stmt.beginningsIn_of_all_comments hcomments, hcounts, Stmt.sizes_of_all_comments
        hcomments, endsWithReturn_of_all_comments hcomments, hlasts, if_neg Bool.false_ne_true,
        search_new, hown]
      exact List.append_nil _
  | false =>
      have hold : ∀ k ∈ if endsWithReturn d.body then [] else [Stmt.lasts 0 0 d.body],
          k < Stmt.counts d.body := by
        intro k hk
        split at hk
        · cases hk
        · rw [List.mem_singleton.mp hk]
          have hlast : Stmt.lasts 0 0 d.body < 0 + Stmt.counts d.body :=
            Stmt.lasts_lt (.inl hcomments)
          omega
      rw [← List.append_nil (if endsWithReturn d.body then [] else [Stmt.lasts 0 0 d.body]),
        search_old hold, if_neg Bool.false_ne_true]
      exact List.append_nil _

section Made

variable {r : Registry} {index : Nat} {d : FunctionDecl} {code : FunctionCode}

/-- Beside the instructions of a function stand the numbers of its tree, with their lines. -/
theorem emitFunction_lineInfos (h : emitFunction r index d = .ok code) :
    code.lineInfos.toList = d.marks.map (.ofNumber d.startLines) := by
  rw [← emitFunction_numbered h, List.map_map]
  refine (List.map_id _).symm.trans (List.map_congr_left fun info hinfo => ?_)
  have hfits : d.startLines[info.index]? = some info.line := emitFunction_lined h info hinfo
  rw [Function.comp_apply, LineInfo.ofNumber, List.getD_eq_getElem?_getD, hfits]
  rfl

/-- **A line of a function is found where its statements begin.** -/
theorem emitFunction_locationsAt (h : emitFunction r index d = .ok code) (line : Nat) :
    code.locationsAt line = (d.startsOn line).map (CodeLocation.mk index) := by
  rw [FunctionCode.locationsAt, emitFunction_lineInfos h, (emitFunction_compiled h).index,
    ← d.search_marks line]
  rfl

end Made

/-! ## Modules -/

theorem Expr.Completed.span_eq {r : Registry} {e e' : Expr} (h : e.Completed r e') :
    e'.span = e.span := by
  cases h <;> rfl

mutual

theorem Stmt.Completed.map_span_every {r : Registry} : ∀ {s s' : Stmt}, s.Completed r s' →
    s'.every.map Stmt.span = s.every.map Stmt.span
  | _, _, .cond _ hthen helse => by
      rw [Stmt.every, Stmt.every, List.map_cons, List.map_cons, List.map_append, List.map_append,
        Stmt.AllCompleted.map_span_everyIn hthen, Stmt.AllCompleted.map_span_everyIn helse]
      rfl
  | _, _, .whileLoop _ hbody => by
      rw [Stmt.every, Stmt.every, List.map_cons, List.map_cons,
        Stmt.AllCompleted.map_span_everyIn hbody]
      rfl
  | _, _, .repeatLoop _ hbody => by
      rw [Stmt.every, Stmt.every, List.map_cons, List.map_cons,
        Stmt.AllCompleted.map_span_everyIn hbody]
      rfl
  | _, _, .expr he => congrArg (fun span => [span]) he.span_eq
  | _, _, .var _ | _, _, .assign _ _ | _, _, .retValue _ | _, _, .retNothing | _, _, .breakLoop | _,
      _, .continueLoop
  | _, _, .comment => rfl

/-- Checking leaves statements where they are written. -/
theorem Stmt.AllCompleted.map_span_everyIn {r : Registry} :
    ∀ {ss ss' : List Stmt}, Stmt.AllCompleted r ss ss' →
    (Stmt.everyIn ss').map Stmt.span = (Stmt.everyIn ss).map Stmt.span
  | _, _, .nil => rfl
  | _, _, .cons hs hrest => by
      rw [Stmt.everyIn, Stmt.everyIn, List.map_append, List.map_append,
        Stmt.Completed.map_span_every hs, Stmt.AllCompleted.map_span_everyIn hrest]

end

/-- The order of locations in a module: by function, and by instruction within a function. -/
def CodeLocation.Before (a b : CodeLocation) : Prop :=
  a.function < b.function ∨ a.function = b.function ∧ a.pc < b.pc

theorem locationsAt_sorted (code : FunctionCode) (line : Nat) :
    (code.locationsAt line).Pairwise CodeLocation.Before :=
  List.pairwise_map.mpr ((firstOccurrences_sorted line _ [] 0).imp fun hlt => .inr ⟨rfl, hlt⟩)

/-- A line of functions in a row is found in one after the other. -/
theorem emitFunctions_locationsAt {r : Registry} (line : Nat) {decls : List FunctionDecl} :
    ∀ {start : Nat} {codes : List FunctionCode}, emitFunctions r start decls = .ok codes →
      codes.flatMap (·.locationsAt line) =
          (decls.zipIdx start).flatMap (fun d => (d.1.startsOn line).map (CodeLocation.mk d.2)) ∧
        (codes.flatMap (·.locationsAt line)).Pairwise CodeLocation.Before ∧
          ∀ l ∈ codes.flatMap (·.locationsAt line), start ≤ l.function := by
  induction decls with
  | nil =>
      intro start codes h
      cases h
      exact ⟨rfl, .nil, nofun⟩
  | cons d rest ih =>
      intro start codes h
      obtain ⟨first, others, hfirst, hothers, rfl⟩ := emitFunctions_cons_eq_ok.mp h
      obtain ⟨hrest, hsorted, hlater⟩ := ih hothers
      have hhead := emitFunction_locationsAt hfirst line
      have hin : ∀ l ∈ first.locationsAt line, l.function = start := by
        intro l hl
        rw [hhead] at hl
        obtain ⟨pc, -, rfl⟩ := List.mem_map.mp hl
        rfl
      rw [List.flatMap_cons, List.zipIdx_cons, List.flatMap_cons, ← hhead, ← hrest]
      refine ⟨rfl, List.pairwise_append.mpr ⟨locationsAt_sorted first line, hsorted, ?_⟩, ?_⟩
      · intro a ha b hb
        have := hin a ha
        have := hlater b hb
        exact .inl (by omega)
      · intro l hl
        rcases List.mem_append.mp hl with hl | hl
        · exact (hin l hl).ge
        · exact Nat.le_of_succ_le (hlater l hl)

end Stepwise
