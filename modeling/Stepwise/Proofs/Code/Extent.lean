import Stepwise.Proofs.Code.Numbering

/-!
# The extents of statements

The instructions that carry the number of a statement lie together, from where it begins to where it
ends: this is its extent. A statement at the end of the first block of an `if` extends over the jump
behind that block, and a statement at the end of a body extends over the closing `return`, since
these carry its number.

**Entry.** The extent of a statement is entered only where the statement begins
(`FunctionDecl.Extent.entered`). So whoever is at an instruction of a statement has been where it
begins.

**Borrowing.** There is one exception to the rule that instructions carry the number of a statement
in whose extent they are. If a block or body ends in an `if` that contains statements, the jump or
`return` behind it carries the number of the statement inside that `if` that begins last, wherever
the program came from. These instructions borrow their number (`FunctionDecl.borrows`,
`FunctionDecl.marks_covered`).
-/

set_option autoImplicit false

namespace Stepwise

/-! ## Extents -/

/-- Whether a statement is an `if` with statements inside, of which only some are gone through. -/
def Stmt.forks : Stmt → Bool
  | .cond _ thenBlock elseBlock _ => !(thenBlock.all Stmt.isComment && elseBlock.all Stmt.isComment)
  | _ => false

/-- Whether the last statement that is no comment is an `if` with statements inside. -/
def endsForked : List Stmt → Bool
  | [] => false
  | s :: rest => if rest.all Stmt.isComment then s.forks else endsForked rest

mutual

/-- In a statement that starts at `pc`, has the number `n` and is followed by `tail` more
instructions with the number that is current behind it, the statement of the number given extends
from the first of the last two instructions to before the second. -/
inductive StmtExtent : Stmt → Nat → Nat → Nat → Nat → Nat → Nat → Prop
  | self {s : Stmt} {pc n tail : Nat} :
      s.isComment = false → StmtExtent s pc n tail n pc (pc + s.size + if s.forks then 0 else tail)
  | thenBlock {condition : Expr} {thenBlock elseBlock : List Stmt} {span : Span}
      {pc n tail i start stop : Nat} :
      StmtsExtent thenBlock (pc + condition.size + 1) (n + 1) 1 i start stop →
      StmtExtent (.cond condition thenBlock elseBlock span) pc n tail i start stop
  | elseBlock {condition : Expr} {thenBlock elseBlock : List Stmt} {span : Span}
      {pc n tail i start stop : Nat} :
      StmtsExtent elseBlock (pc + condition.size + 1 + Stmt.sizes thenBlock + 1)
        (n + 1 + Stmt.counts thenBlock) 0
        i start stop →
      StmtExtent (.cond condition thenBlock elseBlock span) pc n tail i start stop
  | whileBody {condition : Expr} {body : List Stmt} {span : Span} {pc n tail i start stop : Nat} :
      StmtsExtent body (pc + condition.size + 1) (n + 1) 0 i start stop →
      StmtExtent (.whileLoop condition body span) pc n tail i start stop
  | repeatBody {count : Expr} {body : List Stmt} {span : Span} {pc n tail i start stop : Nat} :
      StmtsExtent body (pc + count.size + 4) (n + 1) 0 i start stop →
      StmtExtent (.repeatLoop count body span) pc n tail i start stop

/-- The same for statements in a row, numbered from `n`. What follows them belongs to the last
one. -/
inductive StmtsExtent : List Stmt → Nat → Nat → Nat → Nat → Nat → Nat → Prop
  | head {s : Stmt} {rest : List Stmt} {pc n tail i start stop : Nat} :
      StmtExtent s pc n (if rest.all Stmt.isComment then tail else 0) i start stop →
      StmtsExtent (s :: rest) pc n tail i start stop
  | tail {s : Stmt} {rest : List Stmt} {pc n tail i start stop : Nat} :
      StmtsExtent rest (pc + s.size) (n + s.count) tail i start stop →
      StmtsExtent (s :: rest) pc n tail i start stop

end

mutual

/-- Whether, in a statement that starts at `pc`, the instruction `here` is the jump behind the first
block of an `if`, and that block ends in an `if` with statements inside. -/
def Stmt.borrows (pc here : Nat) : Stmt → Bool
  | .cond condition thenBlock elseBlock _ =>
    let skip := pc + condition.size + 1 + Stmt.sizes thenBlock
    (endsForked thenBlock && here == skip) || Stmt.borrowsIn (pc + condition.size + 1) here
      thenBlock ||
      Stmt.borrowsIn (skip + 1) here elseBlock
  | .whileLoop condition body _ => Stmt.borrowsIn (pc + condition.size + 1) here body
  | .repeatLoop count body _ => Stmt.borrowsIn (pc + count.size + 4) here body
  | _ => false

/-- The same for statements in a row. -/
def Stmt.borrowsIn (pc here : Nat) : List Stmt → Bool
  | [] => false
  | s :: rest => s.borrows pc here || Stmt.borrowsIn (pc + s.size) here rest

end

mutual

/-- An extent lies in the code of the tree and in what follows it, and the number is one of the
tree's. -/
theorem StmtExtent.bounds :
    ∀ {s : Stmt} {pc n tail i start stop : Nat}, StmtExtent s pc n tail i start stop →
    pc ≤ start ∧ start < stop ∧ start < pc + s.size ∧ stop ≤ pc + s.size + tail ∧ n ≤ i ∧
    i < n + s.count
  | s, pc, n, tail, _, _, _, .self hs => by
      have hsize := Stmt.size_pos hs
      have hcount := Stmt.count_pos hs
      split <;> omega
  | .cond condition thenBlock elseBlock span, pc, n, tail, i, start, stop, .thenBlock h => by
      have := StmtsExtent.bounds h
      rw [Stmt.size, Stmt.count]
      omega
  | .cond condition thenBlock elseBlock span, pc, n, tail, i, start, stop, .elseBlock h => by
      have := StmtsExtent.bounds h
      rw [Stmt.size, Stmt.count]
      omega
  | .whileLoop condition body span, pc, n, tail, i, start, stop, .whileBody h => by
      have := StmtsExtent.bounds h
      rw [Stmt.size, Stmt.count]
      omega
  | .repeatLoop count body span, pc, n, tail, i, start, stop, .repeatBody h => by
      have := StmtsExtent.bounds h
      rw [Stmt.size, Stmt.count]
      omega

theorem StmtsExtent.bounds : ∀ {ss : List Stmt} {pc n tail i start stop : Nat},
    StmtsExtent ss pc n tail i start stop → pc ≤ start ∧ start < stop ∧ start < pc + Stmt.sizes ss ∧
      stop ≤ pc + Stmt.sizes ss + tail ∧ n ≤ i ∧ i < n + Stmt.counts ss
  | s :: rest, pc, n, tail, i, start, stop, .head h => by
      have := StmtExtent.bounds h
      rw [Stmt.sizes, Stmt.counts]
      split at this <;> omega
  | s :: rest, pc, n, tail, i, start, stop, .tail h => by
      have := StmtsExtent.bounds h
      rw [Stmt.sizes, Stmt.counts]
      omega

end

mutual

/-- A number belongs to one statement only. -/
theorem StmtExtent.start_unique : ∀ {s : Stmt} {pc n tail i start stop start' stop' : Nat},
    StmtExtent s pc n tail i start stop → StmtExtent s pc n tail i start' stop' → start = start'
  | _, _, _, _, _, _, _, _, _, .self _, h => by
      cases h with
      | self _ => rfl
      | thenBlock h => have := h.bounds; omega
      | elseBlock h => have := h.bounds; omega
      | whileBody h => have := h.bounds; omega
      | repeatBody h => have := h.bounds; omega
  | _, _, _, _, _, _, _, _, _, .thenBlock h, h' => by
      have hbounds := h.bounds
      cases h' with
      | self _ => omega
      | thenBlock h' => exact StmtsExtent.start_unique h h'
      | elseBlock h' => have := h'.bounds; omega
  | _, _, _, _, _, _, _, _, _, .elseBlock h, h' => by
      have hbounds := h.bounds
      cases h' with
      | self _ => omega
      | thenBlock h' => have := h'.bounds; omega
      | elseBlock h' => exact StmtsExtent.start_unique h h'
  | _, _, _, _, _, _, _, _, _, .whileBody h, h' => by
      have hbounds := h.bounds
      cases h' with
      | self _ => omega
      | whileBody h' => exact StmtsExtent.start_unique h h'
  | _, _, _, _, _, _, _, _, _, .repeatBody h, h' => by
      have hbounds := h.bounds
      cases h' with
      | self _ => omega
      | repeatBody h' => exact StmtsExtent.start_unique h h'

theorem StmtsExtent.start_unique : ∀ {ss : List Stmt} {pc n tail i start stop start' stop' : Nat},
    StmtsExtent ss pc n tail i start stop → StmtsExtent ss pc n tail i start' stop' → start = start'
  | _, _, _, _, _, _, _, _, _, .head h, h' => by
      have hbounds := h.bounds
      cases h' with
      | head h' => exact StmtExtent.start_unique h h'
      | tail h' => have := h'.bounds; omega
  | _, _, _, _, _, _, _, _, _, .tail h, h' => by
      have hbounds := h.bounds
      cases h' with
      | head h' => have := h'.bounds; omega
      | tail h' => exact StmtsExtent.start_unique h h'

end

/-! ## Numbers and extents -/

theorem Stmt.forks_eq_false {condition : Expr} {thenBlock elseBlock : List Stmt} {span : Span} :
    (Stmt.cond condition thenBlock elseBlock span).forks = false ↔
      thenBlock.all Stmt.isComment = true ∧ elseBlock.all Stmt.isComment = true := by
  rw [Stmt.forks, Bool.not_eq_false', Bool.and_eq_true]

mutual

/-- The number that is current behind a statement is its own or that of a statement inside. The
extent of that one goes on behind the statement, unless it is an `if` with statements inside. -/
theorem Stmt.exists_last : ∀ (s : Stmt) (pc n before tail : Nat), s.isComment = false →
    ∃ start stop, StmtExtent s pc n tail (s.last n before) start stop ∧
      (stop = pc + s.size + tail ∨ s.forks = true)
  | .cond condition thenBlock elseBlock span, pc, n, before, tail, hs => by
      cases helse : elseBlock.all Stmt.isComment with
      | false =>
          obtain ⟨start, stop, h, -⟩ := Stmt.exists_last_all elseBlock
            (pc + condition.size + 1 + Stmt.sizes thenBlock + 1) (n + 1 + Stmt.counts thenBlock)
            (Stmt.lasts (n + 1) n thenBlock) 0 helse
          exact ⟨start, stop, .elseBlock h, .inr (by simp [Stmt.forks, helse])⟩
      | true =>
          rw [Stmt.last, (Stmt.counts_of_all_comments helse _ _).2]
          cases hthen : thenBlock.all Stmt.isComment with
          | false =>
              obtain ⟨start, stop, h, -⟩ :=
                Stmt.exists_last_all thenBlock (pc + condition.size + 1) (n + 1) n 1 hthen
              exact ⟨start, stop, .thenBlock h, .inr (by simp [Stmt.forks, hthen])⟩
          | true =>
              rw [(Stmt.counts_of_all_comments hthen _ _).2]
              exact ⟨_, _, .self hs, .inl (by rw [Stmt.forks_eq_false.mpr ⟨hthen, helse⟩]; rfl)⟩
  | .expr e, pc, n, before, tail, hs => ⟨_, _, .self hs, .inl rfl⟩
  | .var decl, pc, n, before, tail, hs => ⟨_, _, .self hs, .inl rfl⟩
  | .assign target value span, pc, n, before, tail, hs => ⟨_, _, .self hs, .inl rfl⟩
  | .whileLoop condition body span, pc, n, before, tail, hs => ⟨_, _, .self hs, .inl rfl⟩
  | .repeatLoop count body span, pc, n, before, tail, hs => ⟨_, _, .self hs, .inl rfl⟩
  | .ret value span, pc, n, before, tail, hs => ⟨_, _, .self hs, .inl rfl⟩
  | .breakLoop span, pc, n, before, tail, hs => ⟨_, _, .self hs, .inl rfl⟩
  | .continueLoop span, pc, n, before, tail, hs => ⟨_, _, .self hs, .inl rfl⟩

/-- The same for statements in a row. -/
theorem Stmt.exists_last_all :
    ∀ (ss : List Stmt) (pc n before tail : Nat), ss.all Stmt.isComment = false →
    ∃ start stop, StmtsExtent ss pc n tail (Stmt.lasts n before ss) start stop ∧
      (stop = pc + Stmt.sizes ss + tail ∨ endsForked ss = true)
  | [], pc, n, before, tail, h => by cases h
  | s :: rest, pc, n, before, tail, h => by
      rw [Stmt.lasts, Stmt.sizes, endsForked]
      cases hrest : rest.all Stmt.isComment with
      | true =>
          have hs : s.isComment = false := by simpa [hrest] using h
          have hsizes := Stmt.sizes_of_all_comments hrest
          have hlasts := (Stmt.counts_of_all_comments hrest (n + s.count) (s.last n before)).2
          obtain ⟨start, stop, hextent, hstop⟩ := Stmt.exists_last s pc n before tail hs
          refine ⟨start, stop, .head ?_, ?_⟩
          · rw [hlasts, hrest, if_pos rfl]
            exact hextent
          · rw [hsizes]
            exact hstop
      | false =>
          obtain ⟨start, stop, hextent, hstop⟩ :=
            Stmt.exists_last_all rest (pc + s.size) (n + s.count) (s.last n before) tail hrest
          rw [Nat.add_assoc] at hstop
          exact ⟨start, stop, .tail hextent, by simpa [Nat.add_assoc] using hstop⟩

end

/-- The first instruction of a statement carries its number. -/
theorem Stmt.marks_first {s : Stmt} (hs : s.isComment = false) (n pc : Nat) :
    Placed (s.marks n) pc pc n := by
  have hpos := Stmt.size_pos hs
  cases s with
  | cond condition thenBlock elseBlock span =>
      exact placed_append.mpr (.inl (placed_append.mpr (.inl (placed_append.mpr (.inl
        (placed_replicate.mpr ⟨rfl, Nat.le_refl _, by omega⟩))))))
  | whileLoop condition body span =>
      exact placed_append.mpr
        (.inl (placed_append.mpr (.inl (placed_replicate.mpr ⟨rfl, Nat.le_refl _, by omega⟩))))
  | repeatLoop count body span =>
      exact placed_append.mpr
        (.inl (placed_append.mpr (.inl (placed_replicate.mpr ⟨rfl, Nat.le_refl _, by omega⟩))))
  | comment text span => cases hs
  | _ => exact placed_replicate.mpr ⟨rfl, Nat.le_refl _, by omega⟩

mutual

/-- A statement begins with its own number. -/
theorem StmtExtent.marked :
    ∀ {s : Stmt} {pc n tail i start stop : Nat}, StmtExtent s pc n tail i start stop →
    Placed (s.marks n) pc start i
  | s, pc, n, tail, _, _, _, .self hs => Stmt.marks_first hs n pc
  | .cond condition thenBlock elseBlock span, pc, n, tail, i, start, stop, .thenBlock h => by
      have hinner := StmtsExtent.marked h
      simp only [Stmt.marks, placed_append, List.length_append, List.length_replicate,
        ← Nat.add_assoc]
      exact .inl (.inl (.inr hinner))
  | .cond condition thenBlock elseBlock span, pc, n, tail, i, start, stop, .elseBlock h => by
      have hinner := StmtsExtent.marked h
      simp only [Stmt.marks, placed_append, List.length_append, List.length_replicate,
        Stmt.length_marksIn, List.length_singleton, ← Nat.add_assoc]
      exact .inr hinner
  | .whileLoop condition body span, pc, n, tail, i, start, stop, .whileBody h => by
      have hinner := StmtsExtent.marked h
      simp only [Stmt.marks, placed_append, List.length_append, List.length_replicate,
        ← Nat.add_assoc]
      exact .inl (.inr hinner)
  | .repeatLoop count body span, pc, n, tail, i, start, stop, .repeatBody h => by
      have hinner := StmtsExtent.marked h
      simp only [Stmt.marks, placed_append, List.length_append, List.length_replicate,
        ← Nat.add_assoc]
      exact .inl (.inr hinner)

theorem StmtsExtent.marked : ∀ {ss : List Stmt} {pc n tail i start stop : Nat},
    StmtsExtent ss pc n tail i start stop → Placed (Stmt.marksIn n ss) pc start i
  | s :: rest, pc, n, tail, i, start, stop, .head h =>
    placed_append.mpr (.inl (StmtExtent.marked h))
  | s :: rest, pc, n, tail, i, start, stop, .tail h => by
      have hinner := StmtsExtent.marked h
      rw [Stmt.marksIn, placed_append, Stmt.length_marks]
      exact .inr hinner

end

/-- A statement's own instructions are in its extent. -/
theorem StmtExtent.covers {s : Stmt} (hs : s.isComment = false) (tail : Nat) {pc n here : Nat}
    (hlow : pc ≤ here) (hhigh : here < pc + s.size) :
    ∃ start stop, StmtExtent s pc n tail n start stop ∧ start ≤ here ∧
    (here < stop ∨ s.borrows pc here = true) :=
  ⟨_, _, .self hs, hlow, .inl (Nat.lt_of_lt_of_le hhigh (Nat.le_add_right _ _))⟩

mutual

/-- **An instruction carries the number of a statement in whose extent it is, or else it borrows the
number** of a statement that begins before it. -/
theorem Stmt.marks_covered :
    ∀ (s : Stmt) (tail : Nat) {pc n here i : Nat}, Placed (s.marks n) pc here i →
    ∃ start stop, StmtExtent s pc n tail i start stop ∧ start ≤ here ∧
    (here < stop ∨ s.borrows pc here = true)
  | .cond condition thenBlock elseBlock span, tail, pc, n, here, i, h => by
      simp only [Stmt.marks, placed_append, placed_replicate, placed_singleton, List.length_append,
        List.length_replicate, Stmt.length_marksIn, List.length_singleton, ← Nat.add_assoc] at h
      rcases h with ((⟨rfl, hhere⟩ | h) | ⟨rfl, rfl⟩) | h
      · refine StmtExtent.covers rfl tail hhere.1 ?_
        rw [Stmt.size]
        omega
      · obtain ⟨start, stop, hextent, hstart, hstop⟩ := Stmt.marks_covered_all thenBlock 1 h
        exact ⟨start, stop, .thenBlock hextent, hstart, hstop.imp_right fun hin =>
          by simp [Stmt.borrows, hin]⟩
      · -- The jump behind the first block carries the number that is current behind the block.
        cases hthen : thenBlock.all Stmt.isComment with
        | true =>
            rw [(Stmt.counts_of_all_comments hthen (n + 1) n).2]
            refine StmtExtent.covers rfl tail (by omega) ?_
            rw [Stmt.size]
            omega
        | false =>
            obtain ⟨start, stop, hextent, hstop⟩ :=
              Stmt.exists_last_all thenBlock (pc + condition.size + 1) (n + 1) n 1 hthen
            have hbounds := hextent.bounds
            refine ⟨start, stop, .thenBlock hextent, by omega, ?_⟩
            rcases hstop with hstop | hforked
            · exact .inl (by omega)
            · exact .inr (by simp [Stmt.borrows, hforked])
      · obtain ⟨start, stop, hextent, hstart, hstop⟩ := Stmt.marks_covered_all elseBlock 0 h
        exact ⟨start, stop, .elseBlock hextent, hstart, hstop.imp_right fun hin =>
          by simp [Stmt.borrows, hin]⟩
  | .whileLoop condition body span, tail, pc, n, here, i, h => by
      have hsize : (Stmt.whileLoop condition body span).size = condition.size + 1 + Stmt.sizes
        body + 1 := rfl
      simp only [Stmt.marks, placed_append, placed_replicate, placed_singleton, List.length_append,
        List.length_replicate, Stmt.length_marksIn, ← Nat.add_assoc] at h
      rcases h with (⟨rfl, hhere⟩ | h) | ⟨rfl, rfl⟩
      · exact StmtExtent.covers rfl tail hhere.1 (by omega)
      · obtain ⟨start, stop, hextent, hstart, hstop⟩ := Stmt.marks_covered_all body 0 h
        exact ⟨start, stop, .whileBody hextent, hstart, hstop⟩
      · exact StmtExtent.covers rfl tail (by omega) (by omega)
  | .repeatLoop count body span, tail, pc, n, here, i, h => by
      have hsize : (Stmt.repeatLoop count body span).size = count.size + 4 + Stmt.sizes body + 4 :=
        rfl
      simp only [Stmt.marks, placed_append, placed_replicate, List.length_append,
        List.length_replicate, Stmt.length_marksIn, ← Nat.add_assoc] at h
      rcases h with (⟨rfl, hhere⟩ | h) | ⟨rfl, hhere⟩
      · exact StmtExtent.covers rfl tail hhere.1 (by omega)
      · obtain ⟨start, stop, hextent, hstart, hstop⟩ := Stmt.marks_covered_all body 0 h
        exact ⟨start, stop, .repeatBody hextent, hstart, hstop⟩
      · exact StmtExtent.covers rfl tail (by omega) (by omega)
  | .comment text span, tail, pc, n, here, i, h => by
      obtain ⟨k, -, hk⟩ := h
      cases hk
  | .expr e, tail, pc, n, here, i, h => by
      obtain ⟨rfl, hlow, hhigh⟩ := placed_replicate.mp h
      exact StmtExtent.covers rfl tail hlow hhigh
  | .var decl, tail, pc, n, here, i, h => by
      obtain ⟨rfl, hlow, hhigh⟩ := placed_replicate.mp h
      exact StmtExtent.covers rfl tail hlow hhigh
  | .assign target value span, tail, pc, n, here, i, h => by
      obtain ⟨rfl, hlow, hhigh⟩ := placed_replicate.mp h
      exact StmtExtent.covers rfl tail hlow hhigh
  | .ret value span, tail, pc, n, here, i, h => by
      obtain ⟨rfl, hlow, hhigh⟩ := placed_replicate.mp h
      exact StmtExtent.covers rfl tail hlow hhigh
  | .breakLoop span, tail, pc, n, here, i, h => by
      obtain ⟨rfl, hlow, hhigh⟩ := placed_replicate.mp h
      exact StmtExtent.covers rfl tail hlow hhigh
  | .continueLoop span, tail, pc, n, here, i, h => by
      obtain ⟨rfl, hlow, hhigh⟩ := placed_replicate.mp h
      exact StmtExtent.covers rfl tail hlow hhigh

/-- The same for statements in a row. -/
theorem Stmt.marks_covered_all : ∀ (ss : List Stmt) (tail : Nat) {pc n here i : Nat},
    Placed (Stmt.marksIn n ss) pc here i →
      ∃ start stop, StmtsExtent ss pc n tail i start stop ∧ start ≤ here ∧
        (here < stop ∨ Stmt.borrowsIn pc here ss = true)
  | [], tail, pc, n, here, i, h => by
      obtain ⟨k, -, hk⟩ := h
      cases hk
  | s :: rest, tail, pc, n, here, i, h => by
      rw [Stmt.marksIn, placed_append, Stmt.length_marks] at h
      rcases h with h | h
      · obtain ⟨start, stop, hextent, hstart, hstop⟩ := Stmt.marks_covered s _ h
        exact ⟨start, stop, .head hextent, hstart, hstop.imp_right fun hin =>
          by simp [Stmt.borrowsIn, hin]⟩
      · obtain ⟨start, stop, hextent, hstart, hstop⟩ := Stmt.marks_covered_all rest tail h
        exact ⟨start, stop, .tail hextent, hstart, hstop.imp_right fun hin =>
          by simp [Stmt.borrowsIn, hin]⟩

end

/-! ## Entry -/

mutual

/-- **The extent of a statement is entered only where the statement begins.** -/
theorem StmtExtent.entered {r : Registry} : ∀ {s : Stmt} {loop : Option LoopTargets}
    {pc n tail i start stop here target : Nat}, StmtExtent s pc n tail i start stop →
      Flows (s.code r loop pc) pc here target → GoesOutside loop pc (pc + s.size + tail) →
      start < target →
      target < stop → start ≤ here ∧ here < stop
  | s, loop, pc, n, tail, _, _, _, here, target, .self hs, h, hloop, hstart, hstop => by
      have hwithin := (Stmt.flows_within s h).1
      split at hstop <;> omega
  | .cond condition thenBlock elseBlock span, loop, pc, n, tail, i, start, stop, here, target,
      .thenBlock hextent, h,
      hloop, hstart, hstop => by
      have hbounds := hextent.bounds
      have hinto :=
        flows_into_thenBlock h (hloop.within (Nat.le_refl _) (Nat.le_add_right _ _)) (by omega)
          (by omega)
      rw [Stmt.size] at hloop
      exact StmtsExtent.entered hextent hinto (hloop.within (by omega) (by omega)) hstart hstop
  | .cond condition thenBlock elseBlock span, loop, pc, n, tail, i, start, stop, here, target,
      .elseBlock hextent, h,
      hloop, hstart, hstop => by
      have hbounds := hextent.bounds
      have hinto :=
        flows_into_elseBlock h (hloop.within (Nat.le_refl _) (Nat.le_add_right _ _)) (by omega)
          (by omega)
      rw [Stmt.size] at hloop
      exact StmtsExtent.entered hextent hinto (hloop.within (by omega) (by omega)) hstart hstop
  | .whileLoop condition body span, loop, pc, n, tail, i, start, stop, here, target,
      .whileBody hextent, h, hloop,
      hstart, hstop => by
      have hbounds := hextent.bounds
      have hinto := flows_into_whileBody h (by omega) (by omega)
      exact StmtsExtent.entered hextent hinto (.ofTargets (by omega) (by omega)) hstart hstop
  | .repeatLoop count body span, loop, pc, n, tail, i, start, stop, here, target,
      .repeatBody hextent, h, hloop,
      hstart, hstop => by
      have hbounds := hextent.bounds
      have hinto := flows_into_repeatBody h (by omega) (by omega)
      exact StmtsExtent.entered hextent hinto (.ofTargets (by omega) (by omega)) hstart hstop

/-- The same for statements in a row. -/
theorem StmtsExtent.entered {r : Registry} : ∀ {ss : List Stmt} {loop : Option LoopTargets}
    {pc n tail i start stop here target : Nat}, StmtsExtent ss pc n tail i start stop →
      Flows (Stmt.codes r loop pc ss) pc here target →
      GoesOutside loop pc (pc + Stmt.sizes ss + tail) →
      start < target → target < stop → start ≤ here ∧ here < stop
  | s :: rest, loop, pc, n, tail, i, start, stop, here, target, .head hextent, h, hloop, hstart,
      hstop => by
      have hbounds := hextent.bounds
      rw [Stmt.codes, flows_append, Stmt.length_code] at h
      rw [Stmt.sizes] at hloop
      rcases h with h | h
      · refine StmtExtent.entered hextent h (hloop.within (Nat.le_refl _) ?_) hstart hstop
        split <;> omega
      · -- Something follows the statement, so nothing behind it belongs to it.
        have hsizes := (Stmt.flows_within_all rest h).1
        have hrest : rest.all Stmt.isComment = false := by
          cases hall : rest.all Stmt.isComment with
          | false => rfl
          | true =>
              have := Stmt.sizes_of_all_comments hall
              omega
        rw [hrest] at hbounds
        simp only [Bool.false_eq_true, if_false] at hbounds
        have := hloop.lands_all h
        omega
  | s :: rest, loop, pc, n, tail, i, start, stop, here, target, .tail hextent, h, hloop, hstart,
      hstop => by
      have hbounds := hextent.bounds
      rw [Stmt.sizes] at hloop
      have hinto := flows_into_tail h hloop (by omega) (by omega)
      exact StmtsExtent.entered hextent hinto (hloop.within (by omega) (by omega)) hstart hstop

end

/-! ## Functions -/

namespace FunctionDecl

variable {d : FunctionDecl}

/-- The statement of a number extends from the first of two instructions of a function to before the
second. The closing `return` of a function without statements is a statement of its own. -/
inductive Extent (d : FunctionDecl) : Nat → Nat → Nat → Prop
  | body {i start stop : Nat} :
      StmtsExtent d.body 0 0 (if endsWithReturn d.body then 0 else 1) i start stop →
      d.Extent i start stop
  | closing : d.body.all Stmt.isComment = true → d.Extent 0 0 1

/-- Whether an instruction borrows its number: it is the jump behind the first block of an `if` or
the closing `return`, and the statements before it end in an `if` with statements inside. -/
def borrows (d : FunctionDecl) (here : Nat) : Bool :=
  Stmt.borrowsIn 0 here d.body ||
    (!endsWithReturn d.body && endsForked d.body && here == Stmt.sizes d.body)

/-- **An instruction of a function carries the number of a statement in whose extent it is, or it
borrows the number** of a statement that begins before it. -/
theorem marks_covered {here i : Nat} (h : Placed d.marks 0 here i) :
    ∃ start stop, d.Extent i start stop ∧ start ≤ here ∧ (here < stop ∨ d.borrows here = true) := by
  rw [marks, placed_append, Stmt.length_marksIn, Nat.zero_add] at h
  rcases h with h | h
  · obtain ⟨start, stop, hextent, hstart, hstop⟩ := Stmt.marks_covered_all d.body _ h
    exact ⟨start, stop, .body hextent, hstart, hstop.imp_right fun hin => by simp [borrows, hin]⟩
  · cases hend : endsWithReturn d.body with
    | true =>
        rw [hend] at h
        obtain ⟨k, -, hk⟩ := h
        cases hk
    | false =>
        rw [hend, if_neg Bool.false_ne_true, placed_singleton] at h
        obtain ⟨rfl, rfl⟩ := h
        cases hall : d.body.all Stmt.isComment with
        | true =>
            have hsizes := Stmt.sizes_of_all_comments hall
            have hlasts := (Stmt.counts_of_all_comments hall 0 0).2
            rw [hsizes, hlasts]
            exact ⟨0, 1, .closing hall, Nat.le_refl _, .inl Nat.zero_lt_one⟩
        | false =>
            obtain ⟨start, stop, hextent, hstop⟩ := Stmt.exists_last_all d.body 0 0 0 1 hall
            have hbounds := hextent.bounds
            refine ⟨start, stop, .body (by rwa [hend]), by omega, ?_⟩
            rcases hstop with hstop | hforked
            · exact .inl (by omega)
            · exact .inr (by simp [borrows, hend, hforked])

/-- **The extent of a statement of a function is entered only where the statement begins.** -/
theorem Extent.entered {r : Registry} {i start stop here target : Nat}
    (hextent : d.Extent i start stop) (h : Flows (d.code r) 0 here target) (hstart : start < target)
    (hstop : target < stop) :
    start ≤ here ∧ here < stop := by
  cases hextent with
  | body hextent =>
      exact hextent.entered (flows_body h) .ofNone hstart hstop
  | closing hall => omega

/-- A statement begins with the first instruction that carries its number. -/
theorem Extent.first {i start stop : Nat} (hextent : d.Extent i start stop) :
    Placed d.marks 0 start i ∧ ∀ earlier, Placed d.marks 0 earlier i → start ≤ earlier := by
  cases hextent with
  | body hextent =>
      refine ⟨placed_append.mpr (.inl hextent.marked), ?_⟩
      intro earlier hearlier
      obtain ⟨start', stop', hextent', hstart', -⟩ := marks_covered hearlier
      cases hextent' with
      | body hextent' => rwa [hextent.start_unique hextent']
      | closing hall =>
          have hbounds := hextent.bounds
          have hsizes := Stmt.sizes_of_all_comments hall
          omega
  | closing hall =>
      refine ⟨?_, fun earlier _ => Nat.zero_le _⟩
      have hsizes := Stmt.sizes_of_all_comments hall
      have hlasts := (Stmt.counts_of_all_comments hall 0 0).2
      rw [marks, endsWithReturn_of_all_comments hall, placed_append, Stmt.length_marksIn,
        hsizes, hlasts]
      exact .inr (placed_singleton.mpr ⟨rfl, rfl⟩)

end FunctionDecl

end Stepwise
