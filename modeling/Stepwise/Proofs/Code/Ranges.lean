import Stepwise.Proofs.Code.Placeholders

/-!
# The ranges of statements

The code that is made for a statement is one range of instructions: some are its own, and between
them stand the ranges of the statements inside it, in order (`Stmt.parts`). `FunctionDecl.Occupies`
says of every statement of a function where its range starts and which loop is the innermost around
it. `FunctionDecl.Reaches` follows the emitter on its way through the function: it comes to each
statement where the range starts and leaves it where the range ends.

**Jumps.** A jump belongs to the construct that it was made for (`Stmt.OwnJump`). `break` and
`continue` go to the exit and to the continuation point of the loop around them, which its range
tells (`Stmt.loopTargets`); all other jumps stay in the range of their own statement or go right
behind it. `jumps_resolved` says so of whatever functions code can be made of.
-/

set_option autoImplicit false

namespace Stepwise

/-! ## Where statements stand -/

/-- Where `break` and `continue` of a loop that starts at an instruction go. The exit of a `while`
is behind its range; that of a repetition is the last instruction of its range, which drops the
count. A `while` goes on where it starts, a repetition four instructions before its end, where the
count goes down. -/
def Stmt.loopTargets (start : Nat) : Stmt → Option LoopTargets
  | .whileLoop condition body span =>
    some ⟨start + (Stmt.whileLoop condition body span).size, start⟩
  | .repeatLoop count body span =>
    some ⟨start + (Stmt.repeatLoop count body span).size - 1,
      start + (Stmt.repeatLoop count body span).size - 4⟩
  | _ => none

/-- A loop and the instruction at which it starts, if there is a loop. -/
abbrev LoopAround := Option (Nat × Stmt)

/-- Where `break` and `continue` go in a loop, if any. -/
def LoopAround.targets (around : LoopAround) : Option LoopTargets :=
  around.bind fun l => l.2.loopTargets l.1

/-- The loop around the statements inside a statement that starts at an instruction. -/
def Stmt.around (outer : LoopAround) (pc : Nat) (s : Stmt) : LoopAround :=
  match s with
  | .whileLoop .. | .repeatLoop .. => some (pc, s)
  | _ => outer

namespace FunctionDecl

/-- The statements from some statement of a block on, the loop around them and the instruction at
which they start. -/
inductive Row (d : FunctionDecl) : LoopAround → Nat → List Stmt → Prop
  | body : d.Row none 0 d.body
  | next {around : LoopAround} {pc : Nat} {s : Stmt} {rest : List Stmt} :
      d.Row around pc (s :: rest) → d.Row around (pc + s.size) rest
  | thenBlock {around : LoopAround} {pc : Nat} {condition : Expr}
      {thenBlock elseBlock rest : List Stmt} {span : Span} :
      d.Row around pc (.cond condition thenBlock elseBlock span :: rest) →
      d.Row around (pc + condition.size + 1) thenBlock
  | elseBlock {around : LoopAround} {pc : Nat} {condition : Expr}
      {thenBlock elseBlock rest : List Stmt} {span : Span} :
      d.Row around pc (.cond condition thenBlock elseBlock span :: rest) →
      d.Row around (pc + condition.size + 1 + Stmt.sizes thenBlock + 1) elseBlock
  | whileBody {around : LoopAround} {pc : Nat} {condition : Expr} {body rest : List Stmt}
      {span : Span} :
      d.Row around pc (.whileLoop condition body span :: rest) →
      d.Row (some (pc, .whileLoop condition body span)) (pc + condition.size + 1) body
  | repeatBody {around : LoopAround} {pc : Nat} {count : Expr} {body rest : List Stmt}
      {span : Span} :
      d.Row around pc (.repeatLoop count body span :: rest) →
      d.Row (some (pc, .repeatLoop count body span)) (pc + count.size + 4) body

/-- A statement of a function, at whatever depth: the innermost loop around it and the instruction
at which its range starts. -/
def Occupies (d : FunctionDecl) (around : LoopAround) (pc : Nat) (s : Stmt) : Prop :=
  ∃ rest, d.Row around pc (s :: rest)

end FunctionDecl

/-! ## Parts of a range -/

/-- A part of the range of a statement: an instruction of its own, or the range of a statement
inside it. -/
inductive Part where
  | own (pc : Nat)
  | nested (pc : Nat) (s : Stmt)

namespace Part

/-- The instructions of a part. -/
def places : Part → List Nat
  | own pc => [pc]
  | nested pc s => List.range' pc s.size

/-- Instructions of the statement itself, in a row. -/
def owns (pc count : Nat) : List Part := (List.range' pc count).map own

/-- Statements in a row. -/
def block (pc : Nat) : List Stmt → List Part
  | [] => []
  | s :: rest => nested pc s :: block (pc + s.size) rest

theorem places_owns (pc count : Nat) : (owns pc count).flatMap places = List.range' pc count := by
  rw [owns, List.flatMap_map]
  exact List.flatMap_singleton' _

theorem places_block (ss : List Stmt) (pc : Nat) :
    (block pc ss).flatMap places = List.range' pc (Stmt.sizes ss) := by
  induction ss generalizing pc with
  | nil => rfl
  | cons s rest ih => rw [block, List.flatMap_cons, ih, Stmt.sizes, places, List.range'_append_1]

theorem mem_owns {pc count here : Nat} :
    own here ∈ owns pc count ↔ pc ≤ here ∧ here < pc + count := by
  simp [owns]

theorem nested_notMem_owns {pc count here : Nat} {s : Stmt} : nested here s ∉ owns pc count := by
  simp [owns]

end Part

/-- The parts of the range of a statement that starts at an instruction, in order. -/
def Stmt.parts (pc : Nat) : Stmt → List Part
  | .cond condition thenBlock elseBlock _ =>
    Part.owns pc (condition.size + 1) ++ Part.block (pc + condition.size + 1) thenBlock ++
      Part.owns (pc + condition.size + 1 + Stmt.sizes thenBlock) 1 ++
      Part.block (pc + condition.size + 1 + Stmt.sizes thenBlock + 1) elseBlock
  | .whileLoop condition body _ =>
    Part.owns pc (condition.size + 1) ++ Part.block (pc + condition.size + 1) body ++
      Part.owns (pc + condition.size + 1 + Stmt.sizes body) 1
  | .repeatLoop count body _ =>
    Part.owns pc (count.size + 4) ++ Part.block (pc + count.size + 4) body ++
      Part.owns (pc + count.size + 4 + Stmt.sizes body) 4
  | s => Part.owns pc s.size

/-- **The parts of a statement make up its range**, in order and without gaps. -/
theorem Stmt.places_parts (s : Stmt) (pc : Nat) :
    (s.parts pc).flatMap Part.places = List.range' pc s.size := by
  cases s with
  | cond condition thenBlock elseBlock span =>
      simp only [Stmt.parts, List.flatMap_append, Part.places_owns, Part.places_block,
        Nat.add_assoc, List.range'_append_1, Stmt.size]
  | whileLoop condition body span =>
      simp only [Stmt.parts, List.flatMap_append, Part.places_owns, Part.places_block,
        Nat.add_assoc, List.range'_append_1, Stmt.size]
  | repeatLoop count body span =>
      simp only [Stmt.parts, List.flatMap_append, Part.places_owns, Part.places_block,
        Nat.add_assoc, List.range'_append_1, Stmt.size]
  | _ => exact Part.places_owns _ _

/-! ## Statements inside statements -/

theorem LoopAround.targets_whileLoop (pc : Nat) (condition : Expr) (body : List Stmt)
    (span : Span) :
    LoopAround.targets (some (pc, .whileLoop condition body span)) =
      some ⟨pc + condition.size + 1 + Stmt.sizes body + 1, pc⟩ := by
  simp [LoopAround.targets, Stmt.loopTargets, Stmt.size, Nat.add_assoc]

theorem LoopAround.targets_repeatLoop (pc : Nat) (count : Expr) (body : List Stmt) (span : Span) :
    LoopAround.targets (some (pc, .repeatLoop count body span)) =
      some ⟨pc + count.size + 4 + Stmt.sizes body + 3, pc + count.size + 4 + Stmt.sizes body⟩ := by
  simp only [LoopAround.targets, Option.bind_some, Stmt.loopTargets, Stmt.size, Option.some.injEq,
    LoopTargets.mk.injEq]
  omega

namespace FunctionDecl

variable {d : FunctionDecl} {around : LoopAround} {pc : Nat}

/-- The statements of a row are statements of the function. -/
theorem Row.occupies {ss : List Stmt} (h : d.Row around pc ss) {pc' : Nat} {s' : Stmt}
    (hmem : .nested pc' s' ∈ Part.block pc ss) : d.Occupies around pc' s' := by
  induction ss generalizing pc with
  | nil => cases hmem
  | cons s rest ih =>
      rcases List.mem_cons.mp hmem with heq | hmem
      · cases heq
        exact ⟨rest, h⟩
      · exact ih h.next hmem

/-- **The statements inside a statement are statements of the function**, and a loop is around those
in its body. -/
theorem Occupies.nested {s : Stmt} (h : d.Occupies around pc s) {pc' : Nat} {s' : Stmt}
    (hmem : .nested pc' s' ∈ s.parts pc) : d.Occupies (s.around around pc) pc' s' := by
  obtain ⟨rest, hrow⟩ := h
  cases s with
  | cond condition thenBlock elseBlock span =>
      simp only [Stmt.parts, List.mem_append, Part.nested_notMem_owns, or_false, false_or] at hmem
      rcases hmem with hmem | hmem
      · exact hrow.thenBlock.occupies hmem
      · exact hrow.elseBlock.occupies hmem
  | whileLoop condition body span =>
      simp only [Stmt.parts, List.mem_append, Part.nested_notMem_owns, or_false, false_or] at hmem
      exact hrow.whileBody.occupies hmem
  | repeatLoop count body span =>
      simp only [Stmt.parts, List.mem_append, Part.nested_notMem_owns, or_false, false_or] at hmem
      exact hrow.repeatBody.occupies hmem
  | _ => exact absurd hmem Part.nested_notMem_owns

/-- The loop around statements is a statement of the function. -/
theorem Row.loop {ss : List Stmt} {start : Nat} {l : Stmt} (h : d.Row (some (start, l)) pc ss) :
    ∃ outer, d.Occupies outer start l := by
  generalize haround : some (start, l) = around at h
  induction h with
  | body => cases haround
  | next _ ih | thenBlock _ ih | elseBlock _ ih => exact ih haround
  | whileBody hrow _ | repeatBody hrow _ =>
      cases haround
      exact ⟨_, _, hrow⟩

/-- **The code of statements stands where they do.** -/
theorem Row.codeAt (r : Registry) {ss : List Stmt} (h : d.Row around pc ss) :
    CodeAt (d.code r) pc (Stmt.codes r around.targets pc ss) := by
  induction h with
  | body => exact d.codeAt_body r
  | next _ ih => exact ih.stmt.2
  | thenBlock _ ih =>
      obtain ⟨-, -, hthen, -, -⟩ := ih.stmt.1.cond
      exact hthen
  | elseBlock _ ih =>
      obtain ⟨-, -, -, -, helse⟩ := ih.stmt.1.cond
      exact helse
  | whileBody _ ih =>
      obtain ⟨-, -, hbody, -⟩ := ih.stmt.1.whileLoop
      rwa [LoopAround.targets_whileLoop]
  | repeatBody _ ih =>
      obtain ⟨-, -, hbody, -⟩ := ih.stmt.1.repeatLoop
      rwa [LoopAround.targets_repeatLoop]

end FunctionDecl

/-! ## The way of the emitter -/

open Diagnosed

/-- On its way through a function, the emitter has come to the statements from some statement of a
block on. -/
inductive FunctionDecl.Reaches (r : Registry) (d : FunctionDecl) : Emitter → List Stmt → Prop
  | body {E : Emitter} : (Emitter.initial d.span.line).params d.params = .ok E →
      d.Reaches r E.beginLocals d.body
  | next {E E' : Emitter} {s : Stmt} {rest : List Stmt} :
      d.Reaches r E (s :: rest) → E.stmt r s = .ok E' → d.Reaches r E' rest
  | thenBlock {E : Emitter} {condition : Expr} {test : List Instruction}
      {thenBlock elseBlock rest : List Stmt}
      {span : Span} :
      d.Reaches r E (.cond condition thenBlock elseBlock span :: rest) →
      emitExpr r E.scopes condition = .ok test →
      d.Reaches r (((E.enter span.line).emit test).emit [.jumpIfFalse 0]).openBlock thenBlock
  | elseBlock {E E₁ E₂ : Emitter} {condition : Expr} {test : List Instruction}
      {thenBlock elseBlock rest : List Stmt}
      {span : Span} :
      d.Reaches r E (.cond condition thenBlock elseBlock span :: rest) →
      emitExpr r E.scopes condition = .ok test →
      (((E.enter span.line).emit test).emit [.jumpIfFalse 0]).openBlock.stmts r thenBlock = .ok E₁ →
      (E₁.closeBlock.emit [.jump 0]).patchJump (E₁.closeBlock.emit [.jump 0]).offset
        ((E.enter span.line).emit test).offset = .ok E₂ →
      d.Reaches r E₂.openBlock elseBlock
  | whileBody {E : Emitter} {condition : Expr} {test : List Instruction} {body rest : List Stmt}
      {span : Span} :
      d.Reaches r E (.whileLoop condition body span :: rest) →
      emitExpr r E.scopes condition = .ok test →
      d.Reaches r (((E.enter span.line).emit test).emit [.jumpIfFalse 0]).openLoop body
  | repeatBody {E : Emitter} {count : Expr} {times : List Instruction} {body rest : List Stmt}
      {span : Span} :
      d.Reaches r E (.repeatLoop count body span :: rest) →
      emitExpr r E.scopes count = .ok times →
      d.Reaches r
        ((((E.enter span.line).emit times).emit [.dup, .push (.number 0), .binary .greater]).emit
          [.jumpIfFalse 0]).openLoop body

/-- The code of a statement, as the emitter makes it on its way through a function: it comes to the
statement where its range starts and leaves it where its range ends. The code is then as it stays
but for jumps that the loop around the statement has noted meanwhile, and these go to the targets of
this loop. -/
def FunctionDecl.MadeAt (r : Registry) (d : FunctionDecl) (code : FunctionCode)
    (around : LoopAround) (pc : Nat) (s : Stmt) : Prop :=
  ∃ rest before after context, d.Reaches r before (s :: rest) ∧ before.stmt r s = .ok after ∧
    before.offset = pc ∧
    after.offset = pc + s.size ∧ after.loops = before.loops.modifyHead (·.join context) ∧
      ∀ here, pc ≤ here → here < pc + s.size →
        after.Settles around.targets context here code.instructions[here]?

namespace Emitter

variable {r : Registry} {E E' : Emitter} {loop : Option LoopTargets}

/-- What the emitter has appended behind a statement. -/
theorem stmt_made {s : Stmt} (h : E.stmt r s = .ok E') (hloop : loop.isSome = !E.loops.isEmpty) :
    ∃ em, em.Made (s.code r loop E.offset) s.declared ∧ Makes loop 0 E em E' ∧
    E'.offset = E.offset + s.size := by
  rcases (stmt_makes s E hloop).results with ⟨em, E'', hem, hE'', hmakes⟩ | ⟨d, e, -, he, -⟩
  · rw [h, Except.ok.injEq] at hE''
    subst hE''
    have hmade := emitStmt_eq s hem
    refine ⟨em, hmade, hmakes, ?_⟩
    rw [hmakes.offset, ← List.length_map (·.instruction), hmade.1, Stmt.length_code]
  · rw [h] at he
    cases he

/-- The end of a block is as far from its beginning as its size says, and as many loops are open
there. -/
theorem stmts_made {ss : List Stmt} (h : E.stmts r ss = .ok E')
    (hloop : loop.isSome = !E.loops.isEmpty) :
    E'.offset = E.offset + Stmt.sizes ss ∧ E'.loops.isEmpty = E.loops.isEmpty := by
  have hrelated : Related Eq (Makes loop 0 E) (emitStmts r loop 0 E.offset E.state ss)
      (E.stmts r ss) :=
    stmts_makes ss E rfl rfl hloop
  rcases hrelated.results with ⟨em, E'', hem, hE'', hmakes⟩ | ⟨d, e, -, he, -⟩
  · rw [h, Except.ok.injEq] at hE''
    rw [hE'', hmakes.offset, emitStmts_length hem]
    exact ⟨rfl, hmakes.isEmpty_loops⟩
  · rw [h] at he
    cases he

/-- Patching makes no code and opens no loops. -/
theorem patchJump_made {target place : Nat} (h : E.patchJump target place = .ok E') :
    E'.offset = E.offset ∧ E'.loops = E.loops := by
  unfold patchJump at h
  split at h
  · simp at h
  · split at h
    · simp at h
    · cases h
      exact ⟨Array.size_setIfInBounds, rfl⟩

/-- An `if` is made by making its condition and its blocks in turn. -/
theorem stmt_cond_eq_ok {condition : Expr} {thenBlock elseBlock : List Stmt} {span : Span}
    (h : E.stmt r (.cond condition thenBlock elseBlock span) = .ok E') :
    ∃ test E₁ E₂ E₃, emitExpr r E.scopes condition = .ok test ∧
      (((E.enter span.line).emit test).emit [.jumpIfFalse 0]).openBlock.stmts r thenBlock = .ok E₁ ∧
      (E₁.closeBlock.emit [.jump 0]).patchJump (E₁.closeBlock.emit [.jump 0]).offset
        ((E.enter span.line).emit test).offset = .ok E₂ ∧
      E₂.openBlock.stmts r elseBlock = .ok E₃ := by
  rw [stmt] at h
  obtain ⟨test, htest, h⟩ := bind_eq_ok.mp h
  obtain ⟨E₁, hfirst, h⟩ := bind_eq_ok.mp h
  obtain ⟨E₂, hpatch, h⟩ := bind_eq_ok.mp h
  obtain ⟨E₃, hsecond, -⟩ := bind_eq_ok.mp h
  exact ⟨test, E₁, E₂, E₃, htest, hfirst, hpatch, hsecond⟩

theorem stmt_whileLoop_eq_ok {condition : Expr} {body : List Stmt} {span : Span}
    (h : E.stmt r (.whileLoop condition body span) = .ok E') :
    ∃ test E₁, emitExpr r E.scopes condition = .ok test ∧
      (((E.enter span.line).emit test).emit [.jumpIfFalse 0]).openLoop.stmts r body = .ok E₁ := by
  rw [stmt] at h
  obtain ⟨test, htest, h⟩ := bind_eq_ok.mp h
  obtain ⟨E₁, hbody, -⟩ := bind_eq_ok.mp h
  exact ⟨test, E₁, htest, hbody⟩

theorem stmt_repeatLoop_eq_ok {count : Expr} {body : List Stmt} {span : Span}
    (h : E.stmt r (.repeatLoop count body span) = .ok E') :
    ∃ times E₁, emitExpr r E.scopes count = .ok times ∧
      ((((E.enter span.line).emit times).emit [.dup, .push (.number 0), .binary .greater]).emit
        [.jumpIfFalse 0]).openLoop.stmts r body = .ok E₁ := by
  rw [stmt] at h
  obtain ⟨times, htimes, h⟩ := bind_eq_ok.mp h
  obtain ⟨E₁, hbody, -⟩ := bind_eq_ok.mp h
  exact ⟨times, E₁, htimes, hbody⟩

/-- Parameters make no code. -/
theorem params_made {params : List Param} (h : E.params params = .ok E') (hblocks : E.blocks = []) :
    E'.offset = E.offset ∧ E'.loops = E.loops := by
  rcases (params_makes 0 params (E := E) rfl hblocks).results
    with ⟨a, E'', -, hE'', rows, hrows, -⟩ | ⟨d, e, -, he, -⟩
  · rw [h, Except.ok.injEq] at hE''
    rw [hE'', hrows]
    exact ⟨rfl, rfl⟩
  · rw [h] at he
    cases he

end Emitter

namespace FunctionDecl

variable {d : FunctionDecl} {around : LoopAround} {pc : Nat}

/-- **The emitter comes to every statement where its range starts**, with as many loops open as are
around it. -/
theorem Row.reached {r : Registry} {index : Nat} {code : FunctionCode}
    (hmade : emitFunction r index d = .ok code) {ss : List Stmt} (h : d.Row around pc ss) :
    ∃ E E', d.Reaches r E ss ∧ E.stmts r ss = .ok E' ∧ E.offset = pc ∧
      around.targets.isSome = !E.loops.isEmpty := by
  induction h with
  | body =>
      obtain ⟨E₁, hparams, h⟩ := bind_eq_ok.mp hmade
      obtain ⟨E₂, hbody, -⟩ := bind_eq_ok.mp h
      obtain ⟨hoffset, hloops⟩ := Emitter.params_made hparams rfl
      exact ⟨_, E₂, .body hparams, hbody, hoffset, by rw [Emitter.beginLocals, hloops]; rfl⟩
  | next hrow ih =>
      obtain ⟨E, E', hreaches, h, rfl, hloop⟩ := ih
      obtain ⟨E₁, hfirst, hrest⟩ := bind_eq_ok.mp h
      obtain ⟨em, -, hmakes, hoffset⟩ := Emitter.stmt_made hfirst hloop
      exact ⟨E₁, E', hreaches.next hfirst, hrest, hoffset, by rw [hloop, hmakes.isEmpty_loops]⟩
  | thenBlock hrow ih =>
      obtain ⟨E, E', hreaches, h, rfl, hloop⟩ := ih
      obtain ⟨E₁, hfirst, -⟩ := bind_eq_ok.mp h
      obtain ⟨test, E₁, E₂, E₃, htest, hthen, -, -⟩ := Emitter.stmt_cond_eq_ok hfirst
      refine ⟨_, E₁, hreaches.thenBlock htest, hthen, ?_, hloop⟩
      rw [(Emitter.begun htest none 0 E _).2]
      exact Emitter.offset_emit _ _
  | elseBlock hrow ih =>
      obtain ⟨E, E', hreaches, h, rfl, hloop⟩ := ih
      obtain ⟨E₁, hfirst, -⟩ := bind_eq_ok.mp h
      obtain ⟨test, E₁, E₂, E₃, htest, hthen, hpatch, helse⟩ := Emitter.stmt_cond_eq_ok hfirst
      obtain ⟨hoffset₁, hloops₁⟩ := Emitter.stmts_made hthen hloop
      obtain ⟨hoffset₂, hloops₂⟩ := Emitter.patchJump_made hpatch
      refine ⟨_, E₃, hreaches.elseBlock htest hthen hpatch, helse, ?_, ?_⟩
      · show E₂.offset = _
        rw [hoffset₂, Emitter.offset_emit, (Emitter.begun htest none 0 E _).2]
        show E₁.offset + 1 = _
        rw [hoffset₁]
        exact congrArg (· + _ + 1) (Emitter.offset_emit _ _)
      · show _ = !E₂.loops.isEmpty
        rw [hloops₂, hloop]
        exact congrArg _ hloops₁.symm
  | whileBody hrow ih =>
      obtain ⟨E, E', hreaches, h, rfl, hloop⟩ := ih
      obtain ⟨E₁, hfirst, -⟩ := bind_eq_ok.mp h
      obtain ⟨test, E₁, htest, hbody⟩ := Emitter.stmt_whileLoop_eq_ok hfirst
      refine ⟨_, E₁, hreaches.whileBody htest, hbody, ?_, rfl⟩
      rw [(Emitter.begun htest none 0 E _).2]
      exact Emitter.offset_emit _ _
  | repeatBody hrow ih =>
      obtain ⟨E, E', hreaches, h, rfl, hloop⟩ := ih
      obtain ⟨E₁, hfirst, -⟩ := bind_eq_ok.mp h
      obtain ⟨times, E₁, htimes, hbody⟩ := Emitter.stmt_repeatLoop_eq_ok hfirst
      refine ⟨_, E₁, hreaches.repeatBody htimes, hbody, ?_, rfl⟩
      rw [(Emitter.begun htimes none 0 E _).2]
      show Emitter.offset (.emit (.emit _ _) _) = _
      rw [Emitter.offset_emit, Emitter.offset_emit]
      rfl

/-- **What is made for a statement is its range**, up to the jumps that wait for the targets of the
loop around it. -/
theorem Occupies.made {r : Registry} {index : Nat} {code : FunctionCode}
    (hmade : emitFunction r index d = .ok code) {s : Stmt} (h : d.Occupies around pc s) :
    d.MadeAt r code around pc s := by
  obtain ⟨rest, hrow⟩ := h
  obtain ⟨E, E', hreaches, h, rfl, hloop⟩ := hrow.reached hmade
  obtain ⟨E₁, hfirst, -⟩ := bind_eq_ok.mp h
  obtain ⟨em, ⟨hcode, -⟩, hmakes, hoffset⟩ := Emitter.stmt_made hfirst hloop
  obtain ⟨context, hloops, hsettled⟩ := hmakes.settled
  refine ⟨rest, E, E₁, context, hreaches, hfirst, rfl, hoffset, hloops, fun here hle hlt => ?_⟩
  obtain ⟨i, rfl⟩ := Nat.exists_eq_add_of_le hle
  have hi : i < (em.code.map (·.instruction)).length := by
    rw [hcode, Stmt.length_code]
    omega
  have hat : code.instructions[E.offset + i]? = em.code[i]?.map (·.instruction) := by
    have hplaced := (hrow.codeAt r).append.1 i
    rw [(emitFunction_compiled hmade).getElem?, ← List.getElem?_map, List.getElem?_eq_getElem hi]
    exact hplaced _ (hcode ▸ List.getElem?_eq_getElem hi)
  rw [hat]
  exact hsettled i (by simpa using hi)

/-- Every `break` and `continue` of a function that code can be made of is inside a loop. -/
theorem Occupies.targets_of_jump {r : Registry} {index : Nat} {code : FunctionCode}
    (hmade : emitFunction r index d = .ok code) {s : Stmt} (h : d.Occupies around pc s)
    (hs : ∃ span, s = .breakLoop span ∨ s = .continueLoop span) : ∃ t, around.targets = some t := by
  obtain ⟨rest, hrow⟩ := h
  obtain ⟨E, E', -, h, -, hloop⟩ := hrow.reached hmade
  obtain ⟨E₁, hfirst, -⟩ := bind_eq_ok.mp h
  refine Option.isSome_iff_exists.mp (hloop.trans ?_)
  -- Where no loop is open, the emitter has no context to note the jump in.
  cases hloops : E.loops with
  | cons context outer => rfl
  | nil =>
      obtain ⟨span, rfl | rfl⟩ := hs
      all_goals simp [Emitter.stmt, Emitter.leaveBody, Emitter.emit, Emitter.enter, hloops]
        at hfirst

end FunctionDecl

/-! ## Jumps -/

/-- The jumps that are made for a statement itself, from where and to where. -/
inductive Stmt.OwnJump (around : LoopAround) (pc : Nat) : Stmt → Nat → Nat → Prop
  | pastThen {condition : Expr} {thenBlock elseBlock : List Stmt} {span : Span} :
      OwnJump around pc (.cond condition thenBlock elseBlock span) (pc + condition.size)
        (pc + condition.size + 1 + Stmt.sizes thenBlock + 1)
  | pastElse {condition : Expr} {thenBlock elseBlock : List Stmt} {span : Span} :
      OwnJump around pc (.cond condition thenBlock elseBlock span)
        (pc + condition.size + 1 + Stmt.sizes thenBlock)
        (pc + condition.size + 1 + Stmt.sizes thenBlock + 1 + Stmt.sizes elseBlock)
  | whileExit {condition : Expr} {body : List Stmt} {span : Span} :
      OwnJump around pc (.whileLoop condition body span) (pc + condition.size)
        (pc + condition.size + 1 + Stmt.sizes body + 1)
  | whileBack {condition : Expr} {body : List Stmt} {span : Span} :
      OwnJump around pc (.whileLoop condition body span)
        (pc + condition.size + 1 + Stmt.sizes body) pc
  | repeatExit {count : Expr} {body : List Stmt} {span : Span} :
      OwnJump around pc (.repeatLoop count body span) (pc + count.size + 3)
        (pc + count.size + 4 + Stmt.sizes body + 3)
  | repeatBack {count : Expr} {body : List Stmt} {span : Span} :
      OwnJump around pc (.repeatLoop count body span) (pc + count.size + 4 + Stmt.sizes body + 2)
        (pc + count.size)
  | breakLoop {span : Span} {t : LoopTargets} : around.targets = some t →
      OwnJump around pc (.breakLoop span) pc t.exit
  | continueLoop {span : Span} {t : LoopTargets} : around.targets = some t →
      OwnJump around pc (.continueLoop span) pc t.next

/-- A jump is one of its statement's own instructions. -/
theorem Stmt.OwnJump.own {around : LoopAround} {pc here target : Nat} {s : Stmt}
    (h : s.OwnJump around pc here target) :
    .own here ∈ s.parts pc := by
  cases h <;> simp [Stmt.parts, Part.mem_owns, Stmt.size]
  all_goals omega

/-- A jump of an `if` or a loop stays in the range of its statement or goes right behind it. -/
theorem Stmt.OwnJump.within {around : LoopAround} {pc here target : Nat} {s : Stmt}
    (h : s.OwnJump around pc here target) :
    (∃ span, s = .breakLoop span ∨ s = .continueLoop span) ∨ pc ≤ target ∧
    target ≤ pc + s.size := by
  cases h with
  | breakLoop _ => exact .inl ⟨_, .inl rfl⟩
  | continueLoop _ => exact .inl ⟨_, .inr rfl⟩
  | _ =>
      refine .inr ?_
      simp only [Stmt.size]
      omega

theorem Instruction.goal?_of_isStraight {I : Instruction} (h : I.isStraight = true) :
    I.goal? = none := by
  cases I <;> first | rfl | cases h

/-- Code without jumps goes nowhere. -/
theorem Placed.not_goal {code : List Instruction} {pc here target : Nat} {I : Instruction}
    (h : Placed code pc here I) (hstraight : code.all Instruction.isStraight = true) :
    I.goal? ≠ some target := by
  obtain ⟨i, -, hi⟩ := h
  have hnone :=
    Instruction.goal?_of_isStraight (List.all_eq_true.mp hstraight I (List.mem_of_getElem? hi))
  simp [hnone]

section Jumps

variable {r : Registry} {index : Nat} {d : FunctionDecl} {code : FunctionCode}

/-- What a jump in the code of a function belongs to. -/
def FunctionDecl.Owned (d : FunctionDecl) (here target : Nat) : Prop :=
  ∃ around pc s, d.Occupies around pc s ∧ s.OwnJump around pc here target

mutual

/-- **A jump in the code of a statement belongs to it or to a statement inside it.** -/
theorem Stmt.owned_of_goal? (hmade : emitFunction r index d = .ok code) :
    ∀ (s : Stmt) {rest : List Stmt} {around : LoopAround} {pc here target : Nat} {I : Instruction},
      d.Row around pc (s :: rest) → Placed (s.code r around.targets pc) pc here I →
        I.goal? = some target →
        d.Owned here target
  | .comment text span, rest, around, pc, here, target, I, hrow, hI, hgoal => by
      obtain ⟨i, -, hi⟩ := hI
      cases hi
  | .expr e, rest, around, pc, here, target, I, hrow, hI, hgoal => by
      exact absurd hgoal (hI.not_goal (Stmt.straight_expr e _ pc))
  | .var decl, rest, around, pc, here, target, I, hrow, hI, hgoal => by
      exact absurd hgoal (hI.not_goal (Stmt.straight_var decl _ pc))
  | .assign target value span, rest, around, pc, here, goal, I, hrow, hI, hgoal => by
      exact absurd hgoal (hI.not_goal (Stmt.straight_assign target value span _ pc))
  | .cond condition thenBlock elseBlock span, rest, around, pc, here, target, I, hrow, hI,
      hgoal => by
      rcases placed_cond.mp hI with hI | ⟨rfl, rfl⟩ | hI | ⟨rfl, rfl⟩ | hI
      · exact absurd hgoal (hI.not_goal (condition.straight_code r))
      · cases hgoal
        exact ⟨around, pc, _, ⟨rest, hrow⟩, .pastThen⟩
      · exact Stmt.owned_of_goal?_all hmade thenBlock hrow.thenBlock hI hgoal
      · cases hgoal
        exact ⟨around, pc, _, ⟨rest, hrow⟩, .pastElse⟩
      · exact Stmt.owned_of_goal?_all hmade elseBlock hrow.elseBlock hI hgoal
  | .whileLoop condition body span, rest, around, pc, here, target, I, hrow, hI, hgoal => by
      rcases placed_whileLoop.mp hI with hI | ⟨rfl, rfl⟩ | hI | ⟨rfl, rfl⟩
      · exact absurd hgoal (hI.not_goal (condition.straight_code r))
      · cases hgoal
        exact ⟨around, pc, _, ⟨rest, hrow⟩, .whileExit⟩
      · rw [← LoopAround.targets_whileLoop pc condition body span] at hI
        exact Stmt.owned_of_goal?_all hmade body hrow.whileBody hI hgoal
      · cases hgoal
        exact ⟨around, pc, _, ⟨rest, hrow⟩, .whileBack⟩
  | .repeatLoop count body span, rest, around, pc, here, target, I, hrow, hI, hgoal => by
      rcases placed_repeatLoop.mp hI with hI | hI | hI | hI
      · exact absurd hgoal (hI.not_goal (count.straight_code r))
      · rcases placed_repeatTest.mp hI with hI | ⟨rfl, rfl⟩
        · exact absurd hgoal (hI.not_goal rfl)
        · cases hgoal
          exact ⟨around, pc, _, ⟨rest, hrow⟩, .repeatExit⟩
      · rw [← LoopAround.targets_repeatLoop pc count body span] at hI
        exact Stmt.owned_of_goal?_all hmade body hrow.repeatBody hI hgoal
      · rcases placed_repeatBack.mp hI with hI | ⟨rfl, rfl⟩ | ⟨rfl, rfl⟩
        · exact absurd hgoal (hI.not_goal rfl)
        · cases hgoal
          exact ⟨around, pc, _, ⟨rest, hrow⟩, .repeatBack⟩
        · cases hgoal
  | .ret (some value) span, rest, around, pc, here, target, I, hrow, hI, hgoal => by
      rw [Stmt.code, placed_append, placed_singleton] at hI
      rcases hI with hI | ⟨-, rfl⟩
      · exact absurd hgoal (hI.not_goal (value.straight_code r))
      · cases hgoal
  | .ret none span, rest, around, pc, here, target, I, hrow, hI, hgoal => by
      rw [(placed_singleton.mp hI).2] at hgoal
      cases hgoal
  | .breakLoop span, rest, around, pc, here, target, I, hrow, hI, hgoal => by
      obtain ⟨rfl, rfl⟩ := placed_singleton.mp hI
      have hat : d.Occupies around here (.breakLoop span) := ⟨rest, hrow⟩
      obtain ⟨t, ht⟩ := hat.targets_of_jump hmade ⟨span, .inl rfl⟩
      rw [ht] at hgoal
      cases hgoal
      exact ⟨around, here, _, hat, .breakLoop ht⟩
  | .continueLoop span, rest, around, pc, here, target, I, hrow, hI, hgoal => by
      obtain ⟨rfl, rfl⟩ := placed_singleton.mp hI
      have hat : d.Occupies around here (.continueLoop span) := ⟨rest, hrow⟩
      obtain ⟨t, ht⟩ := hat.targets_of_jump hmade ⟨span, .inr rfl⟩
      rw [ht] at hgoal
      cases hgoal
      exact ⟨around, here, _, hat, .continueLoop ht⟩

/-- The same for statements in a row. -/
theorem Stmt.owned_of_goal?_all (hmade : emitFunction r index d = .ok code) :
    ∀ (ss : List Stmt) {around : LoopAround} {pc here target : Nat} {I : Instruction},
      d.Row around pc ss → Placed (Stmt.codes r around.targets pc ss) pc here I →
        I.goal? = some target →
        d.Owned here target
  | [], around, pc, here, target, I, hrow, hI, hgoal => by
      obtain ⟨i, -, hi⟩ := hI
      cases hi
  | s :: rest, around, pc, here, target, I, hrow, hI, hgoal => by
      rw [Stmt.codes, placed_append, Stmt.length_code] at hI
      rcases hI with hI | hI
      · exact Stmt.owned_of_goal? hmade s hrow hI hgoal
      · exact Stmt.owned_of_goal?_all hmade rest hrow.next hI hgoal

end

/-- A jump in the code of a function belongs to one of its statements, since the closing `return`
goes nowhere. -/
theorem FunctionDecl.owned_of_goal? (hmade : emitFunction r index d = .ok code) {here target : Nat}
    {I : Instruction} (hI : (d.code r)[here]? = some I) (hgoal : I.goal? = some target) :
    d.Owned here target := by
  have hbody := placed_body ⟨here, (Nat.zero_add here).symm, hI⟩ (by rintro rfl; cases hgoal)
  exact Stmt.owned_of_goal?_all hmade d.body .body hbody hgoal

end Jumps

/-! ## Functions -/

/-- The code of a function is arranged by its statements. -/
structure FunctionCode.Arranged (r : Registry) (d : FunctionDecl) (code : FunctionCode) : Prop where
  /-- The ranges of the body's statements come first, in order and without gaps, and at most a
  `return` behind them. -/
  body : (Part.block 0 d.body).flatMap Part.places = List.range' 0 (Stmt.sizes d.body) ∧
    code.instructions.size = Stmt.sizes d.body + if endsWithReturn d.body then 0 else 1
  /-- What is made for a statement is its range, up to the jumps that wait for the targets of the
  loop around it. -/
  made : ∀ {around : LoopAround} {pc : Nat} {s : Stmt}, d.Occupies around pc s →
    d.MadeAt r code around pc s
  /-- A range consists of its statement's own instructions and of the ranges of the statements
  inside it, in order. -/
  parts : ∀ {around : LoopAround} {pc : Nat} {s : Stmt}, d.Occupies around pc s →
    (s.parts pc).flatMap Part.places = List.range' pc s.size ∧
      ∀ {pc' : Nat} {s' : Stmt}, .nested pc' s' ∈ s.parts pc →
      d.Occupies (s.around around pc) pc' s'
  /-- The loop around a statement is a statement of the function. -/
  loop : ∀ {start pc : Nat} {l s : Stmt}, d.Occupies (some (start, l)) pc s → ∃ outer,
    d.Occupies outer start l
  /-- The exit of a `while` is right behind the jump back; it goes on with the first instruction of
  the condition. -/
  whileLoop : ∀ {around : LoopAround} {pc : Nat} {condition : Expr} {inner : List Stmt}
    {span : Span},
    d.Occupies around pc (.whileLoop condition inner span) → ∃ exit,
      LoopAround.targets (some (pc, .whileLoop condition inner span)) = some ⟨exit, pc⟩ ∧
        code.instructions[exit - 1]? = some (.jump pc) ∧
          exit = pc + (Stmt.whileLoop condition inner span).size ∧
          CodeAt code.instructions.toList pc (condition.code r) ∧ 0 < condition.size
  /-- The exit of a repetition is the instruction that drops its count; it goes on where the count
  goes down. -/
  repeatLoop : ∀ {around : LoopAround} {pc : Nat} {count : Expr} {inner : List Stmt} {span : Span},
    d.Occupies around pc (.repeatLoop count inner span) → ∃ exit next,
      LoopAround.targets (some (pc, .repeatLoop count inner span)) = some ⟨exit, next⟩ ∧
        CodeAt code.instructions.toList next
          [.push (.number 1), .binary .subtract, .jump (pc + count.size)] ∧
          code.instructions[exit]? = some .pop ∧ exit = next + 3 ∧
            exit + 1 = pc + (Stmt.repeatLoop count inner span).size
  /-- A `break` goes to the exit of the loop around it. -/
  breakLoop : ∀ {around : LoopAround} {pc : Nat} {span : Span},
    d.Occupies around pc (.breakLoop span) →
    ∃ t, around.targets = some t ∧ code.instructions[pc]? = some (.jump t.exit)
  /-- A `continue` goes to where the loop around it goes on. -/
  continueLoop : ∀ {around : LoopAround} {pc : Nat} {span : Span},
    d.Occupies around pc (.continueLoop span) →
    ∃ t, around.targets = some t ∧ code.instructions[pc]? = some (.jump t.next)
  /-- Every jump is made for a statement, as one of its own instructions, and goes to an
  instruction; if it is no `break` or `continue`, to one in the range of the statement or to the
  first one behind it. -/
  jump : ∀ {here target : Nat} {I : Instruction}, code.instructions[here]? = some I →
    I.goal? = some target →
    target < code.instructions.size ∧ ∃ around pc s, d.Occupies around pc s ∧
      .own here ∈ s.parts pc ∧
      s.OwnJump around pc here target ∧
        ((∃ span, s = .breakLoop span ∨ s = .continueLoop span) ∨ pc ≤ target ∧
          target ≤ pc + s.size)

/-- **Jumps are resolved.** If code can be made of a function, checked or not, then the code of each
of its statements is one range, put together from its own instructions and the ranges of the
statements inside it. On its way the emitter leaves jumps behind that wait for their targets, and
notes them for the right loop: in the end a `break` or `continue` goes to the exit or the
continuation point of the loop around it, and all other jumps stay in the range of the statement
that they were made for or go right behind it. No jump is left that waits. -/
theorem jumps_resolved {r : Registry} {index : Nat} {d : FunctionDecl} {code : FunctionCode}
    (h : emitFunction r index d = .ok code) : code.Arranged r d := by
  have compiled := emitFunction_compiled h
  have hcode {around : LoopAround} {pc : Nat} {s : Stmt} (hs : d.Occupies around pc s) :
      CodeAt code.instructions.toList pc (s.code r around.targets pc) := by
    obtain ⟨rest, hrow⟩ := hs
    rw [compiled.instructions]
    exact (hrow.codeAt r).append.1
  have hat (pc : Nat) : code.instructions.toList[pc]? = code.instructions[pc]? :=
    Array.getElem?_toList
  refine ⟨⟨Part.places_block d.body 0, compiled.size⟩, ?_, ?_, ?_, ?_, ?_, ?_, ?_, ?_⟩
  · intro around pc s hs
    exact hs.made h
  · intro around pc s hs
    exact ⟨s.places_parts pc, hs.nested⟩
  · intro start pc l s ⟨rest, hrow⟩
    exact hrow.loop
  · intro around pc condition inner span hs
    obtain ⟨htest, -, -, hback⟩ := (hcode hs).whileLoop
    refine ⟨_, LoopAround.targets_whileLoop pc condition inner span, ?_, ?_, htest,
      condition.size_pos⟩
    · rw [← hat, Nat.add_sub_cancel]
      exact hback
    · rw [Stmt.size]
      omega
  · intro around pc count inner span hs
    obtain ⟨-, -, -, hback⟩ := (hcode hs).repeatLoop
    refine ⟨_, _, LoopAround.targets_repeatLoop pc count inner span, ?_, ?_, rfl, ?_⟩
    · have hparts :
          CodeAt _ _
            (([.push (.number 1), .binary .subtract, .jump (pc + count.size)] : List Instruction) ++
              [.pop]) := hback
      exact hparts.append.1
    · rw [← hat]
      exact hback 3 .pop rfl
    · rw [Stmt.size]
      omega
  · intro around pc span hs
    obtain ⟨t, ht⟩ := hs.targets_of_jump h ⟨span, .inl rfl⟩
    have hjump := (hcode hs).head
    rw [ht, hat] at hjump
    exact ⟨t, ht, hjump⟩
  · intro around pc span hs
    obtain ⟨t, ht⟩ := hs.targets_of_jump h ⟨span, .inr rfl⟩
    have hjump := (hcode hs).head
    rw [ht, hat] at hjump
    exact ⟨t, ht, hjump⟩
  · intro here target I hI hgoal
    have hcodeAt := hI
    rw [compiled.getElem?] at hcodeAt
    obtain ⟨around, pc, s, hs, hjump⟩ := FunctionDecl.owned_of_goal? h hcodeAt hgoal
    exact ⟨(emitFunction_wellFormed h).jumps here target I hI hgoal, around, pc, s, hs, hjump.own,
      hjump, hjump.within⟩

/-- A `while` in a repetition, both with a `break`. -/
def nestedLoops : FunctionDecl :=
  let yes : Expr := .boolean ⟨.origin, some .boolean⟩ true
  .main [.repeatLoop (.number ⟨.origin, some .number⟩ 2)
    [.whileLoop yes [.cond yes [.breakLoop .origin] [.continueLoop .origin] .origin] .origin,
      .breakLoop .origin] .origin]

theorem jumps_resolved_nested : ∃ code : FunctionCode,
    emitFunction .initial 0 nestedLoops = .ok code ∧ code.Arranged .initial nestedLoops ∧
      code.instructions.toList.filterMap Instruction.goal? = [17, 13, 11, 13, 12, 5, 5, 17, 1] := by
  have hgoals : ((emitFunction .initial 0 nestedLoops).map fun code =>
      code.instructions.toList.filterMap Instruction.goal?) =
        .ok [17, 13, 11, 13, 12, 5, 5, 17, 1] := by decide +kernel
  obtain ⟨code, hmade, hgoals⟩ := map_eq_ok.mp hgoals
  exact ⟨code, hmade, jumps_resolved hmade, hgoals⟩

end Stepwise
