import Stepwise.Proofs.Code.Layout

/-!
# Patched code is code made outright

The emitter makes a jump before it knows how far, and patches it later; `emitStmt` makes every jump
with its target at once, from the sizes of what it passes. Both come to the same code or stop with
the same diagnostic (`emitFunction_eq_outright`), so no patch ever misses its jump.

* `Patches` says what setting the targets of some jumps makes of a stretch of code, wherever the
  stretch stands, and `Ends` what ending some ranges makes of rows of locals.
* `Emitter.Makes` says how far the emitter is when it has gone through a statement: its code is the
  one made outright but for the jumps that the context of the loop around has noted (`Awaits`), its
  locals are the same but for the ends of those of the open block.
* Each construct settles what was noted inside it, so the code of an `if` or a loop waits for the
  loop around it only (`Emitter.cond_makes`, `Emitter.whileLoop_makes`, `Emitter.repeatLoop_makes`),
  and the code of a function for nothing.
-/

set_option autoImplicit false

namespace Stepwise

open Diagnosed

/-! ## Patching -/

theorem Emitter.patchJumps_append (target : Nat) (first second : List Nat) (E : Emitter) :
    E.patchJumps target (first ++ second) = E.patchJumps target first >>= fun E =>
    E.patchJumps target second := by
  induction first generalizing E with
  | nil => rfl
  | cons place places ih =>
      simp only [List.cons_append, patchJumps]
      cases E.patchJump target place with
      | error d => rfl
      | ok E => exact ih E

/-- A jump that is there gets its target. -/
theorem Emitter.patchJump_eq_ok {E : Emitter} {target place : Nat} {jump jump' : Instruction}
    {info : LineInfo} {front back : List CodeLine} (hplace : front.length = place)
    (hcode : E.code.toList = front ++ ⟨jump, info⟩ :: back)
    (hjump : jump.withTarget? target = some jump') :
    E.patchJump target place = .ok { E with code := (front ++ ⟨jump', info⟩ :: back).toArray } := by
  have hline : E.code[place]? = some ⟨jump, info⟩ := by
    rw [← Array.getElem?_toList, hcode, List.getElem?_append_right (Nat.le_of_eq hplace), hplace,
      Nat.sub_self]
    rfl
  have hset : E.code.setIfInBounds place ⟨jump', info⟩ =
      (front ++ ⟨jump', info⟩ :: back).toArray := by
    rw [← Array.toList_inj, Array.toList_setIfInBounds, hcode, ← hplace]
    simp
  simp only [patchJump, hline, hjump, hset]

/-- What setting the targets of the jumps at some places makes of code that starts at `pc`, wherever
the code is. -/
structure Patches (target pc : Nat) (places : List Nat) (code code' : List CodeLine) : Prop where
  length : code'.length = code.length
  patchJumps : ∀ (E : Emitter) (front back : List CodeLine), front.length = pc →
    E.code.toList = front ++ code ++ back →
      E.patchJumps target places = .ok { E with code := (front ++ code' ++ back).toArray }

namespace Patches

variable {target pc : Nat}

/-- Code without places stays. -/
theorem refl (code : List CodeLine) : Patches target pc [] code code where
  length := rfl
  patchJumps := by
    intro E front back _ hcode
    rw [← hcode, Array.toArray_toList]
    rfl

theorem jump (info : LineInfo) :
    Patches target pc [pc] [⟨.jump 0, info⟩] [⟨.jump target, info⟩] where
  length := rfl
  patchJumps := by
    intro E front back hfront hcode
    rw [List.append_assoc, List.singleton_append] at hcode
    rw [Emitter.patchJumps, Emitter.patchJump_eq_ok hfront hcode rfl, List.append_assoc,
      List.singleton_append]
    rfl

/-- Code is patched piece by piece. -/
theorem append {places places' : List Nat} {code code' more more' : List CodeLine}
    (h : Patches target pc places code code')
    (h' : Patches target (pc + code.length) places' more more') :
    Patches target pc (places ++ places') (code ++ more) (code' ++ more') where
  length := by rw [List.length_append, List.length_append, h.length, h'.length]
  patchJumps := by
    intro E front back hfront hcode
    have hfirst := h.patchJumps E front (more ++ back) hfront (by simp [hcode])
    have hsecond := h'.patchJumps { E with code := (front ++ code' ++ (more ++ back)).toArray }
      (front ++ code') back (by rw [List.length_append, hfront, h.length]) (by simp)
    rw [Emitter.patchJumps_append, hfirst]
    refine hsecond.trans ?_
    simp

end Patches

/-- The places of two pieces of code. -/
def LoopContext.join (first second : LoopContext) : LoopContext :=
  ⟨first.breaks ++ second.breaks, first.continues ++ second.continues⟩

/-- Code that waits for the targets of the loop around it, at the places that a context notes, and
what it is with them. Outside of loops there is nothing to wait for. -/
def Awaits (loop : Option LoopTargets) (pc : Nat) (context : LoopContext)
    (code code' : List CodeLine) : Prop :=
  match loop with
  | none => context = .empty ∧ code' = code
  | some t => ∃ between,
      Patches t.next pc context.continues code between ∧
      Patches t.exit pc context.breaks between code'

namespace Awaits

variable {loop : Option LoopTargets} {pc : Nat}

/-- Code that waits for nothing. -/
theorem refl (code : List CodeLine) : Awaits loop pc .empty code code := by
  cases loop with
  | none => exact ⟨rfl, rfl⟩
  | some t => exact ⟨code, .refl code, .refl code⟩

theorem length {context : LoopContext} {code code' : List CodeLine}
    (h : Awaits loop pc context code code') :
    code'.length = code.length := by
  cases loop with
  | none => rw [h.2]
  | some t =>
      obtain ⟨between, hnext, hexit⟩ := h
      rw [hexit.length, hnext.length]

theorem append {context context' : LoopContext} {code code' more more' : List CodeLine}
    (h : Awaits loop pc context code code')
    (h' : Awaits loop (pc + code.length) context' more more') :
    Awaits loop pc (context.join context') (code ++ more) (code' ++ more') := by
  cases loop with
  | none =>
      obtain ⟨rfl, rfl⟩ := h
      obtain ⟨rfl, rfl⟩ := h'
      exact ⟨rfl, rfl⟩
  | some t =>
      obtain ⟨between, hnext, hexit⟩ := h
      obtain ⟨between', hnext', hexit'⟩ := h'
      refine ⟨between ++ between', hnext.append hnext', hexit.append ?_⟩
      rw [hnext.length]
      exact hexit'

end Awaits

/-! ## Ending ranges -/

theorem endRanges_append (stop : Nat) (rows : List LocalInfo) (first second : List Nat) :
    endRanges stop rows (first ++ second) = endRanges stop (endRanges stop rows first) second :=
  List.foldl_append

/-- What ending the ranges at some places makes of rows that stand in a table from `base` on,
wherever the table ends. -/
structure Ends (stop base : Nat) (places : List Nat) (rows rows' : List LocalInfo) : Prop where
  length : rows'.length = rows.length
  endRanges : ∀ (front back : List LocalInfo), front.length = base →
    endRanges stop (front ++ rows ++ back) places = front ++ rows' ++ back

namespace Ends

variable {stop base : Nat}

theorem refl (rows : List LocalInfo) : Ends stop base [] rows rows := ⟨rfl, fun _ _ _ => rfl⟩

theorem row (l : LocalInfo) :
    Ends stop base [base] [l] [{ l with live := ⟨l.live.start, stop⟩ }] where
  length := rfl
  endRanges := by
    rintro front back rfl
    have hmodify := List.modifyTailIdx_add (List.modifyHead fun l : LocalInfo =>
      { l with live := ⟨l.live.start, stop⟩ }) 0 front (l :: back)
    simpa [Stepwise.endRanges, List.modify] using hmodify

theorem append {places places' : List Nat} {rows rows' more more' : List LocalInfo}
    (h : Ends stop base places rows rows')
    (h' : Ends stop (base + rows.length) places' more more') :
    Ends stop base (places ++ places') (rows ++ more) (rows' ++ more') where
  length := by rw [List.length_append, List.length_append, h.length, h'.length]
  endRanges := by
    intro front back hfront
    have hfirst := h.endRanges front (more ++ back) hfront
    have hsecond :=
      h'.endRanges (front ++ rows') back (by rw [List.length_append, hfront, h.length])
    simp only [List.append_assoc] at hfirst hsecond ⊢
    rw [endRanges_append, hfirst]
    exact hsecond

end Ends

/-! ## Emitters -/

theorem EmitState.lines_append (st : EmitState) (first second : List Instruction) :
    st.lines (first ++ second) = st.lines first ++ st.lines second := List.map_append

theorem EmitState.lines_closeBlock (st : EmitState) (code : List Instruction) :
    st.closeBlock.lines code = st.lines code := rfl

theorem emitStmts_length {r : Registry} {loop : Option LoopTargets} {blockEnd pc : Nat}
    {st : EmitState} {ss : List Stmt} {em : Emitted}
    (h : emitStmts r loop blockEnd pc st ss = .ok em) :
    em.code.length = Stmt.sizes ss := by
  rw [← List.length_map (·.instruction), (emitStmts_eq ss h).1, Stmt.length_codes]

theorem LoopContext.join_empty (context : LoopContext) : context.join .empty = context := by
  simp [join, empty]

theorem LoopContext.join_join (first second third : LoopContext) :
    (first.join second).join third = first.join (second.join third) := by
  simp [join]

namespace Emitter

/-- What making code outright goes by. -/
def state (E : Emitter) : EmitState := ⟨E.scopes, E.nextIndex, E.current⟩

theorem toList_emit (E : Emitter) (code : List Instruction) :
    (E.emit code).code.toList = E.code.toList ++ E.state.lines code := by
  simp [emit, EmitState.lines, state]

@[simp] theorem emit_nil (E : Emitter) : E.emit [] = E := by
  simp [emit]

@[simp] theorem offset_emit (E : Emitter) (code : List Instruction) :
    (E.emit code).offset = E.offset + code.length := by
  rw [offset, ← Array.length_toList, toList_emit, List.length_append, EmitState.lines,
    List.length_map]
  rfl

/-- From one emitter to another, the code and the locals of a making are appended. The code waits
for the targets of the loop, and the ranges of what the open block declares wait for its end. -/
structure Makes (loop : Option LoopTargets) (blockEnd : Nat) (E : Emitter) (em : Emitted)
    (E' : Emitter) : Prop where
  state : E'.state = em.state
  code : ∃ context code, E'.code.toList = E.code.toList ++ code ∧
    E'.loops = E.loops.modifyHead (·.join context) ∧ Awaits loop E.offset context code em.code
  locals : ∃ places rows, E'.locals = E.locals ++ rows ∧
    E'.blocks = E.blocks.modifyHead (· ++ places) ∧
    Ends blockEnd E.locals.length places rows em.locals

namespace Makes

variable {loop : Option LoopTargets} {blockEnd : Nat} {E E' E'' : Emitter} {em em' : Emitted}

theorem offset (h : Makes loop blockEnd E em E') : E'.offset = E.offset + em.code.length := by
  obtain ⟨context, code, hcode, -, hawaits⟩ := h.code
  rw [Emitter.offset, ← Array.length_toList, hcode, List.length_append, hawaits.length]
  rfl

/-- What waits for nothing. -/
theorem of_eq (hstate : E'.state = em.state) (hcode : E'.code.toList = E.code.toList ++ em.code)
    (hloops : E'.loops = E.loops) (hlocals : E'.locals = E.locals ++ em.locals)
    (hblocks : E'.blocks = E.blocks) :
    Makes loop blockEnd E em E' where
  state := hstate
  code := ⟨.empty, em.code, hcode,
    by simp [hloops, LoopContext.join_empty, ← Function.id_def], .refl em.code⟩
  locals := ⟨[], em.locals, hlocals, by simp [hblocks, ← Function.id_def], .refl em.locals⟩

theorem emit (E : Emitter) (code : List Instruction) :
    Makes loop blockEnd E ⟨E.state.lines code, [], E.state⟩ (E.emit code) :=
  of_eq rfl (E.toList_emit code) rfl (List.append_nil _).symm rfl

theorem trans (h : Makes loop blockEnd E em E') (h' : Makes loop blockEnd E' em' E'') :
    Makes loop blockEnd E ⟨em.code ++ em'.code, em.locals ++ em'.locals, em'.state⟩ E'' := by
  obtain ⟨context, code, hcode, hloops, hawaits⟩ := h.code
  obtain ⟨context', code', hcode', hloops', hawaits'⟩ := h'.code
  obtain ⟨places, rows, hlocals, hblocks, hends⟩ := h.locals
  obtain ⟨places', rows', hlocals', hblocks', hends'⟩ := h'.locals
  have hoffset : E'.offset = E.offset + code.length := by rw [h.offset, hawaits.length]
  have hlength : E'.locals.length = E.locals.length + rows.length := by
    rw [hlocals, List.length_append]
  rw [hoffset] at hawaits'
  rw [hlength] at hends'
  refine ⟨h'.state, ⟨context.join context', code ++ code', ?_, ?_, hawaits.append hawaits'⟩,
    ⟨places ++ places', rows ++ rows', ?_, ?_, hends.append hends'⟩⟩
  · rw [hcode', hcode, List.append_assoc]
  · simp only [hloops', hloops, List.modifyHead_modifyHead, Function.comp_def,
      LoopContext.join_join]
  · rw [hlocals', hlocals, List.append_assoc]
  · simp only [hblocks', hblocks, List.modifyHead_modifyHead, Function.comp_def, List.append_assoc]

/-- A statement that begins on a line. -/
theorem of_enter {line : Nat} (h : Makes loop blockEnd (E.enter line) em E') :
    Makes loop blockEnd E em E' :=
  ⟨h.state, h.code, h.locals⟩

/-- The locals of the innermost block do not wait any longer when their ranges end. -/
theorem endLocals {stop : Nat} {outer : List (List Nat)} (hopen : E.blocks = [] :: outer)
    (hstop : E'.offset - 1 = stop) (h : Makes loop stop E em E') :
    E'.endLocals.locals = E.locals ++ em.locals ∧ E'.endLocals.blocks = outer := by
  obtain ⟨places, rows, hlocals, hblocks, hends⟩ := h.locals
  rw [hopen, List.modifyHead_cons, List.nil_append] at hblocks
  have hended := hends.endRanges E.locals [] rfl
  rw [List.append_nil, List.append_nil] at hended
  simp only [Emitter.endLocals, hblocks, List.headD_cons, List.tail_cons, hstop, hlocals, hended,
    and_self]

/-- A block whose end is known. -/
theorem block {stop : Nat} (hstop : E'.offset - 1 = stop) (h : Makes loop stop E.openBlock em E') :
    Makes loop blockEnd E ⟨em.code, em.locals, em.state.closeBlock⟩ E'.closeBlock := by
  obtain ⟨hlocals, hblocks⟩ := h.endLocals rfl hstop
  refine ⟨?_, h.code, ⟨[], em.locals, hlocals, ?_, .refl em.locals⟩⟩
  · rw [← h.state]
    rfl
  · show E'.endLocals.blocks = _
    simp [hblocks, ← Function.id_def]

/-- A jump in front of what is made can be patched behind it. -/
theorem patch {jump jump' : Instruction} (target : Nat)
    (h : Makes loop blockEnd (E.emit [jump]) em E') (hjump : jump.withTarget? target = some jump') :
    ∃ E'', Makes loop blockEnd (E.emit [jump']) em E'' ∧
      ∀ more, (E'.emit more).patchJump target E.offset = .ok (E''.emit more) := by
  obtain ⟨context, code, hcode, hloops, hawaits⟩ := h.code
  rw [toList_emit, List.append_assoc] at hcode
  have hoffset : (E.emit [jump']).offset = (E.emit [jump]).offset := by simp
  rw [← hoffset] at hawaits
  refine ⟨{ E' with code := (E.code.toList ++ (E.state.lines [jump'] ++ code)).toArray },
    ⟨h.state, ⟨context, code, ?_, hloops, hawaits⟩, h.locals⟩, fun more => ?_⟩
  · rw [toList_emit, List.append_assoc]
  · have hmore : (E'.emit more).code.toList = E.code.toList ++
        ⟨jump, E.current⟩ :: (code ++ E'.state.lines more) := by
      rw [toList_emit, hcode]
      simp [EmitState.lines, Emitter.state]
    have hplace : E.code.toList.length = E.offset := Array.length_toList
    rw [patchJump_eq_ok hplace hmore hjump]
    simp [Emitter.emit, EmitState.lines, Emitter.state]

/-- Outside of loops nothing waits for targets. -/
theorem toList_code (h : Makes none blockEnd E em E') :
    E'.code.toList = E.code.toList ++ em.code := by
  obtain ⟨context, code, hcode, -, -, rfl⟩ := h.code
  exact hcode

/-- The loops around what follows are as many as before. -/
theorem isEmpty_loops (h : Makes loop blockEnd E em E') : E'.loops.isEmpty = E.loops.isEmpty := by
  obtain ⟨context, code, -, hloops, -⟩ := h.code
  rw [hloops]
  cases E.loops <;> rfl

end Makes

/-! ## Loops -/

/-- The body of a loop behind its test, with the targets that its context waits for still to be set.
Once those of the `continue`s are set, the code is the one `between`. -/
structure ClosesLoop (t : LoopTargets) (E : Emitter) (em : Emitted) (between : List CodeLine)
    (context : LoopContext) (E' : Emitter) : Prop where
  state : E'.state = em.state.closeBlock
  loops : E'.loops = E.loops
  locals : E'.locals = E.locals ++ em.locals
  blocks : E'.blocks = E.blocks
  code : ∃ code, E'.code.toList = E.code.toList ++ E.state.lines [.jumpIfFalse 0] ++ code ∧
    Patches t.next (E.offset + 1) context.continues code between
  breaks : Patches t.exit (E.offset + 1) context.breaks between em.code

/-- The body of a loop whose end is known. -/
theorem Makes.closeLoop {t : LoopTargets} {stop : Nat} {E E' : Emitter} {em : Emitted}
    (hstop : E'.offset - 1 = stop)
    (h : Makes (some t) stop (E.emit [.jumpIfFalse 0]).openLoop em E') :
    ∃ between, ClosesLoop t E em between E'.closeLoop.1 E'.closeLoop.2 := by
  obtain ⟨hlocals, hblocks⟩ := h.endLocals rfl hstop
  obtain ⟨context, code, hcode, hloops, between, hnext, hexit⟩ := h.code
  have hloops' : E'.loops = context :: E.loops := hloops
  have hoffset : (E.emit [.jumpIfFalse 0]).openLoop.offset = E.offset + 1 :=
    E.offset_emit [.jumpIfFalse 0]
  have hcontext : E'.closeLoop.1 = context := by simp [Emitter.closeLoop, hloops']
  rw [hoffset] at hnext hexit
  rw [hcontext]
  refine ⟨between, ?_, ?_, hlocals, hblocks, ⟨code, ?_, hnext⟩, hexit⟩
  · rw [← h.state]
    rfl
  · simp [Emitter.closeLoop, hloops']
  · rw [← E.toList_emit]
    exact hcode

namespace ClosesLoop

variable {t : LoopTargets} {E E' : Emitter} {em : Emitted} {between : List CodeLine}
    {context : LoopContext}

/-- The code in front of the body. -/
theorem length_front (E : Emitter) (jump : Instruction) :
    (E.code.toList ++ E.state.lines [jump]).length = E.offset + 1 := by
  simp [EmitState.lines, Emitter.offset]

/-- The jumps of `continue`s are patched, whatever stands behind the body. -/
theorem next (h : ClosesLoop t E em between context E') {F : Emitter} (more : List CodeLine)
    (hF : F.code.toList = E'.code.toList ++ more) : F.patchJumps t.next context.continues =
      .ok { F with code := (E.code.toList ++ E.state.lines [.jumpIfFalse 0] ++ between ++
        more).toArray } := by
  obtain ⟨code, hcode, hnext⟩ := h.code
  rw [hcode] at hF
  exact hnext.patchJumps F _ more (length_front E _) hF

/-- The jump of the test and those of `break`s are patched behind what closes the loop. -/
theorem exit {loop : Option LoopTargets} {blockEnd : Nat} (h : ClosesLoop t E em between context E')
    {F : Emitter} {back : List Instruction} (hcode : F.code.toList =
      E.code.toList ++ E.state.lines [.jumpIfFalse 0] ++ between ++ E.state.lines back)
    (hstate : F.state = { E'.state with current := E.current }) (hloops : F.loops = E'.loops)
    (hlocals : F.locals = E'.locals) (hblocks : F.blocks = E'.blocks) :
    ∃ F', (F.patchJump t.exit E.offset >>= fun F => F.patchJumps t.exit context.breaks) = .ok F' ∧
      Makes loop blockEnd E ⟨E.state.lines [.jumpIfFalse t.exit] ++ em.code ++ E.state.lines back,
        em.locals,
        { em.state.closeBlock with current := E.current }⟩ F' := by
  have hplace : E.code.toList.length = E.offset := Array.length_toList
  have htest : F.code.toList = E.code.toList ++
      ⟨.jumpIfFalse 0, E.current⟩ :: (between ++ E.state.lines back) := by
    rw [hcode]
    simp [EmitState.lines, Emitter.state]
  have hbreaks := h.breaks.patchJumps { F with
    code := (E.code.toList ++ ⟨.jumpIfFalse t.exit, E.current⟩ ::
      (between ++ E.state.lines back)).toArray }
    _ (E.state.lines back) (length_front E (.jumpIfFalse t.exit))
      (by simp [EmitState.lines, Emitter.state])
  refine ⟨{ F with
    code := (E.code.toList ++ E.state.lines [.jumpIfFalse t.exit] ++ em.code ++ E.state.lines
      back).toArray }, ?_, ?_⟩
  · rw [patchJump_eq_ok hplace htest rfl]
    exact hbreaks
  · refine .of_eq ?_ (by simp) (hloops.trans h.loops) (hlocals.trans h.locals)
      (hblocks.trans h.blocks)
    rw [← h.state]
    exact hstate

end ClosesLoop

/-! ## Statements -/

section Statements

variable {loop : Option LoopTargets} {blockEnd : Nat} (r : Registry)

theorem varDecl_makes (E : Emitter) (decl : VarDecl) :
    Related Eq (Makes loop blockEnd E) (emitVariable r blockEnd E.offset E.state decl)
      (E.varDecl r decl) := by
  unfold emitVariable varDecl
  refine .bind_same (fun _ => rfl) _ fun value hvalue => ?_
  have hsize : value.length = decl.value.size := by rw [emitExpr_eq _ hvalue, Expr.length_code]
  cases decl.ty with
  | none => exact .failAt rfl
  | some ty =>
      simp only [declare, bind_assoc]
      refine .bind_same (fun _ => rfl) (declareSlot E.scopes decl.name ty decl.slot)
        fun ⟨slot, scopes⟩ _ => .pure ?_
      have hoffset : (E.emit value).offset + 1 = E.offset + decl.value.size + 1 := by
        rw [offset_emit, hsize]
      refine ⟨rfl, ⟨.empty, E.state.lines (value ++ [.store slot]), ?_, ?_, .refl _⟩,
        ⟨[E.locals.length], [_], rfl, rfl, ?_⟩⟩
      · simp [emit, EmitState.lines, state]
      · simp [emit, LoopContext.join_empty, ← Function.id_def]
      · rw [hoffset]
        exact .row _

omit r in
/-- A jump out of the body of a loop is made and noted, or both stop where there is no loop. -/
theorem leaveBody_makes (E : Emitter) (span : Span) {note : LoopContext → Nat → LoopContext}
    {target : LoopTargets → Nat} (hloop : loop.isSome = !E.loops.isEmpty)
    (hnote : ∀ t pc, ∃ context, (∀ outer, note outer pc = outer.join context) ∧
      Awaits (some t) pc context (E.state.lines [.jump 0]) (E.state.lines [.jump (target t)])) :
    Related Eq (Makes loop blockEnd E) (emitJump E.state span (loop.map target))
      (E.leaveBody span note) := by
  have hloops : (E.emit [.jump 0]).loops = E.loops := rfl
  simp only [leaveBody, hloops]
  cases loop with
  | none =>
      have hnone : E.loops = [] := by simpa using hloop
      rw [hnone]
      exact .failAt rfl
  | some t =>
      obtain ⟨outer, others, hsome⟩ :=
        List.exists_cons_of_ne_nil (l := E.loops) (by simpa using hloop.symm)
      obtain ⟨context, hjoin, hawaits⟩ := hnote t E.offset
      rw [hsome]
      refine .ok ⟨rfl, ⟨context, E.state.lines [.jump 0], E.toList_emit _, ?_, hawaits⟩, ?_⟩
      · simp [hsome, hjoin]
      · exact ⟨[], [], (List.append_nil _).symm, by simp [emit, ← Function.id_def], .refl []⟩

omit r in
theorem leaveBody_break (E : Emitter) (span : Span) (hloop : loop.isSome = !E.loops.isEmpty) :
    Related Eq (Makes loop blockEnd E) (emitJump E.state span (loop.map (·.exit)))
      (E.leaveBody span LoopContext.noteBreak) :=
  E.leaveBody_makes span hloop fun t pc =>
    ⟨⟨[pc], []⟩, fun outer =>
      by simp [LoopContext.noteBreak, LoopContext.join], _, .refl _, .jump E.current⟩

omit r in
theorem leaveBody_continue (E : Emitter) (span : Span) (hloop : loop.isSome = !E.loops.isEmpty) :
    Related Eq (Makes loop blockEnd E) (emitJump E.state span (loop.map (·.next)))
      (E.leaveBody span LoopContext.noteContinue) :=
  E.leaveBody_makes span hloop fun t pc =>
    ⟨⟨[], [pc]⟩, fun outer =>
      by simp [LoopContext.noteContinue, LoopContext.join], _, .jump E.current, .refl _⟩

/-- An emitter appends the code of statements that is made outright. -/
def MakesAll (ss : List Stmt) : Prop :=
  ∀ (E : Emitter) {loop : Option LoopTargets} {blockEnd pc : Nat} {st : EmitState}, E.offset = pc →
    E.state = st →
    loop.isSome = !E.loops.isEmpty →
      Related Eq (Makes loop blockEnd E) (emitStmts r loop blockEnd pc st ss) (E.stmts r ss)

variable {r}

/-- What stands in front of the blocks of a statement: an expression, with which the statement
begins. -/
theorem begun {scopes : Scopes} {e : Expr} {code : List Instruction}
    (hcode : emitExpr r scopes e = .ok code) (loop : Option LoopTargets) (blockEnd : Nat)
    (E : Emitter) (line : Nat) :
    Makes loop blockEnd E ⟨((E.enter line).emit code).state.lines code, [],
      ((E.enter line).emit code).state⟩
      ((E.enter line).emit code) ∧ E.offset + e.size = ((E.enter line).emit code).offset := by
  refine ⟨(Makes.emit _ code).of_enter, ?_⟩
  rw [offset_emit, emitExpr_eq e hcode, Expr.length_code]
  rfl

/-- **Both blocks of an `if` are passed by jumps that are patched behind them.** -/
theorem cond_makes {condition : Expr} {thenBlock elseBlock : List Stmt}
    (hthen : MakesAll r thenBlock) (helse : MakesAll r elseBlock) (span : Span) (E : Emitter)
    (hloop : loop.isSome = !E.loops.isEmpty) :
    Related Eq (Makes loop blockEnd E)
      (emitStmt r loop blockEnd E.offset E.state (.cond condition thenBlock elseBlock span))
      (E.stmt r (.cond condition thenBlock elseBlock span)) := by
  rw [emitStmt, stmt]
  refine .bind_same (fun _ => rfl) _ fun test htest => ?_
  dsimp only
  obtain ⟨htested, hoffset⟩ := begun htest loop blockEnd E span.line
  have hstate : E.state.enter span.line = ((E.enter span.line).emit test).state := rfl
  have hloop' : loop.isSome = !((E.enter span.line).emit test).loops.isEmpty := hloop
  rw [hoffset, hstate]
  generalize (E.enter span.line).emit test = F at *
  -- The block of the condition stands behind a jump whose target is set when the block is complete.
  refine (hthen (F.emit [.jumpIfFalse 0]).openBlock (F.offset_emit _) rfl hloop').bind_ok
    fun first F₁ hem hfirst => ?_
  have hoffset₁ : F₁.offset = F.offset + 1 + Stmt.sizes thenBlock := by
    rw [hfirst.offset, emitStmts_length hem]
    exact congrArg (· + _) (F.offset_emit _)
  have hclosed : Makes loop blockEnd (F.emit [.jumpIfFalse 0]) _ F₁.closeBlock :=
    hfirst.block (by omega)
  obtain ⟨F₂, hpatched, hpatch⟩ := hclosed.patch (F.offset + 1 + Stmt.sizes thenBlock + 1) rfl
  have hoffset₂ : F₂.offset = F₁.closeBlock.offset := by
    rw [hpatched.offset, hclosed.offset, offset_emit, offset_emit]
    rfl
  have htarget : (F₁.closeBlock.emit [.jump 0]).offset =
      F.offset + 1 + Stmt.sizes thenBlock + 1 := by
    rw [offset_emit, ← hoffset₁]
    rfl
  rw [htarget, hpatch]
  -- The other block stands behind a jump of its own.
  refine (helse (F₂.emit [.jump 0]).openBlock ?_ ?_ ?_).bind_ok fun second F₃ hem' hsecond => ?_
  · rw [← htarget, offset_emit, ← hoffset₂]
    exact F₂.offset_emit _
  · exact congrArg EmitState.openBlock hpatched.state
  · exact hloop'.trans (congrArg _ hpatched.isEmpty_loops.symm)
  have hoffset₃ : F₃.offset = F.offset + 1 + Stmt.sizes thenBlock + 1 + Stmt.sizes elseBlock := by
    rw [hsecond.offset, emitStmts_length hem', ← htarget, offset_emit, ← hoffset₂]
    exact congrArg (· + _) (F₂.offset_emit _)
  have hclosed' : Makes loop blockEnd (F₂.emit [.jump 0]) _ F₃.closeBlock :=
    hsecond.block (by omega)
  obtain ⟨F₄, hpatched', hpatch'⟩ := hclosed'.patch F₃.offset rfl
  have hdone := hpatch' []
  rw [emit_nil, emit_nil, hoffset₂] at hdone
  show Related _ _ _ (F₃.closeBlock.patchJump F₃.offset F₁.closeBlock.offset)
  rw [hdone, ← hoffset₃]
  have hmade :=
    htested.trans ((Makes.emit F _).trans (hpatched.trans ((Makes.emit F₂ _).trans hpatched')))
  refine .ok ?_
  simpa [EmitState.lines_append, EmitState.lines_closeBlock, hpatched.state] using hmade

/-- **The jumps out of the body of a `while`** are patched when the loop around them is complete. -/
theorem whileLoop_makes {condition : Expr} {body : List Stmt} (hbody : MakesAll r body)
    (span : Span) (E : Emitter) :
    Related Eq (Makes loop blockEnd E)
      (emitStmt r loop blockEnd E.offset E.state (.whileLoop condition body span))
        (E.stmt r (.whileLoop condition body span)) := by
  rw [emitStmt, stmt]
  refine .bind_same (fun _ => rfl) _ fun test htest => ?_
  dsimp only
  obtain ⟨htested, hoffset⟩ := begun htest loop blockEnd E span.line
  have hstate : E.state.enter span.line = ((E.enter span.line).emit test).state := rfl
  have hcurrent : (E.enter span.line).current = ((E.enter span.line).emit test).current := rfl
  rw [hoffset, hstate, hcurrent]
  generalize (E.enter span.line).emit test = F at *
  refine (hbody (F.emit [.jumpIfFalse 0]).openLoop (F.offset_emit _) rfl rfl).bind_ok
    fun inner F₁ hem hinner => ?_
  have hoffset₁ : F₁.offset = F.offset + 1 + Stmt.sizes body := by
    rw [hinner.offset, emitStmts_length hem]
    exact congrArg (· + _) (F.offset_emit _)
  obtain ⟨between, hclosed⟩ := hinner.closeLoop (by omega)
  generalize F₁.closeLoop = closed at hclosed ⊢
  obtain ⟨context, F₂⟩ := closed
  -- Behind the body the `continue`s get their target, behind the jump back the test and the
  -- `break`s.
  have hnext := hclosed.next (F := F₂) [] (List.append_nil _).symm
  let F₃ : Emitter := { F₂ with
    code := (F.code.toList ++ F.state.lines [.jumpIfFalse 0] ++ between ++ []).toArray
    current := F.current }.emit [.jump E.offset]
  have hcode₃ : F₃.code.toList =
      F.code.toList ++ F.state.lines [.jumpIfFalse 0] ++ between ++
        F.state.lines [.jump E.offset] := by
    rw [toList_emit, List.append_nil]
    rfl
  have hoffset₃ : F₃.offset = F.offset + 1 + Stmt.sizes body + 1 := by
    rw [offset, ← Array.length_toList, hcode₃, List.length_append, List.length_append,
      ClosesLoop.length_front, ← hclosed.breaks.length, emitStmts_length hem]
    rfl
  obtain ⟨F₄, hexit, hmade⟩ := hclosed.exit hcode₃ rfl rfl rfl rfl
  show Related _ _ _ (F₂.patchJumps E.offset context.continues >>= _)
  rw [hnext]
  show Related _ _ _
    (F₃.patchJump F₃.offset F.offset >>= fun F => F.patchJumps F₃.offset context.breaks)
  rw [hoffset₃, hexit]
  have hall := htested.trans hmade
  refine .ok ?_
  simpa [EmitState.lines_append, state] using hall

/-- **The jumps out of the body of a repetition** go to where its count goes down or is dropped. -/
theorem repeatLoop_makes {count : Expr} {body : List Stmt} (hbody : MakesAll r body) (span : Span)
    (E : Emitter) :
    Related Eq (Makes loop blockEnd E)
      (emitStmt r loop blockEnd E.offset E.state (.repeatLoop count body span))
        (E.stmt r (.repeatLoop count body span)) := by
  rw [emitStmt, stmt]
  refine .bind_same (fun _ => rfl) _ fun times htimes => ?_
  dsimp only
  obtain ⟨htested, hoffset⟩ := begun htimes loop blockEnd E span.line
  have hstate : E.state.enter span.line = ((E.enter span.line).emit times).state := rfl
  have hcurrent : (E.enter span.line).current = ((E.enter span.line).emit times).current := rfl
  rw [hoffset, hstate, hcurrent]
  generalize (E.enter span.line).emit times = F at *
  -- The header of the repetition, up to the jump, is made before the body like the count.
  have hheader : (F.emit [.dup, .push (.number 0), .binary .greater]).offset = F.offset + 3 :=
    F.offset_emit _
  have hstate : F.state = (F.emit [.dup, .push (.number 0), .binary .greater]).state := rfl
  have hcurrent : F.current = (F.emit [.dup, .push (.number 0), .binary .greater]).current := rfl
  have htested := htested.trans (Makes.emit F [.dup, .push (.number 0), .binary .greater])
  rw [hstate] at htested ⊢
  rw [hcurrent]
  generalize F.offset = header at hheader ⊢
  generalize F.emit [.dup, .push (.number 0), .binary .greater] = G at *
  refine (hbody (G.emit [.jumpIfFalse 0]).openLoop ?_ rfl rfl).bind_ok fun inner G₁ hem hinner => ?_
  · rw [← Nat.add_assoc header 3 1, ← hheader]
    exact G.offset_emit _
  have hoffset₁ : G₁.offset = header + 4 + Stmt.sizes body := by
    rw [hinner.offset, emitStmts_length hem, ← Nat.add_assoc header 3 1, ← hheader]
    exact congrArg (· + _) (G.offset_emit _)
  obtain ⟨between, hclosed⟩ := hinner.closeLoop (by omega)
  have hoffset₂ : G₁.closeLoop.2.offset = header + 4 + Stmt.sizes body := hoffset₁
  generalize G₁.closeLoop = closed at hclosed hoffset₂ ⊢
  obtain ⟨context, G₂⟩ := closed
  -- The `continue`s get their target behind the first instruction that they go to, the other jumps
  -- at the end.
  have hnext := hclosed.next (F := { G₂ with current := G.current }.emit [.push (.number 1)])
    (G.state.lines [.push (.number 1)]) (toList_emit _ _)
  let G₃ : Emitter := { G₂ with
    code := (G.code.toList ++ G.state.lines [.jumpIfFalse 0] ++ between ++
      G.state.lines [.push (.number 1)]).toArray
    current := G.current }.emit [.binary .subtract, .jump header]
  have hcode₃ : (G₃.emit [.pop]).code.toList = G.code.toList ++ G.state.lines [.jumpIfFalse 0] ++
      between ++ G.state.lines [.push (.number 1), .binary .subtract, .jump header, .pop] := by
    simp [G₃, EmitState.lines, state, emit]
  have hoffset₃ : G₃.offset = header + 4 + Stmt.sizes body + 3 := by
    have hlength := congrArg List.length hcode₃
    rw [Array.length_toList, List.length_append, List.length_append, ClosesLoop.length_front,
      ← hclosed.breaks.length, emitStmts_length hem, hheader] at hlength
    have hpop : (G₃.emit [.pop]).code.size = G₃.offset + 1 := G₃.offset_emit [.pop]
    simp [EmitState.lines] at hlength
    omega
  obtain ⟨G₄, hexit, hmade⟩ := hclosed.exit hcode₃ rfl rfl rfl rfl
  show Related _ _ _ (patchJumps G₂.offset _ context.continues >>= _)
  rw [hoffset₂, hnext]
  show Related _ _ _ ((G₃.emit [.pop]).patchJump G₃.offset G.offset >>= fun G =>
    G.patchJumps G₃.offset context.breaks)
  rw [hoffset₃, hexit]
  have hall := htested.trans hmade
  refine .ok ?_
  simpa [EmitState.lines, state] using hall

mutual

/-- **An emitter appends the code of a statement that is made outright**, up to what waits for the
loop and the block around it; or both stop with the same diagnostic. -/
theorem stmt_makes : ∀ (s : Stmt) (E : Emitter) {loop : Option LoopTargets} {blockEnd : Nat},
    loop.isSome = !E.loops.isEmpty →
      Related Eq (Makes loop blockEnd E) (emitStmt r loop blockEnd E.offset E.state s) (E.stmt r s)
  | .comment text span, E, loop, blockEnd, hloop =>
      .ok (.of_eq rfl (List.append_nil _).symm rfl (List.append_nil _).symm rfl)
  | .expr e, E, loop, blockEnd, hloop => by
      rw [emitStmt, stmt]
      exact .bind_same (fun _ => rfl) _ fun code _ => .pure (Makes.emit _ code).of_enter
  | .var decl, E, loop, blockEnd, hloop => by
      rw [emitStmt, stmt]
      exact (varDecl_makes r (E.enter decl.span.line) decl).weaken fun _ _ => Makes.of_enter
  | .assign target value span, E, loop, blockEnd, hloop => by
      rw [emitStmt, stmt]
      exact .bind_same (fun _ => rfl) _ fun first _ => .bind_same (fun _ => rfl) _ fun second _ =>
        .pure (Makes.emit _ (first ++ second)).of_enter
  | .cond condition thenBlock elseBlock span, E, loop, blockEnd, hloop =>
      cond_makes (stmts_makes thenBlock) (stmts_makes elseBlock) span E hloop
  | .whileLoop condition body span, E, loop, blockEnd, hloop =>
    whileLoop_makes (stmts_makes body) span E
  | .repeatLoop count body span, E, loop, blockEnd, hloop =>
    repeatLoop_makes (stmts_makes body) span E
  | .ret value span, E, loop, blockEnd, hloop => by
      rw [emitStmt, stmt]
      exact .bind_same (fun _ => rfl) _ fun code _ => .pure (Makes.emit _ (code ++ [.ret])).of_enter
  | .breakLoop span, E, loop, blockEnd, hloop => by
      rw [emitStmt, stmt]
      exact ((E.enter span.line).leaveBody_break span hloop).weaken fun _ _ => Makes.of_enter
  | .continueLoop span, E, loop, blockEnd, hloop => by
      rw [emitStmt, stmt]
      exact ((E.enter span.line).leaveBody_continue span hloop).weaken fun _ _ => Makes.of_enter

theorem stmts_makes : ∀ ss : List Stmt, MakesAll r ss
  | [], E, loop, blockEnd, pc, st, hpc, hst, hloop =>
      .ok (.of_eq hst (List.append_nil _).symm rfl (List.append_nil _).symm rfl)
  | s :: rest, E, loop, blockEnd, pc, st, hpc, hst, hloop => by
      subst hpc hst
      rw [emitStmts, stmts]
      refine (stmt_makes s E hloop).bind_ok fun first E₁ hem hfirst => ?_
      have hlength : first.code.length = s.size := by
        rw [← List.length_map (·.instruction), (emitStmt_eq s hem).1, Stmt.length_code]
      refine (stmts_makes rest E₁ (hlength ▸ hfirst.offset) hfirst.state ?_).map_left fun _ _ =>
        hfirst.trans
      exact hloop.trans (congrArg _ hfirst.isEmpty_loops.symm)

end

end Statements

/-! ## Functions -/

/-- Parameters are declared, and their ranges wait for the end of the function. -/
theorem params_makes (last : Nat) (params : List Param) :
    ∀ {E : Emitter} {scopes : Scopes}, E.scopes = scopes → E.blocks = [] →
      Related Eq (fun a E' => ∃ rows, E' = { E with scopes := a.2, locals := E.locals ++ rows } ∧
        Ends last E.locals.length (List.range' E.locals.length rows.length) rows a.1)
        (emitParams scopes last params) (E.params params) := by
  induction params with
  | nil =>
      rintro E _ rfl -
      exact .ok ⟨[], by simp, .refl []⟩
  | cons p rest ih =>
      rintro E _ rfl hblocks
      rw [emitParams, Emitter.params]
      simp only [declare, bind_assoc, pure_bind]
      refine .bind_same (fun _ => rfl) _ fun ⟨slot, scopes⟩ _ => ?_
      refine (ih ?_ ?_).map_left ?_
      · rfl
      · simp [hblocks]
      · rintro ⟨others, after⟩ _ ⟨rows, rfl, hends⟩
        refine ⟨⟨p.name.name, p.ty.getD .nothing, slot, ⟨0, 0⟩, true, p.name.span⟩ :: rows, ?_, ?_⟩
        · simp [hblocks]
        · rw [List.length_append] at hends
          exact Ends.append (.row _) hends

/-- The closing `return` is the one that is made outright. -/
theorem closing_makes {E : Emitter} {em : Emitted} (hcode : E.code.toList = em.code)
    (hstate : E.state = em.state) (decl : FunctionDecl) {loop : Option LoopTargets}
    {blockEnd : Nat} :
    Makes loop blockEnd E ⟨closingReturn decl em, [], (E.closing decl).state⟩ (E.closing decl) := by
  have hempty : E.code.isEmpty = em.code.isEmpty := by rw [← hcode, Array.isEmpty_toList]
  unfold closing closingReturn
  rw [hempty, ← hstate]
  split
  · exact .of_eq rfl (List.append_nil _).symm rfl (List.append_nil _).symm rfl
  · split
    · exact (Makes.emit _ _).of_enter
    · exact .emit _ _

end Emitter

theorem length_closingReturn (decl : FunctionDecl) (body : Emitted) :
    (closingReturn decl body).length = if endsWithReturn decl.body then 0 else 1 := by
  unfold closingReturn
  split
  · rfl
  · split <;> rfl

/-- **Patching comes to the code that is made outright**, and stops where making it outright does,
with the same diagnostic. -/
theorem emitFunction_eq_outright (r : Registry) (index : Nat) (decl : FunctionDecl) :
    emitFunction r index decl = emitOutright r index decl := by
  have hrelated : Related Eq Eq (emitOutright r index decl) (emitFunction r index decl) := by
    unfold emitOutright emitFunction
    dsimp only
    refine ((Emitter.initial decl.span.line).params_makes (decl.size - 1) decl.params rfl rfl).bind
      ?_
    rintro ⟨params, scopes⟩ _ ⟨rows, rfl, hends⟩
    refine (Emitter.stmts_makes decl.body _ ?_ ?_ ?_).bind_ok fun body E hem hbody => .pure ?_
    · rfl
    · rfl
    · rfl
    have hmade := hbody.trans (Emitter.closing_makes hbody.toList_code hbody.state decl)
    have hcode : (E.closing decl).code.toList = body.code ++ closingReturn decl body :=
      hmade.toList_code
    have hoffset : (E.closing decl).offset = decl.size := by
      rw [Emitter.offset, ← Array.length_toList, hcode, List.length_append, emitStmts_length hem,
        length_closingReturn, FunctionDecl.size]
    have hstop : (E.closing decl).endLocals.offset = decl.size := hoffset
    have hlocals : (E.closing decl).endLocals.locals = rows ++ (body.locals ++ []) :=
      (hmade.endLocals rfl (congrArg (· - 1) hoffset)).1
    have hparams : endRanges (decl.size - 1) (rows ++ body.locals) (List.range rows.length) =
        params ++ body.locals := by
      rw [List.range_eq_range']
      exact hends.endRanges [] body.locals rfl
    have hmap {β : Type} (f : CodeLine → β) :
        ((body.code ++ closingReturn decl body).map f).toArray =
          (E.closing decl).endLocals.code.map f := by
      rw [← hcode, ← Array.toList_map, Array.toArray_toList]
      rfl
    have hcount : (body.code ++ closingReturn decl body).length =
        (E.closing decl).endLocals.code.size := by
      rw [← hcode, Array.length_toList]
      rfl
    rw [hmap, hmap, hcount, hstop, hlocals, List.append_nil, ← hparams]
    rfl
  rcases hrelated.results with ⟨a, b, ha, hb, rfl⟩ | ⟨d, e, hd, he, rfl⟩
  · rw [ha, hb]
  · rw [hd, he]

end Stepwise
