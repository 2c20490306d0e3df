import Stepwise.Proofs.Code.Table
import Stepwise.Proofs.Typing.Scoping

/-!
# Scopes while making code

Making code follows the scopes of a function, and at every place they say of the locals made so far
which of them are alive (`Scopes.Tracks`): a visible name is that of a local that lives up to the
end of the block, and a local whose name is not visible has come to its end. Entering and leaving
blocks and declaring names keep this so.

It follows that the slots of a function are numbered in the order of the declarations, that two
locals of one name are never alive together, and that a variable is alive wherever it is read or
assigned to (`emitFunction_scoped`).
-/

set_option autoImplicit false

namespace Stepwise

open Diagnosed

/-! ## Uses of variables -/

/-- The statement reads the variable in `slot` at `here`, or assigns to it there. -/
def Stmt.Touches (r : Registry) (loop : Option LoopTargets) (pc : Nat) (s : Stmt)
    (here slot : Nat) : Prop :=
  Placed (s.code r loop pc) pc here (.load slot) ∨ (here, slot) ∈ s.assignments pc

/-- One of the statements does. -/
def Stmt.TouchesIn (r : Registry) (loop : Option LoopTargets) (pc : Nat) (ss : List Stmt)
    (here slot : Nat) : Prop :=
  Placed (Stmt.codes r loop pc ss) pc here (.load slot) ∨ (here, slot) ∈ Stmt.assignmentsIn pc ss

section Touches

variable {r : Registry} {loop : Option LoopTargets} {span : Span} {pc here slot : Nat}

theorem not_placed_load {code : List Instruction} (h : ∀ slot, .load slot ∉ code) :
    ¬ Placed code pc here (.load slot) :=
  fun ⟨_, _, hi⟩ => h slot (List.mem_of_getElem? hi)

theorem touchesIn_cons {s : Stmt} {rest : List Stmt} :
    Stmt.TouchesIn r loop pc (s :: rest) here slot ↔
      s.Touches r loop pc here slot ∨ Stmt.TouchesIn r loop (pc + s.size) rest here slot := by
  simp only [Stmt.TouchesIn, Stmt.Touches, Stmt.codes, Stmt.assignmentsIn, placed_append,
    Stmt.length_code, List.mem_append]
  exact or_or_or_comm

theorem touches_cond {condition : Expr} {thenBlock elseBlock : List Stmt} :
    let thenStart := pc + condition.size + 1
    let elseStart := thenStart + Stmt.sizes thenBlock + 1
    (Stmt.cond condition thenBlock elseBlock span).Touches r loop pc here slot ↔
      Placed (condition.code r) pc here (.load slot) ∨
        Stmt.TouchesIn r loop thenStart thenBlock here slot ∨
        Stmt.TouchesIn r loop elseStart elseBlock here slot := by
  simp only [Stmt.TouchesIn, Stmt.Touches, placed_cond, Stmt.assignments, List.mem_append,
    reduceCtorEq, and_false, false_or]
  rw [or_assoc, or_or_or_comm]

theorem touches_whileLoop {condition : Expr} {body : List Stmt} :
    let bodyStart := pc + condition.size + 1
    (Stmt.whileLoop condition body span).Touches r loop pc here slot ↔
      Placed (condition.code r) pc here (.load slot) ∨
        Stmt.TouchesIn r (some ⟨bodyStart + Stmt.sizes body + 1, pc⟩) bodyStart body here slot := by
  simp only [Stmt.TouchesIn, Stmt.Touches, placed_whileLoop, Stmt.assignments, reduceCtorEq,
    and_false, false_or, or_false]
  exact or_assoc

theorem touches_repeatLoop {count : Expr} {body : List Stmt} :
    let bodyStart := pc + count.size + 4
    let next := bodyStart + Stmt.sizes body
    (Stmt.repeatLoop count body span).Touches r loop pc here slot ↔
      Placed (count.code r) pc here (.load slot) ∨
        Stmt.TouchesIn r (some ⟨next + 3, next⟩) bodyStart body here slot := by
  have htest (exit start : Nat) : ¬ Placed (repeatTest exit) start here (.load slot) :=
    not_placed_load (by simp [repeatTest])
  have hback (header start : Nat) : ¬ Placed (repeatBack header) start here (.load slot) :=
    not_placed_load (by simp [repeatBack])
  simp only [Stmt.TouchesIn, Stmt.Touches, placed_repeatLoop, Stmt.assignments, htest, hback,
    false_or, or_false]
  exact or_assoc

end Touches

/-! ## Names behind slots -/

section Named

variable {r : Registry} {scopes : Scopes} {slot : Nat}

/-- A slot that a name was resolved to is that of a visible symbol. -/
theorem resolveSlot_visible {name : String} {annotated : Option Nat} {span : Span}
    (h : resolveSlot scopes name annotated span = .ok slot) :
    ∃ symbol ∈ scopes.visible, symbol.slot = slot := by
  unfold resolveSlot at h
  split at h
  · next symbol hfound =>
      split at h
      · cases h
        exact ⟨symbol, List.mem_of_find?_eq_some hfound, rfl⟩
      · simp at h
  · simp at h

mutual

/-- An expression reads the slots of visible symbols only. -/
theorem emitExpr_visible : ∀ (e : Expr) {code : List Instruction}, emitExpr r scopes e = .ok code →
    .load slot ∈ code → ∃ symbol ∈ scopes.visible, symbol.slot = slot
  | .number i v, code, h, hload | .boolean i v, code, h, hload | .string i v, code, h, hload => by
      cases h
      simp at hload
  | .reference i name annotated, code, h, hload => by
      obtain ⟨place, hplace, rfl⟩ := emitExpr_reference_eq_ok.mp h
      cases List.mem_singleton.mp hload
      exact resolveSlot_visible hplace
  | .call i name arguments callee, code, h, hload => by
      obtain ⟨inner, call, hinner, hcall, rfl⟩ := emitExpr_call_eq_ok.mp h
      rcases List.mem_append.mp hload with hload | hload
      · exact emitExprs_visible arguments hinner hload
      · rw [← List.mem_singleton.mp hload] at hcall
        unfold callInstruction at hcall
        split at hcall <;> cases hcall
  | .field i record name, code, h, hload => by
      obtain ⟨inner, index, hinner, -, rfl⟩ := emitExpr_field_eq_ok.mp h
      rcases List.mem_append.mp hload with hload | hload
      · exact emitExpr_visible record hinner hload
      · cases List.mem_singleton.mp hload
  | .unary i op operand, code, h, hload => by
      obtain ⟨inner, hinner, rfl⟩ := emitExpr_unary_eq_ok.mp h
      rcases List.mem_append.mp hload with hload | hload
      · exact emitExpr_visible operand hinner hload
      · cases List.mem_singleton.mp hload
  | .binary i op left right, code, h, hload => by
      obtain ⟨first, second, hfirst, hsecond, rfl⟩ := emitExpr_binary_eq_ok.mp h
      rcases List.mem_append.mp hload with hload | hload
      · rcases List.mem_append.mp hload with hload | hload
        · exact emitExpr_visible left hfirst hload
        · exact emitExpr_visible right hsecond hload
      · cases op <;> cases List.mem_singleton.mp hload

theorem emitExprs_visible :
    ∀ (es : List Expr) {code : List Instruction}, emitExprs r scopes es = .ok code →
    .load slot ∈ code → ∃ symbol ∈ scopes.visible, symbol.slot = slot
  | [], code, h, hload => by
      cases h
      cases hload
  | e :: es, code, h, hload => by
      obtain ⟨first, others, hfirst, hothers, rfl⟩ := emitExprs_cons_eq_ok.mp h
      rcases List.mem_append.mp hload with hload | hload
      · exact emitExpr_visible e hfirst hload
      · exact emitExprs_visible es hothers hload

end

theorem declareSlot_declares {after : Scopes} {name : Ident} {t : Ty} {annotated : Option Nat}
    (h : declareSlot scopes name t annotated = .ok (slot, after)) :
    scopes.find? name.name = none ∧ slot = scopes.nextSlot ∧
      after = ⟨⟨name.name, t, scopes.nextSlot, name.span⟩ :: scopes.innermost, scopes.enclosing,
        scopes.nextSlot + 1⟩ := by
  unfold declareSlot Scopes.declare at h
  cases hfound : scopes.find? name.name with
  | some existing =>
      rw [hfound] at h
      simp at h
  | none =>
      rw [hfound] at h
      dsimp only at h
      split at h
      · cases h
        exact ⟨rfl, rfl, rfl⟩
      · simp at h

end Named

/-! ## Scopes and locals -/

/-- Of two locals of one name, the second begins when the first has come to its end. -/
def LocalInfo.Apart (a b : LocalInfo) : Prop := a.name = b.name → a.live.stop < b.live.start

/-- The scopes at `pc`, in a block that ends with the instruction `stop`, and the locals so far:
these have been numbered in order, and those that are alive bear the visible names. -/
structure Scopes.Tracks (scopes : Scopes) (known : List LocalInfo) (pc stop : Nat) : Prop where
  numbered : known.map (·.slot) = List.range scopes.nextSlot
  apart : known.Pairwise LocalInfo.Apart
  covers : ∀ symbol ∈ scopes.visible, ∃ l ∈ known, l.slot = symbol.slot ∧ l.live.start ≤ pc ∧
    stop ≤ l.live.stop
  shows : ∀ l ∈ known, pc ≤ l.live.stop → ∃ symbol ∈ scopes.visible, symbol.name = l.name

/-- Behind a block its names are gone and its slots are not used again. -/
theorem Scopes.pop_of_enclosing {before after : Scopes}
    (h : after.enclosing = before.push.enclosing) :
    after.pop = ⟨before.innermost, before.enclosing, after.nextSlot⟩ := by
  rw [Scopes.pop, h]
  rfl

/-- A local with a value in `slot` is alive at `here`. -/
def AliveIn (locals : List LocalInfo) (slot here : Nat) : Prop :=
  ∃ l ∈ locals, l.slot = slot ∧ l.live.contains here = true

theorem AliveIn.mono {locals more : List LocalInfo} {slot here : Nat} (h : AliveIn locals slot here)
    (hsub : locals ⊆ more) : AliveIn more slot here :=
  let ⟨l, hl, hlocal⟩ := h
  ⟨l, hsub hl, hlocal⟩

namespace Scopes.Tracks

variable {scopes after : Scopes} {known added : List LocalInfo} {pc next stop : Nat}

theorem initial (pc stop : Nat) : Scopes.initial.Tracks [] pc stop where
  numbered := rfl
  apart := .nil
  covers symbol h := by cases h
  shows l h := by cases h

/-- The block goes on. -/
theorem advance (h : scopes.Tracks known pc stop) (hle : pc ≤ next) :
    scopes.Tracks known next stop where
  numbered := h.numbered
  apart := h.apart
  covers symbol hsymbol :=
    let ⟨l, hl, hslot, hstart, hstop⟩ := h.covers symbol hsymbol
    ⟨l, hl, hslot, Nat.le_trans hstart hle, hstop⟩
  shows l hl hpc := h.shows l hl (Nat.le_trans hle hpc)

/-- A block inside begins. -/
theorem enter (h : scopes.Tracks known pc stop) {inner : Nat} (hle : pc ≤ next)
    (hinner : inner ≤ stop) :
    scopes.push.Tracks known next inner := by
  refine ⟨h.numbered, h.apart, ?_, ?_⟩
  · rw [visible_push]
    intro symbol hsymbol
    obtain ⟨l, hl, hslot, hstart, hstop⟩ := h.covers symbol hsymbol
    exact ⟨l, hl, hslot, Nat.le_trans hstart hle, Nat.le_trans hinner hstop⟩
  · rw [visible_push]
    exact fun l hl hpc => h.shows l hl (Nat.le_trans hle hpc)

/-- A block inside has ended, and with it the locals that it has declared. -/
theorem leave (h : scopes.Tracks known pc stop) (next : Nat) {innerEnd inner : Nat}
    (hinside : after.Tracks (known ++ added) innerEnd inner)
    (henclosing : after.enclosing = scopes.push.enclosing)
    (hadded : ∀ l ∈ added, l.live.stop < next) (hle : pc ≤ next) :
    after.pop.Tracks (known ++ added) next stop := by
  rw [pop_of_enclosing henclosing]
  refine ⟨hinside.numbered, hinside.apart, ?_, ?_⟩
  · intro symbol hsymbol
    obtain ⟨l, hl, hslot, hstart, hstop⟩ := h.covers symbol hsymbol
    exact ⟨l, List.mem_append_left _ hl, hslot, Nat.le_trans hstart hle, hstop⟩
  · intro l hl hpc
    rcases List.mem_append.mp hl with hl | hl
    · exact h.shows l hl (Nat.le_trans hle hpc)
    · exact absurd (hadded l hl) (Nat.not_lt.mpr hpc)

/-- A name is declared and its local begins. -/
theorem declare (h : scopes.Tracks known pc stop) {name : Ident} {t : Ty} {annotated : Option Nat}
    {l : LocalInfo} (hdeclare : declareSlot scopes name t annotated = .ok (l.slot, after))
    (hname : l.name = name.name) (hstart : pc ≤ l.live.start) (hnext : l.live.start ≤ next)
    (hstop : l.live.stop = stop) :
    after.Tracks (known ++ [l]) next stop := by
  obtain ⟨hfree, hslot, rfl⟩ := declareSlot_declares hdeclare
  have hvisible :
      (⟨⟨name.name, t, scopes.nextSlot, name.span⟩ :: scopes.innermost, scopes.enclosing,
        scopes.nextSlot + 1⟩ : Scopes).visible =
        ⟨name.name, t, scopes.nextSlot, name.span⟩ :: scopes.visible := rfl
  refine ⟨?_, ?_, ?_, ?_⟩
  · rw [List.map_append, h.numbered, List.map_singleton, hslot, List.range_succ]
  · refine List.pairwise_append.mpr ⟨h.apart, List.pairwise_singleton _ _, ?_⟩
    intro a ha b hb hsame
    cases List.mem_singleton.mp hb
    -- A local of the name that is still alive would be visible.
    refine Nat.lt_of_lt_of_le (Nat.lt_of_not_le fun hpc => ?_) hstart
    obtain ⟨symbol, hsymbol, hbears⟩ := h.shows a ha hpc
    have hother := List.find?_eq_none.mp hfree symbol hsymbol
    rw [hbears, hsame, hname, beq_self_eq_true] at hother
    exact hother rfl
  · rw [hvisible]
    intro symbol hsymbol
    rcases List.mem_cons.mp hsymbol with rfl | hsymbol
    · exact ⟨l, List.mem_append_right _ (List.mem_singleton.mpr rfl), hslot, hnext,
        Nat.le_of_eq hstop.symm⟩
    · obtain ⟨m, hm, hmslot, hmstart, hmstop⟩ := h.covers symbol hsymbol
      exact ⟨m, List.mem_append_left _ hm, hmslot, by omega, hmstop⟩
  · rw [hvisible]
    intro m hm hpc
    rcases List.mem_append.mp hm with hm | hm
    · obtain ⟨symbol, hsymbol, hbears⟩ := h.shows m hm (by omega)
      exact ⟨symbol, List.mem_cons_of_mem _ hsymbol, hbears⟩
    · cases List.mem_singleton.mp hm
      exact ⟨_, List.mem_cons_self, hname.symm⟩

/-- A visible symbol is that of a local which is alive up to the end of the block. -/
theorem alive (h : scopes.Tracks known pc stop) {slot here : Nat}
    (hvisible : ∃ symbol ∈ scopes.visible, symbol.slot = slot) (hpc : pc ≤ here)
    (hstop : here ≤ stop) :
    AliveIn known slot here := by
  obtain ⟨symbol, hsymbol, rfl⟩ := hvisible
  obtain ⟨l, hl, hslot, hstart, hend⟩ := h.covers symbol hsymbol
  exact ⟨l, hl, hslot, LiveRange.contains_iff.mpr ⟨Nat.le_trans hstart hpc,
    Nat.le_trans hstop hend⟩⟩

/-- What an expression reads is alive. -/
theorem reads {r : Registry} (h : scopes.Tracks known pc stop) {e : Expr} {code : List Instruction}
    (hcode : emitExpr r scopes e = .ok code) {start here slot : Nat}
    (hload : Placed (e.code r) start here (.load slot)) (hpc : pc ≤ start)
    (hstop : start + e.size ≤ stop + 1) : AliveIn known slot here := by
  have hbounds := hload.bounds
  rw [Expr.length_code] at hbounds
  obtain ⟨i, -, hi⟩ := hload
  rw [← emitExpr_eq e hcode] at hi
  exact h.alive (emitExpr_visible e hcode (List.mem_of_getElem? hi)) (by omega) (by omega)

end Scopes.Tracks

/-! ## Statements -/

/-- What making statements says about the scopes behind them: they follow the locals that were
added, in the same blocks as before. What the statements touch is alive. -/
structure Scopes.Follow (before after : Scopes) (locals : List LocalInfo) (next stop : Nat)
    (touches : Nat → Nat → Prop) : Prop where
  tracks : after.Tracks locals next stop
  enclosing : after.enclosing = before.enclosing
  alive : ∀ {here slot : Nat}, touches here slot → AliveIn locals slot here

section Statements

variable {r : Registry}

/-- Statements that declare nothing. -/
theorem Scopes.Tracks.stay {scopes : Scopes} {known : List LocalInfo} {pc next stop : Nat}
    {touches : Nat → Nat → Prop} (h : scopes.Tracks known pc stop) (hle : pc ≤ next)
    (halive : ∀ {here slot : Nat}, touches here slot → AliveIn known slot here) :
    scopes.Follow scopes (known ++ []) next stop touches := by
  rw [List.append_nil]
  exact ⟨h.advance hle, rfl, halive⟩

/-- A block inside, with its last instruction at `inner`, has been made: the blocks around it are as
before, and its locals are not alive behind it. -/
theorem Scopes.Tracks.behind {scopes after : Scopes} {known : List LocalInfo} {body : List Stmt}
    {start inner pc stop : Nat} {touches : Nat → Nat → Prop} (h : scopes.Tracks known pc stop)
    (next : Nat)
    (hbody : scopes.push.Follow after (known ++ Stmt.tables inner start body)
      (start + Stmt.sizes body) inner touches) (hend : start + Stmt.sizes body ≤ inner + 1)
    (hnext : inner < next) (hle : pc ≤ next) :
    after.pop.Tracks (known ++ Stmt.tables inner start body) next stop ∧
    after.pop.enclosing = scopes.enclosing := by
  refine ⟨h.leave next hbody.tracks hbody.enclosing ?_ hle, ?_⟩
  · intro l hl
    have hbounds := Stmt.tables_bounds body hend hl
    omega
  · rw [Scopes.pop_of_enclosing hbody.enclosing]

theorem emitVariable_follows {loop : Option LoopTargets} {blockEnd pc line : Nat} {st : EmitState}
    {decl : VarDecl} {em : Emitted} {known : List LocalInfo}
    (h : emitVariable r blockEnd pc (st.enter line) decl = .ok em)
    (hend : pc + (Stmt.var decl).size ≤ blockEnd + 1)
    (tracks : st.scopes.Tracks known pc blockEnd) :
    st.scopes.Follow em.state.scopes (known ++ (Stmt.var decl).table blockEnd pc)
      (pc + (Stmt.var decl).size) blockEnd
      ((Stmt.var decl).Touches r loop pc) := by
  have htable := emitVariable_table h
  obtain ⟨value, t, slot, scopes, hvalue, -, hdeclare, rfl⟩ := emitVariable_eq_ok.mp h
  rw [Stmt.size] at hend ⊢
  rw [← htable]
  refine ⟨tracks.declare hdeclare rfl ?_ ?_ rfl, ?_, ?_⟩
  · dsimp only
    omega
  · dsimp only
    omega
  · rw [(declareSlot_declares hdeclare).2.2]
    rfl
  · rintro here place (hload | hassigned)
    · rw [Stmt.code, placed_append, placed_singleton] at hload
      rcases hload with hload | ⟨-, hload⟩
      · exact (tracks.reads hvalue hload (Nat.le_refl _) (by omega)).mono
          (List.subset_append_left _ _)
      · cases hload
    · cases hassigned

theorem emitJump_follows {st : EmitState} {line : Nat} {span : Span} {target : Option Nat}
    {em : Emitted} {known : List LocalInfo} {pc blockEnd : Nat} {touches : Nat → Nat → Prop}
    (h : emitJump (st.enter line) span target = .ok em)
    (tracks : st.scopes.Tracks known pc blockEnd) (hnone : ∀ here slot, ¬ touches here slot) :
    st.scopes.Follow em.state.scopes (known ++ []) (pc + 1) blockEnd touches := by
  obtain ⟨place, -, rfl⟩ := emitJump_eq_ok.mp h
  exact tracks.stay (Nat.le_succ _) fun htouches => absurd htouches (hnone _ _)

/-- What an assignment touches is alive. -/
theorem emitTarget_alive {scopes : Scopes} {known : List LocalInfo} {target value : Expr}
    {span : Span} {loop : Option LoopTargets} {first second : List Instruction}
    {pc stop here slot : Nat} (tracks : scopes.Tracks known pc stop)
    (hvalue : emitExpr r scopes value = .ok first)
    (htarget : emitTarget r scopes target = .ok second)
    (hend : pc + (value.size + target.targetSize) ≤ stop + 1)
    (h : (Stmt.assign target value span).Touches r loop pc here slot) :
    AliveIn known slot here := by
  rw [Stmt.Touches, Stmt.code, placed_append, Expr.length_code] at h
  rcases h with (hload | hload) | hassigned
  · exact tracks.reads hvalue hload (Nat.le_refl _) (by omega)
  · cases target with
    | field i record name =>
        obtain ⟨inner, index, hinner, -, -⟩ := emitTarget_field_eq_ok.mp htarget
        rw [Expr.targetSize] at hend
        rw [Expr.targetCode, placed_append, placed_singleton] at hload
        rcases hload with hload | ⟨-, hload⟩
        · exact tracks.reads hinner hload (Nat.le_add_right _ _) (by omega)
        · cases hload
    | _ => cases (placed_singleton.mp hload).2
  · cases target with
    | reference i name annotated =>
        obtain ⟨place, hplace, -⟩ := emitTarget_reference_eq_ok.mp htarget
        have hslot := resolveSlot_eq_ok hplace
        have hsize : (Expr.reference i name annotated).targetSize = 1 := rfl
        rw [Stmt.assignments, List.mem_singleton, hslot, Option.getD_some, Prod.mk.injEq]
          at hassigned
        obtain ⟨rfl, rfl⟩ := hassigned
        exact tracks.alive (resolveSlot_visible hplace) (by omega) (by omega)
    | _ => cases hassigned

variable (r) in
/-- Making a statement follows its scopes, wherever it stands. -/
def Stmt.FollowsScopes (s : Stmt) : Prop :=
  ∀ ⦃loop : Option LoopTargets⦄ ⦃blockEnd pc : Nat⦄ ⦃st : EmitState⦄ ⦃em : Emitted⦄
    ⦃known : List LocalInfo⦄, emitStmt r loop blockEnd pc st s = .ok em →
    pc + s.size ≤ blockEnd + 1 → st.scopes.Tracks known pc blockEnd →
    st.scopes.Follow em.state.scopes (known ++ s.table blockEnd pc) (pc + s.size) blockEnd
      (s.Touches r loop pc)

variable (r) in
/-- Making the statements of a block follows their scopes, wherever the block stands. -/
def Stmt.AllFollowScopes (ss : List Stmt) : Prop :=
  ∀ ⦃loop : Option LoopTargets⦄ ⦃blockEnd pc : Nat⦄ ⦃st : EmitState⦄ ⦃em : Emitted⦄
    ⦃known : List LocalInfo⦄, emitStmts r loop blockEnd pc st ss = .ok em →
    pc + Stmt.sizes ss ≤ blockEnd + 1 → st.scopes.Tracks known pc blockEnd →
    st.scopes.Follow em.state.scopes (known ++ Stmt.tables blockEnd pc ss) (pc + Stmt.sizes ss)
      blockEnd (Stmt.TouchesIn r loop pc ss)

/-- The blocks of a conditional come one after the other: the locals of the first are known, and no
longer alive, in the second. -/
theorem Stmt.followsScopes_cond (condition : Expr) {thenBlock elseBlock : List Stmt}
    (hfollowThen : Stmt.AllFollowScopes r thenBlock)
    (hfollowElse : Stmt.AllFollowScopes r elseBlock) (span : Span) :
    Stmt.FollowsScopes r (.cond condition thenBlock elseBlock span) := by
  intro loop blockEnd pc st em known h hend tracks
  obtain ⟨test, first, second, htest, hfirst, hsecond, rfl⟩ := emitStmt_cond_eq_ok.mp h
  rw [Stmt.size] at hend ⊢
  have hthen := hfollowThen hfirst (by omega) (tracks.enter (by omega) (by omega))
  obtain ⟨hbetween, hbetweenEnclosing⟩ := tracks.behind
    (pc + condition.size + 1 + Stmt.sizes thenBlock + 1) hthen (by omega) (by omega) (by omega)
  have helse := hfollowElse hsecond (by omega) (hbetween.enter (by omega) (by omega))
  obtain ⟨hbehind, hbehindEnclosing⟩ := hbetween.behind
    (pc + (condition.size + 1 + Stmt.sizes thenBlock + 1 + Stmt.sizes elseBlock)) helse (by omega)
    (by omega) (by omega)
  rw [Stmt.table, ← List.append_assoc]
  refine ⟨hbehind, hbehindEnclosing.trans hbetweenEnclosing, ?_⟩
  intro here slot htouches
  rcases touches_cond.mp htouches with hload | hinside | hinside
  · refine (tracks.reads htest hload (Nat.le_refl _) (by omega)).mono ?_
    rw [List.append_assoc]
    exact List.subset_append_left _ _
  · exact (hthen.alive hinside).mono (List.subset_append_left _ _)
  · exact helse.alive hinside

theorem Stmt.followsScopes_whileLoop (condition : Expr) {body : List Stmt}
    (hfollow : Stmt.AllFollowScopes r body) (span : Span) :
    Stmt.FollowsScopes r (.whileLoop condition body span) := by
  intro loop blockEnd pc st em known h hend tracks
  obtain ⟨test, inner, htest, hinner, rfl⟩ := emitStmt_whileLoop_eq_ok.mp h
  rw [Stmt.size] at hend ⊢
  have hbody := hfollow hinner (by omega) (tracks.enter (by omega) (by omega))
  obtain ⟨hbehind, henclosing⟩ := tracks.behind
    (pc + (condition.size + 1 + Stmt.sizes body + 1)) hbody (by omega) (by omega) (by omega)
  refine ⟨hbehind, henclosing, ?_⟩
  intro here slot htouches
  rcases touches_whileLoop.mp htouches with hload | hinside
  · exact (tracks.reads htest hload (Nat.le_refl _) (by omega)).mono (List.subset_append_left _ _)
  · exact hbody.alive hinside

theorem Stmt.followsScopes_repeatLoop (count : Expr) {body : List Stmt}
    (hfollow : Stmt.AllFollowScopes r body) (span : Span) :
    Stmt.FollowsScopes r (.repeatLoop count body span) := by
  intro loop blockEnd pc st em known h hend tracks
  obtain ⟨times, inner, htimes, hinner, rfl⟩ := emitStmt_repeatLoop_eq_ok.mp h
  rw [Stmt.size] at hend ⊢
  have hbody := hfollow hinner (by omega) (tracks.enter (by omega) (by omega))
  obtain ⟨hbehind, henclosing⟩ := tracks.behind (pc + (count.size + 4 + Stmt.sizes body + 4))
    hbody (by omega) (by omega) (by omega)
  refine ⟨hbehind, henclosing, ?_⟩
  intro here slot htouches
  rcases touches_repeatLoop.mp htouches with hload | hinside
  · exact (tracks.reads htimes hload (Nat.le_refl _) (by omega)).mono (List.subset_append_left _ _)
  · exact hbody.alive hinside

mutual

/-- **Making the code of a statement follows its scopes.** -/
theorem emitStmt_follows : ∀ s : Stmt, Stmt.FollowsScopes r s
  | .comment text span => by
      intro loop blockEnd pc st em known h hend tracks
      cases h
      refine tracks.stay (Nat.le_refl _) ?_
      rintro here slot (⟨_, _, hload⟩ | hassigned)
      · cases hload
      · cases hassigned
  | .expr e => by
      intro loop blockEnd pc st em known h hend tracks
      obtain ⟨code, hcode, rfl⟩ := emitStmt_expr_eq_ok.mp h
      rw [Stmt.size] at hend
      refine tracks.stay (Nat.le_add_right _ _) ?_
      rintro here slot (hload | hassigned)
      · obtain ⟨inner, hinner, -⟩ := bind_eq_ok.mp hcode
        rw [Stmt.code, placed_append] at hload
        rcases hload with hload | hload
        · exact tracks.reads hinner hload (Nat.le_refl _) (by omega)
        · refine absurd hload (not_placed_load fun slot => ?_)
          unfold Expr.dropCode
          split <;> simp
      · cases hassigned
  | .var decl => fun _ _ _ _ _ _ h hend tracks => emitVariable_follows h hend tracks
  | .assign target value span => by
      intro loop blockEnd pc st em known h hend tracks
      obtain ⟨first, second, hfirst, hsecond, rfl⟩ := emitStmt_assign_eq_ok.mp h
      exact tracks.stay (Nat.le_add_right _ _) fun htouches =>
        emitTarget_alive tracks hfirst hsecond hend htouches
  | .cond condition thenBlock elseBlock span =>
      Stmt.followsScopes_cond condition (emitStmts_follows thenBlock) (emitStmts_follows elseBlock)
        span
  | .whileLoop condition body span =>
      Stmt.followsScopes_whileLoop condition (emitStmts_follows body) span
  | .repeatLoop count body span => Stmt.followsScopes_repeatLoop count (emitStmts_follows body) span
  | .ret (some value) span => by
      intro loop blockEnd pc st em known h hend tracks
      obtain ⟨code, hcode, rfl⟩ := emitStmt_ret_eq_ok.mp h
      rw [Stmt.size] at hend
      refine tracks.stay (Nat.le_add_right _ _) ?_
      rintro here slot (hload | hassigned)
      · rw [Stmt.code, placed_append, placed_singleton] at hload
        rcases hload with hload | ⟨-, hload⟩
        · exact tracks.reads hcode hload (Nat.le_refl _) (by omega)
        · cases hload
      · cases hassigned
  | .ret none span => by
      intro loop blockEnd pc st em known h hend tracks
      obtain ⟨code, hcode, rfl⟩ := emitStmt_ret_eq_ok.mp h
      refine tracks.stay (Nat.le_add_right _ _) ?_
      rintro here slot (hload | hassigned)
      · cases (placed_singleton.mp hload).2
      · cases hassigned
  | .breakLoop span => by
      intro loop blockEnd pc st em known h hend tracks
      refine emitJump_follows h tracks ?_
      rintro here slot (hload | hassigned)
      · cases (placed_singleton.mp hload).2
      · cases hassigned
  | .continueLoop span => by
      intro loop blockEnd pc st em known h hend tracks
      refine emitJump_follows h tracks ?_
      rintro here slot (hload | hassigned)
      · cases (placed_singleton.mp hload).2
      · cases hassigned

theorem emitStmts_follows : ∀ ss : List Stmt, Stmt.AllFollowScopes r ss
  | [] => by
      intro loop blockEnd pc st em known h hend tracks
      cases h
      refine tracks.stay (Nat.le_refl _) ?_
      rintro here slot (⟨_, _, hload⟩ | hassigned)
      · cases hload
      · cases hassigned
  | s :: rest => by
      intro loop blockEnd pc st em known h hend tracks
      obtain ⟨first, others, hfirst, hothers, rfl⟩ := emitStmts_cons_eq_ok.mp h
      rw [Stmt.sizes] at hend ⊢
      have hs := emitStmt_follows s hfirst (by omega) tracks
      have hrest := emitStmts_follows rest hothers (by omega) hs.tracks
      rw [Stmt.tables, ← List.append_assoc, ← Nat.add_assoc]
      refine ⟨hrest.tracks, hrest.enclosing.trans hs.enclosing, ?_⟩
      intro here slot htouches
      rcases touchesIn_cons.mp htouches with htouches | htouches
      · exact (hs.alive htouches).mono (List.subset_append_left _ _)
      · exact hrest.alive htouches

end

/-! ## Functions -/

theorem emitParams_tracks {params : List Param} {last : Nat} :
    ∀ {scopes after : Scopes} {known locals : List LocalInfo}, scopes.Tracks known 0 last →
      emitParams scopes last params = .ok (locals, after) →
      after.Tracks (known ++ locals) 0 last := by
  induction params with
  | nil =>
      intro scopes after known locals tracks h
      cases h
      rwa [List.append_nil]
  | cons p rest ih =>
      intro scopes after known locals tracks h
      obtain ⟨slot, next, others, hdeclare, hothers, rfl⟩ := emitParams_cons_eq_ok.mp h
      rw [List.append_cons]
      exact ih (tracks.declare hdeclare rfl (Nat.le_refl _) (Nat.le_refl _) rfl) hothers

/-- The table of a function and its code fit: slots are numbered in the order of the table, two
locals of one name follow each other, and a variable is alive where the function reads it or assigns
to it. -/
structure FunctionDecl.Scoped (r : Registry) (d : FunctionDecl) : Prop where
  numbered : d.table.map (·.slot) = List.range d.table.length
  apart : d.table.Pairwise LocalInfo.Apart
  alive : ∀ {here slot : Nat}, (d.code r)[here]? = some (.load slot) ∨
    (here, slot) ∈ d.assignments →
    AliveIn d.table slot here

/-- **Where making the code of a function succeeds, its scopes are right.** -/
theorem emitFunction_scoped {index : Nat} {d : FunctionDecl} {code : FunctionCode}
    (h : emitFunction r index d = .ok code) : d.Scoped r := by
  have htable := emitFunction_table h
  obtain ⟨params, scopes, body, hparams, hbody, rfl⟩ := emitFunction_eq_ok.mp h
  have htracks := emitParams_tracks (.initial 0 (d.size - 1)) hparams
  have hfollow := emitStmts_follows d.body hbody d.sizes_body_le htracks
  rw [List.nil_append, ← emitStmts_table d.body hbody] at hfollow
  rw [show params ++ body.locals = d.table from htable] at hfollow
  refine ⟨?_, hfollow.tracks.apart, ?_⟩
  · have hlength := congrArg List.length hfollow.tracks.numbered
    rw [List.length_map, List.length_range] at hlength
    rw [hlength]
    exact hfollow.tracks.numbered
  · intro here slot htouches
    refine hfollow.alive (htouches.imp_left fun hload => ?_)
    exact FunctionDecl.placed_body ⟨here, (Nat.zero_add _).symm, hload⟩ nofun

end Statements

/-! ## Locals of code -/

theorem FunctionCode.mem_localsAt {code : FunctionCode} {pc : Nat} {l : LocalInfo} :
    l ∈ code.localsAt pc ↔ l ∈ code.locals ∧ l.live.contains pc = true :=
  List.mem_filter

/-- The table of a function's code is right: at no instruction do two locals of one name hold a
value, and what the function reads or assigns to holds one. Every other `store` is that of a first
value. -/
structure FunctionCode.ScopedBy (code : FunctionCode) (d : FunctionDecl) : Prop where
  distinct : ∀ pc : Nat, ((code.localsAt pc).map (·.name)).Nodup
  load : ∀ pc slot : Nat, code.instructions[pc]? = some (.load slot) → ∃ l ∈ code.localsAt pc,
    l.slot = slot
  assign : ∀ pc slot : Nat, (pc, slot) ∈ d.assignments →
    code.instructions[pc]? = some (.store slot) ∧ ∃ l ∈ code.localsAt pc, l.slot = slot
  store : ∀ pc slot : Nat, code.instructions[pc]? = some (.store slot) →
    (pc, slot) ∈ d.assignments ∨
    ∃ l ∈ code.locals, l.isParameter = false ∧ l.slot = slot ∧ l.live.start = pc + 1

/-- **The table of the code that was made for a function is right.** -/
theorem emitFunction_scopedBy {r : Registry} {index : Nat} {d : FunctionDecl} {code : FunctionCode}
    (h : emitFunction r index d = .ok code) : code.ScopedBy d := by
  have compiled := emitFunction_compiled h
  have hscoped := emitFunction_scoped h
  have htable := emitFunction_table h
  have halive {pc slot : Nat}
      (htouched : (d.code r)[pc]? = some (.load slot) ∨ (pc, slot) ∈ d.assignments) :
      ∃ l ∈ code.localsAt pc, l.slot = slot := by
    obtain ⟨l, hl, hslot, hat⟩ := hscoped.alive htouched
    exact ⟨l, FunctionCode.mem_localsAt.mpr ⟨htable ▸ hl, hat⟩, hslot⟩
  refine ⟨?_, ?_, ?_, ?_⟩
  · intro pc
    refine List.pairwise_map.mpr (List.Pairwise.imp_of_mem ?_ ((htable ▸ hscoped.apart).filter _))
    intro a b ha hb hapart hsame
    have hstop := (LiveRange.contains_iff.mp (List.mem_filter.mp ha).2).2
    have hstart := (LiveRange.contains_iff.mp (List.mem_filter.mp hb).2).1
    have := hapart hsame
    omega
  · intro pc slot hload
    rw [compiled.getElem?] at hload
    exact halive (.inl hload)
  · intro pc slot hassigned
    rw [compiled.getElem?]
    exact ⟨d.assignments_placed hassigned r, halive (.inr hassigned)⟩
  · intro pc slot hstored
    rw [compiled.getElem?] at hstored
    rw [htable]
    exact d.stores hstored

end Stepwise
