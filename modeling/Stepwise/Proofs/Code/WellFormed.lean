import Stepwise.Proofs.Code.Scoping
import Stepwise.Proofs.Machine.Moves

/-!
# Well-formed code

Code can be made of any functions, checked or not. If an annotation is missing or does not fit,
making it stops with an internal fault (`emitModule_internal`). If it does not stop, the code is
well formed (`FunctionCode.WellFormed`): execution ends with a `return` and jumps stay inside, what
instructions name is there, and the table of locals is that of the slots, with ranges inside the
code.

So nothing that runs code has to rely on checking for this much (`emission_well_formed`).
-/

set_option autoImplicit false

namespace Stepwise

open Diagnosed

/-! ## Faults -/

/-- A making that only stops with internal faults. -/
abbrev FaultsInternally {α : Type} (x : Diagnosed α) : Prop :=
  Keeps (fun d => d.cause.kind = .internal) Anything x

theorem resolveSlot_internal (scopes : Scopes) (name : String) (annotated : Option Nat)
    (span : Span) :
    FaultsInternally (resolveSlot scopes name annotated span) := by
  unfold resolveSlot
  split
  · split
    · exact .ok trivial
    · exact .failAt rfl
  · exact .failAt rfl

theorem resolveField_internal (r : Registry) (record : Expr) (name : Ident) :
    FaultsInternally (resolveField r record name) := by
  unfold resolveField
  split
  · split
    · exact .ok trivial
    · exact .failAt rfl
  · exact .failAt rfl

theorem callInstruction_internal (span : Span) (callee : Option Callee) :
    FaultsInternally (callInstruction span callee) := by
  unfold callInstruction
  split
  · exact .ok trivial
  · exact .ok trivial
  · exact .failAt rfl

mutual

theorem emitExpr_internal (r : Registry) (scopes : Scopes) :
    ∀ e : Expr, FaultsInternally (emitExpr r scopes e)
  | .number _ _ => .ok trivial
  | .boolean _ _ => .ok trivial
  | .string _ _ => .ok trivial
  | .reference _ _ _ => .bind (resolveSlot_internal _ _ _ _) fun _ _ => .pure trivial
  | .call _ _ arguments _ =>
      .bind (emitExprs_internal r scopes arguments) fun _ _ => .bind (callInstruction_internal _ _)
        fun _ _ => .pure trivial
  | .field _ record _ =>
      .bind (emitExpr_internal r scopes record) fun _ _ => .bind (resolveField_internal _ _ _)
        fun _ _ => .pure trivial
  | .unary _ _ operand => .bind (emitExpr_internal r scopes operand) fun _ _ => .pure trivial
  | .binary _ _ left right =>
      .bind (emitExpr_internal r scopes left) fun _ _ => .bind (emitExpr_internal r scopes right)
        fun _ _ => .pure trivial

theorem emitExprs_internal (r : Registry) (scopes : Scopes) :
    ∀ es : List Expr, FaultsInternally (emitExprs r scopes es)
  | [] => .ok trivial
  | e :: es => .bind (emitExpr_internal r scopes e) fun _ _ =>
      .bind (emitExprs_internal r scopes es) fun _ _ => .pure trivial

end

theorem declareSlot_internal (scopes : Scopes) (name : Ident) (t : Ty) (annotated : Option Nat) :
    FaultsInternally (declareSlot scopes name t annotated) := by
  unfold declareSlot
  split
  · exact .failAt rfl
  · split
    · exact .ok trivial
    · exact .failAt rfl

theorem emitTarget_internal (r : Registry) (scopes : Scopes) (target : Expr) :
    FaultsInternally (emitTarget r scopes target) := by
  unfold emitTarget
  split
  · exact .bind (resolveSlot_internal _ _ _ _) fun _ _ => .pure trivial
  · exact .bind (emitExpr_internal _ _ _) fun _ _ => .bind (resolveField_internal _ _ _) fun _ _ =>
      .pure trivial
  · exact .failAt rfl

theorem emitDropped_internal (r : Registry) (scopes : Scopes) (e : Expr) :
    FaultsInternally (emitDropped r scopes e) := by
  refine .bind (emitExpr_internal _ _ _) fun code _ => ?_
  split
  · exact .failAt rfl
  · exact .pure trivial
  · exact .pure trivial

theorem emitResult_internal (r : Registry) (scopes : Scopes) : ∀ value : Option Expr,
    FaultsInternally (emitResult r scopes value)
  | none => .ok trivial
  | some value => emitExpr_internal r scopes value

theorem emitVariable_internal (r : Registry) (blockEnd pc : Nat) (st : EmitState) (decl : VarDecl) :
    FaultsInternally (emitVariable r blockEnd pc st decl) := by
  refine .bind (emitExpr_internal _ _ _) fun value _ => ?_
  split
  · exact .failAt rfl
  · exact .bind (declareSlot_internal _ _ _ _) fun _ _ => .pure trivial

theorem emitJump_internal (st : EmitState) (span : Span) (target : Option Nat) :
    FaultsInternally (emitJump st span target) := by
  unfold emitJump
  split
  · exact .failAt rfl
  · exact .ok trivial

mutual

theorem emitStmt_internal (r : Registry) :
    ∀ (s : Stmt) (loop : Option LoopTargets) (blockEnd pc : Nat) (st : EmitState),
    FaultsInternally (emitStmt r loop blockEnd pc st s)
  | .comment _ _, _, _, _, _ => .ok trivial
  | .expr _, _, _, _, _ => .bind (emitDropped_internal _ _ _) fun _ _ => .pure trivial
  | .var _, _, _, _, _ => emitVariable_internal _ _ _ _ _
  | .assign _ _ _, _, _, _, _ =>
      .bind (emitExpr_internal _ _ _) fun _ _ => .bind (emitTarget_internal _ _ _) fun _ _ =>
      .pure trivial
  | .cond _ thenBlock elseBlock _, _, _, _, _ =>
      .bind (emitExpr_internal _ _ _) fun _ _ => .bind (emitStmts_internal r thenBlock _ _ _ _)
        fun _ _ =>
        .bind (emitStmts_internal r elseBlock _ _ _ _) fun _ _ => .pure trivial
  | .whileLoop _ body _, _, _, _, _ =>
      .bind (emitExpr_internal _ _ _) fun _ _ => .bind (emitStmts_internal r body _ _ _ _)
        fun _ _ => .pure trivial
  | .repeatLoop _ body _, _, _, _, _ =>
      .bind (emitExpr_internal _ _ _) fun _ _ => .bind (emitStmts_internal r body _ _ _ _)
        fun _ _ => .pure trivial
  | .ret _ _, _, _, _, _ => .bind (emitResult_internal _ _ _) fun _ _ => .pure trivial
  | .breakLoop _, _, _, _, _ => emitJump_internal _ _ _
  | .continueLoop _, _, _, _, _ => emitJump_internal _ _ _

theorem emitStmts_internal (r : Registry) : ∀ (ss : List Stmt) (loop : Option LoopTargets)
    (blockEnd pc : Nat) (st : EmitState), FaultsInternally (emitStmts r loop blockEnd pc st ss)
  | [], _, _, _, _ => .ok trivial
  | s :: rest, _, _, _, _ =>
      .bind (emitStmt_internal r s _ _ _ _) fun _ _ => .bind (emitStmts_internal r rest _ _ _ _)
        fun _ _ => .pure trivial

end

theorem emitParams_internal (last : Nat) (params : List Param) :
    ∀ scopes : Scopes, FaultsInternally (emitParams scopes last params) := by
  induction params with
  | nil => exact fun scopes => .ok trivial
  | cons p rest ih =>
      exact fun scopes => .bind (declareSlot_internal _ _ _ _) fun _ _ => .bind (ih _) fun _ _ =>
        .pure trivial

theorem emitFunction_internal (r : Registry) (index : Nat) (d : FunctionDecl) :
    FaultsInternally (emitFunction r index d) :=
  emitFunction_eq_outright r index d ▸
  .bind (emitParams_internal _ _ _) fun _ _ => .bind (emitStmts_internal _ _ _ _ _ _) fun _ _ =>
    .pure trivial

theorem emitFunctions_internal (r : Registry) (decls : List FunctionDecl) :
    ∀ index : Nat, FaultsInternally (emitFunctions r index decls) := by
  induction decls with
  | nil => exact fun index => .ok trivial
  | cons decl rest ih =>
      exact fun index => .bind (emitFunction_internal r index decl) fun _ _ =>
        .bind (ih _) fun _ _ => .pure trivial

/-- **Making code only stops with internal faults.** -/
theorem emitModule_internal {σ : Type} (functions : List FunctionDecl)
    (environment : Environment σ) :
    FaultsInternally (emitModule functions environment) :=
  .bind (emitFunctions_internal _ _ _) fun _ _ => .pure trivial

/-! ## Well-formed code -/

/-- Where an instruction jumps. -/
def Instruction.goal? : Instruction → Option Nat
  | .jump target | .jumpIfTrue target | .jumpIfFalse target => some target
  | _ => none

/-- The slot that an instruction reads or sets. -/
def Instruction.slot? : Instruction → Option Nat
  | .load slot | .store slot => some slot
  | _ => none

/-- What code is like that was made for the function of a number. -/
structure FunctionCode.WellFormed (index : Nat) (code : FunctionCode) : Prop where
  index : code.index = index
  nonempty : 0 < code.instructions.size
  lineInfos : code.lineInfos.size = code.instructions.size
  /-- There are no breakpoints yet. -/
  breakpoints : code.breakpoints = Array.replicate code.instructions.size none
  /-- Execution can not run out at the end. -/
  returns : code.instructions[code.instructions.size - 1]? = some .ret
  jumps : ∀ (pc target : Nat) (I : Instruction), code.instructions[pc]? = some I →
    I.goal? = some target →
    target < code.instructions.size
  slots : ∀ (pc slot : Nat) (I : Instruction), code.instructions[pc]? = some I →
    I.slot? = some slot →
    slot < code.numSlots
  /-- The table of locals lists the slots in order, those of the parameters first. -/
  numbered : ∀ (k : Nat) (l : LocalInfo), code.locals[k]? = some l → l.slot = k
  parameters : ∀ (k : Nat) (l : LocalInfo), code.locals[k]? = some l →
    (l.isParameter = true ↔ k < code.numParameters)
  numParameters : code.numParameters ≤ code.numSlots
  parameterLive : ∀ l ∈ code.locals, l.isParameter = true → l.live = ⟨0, code.instructions.size - 1⟩
  /-- A variable lives inside the code, from behind a `store` to its slot. -/
  variableLive : ∀ l ∈ code.locals, l.isParameter = false →
    1 ≤ l.live.start ∧ l.live.start ≤ code.instructions.size - 1 ∧
      l.live.stop ≤ code.instructions.size - 1 ∧
      code.instructions[l.live.start - 1]? = some (.store l.slot)

section Made

variable {r : Registry} {index : Nat} {d : FunctionDecl} {code : FunctionCode}

/-- Beside the instructions stand as many statements, and no breakpoints. -/
theorem emitFunction_columns (h : emitFunction r index d = .ok code) :
    code.lineInfos.size = code.instructions.size ∧
      code.breakpoints = Array.replicate code.instructions.size none := by
  obtain ⟨params, scopes, body, -, -, rfl⟩ := emitFunction_eq_ok.mp h
  simp

/-- Statements that end with `return` end with it in their code. -/
theorem Stmt.getLast?_codes {ss : List Stmt} (hend : endsWithReturn ss = true)
    {loop : Option LoopTargets} {pc : Nat} :
    (Stmt.codes r loop pc ss).getLast? = some .ret := by
  induction ss generalizing pc with
  | nil => cases hend
  | cons s rest ih =>
      rw [endsWithReturn_cons, Bool.or_eq_true, Bool.and_eq_true] at hend
      rw [Stmt.codes, List.getLast?_append]
      rcases hend with hrest | ⟨hcomments, hs⟩
      · rw [ih hrest, Option.some_or]
      · have hnone : Stmt.codes r loop (pc + s.size) rest = [] := by
          rw [← List.length_eq_zero_iff, Stmt.length_codes, Stmt.sizes_of_all_comments hcomments]
        rw [hnone, List.getLast?_nil, Option.none_or]
        cases s with
        | ret value span =>
            cases value with
            | none => rfl
            | some value => exact List.getLast?_concat
        | _ => cases hs

theorem FunctionDecl.getLast?_code (d : FunctionDecl) : (d.code r).getLast? = some .ret := by
  rw [code, closing]
  cases hend : endsWithReturn d.body with
  | true => rw [if_pos rfl, List.append_nil, Stmt.getLast?_codes hend]
  | false => exact List.getLast?_concat

theorem Instruction.leads_of_goal? {I : Instruction} {here target : Nat}
    (h : I.goal? = some target) :
    I.Leads here target := by
  cases I with
  | jump _ =>
      cases h
      exact rfl
  | jumpIfTrue _ | jumpIfFalse _ =>
      cases h
      exact .inl rfl
  | _ => cases h

/-- A local is listed at the place of its slot. -/
theorem FunctionDecl.Scoped.getElem?_table (h : d.Scoped r) {k : Nat} {l : LocalInfo}
    (hl : d.table[k]? = some l) :
    l.slot = k := by
  have hlt := (List.getElem?_eq_some_iff.mp hl).1
  have hslot : (d.table.map (·.slot))[k]? = some l.slot := by
    rw [List.getElem?_map, hl, Option.map_some]
  rw [h.numbered, List.getElem?_range hlt, Option.some.injEq] at hslot
  exact hslot.symm

theorem FunctionDecl.Scoped.slot_lt (h : d.Scoped r) {l : LocalInfo} (hl : l ∈ d.table) :
    l.slot < d.table.length := by
  obtain ⟨k, hk⟩ := List.getElem?_of_mem hl
  rw [h.getElem?_table hk]
  exact (List.getElem?_eq_some_iff.mp hk).1

/-- Every slot that the code names has its local. -/
theorem FunctionDecl.Scoped.slot?_lt (h : d.Scoped r) {pc slot : Nat} {I : Instruction}
    (hI : (d.code r)[pc]? = some I) (hslot : I.slot? = some slot) : slot < d.table.length := by
  suffices hlocal : ∃ l ∈ d.table, l.slot = slot by
    obtain ⟨l, hl, rfl⟩ := hlocal
    exact h.slot_lt hl
  cases I with
  | load _ =>
      cases hslot
      obtain ⟨l, hl, hslot, -⟩ := h.alive (.inl hI)
      exact ⟨l, hl, hslot⟩
  | store _ =>
      cases hslot
      rcases d.stores hI with hassigned | ⟨l, hl, -, hslot, -⟩
      · obtain ⟨l, hl, hslot, -⟩ := h.alive (.inr hassigned)
        exact ⟨l, hl, hslot⟩
      · exact ⟨l, hl, hslot⟩
  | _ => cases hslot

/-- The parameters stand first in the table. -/
theorem FunctionDecl.isParameter_table {k : Nat} {l : LocalInfo} (hl : d.table[k]? = some l) :
    l.isParameter = true ↔ k < d.params.length := by
  have hparams : (d.params.map (Param.entry (d.size - 1))).length = d.params.length :=
    List.length_map _
  rcases Nat.lt_or_ge k d.params.length with hlt | hge
  · rw [table, List.getElem?_append_left (hparams ▸ hlt), List.getElem?_map, Option.map_eq_some_iff]
      at hl
    obtain ⟨p, -, rfl⟩ := hl
    exact ⟨fun _ => hlt, fun _ => rfl⟩
  · rw [table, List.getElem?_append_right (hparams ▸ hge)] at hl
    have hvariable := (Stmt.tables_bounds d.body d.sizes_body_le (List.mem_of_getElem? hl)).1
    rw [hvariable]
    exact ⟨fun h => Bool.noConfusion h, fun h => absurd h (Nat.not_lt.mpr hge)⟩

/-- **The code that was made for a function is well formed.** -/
theorem emitFunction_wellFormed (h : emitFunction r index d = .ok code) :
    code.WellFormed index := by
  have compiled := emitFunction_compiled h
  have hscoped := emitFunction_scoped h
  have htable := emitFunction_table h
  obtain ⟨hlineInfos, hbreakpoints⟩ := emitFunction_columns h
  have hsize := compiled.size
  have hslots : code.numSlots = d.table.length := by rw [FunctionCode.numSlots, htable]
  refine ⟨compiled.index, ?_, hlineInfos, hbreakpoints, ?_, ?_, ?_, ?_, ?_, ?_, ?_, ?_⟩
  · rw [hsize]
    exact d.size_pos
  · rw [compiled.getElem?, hsize, ← d.length_code r, ← List.getLast?_eq_getElem?]
    exact d.getLast?_code
  · intro pc target I hI hgoal
    rw [compiled.getElem?] at hI
    rw [hsize]
    exact d.flows_closed ⟨I, ⟨pc, (Nat.zero_add pc).symm, hI⟩, Instruction.leads_of_goal? hgoal⟩
  · intro pc slot I hI hslot
    rw [compiled.getElem?] at hI
    rw [hslots]
    exact hscoped.slot?_lt hI hslot
  · intro k l hl
    rw [htable] at hl
    exact hscoped.getElem?_table hl
  · intro k l hl
    rw [htable] at hl
    rw [compiled.numParameters]
    exact d.isParameter_table hl
  · rw [compiled.numParameters, hslots, FunctionDecl.table, List.length_append, List.length_map]
    exact Nat.le_add_right _ _
  · intro l hl hparameter
    rw [htable] at hl
    rw [hsize]
    exact d.live_parameter hl hparameter
  · intro l hl hvariable
    rw [htable] at hl
    obtain ⟨hpos, hstart, hstop, here, hhere, hstored⟩ := d.live_variable hl hvariable r
    rw [hsize, compiled.getElem?, hhere, Nat.add_sub_cancel]
    rw [hhere] at hpos hstart
    exact ⟨hpos, hstart, hstop, hstored⟩

/-- **Control comes into the range of a local by the `store` of its first value**, and in no other
way. -/
theorem emitFunction_entered (h : emitFunction r index d = .ok code) {here target : Nat}
    {I : Instruction} (hI : code.instructions[here]? = some I) (hleads : I.Leads here target)
    {l : LocalInfo} (hl : l ∈ code.localsAt target) :
    l ∈ code.localsAt here ∨
    (l.isParameter = false ∧ l.live.start = here + 1 ∧ I = .store l.slot) := by
  obtain ⟨hmem, hat⟩ := FunctionCode.mem_localsAt.mp hl
  have hflows : Flows (d.code r) 0 here target := by
    refine ⟨I, ⟨here, (Nat.zero_add here).symm, ?_⟩, hleads⟩
    rw [← (emitFunction_compiled h).getElem?, hI]
  rcases d.table_entered (emitFunction_table h ▸ hmem) hflows hat with hhere | ⟨hvariable, hstart⟩
  · exact .inl (FunctionCode.mem_localsAt.mpr ⟨hmem, hhere⟩)
  · have hstored := ((emitFunction_wellFormed h).variableLive l hmem hvariable).2.2.2
    rw [hstart, Nat.add_sub_cancel, hI, Option.some.injEq] at hstored
    exact .inr ⟨hvariable, hstart, hstored⟩

end Made

/-- **Making code of any functions stops with an internal fault, or makes well-formed code of
each.** -/
theorem emission_well_formed {σ : Type} (functions : List FunctionDecl)
    (environment : Environment σ) :
    (∃ d : Diagnostic, emitModule functions environment = .error d ∧ d.cause.kind = .internal) ∨
      ∃ module : Module σ, emitModule functions environment = .ok module ∧
        module.functions.length = functions.length ∧
          ∀ (index : Nat) (code : FunctionCode), module.function? index = some code →
          code.WellFormed index := by
  cases h : emitModule functions environment with
  | error d => exact .inl ⟨d, rfl, (emitModule_internal functions environment).of_error h⟩
  | ok module =>
      have hcompiles := emitModule_compiles (p := ⟨[], functions, environment⟩) h
      refine .inr ⟨module, rfl, hcompiles.length, ?_⟩
      intro index code hcode
      obtain ⟨d, -, hmade⟩ := emitModule_made (p := ⟨[], functions, environment⟩) h hcode
      exact emitFunction_wellFormed hmade

end Stepwise
