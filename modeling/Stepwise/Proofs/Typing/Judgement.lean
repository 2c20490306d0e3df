import Stepwise.Proofs.Code.Size
import Stepwise.Proofs.Program.Targets
import Stepwise.Proofs.Typing.Parts
import Stepwise.Proofs.Typing.Registry

/-!
# Typed trees

The judgement for annotated trees, in which variables are slots and calls are numbers of functions.
It speaks of no names: a slot has one type for the whole function, and a reference needs its slot
among those that hold a value.

Checking only makes typed trees, `checkExpr_typed` and `checkStmts_typed`: the scopes that checking
carries along name slots that hold a value, and every declaration takes the next entry of the types
of the slots. Replacing a comparison of records by a call of `equals` needs no rule of its own,
since what is put in its place is a typed call.
-/

set_option autoImplicit false

namespace Stepwise

/-- What the annotations in the body of a function refer to. -/
structure BodyTyping where
  registry : Registry
  arrows : Callee → Option Arrow
  /-- The type of each slot. -/
  slotTys : List Ty
  result : Ty

/-! ## The judgement -/

mutual

/-- An annotated expression of a type, given the slots that hold a value. -/
inductive ExprTyped (C : BodyTyping) (vars : List Nat) : Expr → Ty → Prop
  | number {span : Span} {v : Float} : ExprTyped C vars (.number ⟨span, some .number⟩ v) .number
  | boolean {span : Span} {v : Bool} : ExprTyped C vars (.boolean ⟨span, some .boolean⟩ v) .boolean
  | string {span : Span} {v : String} : ExprTyped C vars (.string ⟨span, some .string⟩ v) .string
  | reference {span : Span} {name : String} {slot : Nat} {t : Ty} :
      slot ∈ vars → C.slotTys[slot]? = some t → t.Storable →
      ExprTyped C vars (.reference ⟨span, some t⟩ name (some slot)) t
  | call {span : Span} {name : Ident} {arguments : List Expr} {callee : Callee} {tys : List Ty}
      {result : Ty} :
      ExprsTyped C vars arguments tys → C.arrows callee = some ⟨tys, result⟩ →
      (∀ t ∈ tys, t.Storable) →
      result.Nameable →
      ExprTyped C vars (.call ⟨span, some result⟩ name arguments (some callee)) result
  | field {span : Span} {record : Expr} {name : Ident} {recordName : String}
      {recordType : RecordType}
      {index : Nat} {f : RecordField} :
      ExprTyped C vars record (.record recordName) →
      C.registry.record? recordName = some recordType →
      recordType.fieldIndex? name.name = some index → recordType.fields[index]? = some f →
      f.ty.Storable →
      ExprTyped C vars (.field ⟨span, some f.ty⟩ record name) f.ty
  | unary {span : Span} {op : UnaryOp} {operand : Expr} {t result : Ty} :
      ExprTyped C vars operand t → op.result? t = some result →
      ExprTyped C vars (.unary ⟨span, some result⟩ op operand) result
  | binary {span : Span} {op : BinaryOp} {left right : Expr} {leftTy rightTy result : Ty} :
      ExprTyped C vars left leftTy → ExprTyped C vars right rightTy →
      op.result? leftTy rightTy = some result →
      ExprTyped C vars (.binary ⟨span, some result⟩ op left right) result

/-- Annotated expressions of types in order. -/
inductive ExprsTyped (C : BodyTyping) (vars : List Nat) : List Expr → List Ty → Prop
  | nil : ExprsTyped C vars [] []
  | cons {e : Expr} {es : List Expr} {t : Ty} {ts : List Ty} :
      ExprTyped C vars e t → ExprsTyped C vars es ts → ExprsTyped C vars (e :: es) (t :: ts)

end

/-- The slot that a statement fills for the statements behind it. -/
def Stmt.binds : Stmt → List Nat
  | .var decl => decl.slot.toList
  | _ => []

mutual

/-- An annotated statement, given whether it stands in a loop and the slots that hold a value. -/
inductive StmtTyped (C : BodyTyping) : Bool → List Nat → Stmt → Prop
  | expr {inLoop : Bool} {vars : List Nat} {e : Expr} {t : Ty} :
      ExprTyped C vars e t → StmtTyped C inLoop vars (.expr e)
  | var {inLoop : Bool} {vars : List Nat} {decl : VarDecl} {t : Ty} {slot : Nat} :
      ExprTyped C vars decl.value t → t.Storable → decl.ty = some t → decl.slot = some slot →
      C.slotTys[slot]? = some t → StmtTyped C inLoop vars (.var decl)
  | assign {inLoop : Bool} {vars : List Nat} {target value : Expr} {span : Span} {t : Ty} :
      ExprTyped C vars value t → ExprTyped C vars target t → target.isAssignable = true →
      StmtTyped C inLoop vars (.assign target value span)
  | cond {inLoop : Bool} {vars : List Nat} {condition : Expr} {thenBlock elseBlock : List Stmt}
      {span : Span} :
      ExprTyped C vars condition .boolean → StmtsTyped C inLoop vars thenBlock →
      StmtsTyped C inLoop vars elseBlock →
      StmtTyped C inLoop vars (.cond condition thenBlock elseBlock span)
  | whileLoop {inLoop : Bool} {vars : List Nat} {condition : Expr} {body : List Stmt}
      {span : Span} :
      ExprTyped C vars condition .boolean → StmtsTyped C true vars body →
      StmtTyped C inLoop vars (.whileLoop condition body span)
  | repeatLoop {inLoop : Bool} {vars : List Nat} {count : Expr} {body : List Stmt} {span : Span} :
      ExprTyped C vars count .number → StmtsTyped C true vars body →
      StmtTyped C inLoop vars (.repeatLoop count body span)
  | retValue {inLoop : Bool} {vars : List Nat} {value : Expr} {span : Span} :
      ExprTyped C vars value C.result → C.result ≠ .nothing →
      StmtTyped C inLoop vars (.ret (some value) span)
  | retNothing {inLoop : Bool} {vars : List Nat} {span : Span} :
      C.result = .nothing → StmtTyped C inLoop vars (.ret none span)
  | breakLoop {vars : List Nat} {span : Span} : StmtTyped C true vars (.breakLoop span)
  | continueLoop {vars : List Nat} {span : Span} : StmtTyped C true vars (.continueLoop span)
  | comment {inLoop : Bool} {vars : List Nat} {text : String} {span : Span} :
      StmtTyped C inLoop vars (.comment text span)

/-- Annotated statements in a row; each fills its slot for those behind it. -/
inductive StmtsTyped (C : BodyTyping) : Bool → List Nat → List Stmt → Prop
  | nil {inLoop : Bool} {vars : List Nat} : StmtsTyped C inLoop vars []
  | cons {inLoop : Bool} {vars : List Nat} {s : Stmt} {rest : List Stmt} :
      StmtTyped C inLoop vars s → StmtsTyped C inLoop (s.binds ++ vars) rest →
      StmtsTyped C inLoop vars (s :: rest)

end

theorem ExprTyped.ty?_eq {C : BodyTyping} {vars : List Nat} {e : Expr} {t : Ty}
    (h : ExprTyped C vars e t) :
    e.ty? = some t := by
  cases h <;> rfl

theorem ExprTyped.ty_eq {C : BodyTyping} {vars : List Nat} {e : Expr} {t : Ty}
    (h : ExprTyped C vars e t) :
    e.ty = t := by
  rw [Expr.ty, h.ty?_eq, Option.getD_some]

/-- The result of an operator can be stored, and so can what it is applied to. -/
theorem UnaryOp.storable_of_result? {op : UnaryOp} {t result : Ty}
    (h : op.result? t = some result) :
    t ≠ .nothing ∧ result.Storable := by
  cases op <;> cases t <;> cases h <;> simp [Ty.Storable, Ty.Nameable]

theorem BinaryOp.storable_of_result? {op : BinaryOp} {left right result : Ty}
    (h : op.result? left right = some result) :
    left ≠ .nothing ∧ right ≠ .nothing ∧ result.Storable := by
  unfold BinaryOp.result? at h
  split at h <;> split at h <;> cases h
  all_goals
    next hop => grind [Ty.Storable, Ty.Nameable]

theorem ExprTyped.nameable {C : BodyTyping} {vars : List Nat} {e : Expr} {t : Ty}
    (h : ExprTyped C vars e t) :
    t.Nameable := by
  cases h with
  | number => trivial
  | boolean => trivial
  | string => trivial
  | reference _ _ hstorable => exact hstorable.2
  | call _ _ _ hname => exact hname
  | field _ _ _ _ hstorable => exact hstorable.2
  | unary _ hop => exact (UnaryOp.storable_of_result? hop).2.2
  | binary _ _ hop => exact (BinaryOp.storable_of_result? hop).2.2.2

/-- What can be assigned to holds values. -/
theorem ExprTyped.storable_of_isAssignable {C : BodyTyping} {vars : List Nat} {e : Expr} {t : Ty}
    (h : ExprTyped C vars e t) (he : e.isAssignable = true) : t.Storable := by
  cases h with
  | reference _ _ hstorable => exact hstorable
  | field _ _ _ _ hstorable => exact hstorable
  | _ => cases he

theorem ExprsTyped.nameable {C : BodyTyping} {vars : List Nat} :
    ∀ {es : List Expr} {ts : List Ty}, ExprsTyped C vars es ts → ∀ t ∈ ts, t.Nameable
  | _, _, .nil => by simp
  | _, _, .cons he hes => by
      intro t ht
      rcases List.mem_cons.mp ht with rfl | ht
      · exact he.nameable
      · exact hes.nameable t ht

theorem ExprsTyped.map_ty {C : BodyTyping} {vars : List Nat} :
    ∀ {es : List Expr} {ts : List Ty}, ExprsTyped C vars es ts → es.map Expr.ty = ts
  | _, _, .nil => rfl
  | _, _, .cons he hes => by rw [List.map_cons, he.ty_eq, hes.map_ty]

/-! ## Expressions that checking makes -/

/-- Scopes whose visible names stand for slots that hold a value of the name's type. -/
def Scopes.Fits (scopes : Scopes) (C : BodyTyping) (vars : List Nat) : Prop :=
  ∀ symbol ∈ scopes.visible, symbol.slot ∈ vars ∧ C.slotTys[symbol.slot]? = some symbol.ty ∧
  symbol.ty.Storable

section Checking

variable {C : BodyTyping} {scopes : Scopes} {vars : List Nat}

/-- The field that checking finds by its name is the one at the index of the name. -/
theorem RecordType.fieldIndex?_of_field? {record : RecordType} {name : String} {f : RecordField}
    (h : record.field? name = some f) :
    ∃ index : Nat, record.fieldIndex? name = some index ∧ record.fields[index]? = some f := by
  unfold RecordType.field? at h
  unfold RecordType.fieldIndex?
  generalize record.fields = fields at h ⊢
  induction fields with
  | nil => cases h
  | cons g rest ih =>
      rw [List.find?_cons] at h
      cases hg : g.name == name with
      | true =>
          rw [hg] at h
          cases h
          exact ⟨0, by simp [List.findIdx?_cons, hg], rfl⟩
      | false =>
          rw [hg] at h
          obtain ⟨index, hindex, hf⟩ := ih h
          exact ⟨index + 1, by simp [List.findIdx?_cons, hg, hindex], hf⟩

/-- The comparison of records of a type takes two of them and yields a truth value. -/
theorem Registry.Sound.equality? {r : Registry} {arrows : Callee → Option Arrow}
    (sound : r.Sound arrows) {t : Ty} {callee : Callee} (hname : t.Nameable)
    (h : r.equality? t = some callee) :
    arrows callee = some ⟨[t, t], .boolean⟩ ∧ t.Storable := by
  unfold Registry.equality? at h
  split at h
  · next name =>
      obtain ⟨f, hf, rfl⟩ := Option.map_eq_some_iff.mp h
      obtain ⟨hfound, hresult⟩ := Option.filter_eq_some_iff.mp hf
      have htys : ∀ t ∈ [Ty.record name, Ty.record name], t.Nameable := by
        simpa using hname
      obtain ⟨harrow, hstorable, -⟩ := sound.resolveCall? htys hfound
      have hboolean : f.result = .boolean := by simpa using hresult
      rw [hboolean] at harrow
      exact ⟨harrow, hstorable _ List.mem_cons_self⟩
  · cases h

/-- A comparison of records is replaced by a typed call. -/
theorem equalsCall_typed (sound : C.registry.Sound C.arrows) {span : Span} {left right : Expr}
    {t : Ty} {callee : Callee} (hleft : ExprTyped C vars left t) (hright : ExprTyped C vars right t)
    (h : C.registry.equality? t = some callee) :
    ExprTyped C vars (equalsCall span left right callee) .boolean := by
  obtain ⟨harrow, hstorable⟩ := sound.equality? hleft.nameable h
  refine .call (.cons hleft (.cons hright .nil)) harrow ?_ trivial
  intro s hs
  simp only [List.mem_cons, List.not_mem_nil, or_false, or_self] at hs
  rwa [hs]

theorem checkedBinary_typed (sound : C.registry.Sound C.arrows) {span : Span} {op : BinaryOp}
    {left right : Expr} {leftTy rightTy result : Ty} (hleft : ExprTyped C vars left leftTy)
    (hright : ExprTyped C vars right rightTy) (hop : op.result? leftTy rightTy = some result) :
    ExprTyped C vars (checkedBinary C.registry ⟨span, some result⟩ op left right leftTy)
      result := by
  unfold checkedBinary
  split
  · next callee hcallee =>
      simp only [BinaryOp.result?] at hop
      split at hop
      · next hsame =>
          cases hop
          exact equalsCall_typed sound hleft (hsame.1 ▸ hright) hcallee
      · cases hop
  · next callee hcallee =>
      simp only [BinaryOp.result?] at hop
      split at hop
      · next hsame =>
          cases hop
          exact .unary (equalsCall_typed sound hleft (hsame.1 ▸ hright) hcallee) rfl
      · cases hop
  · exact .binary hleft hright hop

/-- A checked expression carries the type that was found for it. -/
theorem ty?_of_checkExpr {r : Registry} {e checked : Expr} {t : Ty}
    (h : checkExpr r scopes e = .ok (checked, t)) :
    checked.ty? = some t := by
  cases e with
  | number i v | boolean i v | string i v =>
      cases h
      rfl
  | reference i name slot =>
      obtain ⟨symbol, -, -, rfl⟩ := checkExpr_reference_eq_ok.mp h
      rfl
  | call i name arguments callee =>
      obtain ⟨all, f, -, -, -, rfl⟩ := checkExpr_call_eq_ok.mp h
      rfl
  | field i record name =>
      obtain ⟨inner, recordName, f, -, -, -, rfl⟩ := checkExpr_field_eq_ok.mp h
      rfl
  | unary i op operand =>
      obtain ⟨inner, innerTy, -, -, rfl⟩ := checkExpr_unary_eq_ok.mp h
      rfl
  | binary i op left right =>
      obtain ⟨first, firstTy, second, secondTy, -, -, hop, rfl⟩ := checkExpr_binary_eq_ok.mp h
      unfold checkedBinary
      split
      · -- The call has the type that a comparison has.
        simp only [BinaryOp.result?] at hop
        split at hop <;> cases hop
        rfl
      · rfl
      · rfl

mutual

/-- **Checking makes typed expressions.** -/
theorem checkExpr_typed (sound : C.registry.Sound C.arrows) (fits : scopes.Fits C vars) :
    ∀ (e : Expr) {checked : Expr} {t : Ty}, checkExpr C.registry scopes e = .ok (checked, t) →
      ExprTyped C vars checked t
  | .number i v, checked, t, h => by
      cases h
      exact .number
  | .boolean i v, checked, t, h => by
      cases h
      exact .boolean
  | .string i v, checked, t, h => by
      cases h
      exact .string
  | .reference i name slot, checked, t, h => by
      obtain ⟨symbol, hfound, rfl, rfl⟩ := checkExpr_reference_eq_ok.mp h
      obtain ⟨hslot, hty, hstorable⟩ := fits symbol (List.mem_of_find?_eq_some hfound)
      exact .reference hslot hty hstorable
  | .call i name arguments callee, checked, t, h => by
      obtain ⟨all, f, hall, hfound, rfl, rfl⟩ := checkExpr_call_eq_ok.mp h
      have htyped := checkExprs_typed sound fits arguments hall
      obtain ⟨harrow, hstorable, hname⟩ := sound.resolveCall? htyped.nameable hfound
      exact .call htyped harrow hstorable hname
  | .field i record name, checked, t, h => by
      obtain ⟨inner, recordName, f, hinner, hfound, rfl, rfl⟩ := checkExpr_field_eq_ok.mp h
      obtain ⟨recordType, hrecord, hf⟩ := Option.bind_eq_some_iff.mp hfound
      obtain ⟨index, hindex, hat⟩ := RecordType.fieldIndex?_of_field? hf
      have hstorable := sound.fields hrecord f (List.mem_of_getElem? hat)
      exact .field (checkExpr_typed sound fits record hinner) hrecord hindex hat hstorable
  | .unary i op operand, checked, t, h => by
      obtain ⟨inner, innerTy, hinner, hop, rfl⟩ := checkExpr_unary_eq_ok.mp h
      exact .unary (checkExpr_typed sound fits operand hinner) hop
  | .binary i op left right, checked, t, h => by
      obtain ⟨first, firstTy, second, secondTy, hfirst, hsecond, hop, rfl⟩ :=
        checkExpr_binary_eq_ok.mp h
      exact checkedBinary_typed sound (checkExpr_typed sound fits left hfirst)
        (checkExpr_typed sound fits right hsecond) hop

theorem checkExprs_typed (sound : C.registry.Sound C.arrows) (fits : scopes.Fits C vars) :
    ∀ (es : List Expr) {checked : List (Expr × Ty)}, checkExprs C.registry scopes es = .ok checked →
      ExprsTyped C vars (checked.map (·.1)) (checked.map (·.2))
  | [], checked, h => by
      cases h
      exact .nil
  | e :: es, checked, h => by
      obtain ⟨first, others, hfirst, hothers, rfl⟩ := checkExprs_cons_eq_ok.mp h
      exact .cons (checkExpr_typed sound fits e hfirst) (checkExprs_typed sound fits es hothers)

end

end Checking

/-! ## Statements that checking makes -/

mutual

/-- The types of the variables that a statement declares, in order. -/
def Stmt.declared : Stmt → List Ty
  | .var decl => [decl.ty.getD .nothing]
  | .cond _ thenBlock elseBlock _ => Stmt.declaredIn thenBlock ++ Stmt.declaredIn elseBlock
  | .whileLoop _ body _ | .repeatLoop _ body _ => Stmt.declaredIn body
  | .expr _ | .assign .. | .ret .. | .breakLoop _ | .continueLoop _ | .comment .. => []

/-- The types of the variables that statements declare, in order. -/
def Stmt.declaredIn : List Stmt → List Ty
  | [] => []
  | s :: rest => s.declared ++ Stmt.declaredIn rest

end

/-- The types of slots agree with declared types from a slot on. -/
def Assigns (slotTys : List Ty) (start : Nat) (declared : List Ty) : Prop :=
  ∀ (j : Nat) (t : Ty), declared[j]? = some t → slotTys[start + j]? = some t

theorem Assigns.of_append {slotTys : List Ty} {start : Nat} (first : List Ty) {second : List Ty}
    (h : Assigns slotTys start (first ++ second)) :
    Assigns slotTys start first ∧ Assigns slotTys (start + first.length) second := by
  refine ⟨?_, ?_⟩
  · intro j t hj
    refine h j t ?_
    rw [List.getElem?_append_left (List.getElem?_eq_some_iff.mp hj).1, hj]
  · intro j t hj
    rw [Nat.add_assoc]
    refine h _ t ?_
    rw [List.getElem?_append_right (Nat.le_add_right _ _), Nat.add_sub_cancel_left, hj]

section Checking

variable {C : BodyTyping} {vars : List Nat}

theorem Scopes.Fits.push {scopes : Scopes} (fits : scopes.Fits C vars) :
    scopes.push.Fits C vars := by
  intro symbol hsymbol
  exact fits symbol (by simpa [Scopes.visible, Scopes.push] using hsymbol)

/-- What a name stands for behind its declaration. -/
theorem Scopes.Fits.declare {scopes after : Scopes} (fits : scopes.Fits C vars) {name : Ident}
    {t : Ty} {slot : Nat} (hstorable : t.Storable) (hslot : C.slotTys[scopes.nextSlot]? = some t)
    (h : declareVariable scopes name t = .ok (slot, after)) :
    slot = scopes.nextSlot ∧ after.nextSlot = scopes.nextSlot + 1 ∧
      after.enclosing = scopes.enclosing ∧
      after.Fits C (slot :: vars) := by
  obtain ⟨rfl, rfl⟩ := declareVariable_eq h
  refine ⟨rfl, rfl, rfl, ?_⟩
  intro symbol hsymbol
  rcases List.mem_cons.mp hsymbol with rfl | hsymbol
  · exact ⟨List.mem_cons_self, hslot, hstorable⟩
  · obtain ⟨hmem, hrest⟩ := fits symbol hsymbol
    exact ⟨List.mem_cons_of_mem _ hmem, hrest⟩

/-- What checking a stretch of statements says about the scopes behind it. -/
structure Scopes.Follows (before after : Scopes) (C : BodyTyping) (vars : List Nat)
    (declared : List Ty) : Prop where
  fits : after.Fits C vars
  enclosing : after.enclosing = before.enclosing
  nextSlot : after.nextSlot = before.nextSlot + declared.length

theorem Scopes.Fits.follows {scopes : Scopes} (fits : scopes.Fits C vars) :
    scopes.Follows scopes C vars [] :=
  ⟨fits, rfl, rfl⟩

/-- Behind a block the names are those from before it. -/
theorem Scopes.Follows.pop {before after : Scopes} {inner : List Nat} {declared : List Ty}
    (fits : before.Fits C vars) (h : before.push.Follows after C inner declared) :
    before.Follows after.pop C vars declared := by
  have hpop : after.pop = ⟨before.innermost, before.enclosing, after.nextSlot⟩ := by
    rw [Scopes.pop, h.enclosing]
    rfl
  refine ⟨?_, ?_, ?_⟩
  · rw [hpop]
    exact fits
  · rw [hpop]
  · rw [hpop]
    exact h.nextSlot

theorem checkVariable_typed (sound : C.registry.Sound C.arrows) {ctx : BodyContext}
    (hctx : ctx.registry = C.registry) {scopes after : Scopes} (fits : scopes.Fits C vars)
    {inLoop : Bool} {decl checked : VarDecl}
    (h : checkVariable ctx scopes decl = .ok (checked, after))
    (hslots : Assigns C.slotTys scopes.nextSlot (Stmt.var checked).declared) :
    StmtTyped C inLoop vars (.var checked) ∧
      scopes.Follows after C ((Stmt.var checked).binds ++ vars) (Stmt.var checked).declared := by
  obtain ⟨value, t, hvalue, hdeclare, hne, -, rfl⟩ := checkVariable_eq_ok.mp h
  rw [hctx] at hvalue
  have htyped := checkExpr_typed sound fits decl.value hvalue
  have hstorable : t.Storable := ⟨hne, htyped.nameable⟩
  have hslot : C.slotTys[scopes.nextSlot]? = some t := hslots 0 t rfl
  obtain ⟨-, hnext, henclosing, hfits⟩ := fits.declare hstorable hslot hdeclare
  exact ⟨.var htyped hstorable rfl rfl hslot, hfits, henclosing, hnext⟩

theorem checkReturn_typed (sound : C.registry.Sound C.arrows) {ctx : BodyContext}
    (hctx : ctx.registry = C.registry) (hresult : ctx.resultTy = C.result) {scopes : Scopes}
    (fits : scopes.Fits C vars) (inLoop : Bool) {value : Option Expr} {span : Span} {checked : Stmt}
    (h : checkReturn ctx scopes value span = .ok checked) :
    StmtTyped C inLoop vars checked ∧ checked.binds = [] ∧ checked.declared = [] := by
  rcases checkReturn_eq_ok.mp h with ⟨e, inner, rfl, -, hinner, hne, rfl⟩ | ⟨rfl, hnothing, rfl⟩
  · rw [hctx, hresult] at hinner
    rw [hresult] at hne
    exact ⟨.retValue (checkExpr_typed sound fits e hinner) hne, rfl, rfl⟩
  · exact ⟨.retNothing (hresult ▸ hnothing), rfl, rfl⟩

/-- What is assigned to stays a variable or a field. -/
theorem isAssignable_of_checkExpr {r : Registry} {scopes : Scopes} {e checked : Expr} {t : Ty}
    (h : checkExpr r scopes e = .ok (checked, t)) (he : e.isAssignable = true) :
    checked.isAssignable = true := by
  cases e with
  | reference i name slot =>
      obtain ⟨symbol, -, -, rfl⟩ := checkExpr_reference_eq_ok.mp h
      rfl
  | field i record name =>
      obtain ⟨inner, recordName, f, -, -, -, rfl⟩ := checkExpr_field_eq_ok.mp h
      rfl
  | _ => cases he

mutual

/-- **Checking makes typed statements.** -/
theorem checkStmt_typed (sound : C.registry.Sound C.arrows) {ctx : BodyContext}
    (hctx : ctx.registry = C.registry) (hresult : ctx.resultTy = C.result) :
    ∀ (s : Stmt) {inLoop : Bool} {vars : List Nat} {scopes after : Scopes} {checked : Stmt},
      s.TargetsAssignable → scopes.Fits C vars →
      checkStmt ctx inLoop scopes s = .ok (checked, after) →
      Assigns C.slotTys scopes.nextSlot checked.declared →
      StmtTyped C inLoop vars checked ∧
      scopes.Follows after C (checked.binds ++ vars) checked.declared
  | .expr e, inLoop, vars, scopes, after, checked, htargets, fits, h, hslots => by
      obtain ⟨inner, t, hinner, rfl, rfl⟩ := checkStmt_expr_eq_ok.mp h
      rw [hctx] at hinner
      exact ⟨.expr (checkExpr_typed sound fits e hinner), fits.follows⟩
  | .var decl, inLoop, vars, scopes, after, checked, htargets, fits, h, hslots => by
      obtain ⟨inner, hinner, rfl⟩ := checkStmt_var_eq_ok.mp h
      exact checkVariable_typed sound hctx fits hinner hslots
  | .assign target value span, inLoop, vars, scopes, after, checked, htargets, fits, h, hslots => by
      obtain ⟨first, second, t, hfirst, hsecond, rfl, rfl⟩ := checkStmt_assign_eq_ok.mp h
      rw [hctx] at hfirst hsecond
      exact ⟨.assign (checkExpr_typed sound fits value hfirst)
        (checkExpr_typed sound fits target hsecond) (isAssignable_of_checkExpr hsecond htargets),
        fits.follows⟩
  | .cond condition thenBlock elseBlock span, inLoop, vars, scopes, after, checked, htargets, fits,
      h, hslots => by
      obtain ⟨test, first, afterThen, second, afterElse, htest, hfirst, hsecond, rfl, rfl⟩ :=
        checkStmt_cond_eq_ok.mp h
      rw [hctx] at htest
      obtain ⟨hslotsThen, hslotsElse⟩ := hslots.of_append _
      obtain ⟨hthen, hfollows⟩ :=
        checkStmts_typed sound hctx hresult thenBlock htargets.1 fits.push hfirst hslotsThen
      have hbetween := hfollows.pop fits
      obtain ⟨helse, hfollows'⟩ := checkStmts_typed sound hctx hresult elseBlock htargets.2
        hbetween.fits.push hsecond (by
          show Assigns C.slotTys afterThen.pop.nextSlot _
          rw [hbetween.nextSlot]
          exact hslotsElse)
      have hlast := hfollows'.pop hbetween.fits
      refine ⟨.cond (checkExpr_typed sound fits condition htest) hthen helse, hlast.fits,
        ?_, ?_⟩
      · rw [hlast.enclosing, hbetween.enclosing]
      · rw [hlast.nextSlot, hbetween.nextSlot, Stmt.declared, List.length_append, Nat.add_assoc]
  | .whileLoop condition body span, inLoop, vars, scopes, after, checked, htargets, fits, h,
      hslots => by
      obtain ⟨test, inner, afterBody, htest, hinner, rfl, rfl⟩ := checkStmt_whileLoop_eq_ok.mp h
      rw [hctx] at htest
      obtain ⟨hbody, hfollows⟩ :=
        checkStmts_typed sound hctx hresult body htargets fits.push hinner hslots
      exact ⟨.whileLoop (checkExpr_typed sound fits condition htest) hbody, hfollows.pop fits⟩
  | .repeatLoop count body span, inLoop, vars, scopes, after, checked, htargets, fits, h,
      hslots => by
      obtain ⟨times, inner, afterBody, htimes, hinner, rfl, rfl⟩ := checkStmt_repeatLoop_eq_ok.mp h
      rw [hctx] at htimes
      obtain ⟨hbody, hfollows⟩ :=
        checkStmts_typed sound hctx hresult body htargets fits.push hinner hslots
      exact ⟨.repeatLoop (checkExpr_typed sound fits count htimes) hbody, hfollows.pop fits⟩
  | .ret value span, inLoop, vars, scopes, after, checked, htargets, fits, h, hslots => by
      obtain ⟨hchecked, rfl⟩ := checkStmt_ret_eq_ok.mp h
      obtain ⟨htyped, hbinds, hdeclared⟩ :=
        checkReturn_typed sound hctx hresult fits inLoop hchecked
      rw [hbinds, hdeclared]
      exact ⟨htyped, fits.follows⟩
  | .breakLoop span, inLoop, vars, scopes, after, checked, htargets, fits, h, hslots => by
      obtain ⟨rfl, rfl, rfl⟩ := checkStmt_breakLoop_eq_ok.mp h
      exact ⟨.breakLoop, fits.follows⟩
  | .continueLoop span, inLoop, vars, scopes, after, checked, htargets, fits, h, hslots => by
      obtain ⟨rfl, rfl, rfl⟩ := checkStmt_continueLoop_eq_ok.mp h
      exact ⟨.continueLoop, fits.follows⟩
  | .comment text span, inLoop, vars, scopes, after, checked, htargets, fits, h, hslots => by
      cases h
      exact ⟨.comment, fits.follows⟩

/-- Checking makes typed blocks. -/
theorem checkStmts_typed (sound : C.registry.Sound C.arrows) {ctx : BodyContext}
    (hctx : ctx.registry = C.registry) (hresult : ctx.resultTy = C.result) :
    ∀ (ss : List Stmt) {inLoop : Bool} {vars : List Nat} {scopes after : Scopes}
      {checked : List Stmt},
      Stmt.AllTargetsAssignable ss → scopes.Fits C vars →
      checkStmts ctx inLoop scopes ss = .ok (checked, after) →
      Assigns C.slotTys scopes.nextSlot (Stmt.declaredIn checked) →
      StmtsTyped C inLoop vars checked ∧
        scopes.Follows after C (checked.reverse.flatMap Stmt.binds ++ vars)
          (Stmt.declaredIn checked)
  | [], inLoop, vars, scopes, after, checked, htargets, fits, h, hslots => by
      cases h
      exact ⟨.nil, fits.follows⟩
  | s :: rest, inLoop, vars, scopes, after, checked, htargets, fits, h, hslots => by
      obtain ⟨first, next, others, hfirst, hothers, rfl⟩ := checkStmts_cons_eq_ok.mp h
      obtain ⟨hslotsFirst, hslotsOthers⟩ := hslots.of_append _
      obtain ⟨htyped, hfollows⟩ :=
        checkStmt_typed sound hctx hresult s htargets.1 fits hfirst hslotsFirst
      obtain ⟨hrest, hfollows'⟩ := checkStmts_typed sound hctx hresult rest htargets.2
        hfollows.fits hothers (by
          rw [hfollows.nextSlot]
          exact hslotsOthers)
      refine ⟨.cons htyped hrest, ?_, ?_, ?_⟩
      · simpa using hfollows'.fits
      · rw [hfollows'.enclosing, hfollows.enclosing]
      · rw [hfollows'.nextSlot, hfollows.nextSlot, Stmt.declaredIn, List.length_append,
          Nat.add_assoc]

end

end Checking

end Stepwise
