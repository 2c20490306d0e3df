import Stepwise.Proofs.Typing.Judgement
import Stepwise.Proofs.Typing.Rules
import Stepwise.Proofs.Typing.Scoping

/-!
# Checking bodies by the rules

Against a registry that knows what is declared (`Registry.Knows`) and scopes that show the visible
names (`Scopes.Shows`), checking an expression succeeds with a type exactly if the rules give it the
type, and checking a statement succeeds exactly if it keeps the rules. One direction goes along the
tree with what checking returned, the other along the tree with the derivation. Since checking has
one result, the rules give an expression one type, and this is the type that checking writes into
the tree.
-/

set_option autoImplicit false

namespace Stepwise

open Diagnosed

variable {σ : Type} {D : Declarations σ} {r : Registry} {scopes : Scopes} {Γ : Context}

/-! ## What the checker knows -/

/-- A registry in which names mean what they are declared to mean. -/
def Registry.Means (r : Registry) (D : Declarations σ) : Prop :=
  ∀ (name : String) (t : Ty), r.resolve? name = some t ↔ D.Denotes name t

/-- A registry that finds what is declared, and nothing else. -/
structure Registry.Knows (r : Registry) (D : Declarations σ) : Prop where
  named : D.Named
  types : r.Means D
  fields : ∀ {record field : String} {t : Ty},
    (∃ f, (r.record? record).bind (·.field? field) = some f ∧ f.ty = t) ↔ D.HasField record field t
  calls : ∀ {name : String} {ts : List Ty} {t : Ty}, (∀ s ∈ ts, s.Nameable) →
    ((∃ f, r.resolveCall? name ts = some f ∧ f.result = t) ↔ D.Declares name ts t)

/-- Scopes in which exactly the names of a context are visible; each holds a value of its type. -/
structure Scopes.Shows (scopes : Scopes) (Γ : Context) : Prop where
  types : ∀ name : String, (scopes.find? name).map (·.ty) = Γ.lookup name
  storable : ∀ {name : String} {t : Ty}, Γ.lookup name = some t → t.Storable

namespace Scopes.Shows

theorem find?_eq_none (shows : scopes.Shows Γ) {name : String} :
    scopes.find? name = none ↔ Γ.lookup name = none := by
  rw [← shows.types, Option.map_eq_none_iff]

theorem congr {other : Scopes} (shows : scopes.Shows Γ) (h : other.visible = scopes.visible) :
    other.Shows Γ := by
  refine ⟨?_, shows.storable⟩
  intro name
  rw [Scopes.find?, h]
  exact shows.types name

theorem push (shows : scopes.Shows Γ) : scopes.push.Shows Γ := shows.congr scopes.visible_push

/-- Declaring a name that is not visible makes it visible. -/
theorem declare (shows : scopes.Shows Γ) {name : Ident} {t : Ty} (hfree : Γ.lookup name.name = none)
    (hstorable : t.Storable) :
      ∃ after, declareVariable scopes name t = .ok (scopes.nextSlot, after) ∧
      after.Shows ((name.name, t) :: Γ) := by
  let after : Scopes :=
    ⟨⟨name.name, t, scopes.nextSlot, name.span⟩ :: scopes.innermost, scopes.enclosing,
      scopes.nextSlot + 1⟩
  have hdeclare : declareVariable scopes name t = .ok (scopes.nextSlot, after) := by
    rw [declareVariable, Scopes.declare, shows.find?_eq_none.mpr hfree]
  refine ⟨after, hdeclare, ?_, ?_⟩
  · intro other
    rw [List.lookup_cons, Scopes.find?, Scopes.visible, List.cons_append, List.find?_cons,
      ← shows.types other]
    rw [show (name.name == other) = (other == name.name) from BEq.comm]
    cases other == name.name <;> rfl
  · intro other s hs
    rw [List.lookup_cons] at hs
    split at hs
    · cases hs
      exact hstorable
    · exact shows.storable hs

/-- Names that are declared were not visible. -/
theorem of_declare (shows : scopes.Shows Γ) {name : Ident} {t : Ty} {slot : Nat} {after : Scopes}
    (h : declareVariable scopes name t = .ok (slot, after)) : Γ.lookup name.name = none := by
  rw [← shows.find?_eq_none]
  unfold declareVariable Scopes.declare at h
  cases hfound : scopes.find? name.name with
  | none => rfl
  | some existing =>
      rw [hfound] at h
      simp at h

end Scopes.Shows

/-! ## Types of expressions -/

namespace Registry.Knows

open Declarations

/-- A type that the rules give an expression can be named. -/
theorem nameable_of_hasType (knows : r.Knows D) (shows : scopes.Shows Γ) {e : Expr} {t : Ty}
    (h : D.HasType Γ e t) : t.Nameable := by
  cases h with
  | number => trivial
  | boolean => trivial
  | string => trivial
  | reference hfound => exact (shows.storable hfound).2
  | call _ hdeclares =>
      obtain ⟨heading, -, -, htypes⟩ := hdeclares
      exact knows.named.nameable htypes.2
  | field _ hfield =>
      obtain ⟨d, -, -, f, -, -, hstores⟩ := hfield
      exact knows.named.nameable hstores.1
  | unary _ hop => exact (UnaryOp.storable_of_result? (UnaryOp.yields_iff.mp hop)).2.2
  | binary _ _ hop => exact (BinaryOp.storable_of_result? (BinaryOp.yields_iff.mp hop)).2.2.2

theorem nameable_of_haveTypes (knows : r.Knows D) (shows : scopes.Shows Γ) :
    ∀ {es : List Expr} {ts : List Ty}, D.HaveTypes Γ es ts → ∀ t ∈ ts, t.Nameable
  | _, _, .nil => by simp
  | _, _, .cons he hes => by
      intro t ht
      rcases List.mem_cons.mp ht with rfl | ht
      · exact nameable_of_hasType knows shows he
      · exact nameable_of_haveTypes knows shows hes t ht

/-- What can be assigned to is not nothing. -/
theorem storable_of_isAssignable (knows : r.Knows D) (shows : scopes.Shows Γ) {e : Expr} {t : Ty}
    (h : D.HasType Γ e t) (he : e.isAssignable = true) : t.Storable := by
  cases h with
  | reference hfound => exact shows.storable hfound
  | field _ hfield =>
      obtain ⟨d, -, -, f, -, -, hstores⟩ := hfield
      exact knows.named.storable hstores
  | _ => cases he

mutual

/-- **Checking gives expressions types by the rules.** -/
theorem hasType_of_checkExpr (knows : r.Knows D) (shows : scopes.Shows Γ) :
    ∀ (e : Expr) {checked : Expr} {t : Ty}, checkExpr r scopes e = .ok (checked, t) →
    D.HasType Γ e t
  | .number i v, checked, t, h => by
      cases h
      exact .number
  | .boolean i v, checked, t, h => by
      cases h
      exact .boolean
  | .string i v, checked, t, h => by
      cases h
      exact .string
  | .reference i name slot, checked, t, h => by
      obtain ⟨symbol, hfound, rfl, rfl⟩ := checkExpr_reference_eq_ok.mp h
      refine .reference ?_
      rw [← shows.types, hfound, Option.map_some]
  | .call i name arguments callee, checked, t, h => by
      obtain ⟨all, f, hall, hfound, rfl, rfl⟩ := checkExpr_call_eq_ok.mp h
      have htypes := haveTypes_of_checkExprs knows shows arguments hall
      exact .call htypes
        ((knows.calls (nameable_of_haveTypes knows shows htypes)).mp ⟨f, hfound, rfl⟩)
  | .field i record name, checked, t, h => by
      obtain ⟨inner, recordName, f, hinner, hfound, rfl, rfl⟩ := checkExpr_field_eq_ok.mp h
      exact .field (hasType_of_checkExpr knows shows record hinner)
        (knows.fields.mp ⟨f, hfound, rfl⟩)
  | .unary i op operand, checked, t, h => by
      obtain ⟨inner, innerTy, hinner, hop, rfl⟩ := checkExpr_unary_eq_ok.mp h
      exact .unary (hasType_of_checkExpr knows shows operand hinner) (UnaryOp.yields_iff.mpr hop)
  | .binary i op left right, checked, t, h => by
      obtain ⟨first, firstTy, second, secondTy, hfirst, hsecond, hop, rfl⟩ :=
        checkExpr_binary_eq_ok.mp h
      exact .binary (hasType_of_checkExpr knows shows left hfirst)
        (hasType_of_checkExpr knows shows right hsecond) (BinaryOp.yields_iff.mpr hop)

theorem haveTypes_of_checkExprs (knows : r.Knows D) (shows : scopes.Shows Γ) :
    ∀ (es : List Expr) {checked : List (Expr × Ty)}, checkExprs r scopes es = .ok checked →
      D.HaveTypes Γ es (checked.map (·.2))
  | [], checked, h => by
      cases h
      exact .nil
  | e :: es, checked, h => by
      obtain ⟨first, others, hfirst, hothers, rfl⟩ := checkExprs_cons_eq_ok.mp h
      exact .cons (hasType_of_checkExpr knows shows e hfirst)
        (haveTypes_of_checkExprs knows shows es hothers)

end

mutual

/-- **An expression that has a type by the rules is checked to have it.** -/
theorem checkExpr_of_hasType (knows : r.Knows D) (shows : scopes.Shows Γ) :
    ∀ (e : Expr) {t : Ty}, D.HasType Γ e t → ∃ checked, checkExpr r scopes e = .ok (checked, t)
  | .number i v, t, h => by
      cases h
      exact ⟨_, rfl⟩
  | .boolean i v, t, h => by
      cases h
      exact ⟨_, rfl⟩
  | .string i v, t, h => by
      cases h
      exact ⟨_, rfl⟩
  | .reference i name slot, t, h => by
      cases h with
      | reference hfound =>
          rw [← shows.types] at hfound
          obtain ⟨symbol, hsymbol, rfl⟩ := Option.map_eq_some_iff.mp hfound
          exact ⟨_, checkExpr_reference_eq_ok.mpr ⟨symbol, hsymbol, rfl, rfl⟩⟩
  | .call i name arguments callee, t, h => by
      cases h with
      | call htypes hdeclares =>
          obtain ⟨all, hall, rfl⟩ := checkExprs_of_haveTypes knows shows arguments htypes
          obtain ⟨f, hfound, rfl⟩ :=
            (knows.calls (nameable_of_haveTypes knows shows htypes)).mpr hdeclares
          exact ⟨_, checkExpr_call_eq_ok.mpr ⟨all, f, hall, hfound, rfl, rfl⟩⟩
  | .field i record name, t, h => by
      cases h with
      | field hrecord hfield =>
          obtain ⟨inner, hinner⟩ := checkExpr_of_hasType knows shows record hrecord
          obtain ⟨f, hfound, rfl⟩ := knows.fields.mpr hfield
          exact ⟨_, checkExpr_field_eq_ok.mpr ⟨inner, _, f, hinner, hfound, rfl, rfl⟩⟩
  | .unary i op operand, t, h => by
      cases h with
      | unary hoperand hop =>
          obtain ⟨inner, hinner⟩ := checkExpr_of_hasType knows shows operand hoperand
          exact ⟨_, checkExpr_unary_eq_ok.mpr ⟨inner, _, hinner, UnaryOp.yields_iff.mp hop, rfl⟩⟩
  | .binary i op left right, t, h => by
      cases h with
      | binary hleft hright hop =>
          obtain ⟨first, hfirst⟩ := checkExpr_of_hasType knows shows left hleft
          obtain ⟨second, hsecond⟩ := checkExpr_of_hasType knows shows right hright
          exact ⟨_, checkExpr_binary_eq_ok.mpr ⟨first, _, second, _, hfirst, hsecond,
            BinaryOp.yields_iff.mp hop, rfl⟩⟩

theorem checkExprs_of_haveTypes (knows : r.Knows D) (shows : scopes.Shows Γ) :
    ∀ (es : List Expr) {ts : List Ty}, D.HaveTypes Γ es ts →
      ∃ checked, checkExprs r scopes es = .ok checked ∧ checked.map (·.2) = ts
  | [], ts, h => by
      cases h
      exact ⟨[], rfl, rfl⟩
  | e :: es, ts, h => by
      cases h with
      | cons he hes =>
          obtain ⟨first, hfirst⟩ := checkExpr_of_hasType knows shows e he
          obtain ⟨others, hothers, rfl⟩ := checkExprs_of_haveTypes knows shows es hes
          exact ⟨_, checkExprs_cons_eq_ok.mpr ⟨_, others, hfirst, hothers, rfl⟩, rfl⟩

end

theorem onlyType_of_hasType (knows : r.Knows D) (shows : scopes.Shows Γ) {e : Expr} {t : Ty}
    (h : D.HasType Γ e t) : D.OnlyType Γ e t := by
  intro u
  constructor
  · intro hu
    obtain ⟨checked, hchecked⟩ := checkExpr_of_hasType knows shows e h
    obtain ⟨other, hother⟩ := checkExpr_of_hasType knows shows e hu
    rw [hchecked] at hother
    exact (Prod.mk.inj (Except.ok.inj hother)).2.symm
  · rintro rfl
    exact h

/-- **The type that checking finds is the only one that the rules give.** -/
theorem onlyType_of_checkExpr (knows : r.Knows D) (shows : scopes.Shows Γ) {e checked : Expr}
    {t : Ty} (h : checkExpr r scopes e = .ok (checked, t)) : D.OnlyType Γ e t :=
  onlyType_of_hasType knows shows (hasType_of_checkExpr knows shows e h)

/-! ## Annotations of expressions -/

/-- Where a comparison is replaced, the rules give the call of `equals` a truth value, too. -/
theorem onlyType_equals (knows : r.Knows D) (shows : scopes.Shows Γ) {i : ExprInfo}
    {left right : Expr} {t : Ty} {callee : Callee} (hleft : D.HasType Γ left t)
    (hright : D.HasType Γ right t) (h : r.equality? t = some callee) :
    D.OnlyType Γ (.call i ⟨equalsName, i.span⟩ [left, right] none) .boolean := by
  have hname := nameable_of_hasType knows shows hleft
  unfold Registry.equality? at h
  split at h
  · obtain ⟨f, hf, -⟩ := Option.map_eq_some_iff.mp h
    obtain ⟨hfound, hresult⟩ := Option.filter_eq_some_iff.mp hf
    have hdeclares := (knows.calls (by simpa using hname)).mp ⟨f, hfound, by simpa using hresult⟩
    exact onlyType_of_hasType knows shows (.call (.cons hleft (.cons hright .nil)) hdeclares)
  · cases h

theorem annotated_checkedBinary (knows : r.Knows D) (shows : scopes.Shows Γ) {i : ExprInfo}
    {op : BinaryOp} {left right left' right' : Expr} {s s' t : Ty} (hleft : D.HasType Γ left s)
    (hright : D.HasType Γ right s') (hop : op.Yields s s' t) (hleft' : D.Annotated Γ left left')
    (hright' : D.Annotated Γ right right') :
    D.Annotated Γ (.binary i op left right)
      (checkedBinary r ⟨i.span, some t⟩ op left' right' s) := by
  have honly : D.OnlyType Γ (.binary i op left right) t :=
    onlyType_of_hasType knows shows (.binary hleft hright hop)
  have hresult := BinaryOp.yields_iff.mp hop
  unfold checkedBinary
  split
  · next callee hcallee =>
      simp only [BinaryOp.result?] at hresult
      split at hresult
      · next hsame =>
          cases hresult
          exact .equal honly (onlyType_equals knows shows hleft (hsame.1 ▸ hright) hcallee)
            hleft' hright'
      · cases hresult
  · next callee hcallee =>
      simp only [BinaryOp.result?] at hresult
      split at hresult
      · next hsame =>
          exact .notEqual honly (onlyType_equals knows shows hleft (hsame.1 ▸ hright) hcallee)
            hleft' hright'
      · cases hresult
  · exact .binary honly hleft' hright'

mutual

/-- **At every node checking writes the only type that the rules give.** -/
theorem annotated_of_checkExpr (knows : r.Knows D) (shows : scopes.Shows Γ) :
    ∀ (e : Expr) {checked : Expr} {t : Ty}, checkExpr r scopes e = .ok (checked, t) →
    D.Annotated Γ e checked
  -- The type belongs to the whole node, so it is taken before the node is opened.
  | .number i v, checked, t, h => by
      have honly := onlyType_of_checkExpr knows shows h
      cases h
      exact .number honly
  | .boolean i v, checked, t, h => by
      have honly := onlyType_of_checkExpr knows shows h
      cases h
      exact .boolean honly
  | .string i v, checked, t, h => by
      have honly := onlyType_of_checkExpr knows shows h
      cases h
      exact .string honly
  | .reference i name slot, checked, t, h => by
      have honly := onlyType_of_checkExpr knows shows h
      obtain ⟨symbol, -, rfl, rfl⟩ := checkExpr_reference_eq_ok.mp h
      exact .reference honly
  | .call i name arguments callee, checked, t, h => by
      have honly := onlyType_of_checkExpr knows shows h
      obtain ⟨all, f, hall, -, rfl, rfl⟩ := checkExpr_call_eq_ok.mp h
      exact .call honly (allAnnotated_of_checkExprs knows shows arguments hall)
  | .field i record name, checked, t, h => by
      have honly := onlyType_of_checkExpr knows shows h
      obtain ⟨inner, recordName, f, hinner, -, rfl, rfl⟩ := checkExpr_field_eq_ok.mp h
      exact .field honly (annotated_of_checkExpr knows shows record hinner)
  | .unary i op operand, checked, t, h => by
      have honly := onlyType_of_checkExpr knows shows h
      obtain ⟨inner, innerTy, hinner, -, rfl⟩ := checkExpr_unary_eq_ok.mp h
      exact .unary honly (annotated_of_checkExpr knows shows operand hinner)
  | .binary i op left right, checked, t, h => by
      obtain ⟨first, firstTy, second, secondTy, hfirst, hsecond, hop, rfl⟩ :=
        checkExpr_binary_eq_ok.mp h
      exact annotated_checkedBinary knows shows (hasType_of_checkExpr knows shows left hfirst)
        (hasType_of_checkExpr knows shows right hsecond) (BinaryOp.yields_iff.mpr hop)
        (annotated_of_checkExpr knows shows left hfirst)
          (annotated_of_checkExpr knows shows right hsecond)

theorem allAnnotated_of_checkExprs (knows : r.Knows D) (shows : scopes.Shows Γ) :
    ∀ (es : List Expr) {checked : List (Expr × Ty)}, checkExprs r scopes es = .ok checked →
      D.AllAnnotated Γ es (checked.map (·.1))
  | [], checked, h => by
      cases h
      exact .nil
  | e :: es, checked, h => by
      obtain ⟨first, others, hfirst, hothers, rfl⟩ := checkExprs_cons_eq_ok.mp h
      exact .cons (annotated_of_checkExpr knows shows e hfirst)
        (allAnnotated_of_checkExprs knows shows es hothers)

end

end Registry.Knows

/-! ## Statements -/

/-- What the rules have to know of a function whose body is checked. -/
def BodyContext.surroundings (ctx : BodyContext) : Surroundings := ⟨ctx.resultTy, ctx.isMain⟩

namespace Registry.Knows

open Declarations

variable {ctx : BodyContext} {inLoop : Bool}

mutual

/-- **Checked statements keep the rules, and their expressions bear the types that the rules
give.** -/
theorem keeps_of_checkStmt (knows : ctx.registry.Knows D) :
    ∀ (s : Stmt) {inLoop : Bool} {scopes after : Scopes} {Γ : Context} {checked : Stmt},
      s.TargetsAssignable →
      scopes.Shows Γ → checkStmt ctx inLoop scopes s = .ok (checked, after) →
      ∃ Γ', D.StmtKeeps ctx.surroundings inLoop Γ s Γ' ∧ D.StmtAnnotated Γ s checked Γ' ∧
      after.Shows Γ'
  | .expr e, inLoop, scopes, after, Γ, checked, htargets, shows, h => by
      obtain ⟨inner, t, hinner, rfl, rfl⟩ := checkStmt_expr_eq_ok.mp h
      exact ⟨Γ, .expr (knows.hasType_of_checkExpr shows e hinner),
        .expr (knows.annotated_of_checkExpr shows e hinner), shows⟩
  | .var decl, inLoop, scopes, after, Γ, checked, htargets, shows, h => by
      obtain ⟨inner, hinner, rfl⟩ := checkStmt_var_eq_ok.mp h
      obtain ⟨value, t, hvalue, hdeclare, hne, hwritten, rfl⟩ := checkVariable_eq_ok.mp hinner
      have htype := knows.hasType_of_checkExpr shows decl.value hvalue
      have hfree := shows.of_declare hdeclare
      obtain ⟨last, hlast, hshows⟩ :=
        shows.declare hfree ⟨hne, knows.nameable_of_hasType shows htype⟩
      obtain rfl : last = after := (Prod.mk.inj (Except.ok.inj (hlast.symm.trans hdeclare))).2
      refine ⟨_, .var htype hne (fun written hmem => (knows.types _ _).mp (hwritten written hmem))
        hfree, ?_, hshows⟩
      exact .var (knows.annotated_of_checkExpr shows decl.value hvalue)
        (knows.onlyType_of_checkExpr shows hvalue)
  | .assign target value span, inLoop, scopes, after, Γ, checked, htargets, shows, h => by
      obtain ⟨first, second, t, hfirst, hsecond, rfl, rfl⟩ := checkStmt_assign_eq_ok.mp h
      have htarget := knows.hasType_of_checkExpr shows target hsecond
      -- Checking does not ask for this: a variable or field never has the type nothing.
      have hne := (knows.storable_of_isAssignable shows htarget htargets).1
      exact ⟨Γ, .assign (knows.hasType_of_checkExpr shows value hfirst) htarget hne,
        .assign (knows.annotated_of_checkExpr shows target hsecond)
          (knows.annotated_of_checkExpr shows value hfirst),
        shows⟩
  | .cond condition thenBlock elseBlock span, inLoop, scopes, after, Γ, checked, htargets,
      shows, h => by
      obtain ⟨test, first, afterThen, second, afterElse, htest, hfirst, hsecond, rfl, rfl⟩ :=
        checkStmt_cond_eq_ok.mp h
      -- The alternative is checked behind the closed first block, where the names from before it
      -- are visible again.
      have hbetween := shows.congr (checkStmts_widens thenBlock hfirst).visible_pop
      obtain ⟨Γ₁, hthen, hthen', -⟩ :=
        keepAll_of_checkStmts knows thenBlock htargets.1 shows.push hfirst
      obtain ⟨Γ₂, helse, helse', -⟩ :=
        keepAll_of_checkStmts knows elseBlock htargets.2 hbetween.push hsecond
      exact ⟨Γ, .cond (knows.hasType_of_checkExpr shows condition htest) hthen helse,
        .cond (knows.annotated_of_checkExpr shows condition htest) hthen' helse',
        hbetween.congr (checkStmts_widens elseBlock hsecond).visible_pop⟩
  | .whileLoop condition body span, inLoop, scopes, after, Γ, checked, htargets, shows, h => by
      obtain ⟨test, inner, afterBody, htest, hinner, rfl, rfl⟩ := checkStmt_whileLoop_eq_ok.mp h
      obtain ⟨Γ', hbody, hbody', -⟩ := keepAll_of_checkStmts knows body htargets shows.push hinner
      exact ⟨Γ, .whileLoop (knows.hasType_of_checkExpr shows condition htest) hbody,
        .whileLoop (knows.annotated_of_checkExpr shows condition htest) hbody',
        shows.congr (checkStmts_widens body hinner).visible_pop⟩
  | .repeatLoop count body span, inLoop, scopes, after, Γ, checked, htargets, shows, h => by
      obtain ⟨times, inner, afterBody, htimes, hinner, rfl, rfl⟩ := checkStmt_repeatLoop_eq_ok.mp h
      obtain ⟨Γ', hbody, hbody', -⟩ := keepAll_of_checkStmts knows body htargets shows.push hinner
      exact ⟨Γ, .repeatLoop (knows.hasType_of_checkExpr shows count htimes) hbody,
        .repeatLoop (knows.annotated_of_checkExpr shows count htimes) hbody',
        shows.congr (checkStmts_widens body hinner).visible_pop⟩
  | .ret value span, inLoop, scopes, after, Γ, checked, htargets, shows, h => by
      obtain ⟨hchecked, rfl⟩ := checkStmt_ret_eq_ok.mp h
      rcases checkReturn_eq_ok.mp hchecked with ⟨e, result, rfl, hmain, hresult, hne, rfl⟩ |
        ⟨rfl, hnothing, rfl⟩
      · exact ⟨Γ, .retValue hmain (knows.hasType_of_checkExpr shows e hresult) hne,
          .retValue (knows.annotated_of_checkExpr shows e hresult), shows⟩
      · exact ⟨Γ, .retNothing hnothing, .retNothing, shows⟩
  | .breakLoop span, inLoop, scopes, after, Γ, checked, htargets, shows, h => by
      obtain ⟨rfl, rfl, rfl⟩ := checkStmt_breakLoop_eq_ok.mp h
      exact ⟨Γ, .breakLoop, .breakLoop, shows⟩
  | .continueLoop span, inLoop, scopes, after, Γ, checked, htargets, shows, h => by
      obtain ⟨rfl, rfl, rfl⟩ := checkStmt_continueLoop_eq_ok.mp h
      exact ⟨Γ, .continueLoop, .continueLoop, shows⟩
  | .comment text span, inLoop, scopes, after, Γ, checked, htargets, shows, h => by
      cases h
      exact ⟨Γ, .comment, .comment, shows⟩

theorem keepAll_of_checkStmts (knows : ctx.registry.Knows D) :
    ∀ (ss : List Stmt) {inLoop : Bool} {scopes after : Scopes} {Γ : Context} {checked : List Stmt},
      Stmt.AllTargetsAssignable ss → scopes.Shows Γ →
      checkStmts ctx inLoop scopes ss = .ok (checked, after) →
      ∃ Γ', D.StmtsKeep ctx.surroundings inLoop Γ ss Γ' ∧ D.StmtsAnnotated Γ ss checked Γ' ∧
      after.Shows Γ'
  | [], inLoop, scopes, after, Γ, checked, htargets, shows, h => by
      cases h
      exact ⟨Γ, .nil, .nil, shows⟩
  | s :: rest, inLoop, scopes, after, Γ, checked, htargets, shows, h => by
      obtain ⟨first, next, others, hfirst, hothers, rfl⟩ := checkStmts_cons_eq_ok.mp h
      obtain ⟨Γ₁, hkeeps, hannotated, hshows⟩ := keeps_of_checkStmt knows s htargets.1 shows hfirst
      obtain ⟨Γ₂, hrest, hrest', hshows'⟩ :=
        keepAll_of_checkStmts knows rest htargets.2 hshows hothers
      exact ⟨Γ₂, .cons hkeeps hrest, .cons hannotated hrest', hshows'⟩

end

mutual

/-- **Statements that keep the rules are checked.** -/
theorem checkStmt_of_keeps (knows : ctx.registry.Knows D) :
    ∀ (s : Stmt) {inLoop : Bool} {scopes : Scopes} {Γ Γ' : Context}, scopes.Shows Γ →
      D.StmtKeeps ctx.surroundings inLoop Γ s Γ' →
      ∃ checked after, checkStmt ctx inLoop scopes s = .ok (checked, after) ∧ after.Shows Γ'
  | .expr e, inLoop, scopes, Γ, Γ', shows, h => by
      cases h with
      | expr htype =>
          obtain ⟨inner, hinner⟩ := knows.checkExpr_of_hasType shows e htype
          exact ⟨_, _, checkStmt_expr_eq_ok.mpr ⟨inner, _, hinner, rfl, rfl⟩, shows⟩
  | .var decl, inLoop, scopes, Γ, Γ', shows, h => by
      cases h with
      | var htype hne hwritten hfree =>
          obtain ⟨value, hvalue⟩ := knows.checkExpr_of_hasType shows decl.value htype
          obtain ⟨after, hdeclare, hshows⟩ :=
            shows.declare hfree ⟨hne, knows.nameable_of_hasType shows htype⟩
          have hchecked := checkVariable_eq_ok.mpr ⟨value, _, hvalue, hdeclare, hne,
            fun written hmem => (knows.types _ _).mpr (hwritten written hmem), rfl⟩
          exact ⟨_, after, checkStmt_var_eq_ok.mpr ⟨_, hchecked, rfl⟩, hshows⟩
  | .assign target value span, inLoop, scopes, Γ, Γ', shows, h => by
      cases h with
      | assign hvalue htarget hne =>
          obtain ⟨first, hfirst⟩ := knows.checkExpr_of_hasType shows value hvalue
          obtain ⟨second, hsecond⟩ := knows.checkExpr_of_hasType shows target htarget
          exact ⟨_, _, checkStmt_assign_eq_ok.mpr ⟨first, second, _, hfirst, hsecond, rfl, rfl⟩,
            shows⟩
  | .cond condition thenBlock elseBlock span, inLoop, scopes, Γ, Γ', shows, h => by
      cases h with
      | cond htest hthen helse =>
          obtain ⟨test, htest⟩ := knows.checkExpr_of_hasType shows condition htest
          obtain ⟨first, afterThen, hfirst, -⟩ :=
            checkStmts_of_keepAll knows thenBlock shows.push hthen
          have hbetween := shows.congr (checkStmts_widens thenBlock hfirst).visible_pop
          obtain ⟨second, afterElse, hsecond, -⟩ :=
            checkStmts_of_keepAll knows elseBlock hbetween.push helse
          exact ⟨_, _, checkStmt_cond_eq_ok.mpr
            ⟨test, first, afterThen, second, afterElse, htest, hfirst, hsecond, rfl, rfl⟩,
            hbetween.congr (checkStmts_widens elseBlock hsecond).visible_pop⟩
  | .whileLoop condition body span, inLoop, scopes, Γ, Γ', shows, h => by
      cases h with
      | whileLoop htest hbody =>
          obtain ⟨test, htest⟩ := knows.checkExpr_of_hasType shows condition htest
          obtain ⟨inner, afterBody, hinner, -⟩ := checkStmts_of_keepAll knows body shows.push hbody
          exact ⟨_, _, checkStmt_whileLoop_eq_ok.mpr ⟨test, inner, afterBody, htest, hinner,
            rfl, rfl⟩, shows.congr (checkStmts_widens body hinner).visible_pop⟩
  | .repeatLoop count body span, inLoop, scopes, Γ, Γ', shows, h => by
      cases h with
      | repeatLoop htimes hbody =>
          obtain ⟨times, htimes⟩ := knows.checkExpr_of_hasType shows count htimes
          obtain ⟨inner, afterBody, hinner, -⟩ := checkStmts_of_keepAll knows body shows.push hbody
          exact ⟨_, _, checkStmt_repeatLoop_eq_ok.mpr ⟨times, inner, afterBody, htimes, hinner,
            rfl, rfl⟩, shows.congr (checkStmts_widens body hinner).visible_pop⟩
  | .ret value span, inLoop, scopes, Γ, Γ', shows, h => by
      cases h with
      | retValue hmain htype hne =>
          obtain ⟨inner, hinner⟩ := knows.checkExpr_of_hasType shows _ htype
          have hchecked : checkReturn ctx scopes _ span = _ :=
            checkReturn_eq_ok.mpr (.inl ⟨_, inner, rfl, hmain, hinner, hne, rfl⟩)
          exact ⟨_, _, checkStmt_ret_eq_ok.mpr ⟨hchecked, rfl⟩, shows⟩
      | retNothing hnothing =>
          have hchecked : checkReturn ctx scopes none span = _ :=
            checkReturn_eq_ok.mpr (.inr ⟨rfl, hnothing, rfl⟩)
          exact ⟨_, _, checkStmt_ret_eq_ok.mpr ⟨hchecked, rfl⟩, shows⟩
  | .breakLoop span, inLoop, scopes, Γ, Γ', shows, h => by
      cases h
      exact ⟨_, _, checkStmt_breakLoop_eq_ok.mpr ⟨rfl, rfl, rfl⟩, shows⟩
  | .continueLoop span, inLoop, scopes, Γ, Γ', shows, h => by
      cases h
      exact ⟨_, _, checkStmt_continueLoop_eq_ok.mpr ⟨rfl, rfl, rfl⟩, shows⟩
  | .comment text span, inLoop, scopes, Γ, Γ', shows, h => by
      cases h
      exact ⟨_, _, rfl, shows⟩

theorem checkStmts_of_keepAll (knows : ctx.registry.Knows D) :
    ∀ (ss : List Stmt) {inLoop : Bool} {scopes : Scopes} {Γ Γ' : Context}, scopes.Shows Γ →
      D.StmtsKeep ctx.surroundings inLoop Γ ss Γ' →
      ∃ checked after, checkStmts ctx inLoop scopes ss = .ok (checked, after) ∧ after.Shows Γ'
  | [], inLoop, scopes, Γ, Γ', shows, h => by
      cases h
      exact ⟨[], scopes, rfl, shows⟩
  | s :: rest, inLoop, scopes, Γ, Γ', shows, h => by
      cases h with
      | cons hkeeps hrest =>
          obtain ⟨first, next, hfirst, hshows⟩ := checkStmt_of_keeps knows s shows hkeeps
          obtain ⟨others, last, hothers, hshows'⟩ := checkStmts_of_keepAll knows rest hshows hrest
          exact ⟨_, last, checkStmts_cons_eq_ok.mpr ⟨first, next, others, hfirst, hothers, rfl⟩,
            hshows'⟩

end

end Registry.Knows

end Stepwise
