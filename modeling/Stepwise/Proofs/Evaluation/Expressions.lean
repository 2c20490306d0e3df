import Stepwise.Proofs.Evaluation.Naming
import Stepwise.Proofs.Evaluation.Pace

/-!
# Expressions keep pace

The code of a checked expression does what evaluating the expression as it was read does: it pushes
the value, if the expression has one, and makes the same calls. The slots that checking has noted
hold the variables that evaluating finds by name, and the call that checking has put in the place of
a comparison of records is the call that evaluating makes there.

What functions do is left open here: calls are answered as the machine carries them out
(`Answering.Paced`).
-/

set_option autoImplicit false

namespace Stepwise

open Machine

variable {σ : Type}

/-- The machine keeps pace with the answers to calls, wherever the instruction that calls stands. -/
def Answering.Paced (answer : Answering σ) (arrows : Callee → Option Arrow) (module : Module σ)
    (n : Nat) : Prop :=
  ∀ {A : Site σ} {code : FunctionCode} {callee : Callee} {xs : List TypedValue} {result : Ty}
    {pc : Nat}
    {slots stack : List Value} {out : Effects σ},
    A.machine.module = module → A.Runs code →
    code.instructions.toList[pc]? = some callee.instruction →
    arrows callee = some ⟨xs.map (·.ty), result⟩ →
    Pace n (A.here pc slots ((xs.map (·.value)).reverse ++ stack) out) (answer callee xs out)
      fun r y =>
      y = A.here (pc + 1) slots (result.pushValue r.1 stack) r.2

/-- The field that checking finds is the one that evaluating finds. -/
theorem Registry.fieldAt?_of_field? {r : Registry} {recordName name : String} {f : RecordField}
    (h : (r.record? recordName).bind (·.field? name) = some f) :
    ∃ index, r.fieldAt? (.record recordName) name = some (index, f.ty) := by
  obtain ⟨recordType, hrecord, hf⟩ := Option.bind_eq_some_iff.mp h
  obtain ⟨index, hindex, hat⟩ := RecordType.fieldIndex?_of_field? hf
  refine ⟨index, ?_⟩
  simp [Registry.fieldAt?, hrecord, hindex, hat]

/-- The field that the code loads or stores is the one that evaluating finds. -/
theorem Registry.fieldPlace?_of_fieldAt? {r : Registry} {t fieldTy : Ty} {name : String}
    {index : Nat} (h : r.fieldAt? t name = some (index, fieldTy)) :
    r.fieldPlace? t name = some index := by
  cases t with
  | record recordName =>
      obtain ⟨record, hrecord, h⟩ := Option.bind_eq_some_iff.mp h
      obtain ⟨place, hplace, h⟩ := Option.bind_eq_some_iff.mp h
      obtain ⟨field, -, h⟩ := Option.bind_eq_some_iff.mp h
      cases h
      rw [Registry.fieldPlace?, hrecord]
      exact hplace
  | _ => cases h

/-! ## Binary operators -/

/-- The instructions of a binary operator behind those of its operands. -/
def Registry.operatorCode (r : Registry) (op : BinaryOp) (t : Ty) : List Instruction :=
  match op, r.equality? t with
  | .equal, some callee => [callee.instruction]
  | .notEqual, some callee => [callee.instruction, .unary .not]
  | _, _ => [binaryInstruction op]

/-- What checking makes of a binary operation has the code of the operands and then that of the
operator. -/
theorem checkedBinary_code (r : Registry) (info : ExprInfo) (op : BinaryOp) (left right : Expr)
    (t : Ty) :
    (checkedBinary r info op left right t).code r = left.code r ++ right.code r ++
      r.operatorCode op t := by
  cases hequality : r.equality? t <;> cases op <;>
    simp [checkedBinary, Registry.operatorCode, hequality, Expr.code, Expr.codes, equalsCall]

section Pacing

variable {C : BodyTyping} {known : List Nat} {scopes : Scopes} {s : Setting σ}
    {answer : Answering σ}
    {module : Module σ} {n : Nat} {A : Site σ} {code : FunctionCode} {slots : List Value}
    {vars : Variables}

/-- The code of a binary operator keeps pace with applying it. -/
theorem Setting.pace_applyBinary (paced : answer.Paced C.arrows module n)
    (sound : C.registry.Sound C.arrows) (hs : s.registry = C.registry)
    (hmodule : A.machine.module = module) (hruns : A.Runs code) {op : BinaryOp} {x y : TypedValue}
    {result : Ty} (hname : x.ty.Nameable) (hop : op.result? x.ty y.ty = some result) {pc : Nat}
    {stack : List Value} {out : Effects σ}
    (hcode : CodeAt code.instructions.toList pc (C.registry.operatorCode op x.ty)) :
    Pace n (A.here pc slots (y.value :: x.value :: stack) out) (s.applyBinary answer op x y out)
      fun r z =>
      z = A.here (pc + (C.registry.operatorCode op x.ty).length) slots (r.1 :: stack) r.2 := by
  have hplain : (s.applyBinary answer op x y out = some (op.apply x.value y.value, out) ∧
      C.registry.operatorCode op x.ty = [binaryInstruction op]) ∨
      ∃ callee, C.registry.equality? x.ty = some callee ∧ (op = .equal ∨ op = .notEqual) := by
    cases hequality : C.registry.equality? x.ty <;> cases op <;>
      simp [Setting.applyBinary, Registry.operatorCode, hs, hequality]
  rcases hplain with ⟨happly, hoperator⟩ | ⟨callee, hcallee, hcompares⟩
  · rw [hoperator] at hcode ⊢
    rw [happly]
    exact .goes (.of_traced (Site.binary hruns op hcode.head x.value y.value)) (.pure rfl)
  · obtain ⟨harrow, -⟩ := sound.equality? hname hcallee
    have hsame : x.ty = y.ty := by
      rcases hcompares with rfl | rfl <;>
      · simp only [BinaryOp.result?] at hop
        split at hop
        · next h => exact h.1
        · cases hop
    have hcall (h : code.instructions.toList[pc]? = some callee.instruction) :
        Pace n (A.here pc slots (([x, y].map (·.value)).reverse ++ stack) out)
          (answer callee [x, y] out) fun r z =>
          z = A.here (pc + 1) slots (Ty.boolean.pushValue r.1 stack) r.2 :=
      paced hmodule hruns h (by rw [harrow, List.map_cons, List.map_cons, ← hsame]; rfl)
    rcases hcompares with rfl | rfl
    · simp only [Setting.applyBinary, Registry.operatorCode, hs, hcallee] at hcode ⊢
      exact hcall hcode.head
    · simp only [Setting.applyBinary, Registry.operatorCode, hs, hcallee] at hcode ⊢
      refine .bind (hcall hcode.head) ?_
      rintro ⟨v, out⟩ z rfl
      exact .goes (.of_traced (Site.unary hruns hcode.tail.head v)) (.pure rfl)

mutual

/-- **The code of an expression keeps pace with its evaluation.** -/
theorem Expr.pace (paced : answer.Paced C.arrows module n) (sound : C.registry.Sound C.arrows)
    (hs : s.registry = C.registry) (hmodule : A.machine.module = module) (hruns : A.Runs code)
    (fits : scopes.Fits C known) (held : Held slots scopes.visible vars) :
    ∀ (e : Expr) {checked : Expr} {t : Ty} {pc : Nat} {stack : List Value} {out : Effects σ},
      checkExpr C.registry scopes e = .ok (checked, t) →
      CodeAt code.instructions.toList pc (checked.code C.registry) →
      Pace n (A.here pc slots stack out) (e.evaluate s answer vars out) fun r y =>
        r.1.ty = t ∧ y = A.here (pc + checked.size) slots (t.pushValue r.1.value stack) r.2
  | .number i v, checked, t, pc, stack, out, h, hcode => by
      cases h
      exact .goes (.of_traced (Site.push hruns hcode.head)) (.pure ⟨rfl, rfl⟩)
  | .boolean i v, checked, t, pc, stack, out, h, hcode => by
      cases h
      exact .goes (.of_traced (Site.push hruns hcode.head)) (.pure ⟨rfl, rfl⟩)
  | .string i v, checked, t, pc, stack, out, h, hcode => by
      cases h
      exact .goes (.of_traced (Site.push hruns hcode.head)) (.pure ⟨rfl, rfl⟩)
  | .reference i name slot, checked, t, pc, stack, out, h, hcode => by
      obtain ⟨symbol, hfound, rfl, rfl⟩ := checkExpr_reference_eq_ok.mp h
      obtain ⟨x, hx, hty, hvalue⟩ := held.read? hfound
      obtain ⟨-, -, hstorable⟩ := fits symbol (List.mem_of_find?_eq_some hfound)
      rw [Expr.evaluate, hx, Option.map_some]
      refine .goes (.of_traced (Site.load hruns hcode.head hvalue)) (.pure ⟨hty, ?_⟩)
      rw [Ty.pushValue_of_ne hstorable.1]
      rfl
  | .call i name arguments callee, checked, t, pc, stack, out, h, hcode => by
      obtain ⟨all, f, hall, hfound, rfl, rfl⟩ := checkExpr_call_eq_ok.mp h
      obtain ⟨harguments, hcall⟩ := hcode.exprs
      obtain ⟨harrow, hstorable, -⟩ :=
        sound.resolveCall? (checkExprs_typed sound fits arguments hall).nameable hfound
      have hne : ∀ t ∈ all.map (·.2), t ≠ .nothing := fun t ht => (hstorable t ht).1
      rw [Expr.evaluate]
      refine .bind
        (Expr.paceAll paced sound hs hmodule hruns fits held arguments hall hne harguments) ?_
      rintro ⟨xs, out⟩ y ⟨hty, rfl⟩
      dsimp only at hty ⊢
      rw [hs, hty, hfound, Option.bind_eq_bind, Option.bind_some]
      refine .bind (paced hmodule hruns hcall.head (hty ▸ harrow)) ?_
      rintro ⟨v, out⟩ y rfl
      refine .pure ⟨rfl, ?_⟩
      rw [Expr.size, ← Nat.add_assoc]
  | .field i record name, checked, t, pc, stack, out, h, hcode => by
      have hne :=
        ((checkExpr_typed sound fits _ h).storable_of_isAssignable
          (isAssignable_of_checkExpr h rfl)).1
      obtain ⟨inner, recordName, f, hinner, hfound, rfl, rfl⟩ := checkExpr_field_eq_ok.mp h
      obtain ⟨index, hfield⟩ := Registry.fieldAt?_of_field? hfound
      obtain ⟨hfirst, hload⟩ := hcode.expr
      rw [(checkExpr_typed sound fits record hinner).ty_eq, Registry.fieldPlace?_of_fieldAt? hfield,
        Option.getD_some] at hload
      rw [Expr.evaluate]
      refine .bind (Expr.pace paced sound hs hmodule hruns fits held record hinner hfirst) ?_
      rintro ⟨x, out⟩ y ⟨hty, rfl⟩
      dsimp only at hty ⊢
      rw [hs, hty, hfield, Option.bind_eq_bind, Option.bind_some]
      refine .goes (.of_traced (Site.loadField hruns hload.head x.value)) (.pure ⟨rfl, ?_⟩)
      rw [Ty.pushValue_of_ne hne]
      rfl
  | .unary i op operand, checked, t, pc, stack, out, h, hcode => by
      obtain ⟨inner, innerTy, hinner, hop, rfl⟩ := checkExpr_unary_eq_ok.mp h
      obtain ⟨hfirst, hunary⟩ := hcode.expr
      obtain ⟨hne, hstorable⟩ := UnaryOp.storable_of_result? hop
      rw [Expr.evaluate]
      refine .bind (Expr.pace paced sound hs hmodule hruns fits held operand hinner hfirst) ?_
      rintro ⟨x, out⟩ y ⟨hty, rfl⟩
      dsimp only at hty ⊢
      rw [hty, hop, Option.bind_eq_bind, Option.bind_some, Ty.pushValue_of_ne hne]
      refine .goes (.of_traced (Site.unary hruns hunary.head x.value)) (.pure ⟨rfl, ?_⟩)
      rw [Ty.pushValue_of_ne hstorable.1]
      rfl
  | .binary i op left right, checked, t, pc, stack, out, h, hcode => by
      obtain ⟨first, firstTy, second, secondTy, hfirst, hsecond, hop, rfl⟩ :=
        checkExpr_binary_eq_ok.mp h
      rw [checkedBinary_code] at hcode
      obtain ⟨hleft, hright, hoperator⟩ := hcode.operands
      obtain ⟨hneLeft, hneRight, hstorable⟩ := BinaryOp.storable_of_result? hop
      have hname := (checkExpr_typed sound fits left hfirst).nameable
      rw [Expr.evaluate]
      refine .bind (Expr.pace paced sound hs hmodule hruns fits held left hfirst hleft) ?_
      rintro ⟨x, out⟩ y ⟨hty, rfl⟩
      rw [Ty.pushValue_of_ne hneLeft]
      refine .bind (Expr.pace paced sound hs hmodule hruns fits held right hsecond hright) ?_
      rintro ⟨z, out⟩ y ⟨hty', rfl⟩
      dsimp only at hty hty' ⊢
      subst hty hty'
      rw [hop, Option.bind_eq_bind, Option.bind_some, Ty.pushValue_of_ne hneRight]
      refine .bind (Setting.pace_applyBinary paced sound hs hmodule hruns hname hop hoperator) ?_
      rintro ⟨v, out⟩ y rfl
      refine .pure ⟨rfl, ?_⟩
      have hsize := congrArg List.length
        (checkedBinary_code C.registry { i with ty := some t } op first second x.ty)
      rw [List.length_append, List.length_append, Expr.length_code, Expr.length_code,
        Expr.length_code] at hsize
      rw [Ty.pushValue_of_ne hstorable.1, hsize, Nat.add_assoc, Nat.add_assoc, Nat.add_assoc]

theorem Expr.paceAll (paced : answer.Paced C.arrows module n) (sound : C.registry.Sound C.arrows)
    (hs : s.registry = C.registry) (hmodule : A.machine.module = module) (hruns : A.Runs code)
    (fits : scopes.Fits C known) (held : Held slots scopes.visible vars) :
    ∀ (es : List Expr) {checked : List (Expr × Ty)} {pc : Nat} {stack : List Value}
      {out : Effects σ},
      checkExprs C.registry scopes es = .ok checked → (∀ t ∈ checked.map (·.2), t ≠ .nothing) →
      CodeAt code.instructions.toList pc (Expr.codes C.registry (checked.map (·.1))) →
      Pace n (A.here pc slots stack out) (Expr.evaluateAll s answer vars es out) fun r y =>
        r.1.map (·.ty) = checked.map (·.2) ∧
          y = A.here (pc + Expr.sizes (checked.map (·.1))) slots
            ((r.1.map (·.value)).reverse ++ stack) r.2
  | [], checked, pc, stack, out, h, hne, hcode => by
      cases h
      exact .pure ⟨rfl, rfl⟩
  | e :: es, checked, pc, stack, out, h, hne, hcode => by
      obtain ⟨⟨first, firstTy⟩, others, hfirst, hothers, rfl⟩ := checkExprs_cons_eq_ok.mp h
      obtain ⟨hhead, htail⟩ := hcode.expr
      rw [Expr.evaluateAll]
      refine .bind (Expr.pace paced sound hs hmodule hruns fits held e hfirst hhead) ?_
      rintro ⟨x, out⟩ y ⟨hty, rfl⟩
      dsimp only at hty ⊢
      rw [Ty.pushValue_of_ne (hne _ List.mem_cons_self)]
      refine .bind (Expr.paceAll paced sound hs hmodule hruns fits held es hothers
        (fun t ht => hne t (List.mem_cons_of_mem _ ht)) htail) ?_
      rintro ⟨xs, out⟩ y ⟨htys, rfl⟩
      dsimp only at htys ⊢
      refine .pure ⟨by simp [hty, htys], ?_⟩
      simp [Expr.sizes, Nat.add_assoc]

end

end Pacing

end Stepwise
