import Stepwise.Proofs.Code.Compiled

/-!
# The operands at every instruction

What is on the stack when an instruction is next follows from the tree: the values of the operands
to the left of it, and one counter for every repetition around it. `ExprInside` and `StmtInside`
say, instruction by instruction, which types these operands have and which slots hold a value; they
do not look at the instruction.

`Fits` is what an instruction asks of these operands and what it leaves for the instructions it may
go on with. The code of a typed tree fits everywhere: `Expr.fits`, `Stmt.fits`, `FunctionDecl.fits`.
Jumps lead to where the operands are those from before the jump, so the operands do not depend on
the path by which an instruction is reached.
-/

set_option autoImplicit false

namespace Stepwise

/-- What is known when an instruction is next: the types of the operands of its activation, the
uppermost first, and the slots that hold a value. -/
structure Shape where
  operands : List Ty
  vars : List Nat
  deriving Repr

/-- The operands behind a value of a type; nothing leaves none. -/
def Ty.pushOn (t : Ty) (below : List Ty) : List Ty := if t = .nothing then below else t :: below

theorem Ty.pushOn_of_ne {t : Ty} (h : t ≠ .nothing) (below : List Ty) :
    t.pushOn below = t :: below := if_neg h

/-! ## Places in code -/

mutual

/-- The instruction `here` of an expression that starts at `pc` with the operands `below` has the
operands given last. -/
inductive ExprInside : Expr → Nat → List Ty → Nat → List Ty → Prop
  | number {i : ExprInfo} {v : Float} {pc : Nat} {below : List Ty} :
      ExprInside (.number i v) pc below pc below
  | boolean {i : ExprInfo} {v : Bool} {pc : Nat} {below : List Ty} :
      ExprInside (.boolean i v) pc below pc below
  | string {i : ExprInfo} {v : String} {pc : Nat} {below : List Ty} :
      ExprInside (.string i v) pc below pc below
  | reference {i : ExprInfo} {name : String} {slot : Option Nat} {pc : Nat} {below : List Ty} :
      ExprInside (.reference i name slot) pc below pc below
  | argument {i : ExprInfo} {name : Ident} {arguments : List Expr} {callee : Option Callee}
      {pc here : Nat}
      {below operands : List Ty} :
      ExprsInside arguments pc below here operands →
      ExprInside (.call i name arguments callee) pc below here operands
  | call {i : ExprInfo} {name : Ident} {arguments : List Expr} {callee : Option Callee} {pc : Nat}
      {below : List Ty} :
      ExprInside (.call i name arguments callee) pc below (pc + Expr.sizes arguments)
        ((arguments.map Expr.ty).reverse ++ below)
  | record {i : ExprInfo} {record : Expr} {name : Ident} {pc here : Nat}
      {below operands : List Ty} :
      ExprInside record pc below here operands →
      ExprInside (.field i record name) pc below here operands
  | field {i : ExprInfo} {record : Expr} {name : Ident} {pc : Nat} {below : List Ty} :
      ExprInside (.field i record name) pc below (pc + record.size) (record.ty :: below)
  | operand {i : ExprInfo} {op : UnaryOp} {operand : Expr} {pc here : Nat}
      {below operands : List Ty} :
      ExprInside operand pc below here operands →
      ExprInside (.unary i op operand) pc below here operands
  | unary {i : ExprInfo} {op : UnaryOp} {operand : Expr} {pc : Nat} {below : List Ty} :
      ExprInside (.unary i op operand) pc below (pc + operand.size) (operand.ty :: below)
  | left {i : ExprInfo} {op : BinaryOp} {left right : Expr} {pc here : Nat}
      {below operands : List Ty} :
      ExprInside left pc below here operands →
      ExprInside (.binary i op left right) pc below here operands
  | right {i : ExprInfo} {op : BinaryOp} {left right : Expr} {pc here : Nat}
      {below operands : List Ty} :
      ExprInside right (pc + left.size) (left.ty :: below) here operands →
      ExprInside (.binary i op left right) pc below here operands
  | binary {i : ExprInfo} {op : BinaryOp} {left right : Expr} {pc : Nat} {below : List Ty} :
      ExprInside (.binary i op left right) pc below (pc + left.size + right.size)
        (right.ty :: left.ty :: below)

/-- The same for expressions in a row. -/
inductive ExprsInside : List Expr → Nat → List Ty → Nat → List Ty → Prop
  | head {e : Expr} {es : List Expr} {pc here : Nat} {below operands : List Ty} :
      ExprInside e pc below here operands → ExprsInside (e :: es) pc below here operands
  | tail {e : Expr} {es : List Expr} {pc here : Nat} {below operands : List Ty} :
      ExprsInside es (pc + e.size) (e.ty :: below) here operands →
      ExprsInside (e :: es) pc below here operands

end

/-- The same for the instructions that set a target; the value is among the operands from before. -/
inductive TargetInside : Expr → Nat → List Ty → Nat → List Ty → Prop
  | slot {i : ExprInfo} {name : String} {slot : Option Nat} {pc : Nat} {below : List Ty} :
      TargetInside (.reference i name slot) pc below pc below
  | record {i : ExprInfo} {record : Expr} {name : Ident} {pc here : Nat}
      {below operands : List Ty} :
      ExprInside record pc below here operands →
      TargetInside (.field i record name) pc below here operands
  | field {i : ExprInfo} {record : Expr} {name : Ident} {pc : Nat} {below : List Ty} :
      TargetInside (.field i record name) pc below (pc + record.size) (record.ty :: below)

mutual

/-- The instruction `here` of a statement that starts at `pc` in a shape has the shape given
last. -/
inductive StmtInside : Stmt → Nat → Shape → Nat → Shape → Prop
  | expr {e : Expr} {pc here : Nat} {sh : Shape} {operands : List Ty} :
      ExprInside e pc sh.operands here operands →
      StmtInside (.expr e) pc sh here ⟨operands, sh.vars⟩
  | drop {e : Expr} {pc : Nat} {sh : Shape} :
      e.ty ≠ .nothing → StmtInside (.expr e) pc sh (pc + e.size) ⟨e.ty :: sh.operands, sh.vars⟩
  | initial {decl : VarDecl} {pc here : Nat} {sh : Shape} {operands : List Ty} :
      ExprInside decl.value pc sh.operands here operands →
      StmtInside (.var decl) pc sh here ⟨operands, sh.vars⟩
  | store {decl : VarDecl} {pc : Nat} {sh : Shape} :
      StmtInside (.var decl) pc sh (pc + decl.value.size) ⟨decl.value.ty :: sh.operands, sh.vars⟩
  | value {target value : Expr} {span : Span} {pc here : Nat} {sh : Shape} {operands : List Ty} :
      ExprInside value pc sh.operands here operands →
      StmtInside (.assign target value span) pc sh here ⟨operands, sh.vars⟩
  | target {target value : Expr} {span : Span} {pc here : Nat} {sh : Shape} {operands : List Ty} :
      TargetInside target (pc + value.size) (value.ty :: sh.operands) here operands →
      StmtInside (.assign target value span) pc sh here ⟨operands, sh.vars⟩
  | condition {condition : Expr} {thenBlock elseBlock : List Stmt} {span : Span} {pc here : Nat}
      {sh : Shape}
      {operands : List Ty} :
      ExprInside condition pc sh.operands here operands →
      StmtInside (.cond condition thenBlock elseBlock span) pc sh here ⟨operands, sh.vars⟩
  | branch {condition : Expr} {thenBlock elseBlock : List Stmt} {span : Span} {pc : Nat}
      {sh : Shape} :
      StmtInside (.cond condition thenBlock elseBlock span) pc sh (pc + condition.size)
        ⟨.boolean :: sh.operands, sh.vars⟩
  | thenBlock {condition : Expr} {thenBlock elseBlock : List Stmt} {span : Span} {pc here : Nat}
      {sh x : Shape} :
      StmtsInside thenBlock (pc + condition.size + 1) sh here x →
      StmtInside (.cond condition thenBlock elseBlock span) pc sh here x
  | skip {condition : Expr} {thenBlock elseBlock : List Stmt} {span : Span} {pc : Nat}
      {sh : Shape} :
      StmtInside (.cond condition thenBlock elseBlock span) pc sh
        (pc + condition.size + 1 + Stmt.sizes thenBlock) sh
  | elseBlock {condition : Expr} {thenBlock elseBlock : List Stmt} {span : Span} {pc here : Nat}
      {sh x : Shape} :
      StmtsInside elseBlock (pc + condition.size + 1 + Stmt.sizes thenBlock + 1) sh here x →
      StmtInside (.cond condition thenBlock elseBlock span) pc sh here x
  | whileTest {condition : Expr} {body : List Stmt} {span : Span} {pc here : Nat} {sh : Shape}
      {operands : List Ty} :
      ExprInside condition pc sh.operands here operands →
      StmtInside (.whileLoop condition body span) pc sh here ⟨operands, sh.vars⟩
  | whileBranch {condition : Expr} {body : List Stmt} {span : Span} {pc : Nat} {sh : Shape} :
      StmtInside (.whileLoop condition body span) pc sh (pc + condition.size)
        ⟨.boolean :: sh.operands, sh.vars⟩
  | whileBody {condition : Expr} {body : List Stmt} {span : Span} {pc here : Nat} {sh x : Shape} :
      StmtsInside body (pc + condition.size + 1) sh here x →
      StmtInside (.whileLoop condition body span) pc sh here x
  | whileBack {condition : Expr} {body : List Stmt} {span : Span} {pc : Nat} {sh : Shape} :
      StmtInside (.whileLoop condition body span) pc sh
        (pc + condition.size + 1 + Stmt.sizes body) sh
  | count {count : Expr} {body : List Stmt} {span : Span} {pc here : Nat} {sh : Shape}
      {operands : List Ty} :
      ExprInside count pc sh.operands here operands →
      StmtInside (.repeatLoop count body span) pc sh here ⟨operands, sh.vars⟩
  | repeatHeader {count : Expr} {body : List Stmt} {span : Span} {pc : Nat} {sh : Shape} :
      StmtInside (.repeatLoop count body span) pc sh (pc + count.size)
        ⟨.number :: sh.operands, sh.vars⟩
  | repeatZero {count : Expr} {body : List Stmt} {span : Span} {pc : Nat} {sh : Shape} :
      StmtInside (.repeatLoop count body span) pc sh (pc + count.size + 1)
        ⟨.number :: .number :: sh.operands, sh.vars⟩
  | repeatCompare {count : Expr} {body : List Stmt} {span : Span} {pc : Nat} {sh : Shape} :
      StmtInside (.repeatLoop count body span) pc sh (pc + count.size + 2)
        ⟨.number :: .number :: .number :: sh.operands, sh.vars⟩
  | repeatBranch {count : Expr} {body : List Stmt} {span : Span} {pc : Nat} {sh : Shape} :
      StmtInside (.repeatLoop count body span) pc sh (pc + count.size + 3)
        ⟨.boolean :: .number :: sh.operands, sh.vars⟩
  | repeatBody {count : Expr} {body : List Stmt} {span : Span} {pc here : Nat} {sh x : Shape} :
      StmtsInside body (pc + count.size + 4) ⟨.number :: sh.operands, sh.vars⟩ here x →
      StmtInside (.repeatLoop count body span) pc sh here x
  | repeatOne {count : Expr} {body : List Stmt} {span : Span} {pc : Nat} {sh : Shape} :
      StmtInside (.repeatLoop count body span) pc sh (pc + count.size + 4 + Stmt.sizes body)
        ⟨.number :: sh.operands, sh.vars⟩
  | repeatSubtract {count : Expr} {body : List Stmt} {span : Span} {pc : Nat} {sh : Shape} :
      StmtInside (.repeatLoop count body span) pc sh (pc + count.size + 4 + Stmt.sizes body + 1)
        ⟨.number :: .number :: sh.operands, sh.vars⟩
  | repeatBack {count : Expr} {body : List Stmt} {span : Span} {pc : Nat} {sh : Shape} :
      StmtInside (.repeatLoop count body span) pc sh (pc + count.size + 4 + Stmt.sizes body + 2)
        ⟨.number :: sh.operands, sh.vars⟩
  | repeatDrop {count : Expr} {body : List Stmt} {span : Span} {pc : Nat} {sh : Shape} :
      StmtInside (.repeatLoop count body span) pc sh (pc + count.size + 4 + Stmt.sizes body + 3)
        ⟨.number :: sh.operands, sh.vars⟩
  | result {value : Expr} {span : Span} {pc here : Nat} {sh : Shape} {operands : List Ty} :
      ExprInside value pc sh.operands here operands →
      StmtInside (.ret (some value) span) pc sh here ⟨operands, sh.vars⟩
  | retValue {value : Expr} {span : Span} {pc : Nat} {sh : Shape} :
      StmtInside (.ret (some value) span) pc sh (pc + value.size) ⟨value.ty :: sh.operands, sh.vars⟩
  | retNothing {span : Span} {pc : Nat} {sh : Shape} : StmtInside (.ret none span) pc sh pc sh
  | breakLoop {span : Span} {pc : Nat} {sh : Shape} : StmtInside (.breakLoop span) pc sh pc sh
  | continueLoop {span : Span} {pc : Nat} {sh : Shape} : StmtInside (.continueLoop span) pc sh pc sh

/-- The same for statements in a row. -/
inductive StmtsInside : List Stmt → Nat → Shape → Nat → Shape → Prop
  | head {s : Stmt} {rest : List Stmt} {pc here : Nat} {sh x : Shape} :
      StmtInside s pc sh here x → StmtsInside (s :: rest) pc sh here x
  | tail {s : Stmt} {rest : List Stmt} {pc here : Nat} {sh x : Shape} :
      StmtsInside rest (pc + s.size) ⟨sh.operands, s.binds ++ sh.vars⟩ here x →
      StmtsInside (s :: rest) pc sh here x

end

/-- The slots that hold a value behind statements in a row. -/
def Stmt.bindsIn : List Stmt → List Nat → List Nat
  | [], vars => vars
  | s :: rest, vars => Stmt.bindsIn rest (s.binds ++ vars)

theorem Stmt.subset_bindsIn (ss : List Stmt) : ∀ vars : List Nat, vars ⊆ Stmt.bindsIn ss vars := by
  induction ss with
  | nil => exact fun vars => List.Subset.refl vars
  | cons s rest ih => exact fun vars => List.Subset.trans (List.subset_append_right _ _) (ih _)

/-- The shape at the beginning of a function: no operands, and the parameters in their slots. -/
def FunctionDecl.entry (d : FunctionDecl) : Shape := ⟨[], List.range d.params.length⟩

/-- The instruction `here` of a function has the shape. -/
inductive FunctionDecl.Inside (d : FunctionDecl) : Nat → Shape → Prop
  | body {here : Nat} {x : Shape} : StmtsInside d.body 0 d.entry here x → d.Inside here x
  | closing : endsWithReturn d.body = false →
      d.Inside (Stmt.sizes d.body) ⟨[], Stmt.bindsIn d.body d.entry.vars⟩

/-! ## Where code begins -/

/-- The first instruction of an expression has the operands from before it. -/
theorem ExprInside.first : ∀ (e : Expr) (pc : Nat) (below : List Ty), ExprInside e pc below pc below
  | .number .., _, _ => .number
  | .boolean .., _, _ => .boolean
  | .string .., _, _ => .string
  | .reference .., _, _ => .reference
  | .call _ _ [] _, _, _ => .call
  | .call _ _ (e :: _) _, pc, below => .argument (.head (ExprInside.first e pc below))
  | .field _ inner _, pc, below => .record (ExprInside.first inner pc below)
  | .unary _ _ inner, pc, below => .operand (ExprInside.first inner pc below)
  | .binary _ _ inner _, pc, below => .left (ExprInside.first inner pc below)

theorem TargetInside.first {target : Expr} (h : target.isAssignable = true) (pc : Nat)
    (below : List Ty) :
    TargetInside target pc below pc below := by
  cases target with
  | reference i name slot => exact .slot
  | field i record name => exact .record (.first record pc below)
  | _ => cases h

theorem StmtInside.first {s : Stmt} (h : s.isComment = false) (pc : Nat) (sh : Shape) :
    StmtInside s pc sh pc sh := by
  cases s with
  | expr e => exact .expr (.first e pc _)
  | var decl => exact .initial (.first _ pc _)
  | assign target value span => exact .value (.first value pc _)
  | cond condition thenBlock elseBlock span => exact .condition (.first condition pc _)
  | whileLoop condition body span => exact .whileTest (.first condition pc _)
  | repeatLoop count body span => exact .count (.first count pc _)
  | ret value span =>
      cases value with
      | none => exact .retNothing
      | some value => exact .result (.first value pc _)
  | breakLoop span => exact .breakLoop
  | continueLoop span => exact .continueLoop
  | comment text span => cases h

/-- A comment has no code and fills no slot. -/
theorem Stmt.eq_of_isComment {s : Stmt} (h : s.isComment = true) :
    s.size = 0 ∧ s.binds = [] ∧ s.isReturn = false := by
  cases s <;> first | exact ⟨rfl, rfl, rfl⟩ | cases h

theorem endsWithReturn_cons (s : Stmt) (rest : List Stmt) :
    endsWithReturn (s :: rest) =
      (endsWithReturn rest || rest.all Stmt.isComment && s.isReturn) := by
  unfold endsWithReturn
  rw [List.reverse_cons, List.find?_append]
  cases hfind : rest.reverse.find? (!·.isComment) with
  | some last =>
      have hsome : rest.all Stmt.isComment = false := by
        rw [List.all_eq_false]
        exact ⟨last,
          by simpa using List.mem_of_find?_eq_some hfind, by simpa using List.find?_some hfind⟩
      simp [hsome]
  | none =>
      have hall : rest.all Stmt.isComment = true := by
        rw [List.all_eq_true]
        intro x hx
        simpa using List.find?_eq_none.mp hfind x (by simpa using hx)
      cases hs : s.isComment with
      | false => simp [hall, hs]
      | true => simp [hall, hs, (Stmt.eq_of_isComment hs).2.2]

/-! ## What instructions ask and leave -/

/-- A shape that is enough: these operands, and among the slots those that have to hold a value. -/
def Reaches (N : Nat → Shape → Prop) (here : Nat) (operands : List Ty) (vars : List Nat) : Prop :=
  ∃ known : List Nat, known ⊆ vars ∧ N here ⟨operands, known⟩

theorem Reaches.of {N : Nat → Shape → Prop} {here : Nat} {operands : List Ty} {vars : List Nat}
    (h : N here ⟨operands, vars⟩) : Reaches N here operands vars :=
  ⟨vars, List.Subset.refl vars, h⟩

theorem Reaches.mono {N : Nat → Shape → Prop} {here : Nat} {operands : List Ty}
    {vars more : List Nat} (h : Reaches N here operands vars) (hsub : vars ⊆ more) :
    Reaches N here operands more := by
  obtain ⟨known, hknown, hn⟩ := h
  exact ⟨known, List.Subset.trans hknown hsub, hn⟩

/-- The type of a constant. -/
def Constant.ty : Constant → Ty
  | .boolean _ => .boolean
  | .number _ => .number
  | .string _ => .string

/-- The instruction at `here` finds operands of the types that it takes, and `next` holds of what it
leaves, wherever it goes on. -/
inductive Fits (C : BodyTyping) (next : Nat → List Ty → List Nat → Prop) (here : Nat) :
    Instruction → List Ty → List Nat → Prop
  | push {c : Constant} {ops : List Ty} {vars : List Nat} :
      next (here + 1) (c.ty :: ops) vars → Fits C next here (.push c) ops vars
  | pop {t : Ty} {ops : List Ty} {vars : List Nat} :
      next (here + 1) ops vars → Fits C next here .pop (t :: ops) vars
  | dup {t : Ty} {ops : List Ty} {vars : List Nat} :
      next (here + 1) (t :: t :: ops) vars → Fits C next here .dup (t :: ops) vars
  | load {slot : Nat} {t : Ty} {ops : List Ty} {vars : List Nat} :
      slot ∈ vars → C.slotTys[slot]? = some t → next (here + 1) (t :: ops) vars →
      Fits C next here (.load slot) ops vars
  | store {slot : Nat} {t : Ty} {ops : List Ty} {vars : List Nat} :
      C.slotTys[slot]? = some t → next (here + 1) ops (slot :: vars) →
      Fits C next here (.store slot) (t :: ops) vars
  | loadField {index : Nat} {name : String} {record : RecordType} {f : RecordField} {ops : List Ty}
      {vars : List Nat} :
      C.registry.record? name = some record → record.fields[index]? = some f →
      next (here + 1) (f.ty :: ops) vars →
      Fits C next here (.loadField index) (.record name :: ops) vars
  | storeField {index : Nat} {name : String} {record : RecordType} {f : RecordField} {ops : List Ty}
      {vars : List Nat} :
      C.registry.record? name = some record → record.fields[index]? = some f →
      next (here + 1) ops vars →
      Fits C next here (.storeField index) (.record name :: f.ty :: ops) vars
  | jump {target : Nat} {ops : List Ty} {vars : List Nat} :
      next target ops vars → Fits C next here (.jump target) ops vars
  | jumpIfFalse {target : Nat} {ops : List Ty} {vars : List Nat} :
      next target ops vars → next (here + 1) ops vars →
        Fits C next here (.jumpIfFalse target) (.boolean :: ops) vars
  | call {callee : Callee} {params : List Ty} {result : Ty} {operands ops : List Ty}
      {vars : List Nat} :
      C.arrows callee = some ⟨params, result⟩ → operands = params.reverse ++ ops →
      next (here + 1) (result.pushOn ops) vars → Fits C next here callee.instruction operands vars
  | ret {ops : List Ty} {vars : List Nat} : C.result = .nothing → Fits C next here .ret ops vars
  | retValue {ops : List Ty} {vars : List Nat} :
      C.result ≠ .nothing → Fits C next here .ret (C.result :: ops) vars
  | unary {op : UnaryOp} {t result : Ty} {ops : List Ty} {vars : List Nat} :
      op.result? t = some result → next (here + 1) (result :: ops) vars →
      Fits C next here (.unary op) (t :: ops) vars
  | binary {op : BinaryOp} {left right result : Ty} {ops : List Ty} {vars : List Nat} :
      op.result? left right = some result → next (here + 1) (result :: ops) vars →
      Fits C next here (.binary op) (right :: left :: ops) vars
  | concat {ops : List Ty} {vars : List Nat} :
      next (here + 1) (.string :: ops) vars →
        Fits C next here .concat (.string :: .string :: ops) vars

/-- An instruction that fits stands at a place of the code. -/
def FitsAt (C : BodyTyping) (code : List Instruction) (next : Nat → List Ty → List Nat → Prop)
    (here : Nat) (x : Shape) : Prop :=
  ∃ I : Instruction, code[here]? = some I ∧ Fits C next here I x.operands x.vars

/-! ## Code fits -/

section Fitting

variable {C : BodyTyping} {code : List Instruction}

theorem Fits.binaryInstruction {next : Nat → List Ty → List Nat → Prop} {here : Nat} {op : BinaryOp}
    {left right result : Ty} {ops : List Ty} {vars : List Nat}
    (hop : op.result? left right = some result) (h : next (here + 1) (result :: ops) vars) :
    Fits C next here (Stepwise.binaryInstruction op) (right :: left :: ops) vars := by
  by_cases hconcat : op = .concat
  · subst hconcat
    simp only [BinaryOp.result?] at hop
    split at hop
    · next htys =>
        cases hop
        rw [htys.1, htys.2]
        exact .concat h
    · cases hop
  · have hbinary : Stepwise.binaryInstruction op = .binary op := by
      cases op <;> first | rfl | exact absurd rfl hconcat
    rw [hbinary]
    exact .binary hop h

mutual

/-- **The code of a typed expression fits.** What is behind the expression is only assumed to go
on. -/
theorem Expr.fits {vars : List Nat} {next : Nat → List Ty → List Nat → Prop} :
    ∀ (e : Expr) {t : Ty} {pc : Nat} {below : List Ty}, ExprTyped C vars e t →
      CodeAt code pc (e.code C.registry) →
      (∀ {here : Nat} {ops : List Ty}, ExprInside e pc below here ops → next here ops vars) →
      next (pc + e.size) (t.pushOn below) vars →
      ∀ {here : Nat} {ops : List Ty}, ExprInside e pc below here ops →
      FitsAt C code next here ⟨ops, vars⟩
  | .number i v, t, pc, below, typed, hcode, hinside, hexit, here, ops, h => by
      cases h
      cases typed
      exact ⟨_, hcode.head, .push hexit⟩
  | .boolean i v, t, pc, below, typed, hcode, hinside, hexit, here, ops, h => by
      cases h
      cases typed
      exact ⟨_, hcode.head, .push hexit⟩
  | .string i v, t, pc, below, typed, hcode, hinside, hexit, here, ops, h => by
      cases h
      cases typed
      exact ⟨_, hcode.head, .push hexit⟩
  | .reference i name slot, t, pc, below, typed, hcode, hinside, hexit, here, ops, h => by
      cases h
      cases typed with
      | reference hslot hty hstorable =>
          rw [Ty.pushOn_of_ne hstorable.1] at hexit
          exact ⟨_, hcode.head, .load hslot hty hexit⟩
  | .call i name arguments callee, t, pc, below, typed, hcode, hinside, hexit, here, ops, h => by
      cases typed with
      | call htyped harrow hstorable hname =>
          obtain ⟨hargs, hcall⟩ := hcode.exprs
          cases h with
          | argument h =>
              refine Expr.fitsAll arguments htyped (fun t ht => (hstorable t ht).1) hargs
                (fun h => hinside (.argument h)) ?_ h
              have hat :=
                hinside (ExprInside.call : ExprInside (.call _ name arguments _) pc below _ _)
              rwa [htyped.map_ty] at hat
          | call =>
              refine ⟨_, hcall.head, .call harrow ?_ hexit⟩
              rw [htyped.map_ty]
  | .field i inner name, t, pc, below, typed, hcode, hinside, hexit, here, ops, h => by
      cases typed with
      | @field _ _ _ _ _ index _ htyped hrecord hindex hfield hstorable =>
          obtain ⟨hinner, hload⟩ := hcode.expr
          cases h with
          | record h =>
              refine Expr.fits inner htyped hinner (fun h => hinside (.record h)) ?_ h
              have hat := hinside (ExprInside.field : ExprInside (.field _ inner name) pc below _ _)
              rwa [htyped.ty_eq] at hat
          | field =>
              have hplace : C.registry.fieldPlace? inner.ty name.name = some index := by
                rw [htyped.ty_eq, Registry.fieldPlace?, hrecord]
                exact hindex
              rw [hplace, Option.getD_some] at hload
              rw [Ty.pushOn_of_ne hstorable.1] at hexit
              refine ⟨_, hload.head, ?_⟩
              rw [htyped.ty_eq]
              exact .loadField hrecord hfield hexit
  | .unary i op inner, t, pc, below, typed, hcode, hinside, hexit, here, ops, h => by
      cases typed with
      | unary htyped hop =>
          obtain ⟨hinner, hunary⟩ := hcode.expr
          obtain ⟨hne, hstorable⟩ := UnaryOp.storable_of_result? hop
          cases h with
          | operand h =>
              refine Expr.fits inner htyped hinner (fun h => hinside (.operand h)) ?_ h
              have hat := hinside (ExprInside.unary : ExprInside (.unary _ op inner) pc below _ _)
              rw [htyped.ty_eq] at hat
              rwa [Ty.pushOn_of_ne hne]
          | unary =>
              rw [Ty.pushOn_of_ne hstorable.1] at hexit
              refine ⟨_, hunary.head, ?_⟩
              rw [htyped.ty_eq]
              exact .unary hop hexit
  | .binary i op first second, t, pc, below, typed, hcode, hinside, hexit, here, ops, h => by
      cases typed with
      | binary hleft hright hop =>
          obtain ⟨hfirst, hsecond, hbinary⟩ := hcode.operands
          obtain ⟨hneLeft, hneRight, hstorable⟩ := BinaryOp.storable_of_result? hop
          have hleftTy := hleft.ty_eq
          have hrightTy := hright.ty_eq
          cases h with
          | left h =>
              refine Expr.fits first hleft hfirst (fun h => hinside (.left h)) ?_ h
              have hat :=
                hinside (.right (ExprInside.first second (pc + first.size) (first.ty :: below)))
              rw [hleftTy] at hat
              rwa [Ty.pushOn_of_ne hneLeft]
          | right h =>
              refine Expr.fits second hright hsecond (fun h => hinside (.right h)) ?_ h
              have hat :=
                hinside (ExprInside.binary : ExprInside (.binary _ op first second) pc below _ _)
              rw [hrightTy] at hat
              rwa [Ty.pushOn_of_ne hneRight]
          | binary =>
              rw [Ty.pushOn_of_ne hstorable.1, Expr.size, ← Nat.add_assoc, ← Nat.add_assoc] at hexit
              refine ⟨_, hbinary.head, ?_⟩
              rw [hleftTy, hrightTy]
              exact Fits.binaryInstruction hop hexit

/-- The code of typed arguments fits. -/
theorem Expr.fitsAll {vars : List Nat} {next : Nat → List Ty → List Nat → Prop} :
    ∀ (es : List Expr) {ts : List Ty} {pc : Nat} {below : List Ty}, ExprsTyped C vars es ts →
      (∀ t ∈ ts, t ≠ .nothing) → CodeAt code pc (Expr.codes C.registry es) →
      (∀ {here : Nat} {ops : List Ty}, ExprsInside es pc below here ops → next here ops vars) →
      next (pc + Expr.sizes es) (ts.reverse ++ below) vars →
      ∀ {here : Nat} {ops : List Ty}, ExprsInside es pc below here ops →
      FitsAt C code next here ⟨ops, vars⟩
  | [], ts, pc, below, typed, hne, hcode, hinside, hexit, here, ops, h => by cases h
  | e :: es, ts, pc, below, typed, hne, hcode, hinside, hexit, here, ops, h => by
      cases typed with
      | @cons _ _ _ ts htyped hrest =>
          obtain ⟨hfirst, hothers⟩ := hcode.expr
          have hty := htyped.ty_eq
          have hexit' : next (pc + e.size + Expr.sizes es) (ts.reverse ++ e.ty :: below) vars := by
            rw [Expr.sizes, ← Nat.add_assoc, List.reverse_cons, List.append_assoc, ← hty] at hexit
            exact hexit
          cases h with
          | head h =>
              refine Expr.fits e htyped hfirst (fun h => hinside (.head h)) ?_ h
              rw [Ty.pushOn_of_ne (hne _ List.mem_cons_self), ← hty]
              cases es with
              | nil =>
                  cases hrest
                  exact hexit'
              | cons e' es' => exact hinside (.tail (.head (.first e' _ _)))
          | tail h =>
              exact Expr.fitsAll es hrest (fun t ht => hne t (List.mem_cons_of_mem _ ht)) hothers
                (fun h => hinside (.tail h)) hexit' h

end

variable {N : Nat → Shape → Prop}

/-- The code that sets a typed target fits. -/
theorem Expr.fitsTarget {target : Expr} {t : Ty} {vars : List Nat} {pc : Nat} {below : List Ty}
    (typed : ExprTyped C vars target t) (hcode : CodeAt code pc (target.targetCode C.registry))
    (hinside : ∀ {here : Nat} {ops : List Ty}, TargetInside target pc (t :: below) here ops →
      Reaches N here ops vars)
    (hexit : Reaches N (pc + target.targetSize) below vars) {here : Nat} {ops : List Ty}
    (h : TargetInside target pc (t :: below) here ops) :
    FitsAt C code (Reaches N) here ⟨ops, vars⟩ := by
  cases h with
  | slot =>
      cases typed with
      | reference hslot hty _ =>
          exact ⟨_, hcode.head, .store hty (hexit.mono (List.subset_cons_self _ _))⟩
  | record h =>
      obtain ⟨hrecord, -⟩ := hcode.expr
      cases typed with
      | field htyped _ _ _ _ =>
          refine Expr.fits _ htyped hrecord (fun h => hinside (.record h)) ?_ h
          have hat := hinside .field
          rwa [htyped.ty_eq] at hat
  | @field _ record name _ _ =>
      obtain ⟨-, hstore⟩ := hcode.expr
      cases typed with
      | @field _ _ _ _ _ index _ htyped hrecord hindex hfield _ =>
          have hplace : C.registry.fieldPlace? record.ty name.name = some index := by
            rw [htyped.ty_eq, Registry.fieldPlace?, hrecord]
            exact hindex
          rw [hplace, Option.getD_some] at hstore
          refine ⟨_, hstore.head, ?_⟩
          rw [htyped.ty_eq]
          exact .storeField hrecord hfield hexit

/-- Where a loop around a statement lets it go: `break` and `continue` find the operands of the
statement. -/
def LoopReaches (N : Nat → Shape → Prop) (inLoop : Bool) (loop : Option LoopTargets)
    (sh : Shape) : Prop :=
  inLoop = true → ∃ targets : LoopTargets, loop = some targets ∧
    Reaches N targets.exit sh.operands sh.vars ∧ Reaches N targets.next sh.operands sh.vars

theorem LoopReaches.mono {inLoop : Bool} {loop : Option LoopTargets} {sh : Shape} {more : List Nat}
    (h : LoopReaches N inLoop loop sh) (hsub : sh.vars ⊆ more) :
    LoopReaches N inLoop loop ⟨sh.operands, more⟩ := by
  intro hin
  obtain ⟨targets, htargets, hexit, hnext⟩ := h hin
  exact ⟨targets, htargets, hexit.mono hsub, hnext.mono hsub⟩

/-- Statements in a row are entered with the shape from before them, be it that they are only passed
by. -/
theorem StmtsInside.reaches (ss : List Stmt) : ∀ {pc : Nat} (sh : Shape),
    (∀ {here : Nat} {x : Shape}, StmtsInside ss pc sh here x → N here x) →
    (endsWithReturn ss = false → Reaches N (pc + Stmt.sizes ss) sh.operands
      (Stmt.bindsIn ss sh.vars)) →
    Reaches N pc sh.operands sh.vars := by
  induction ss with
  | nil =>
      intro pc sh hinside hexit
      exact hexit rfl
  | cons s rest ih =>
      intro pc sh hinside hexit
      cases hs : s.isComment with
      | false => exact Reaches.of (hinside (.head (.first hs pc sh)))
      | true =>
          obtain ⟨hsize, hbinds, hret⟩ := Stmt.eq_of_isComment hs
          refine ih sh (fun h => hinside (.tail ?_)) ?_
          · rw [hsize, hbinds]
            exact h
          · intro hrest
            rw [endsWithReturn_cons, hret, hrest, Stmt.sizes, hsize, Nat.zero_add, Stmt.bindsIn,
              hbinds] at hexit
            exact hexit (by simp)

/-- Behind a place in statements stands some statement that is no comment. -/
theorem StmtsInside.not_all_comments : ∀ {ss : List Stmt} {pc : Nat} {sh x : Shape} {here : Nat},
    StmtsInside ss pc sh here x → ss.all Stmt.isComment = false
  | _ :: _, _, _, _, _, .head h => by
      cases h <;> simp [Stmt.isComment]
  | _ :: _, _, _, _, _, .tail h => by
      rw [List.all_cons, h.not_all_comments, Bool.and_false]

/-- The code of this statement fits, wherever it stands. What is behind it is only assumed to go on,
and nothing is assumed to be behind a `return`. -/
def Stmt.Fit (C : BodyTyping) (code : List Instruction) (N : Nat → Shape → Prop)
    (s : Stmt) : Prop :=
  ∀ (sh : Shape) {inLoop : Bool} {loop : Option LoopTargets} {pc : Nat},
    StmtTyped C inLoop sh.vars s →
    CodeAt code pc (s.code C.registry loop pc) → LoopReaches N inLoop loop sh →
    (∀ {here : Nat} {x : Shape}, StmtInside s pc sh here x → N here x) →
    (s.isReturn = false → Reaches N (pc + s.size) sh.operands (s.binds ++ sh.vars)) →
    ∀ {here : Nat} {x : Shape}, StmtInside s pc sh here x → FitsAt C code (Reaches N) here x

/-- The same for statements in a row. -/
def Stmt.AllFit (C : BodyTyping) (code : List Instruction) (N : Nat → Shape → Prop)
    (ss : List Stmt) : Prop :=
  ∀ (sh : Shape) {inLoop : Bool} {loop : Option LoopTargets} {pc : Nat},
    StmtsTyped C inLoop sh.vars ss →
    CodeAt code pc (Stmt.codes C.registry loop pc ss) → LoopReaches N inLoop loop sh →
    (∀ {here : Nat} {x : Shape}, StmtsInside ss pc sh here x → N here x) →
    (endsWithReturn ss = false → Reaches N (pc + Stmt.sizes ss) sh.operands
      (Stmt.bindsIn ss sh.vars)) →
    ∀ {here : Nat} {x : Shape}, StmtsInside ss pc sh here x → FitsAt C code (Reaches N) here x

theorem Stmt.fits_expr (e : Expr) : Stmt.Fit C code N (.expr e) := by
  intro sh inLoop loop pc typed hcode hloop hinside hexit here x h
  cases typed with
  | @expr _ _ _ t htyped =>
      obtain ⟨he, hdrop⟩ := hcode.expr
      have hafter := hexit rfl
      simp only [Stmt.size, Stmt.binds, List.nil_append, ← Nat.add_assoc] at hafter
      by_cases ht : t = .nothing
      · subst ht
        have hsize : e.dropSize = 0 := by rw [Expr.dropSize, if_pos htyped.ty?_eq]
        cases h with
        | expr h =>
            refine Expr.fits e htyped he (fun h => .of (hinside (.expr h))) ?_ h
            rwa [hsize] at hafter
        | drop hne => exact absurd htyped.ty_eq hne
      · have hne : ¬ e.ty? = some .nothing := by
          rw [htyped.ty?_eq, Option.some.injEq]
          exact ht
        have hsize : e.dropSize = 1 := by rw [Expr.dropSize, if_neg hne]
        rw [Expr.dropCode, if_neg hne] at hdrop
        rw [hsize] at hafter
        cases h with
        | expr h =>
            refine Expr.fits e htyped he (fun h => .of (hinside (.expr h))) ?_ h
            rw [Ty.pushOn_of_ne ht, ← htyped.ty_eq]
            exact .of (hinside (.drop (htyped.ty_eq ▸ ht)))
        | drop _ => exact ⟨_, hdrop.head, .pop hafter⟩

theorem Stmt.fits_var (decl : VarDecl) : Stmt.Fit C code N (.var decl) := by
  intro sh inLoop loop pc typed hcode hloop hinside hexit here x h
  cases typed with
  | @var _ _ _ t slot htyped hstorable hty hslot hat =>
      obtain ⟨he, hstore⟩ := hcode.expr
      rw [hslot, Option.getD_some] at hstore
      have hafter := hexit rfl
      rw [Stmt.size, Stmt.binds, hslot, ← Nat.add_assoc] at hafter
      have hvalue := htyped.ty_eq
      cases h with
      | initial h =>
          refine Expr.fits _ htyped he (fun h => .of (hinside (.initial h))) ?_ h
          rw [Ty.pushOn_of_ne hstorable.1, ← hvalue]
          exact .of (hinside .store)
      | store =>
          refine ⟨_, hstore.head, ?_⟩
          rw [hvalue]
          exact .store hat hafter

theorem Stmt.fits_assign (target value : Expr) (span : Span) :
    Stmt.Fit C code N (.assign target value span) := by
  intro sh inLoop loop pc typed hcode hloop hinside hexit here x h
  cases typed with
  | @assign _ _ _ _ _ t hvalue htarget hassignable =>
      obtain ⟨hfirst, hsecond⟩ := hcode.expr
      have hafter := hexit rfl
      simp only [Stmt.size, Stmt.binds, List.nil_append, ← Nat.add_assoc] at hafter
      have hty := hvalue.ty_eq
      have hne : t ≠ .nothing := (htarget.storable_of_isAssignable hassignable).1
      cases h with
      | value h =>
          refine Expr.fits value hvalue hfirst (fun h => .of (hinside (.value h))) ?_ h
          rw [Ty.pushOn_of_ne hne, ← hty]
          exact .of (hinside (.target (.first hassignable _ _)))
      | target h =>
          rw [hty] at h
          refine Expr.fitsTarget htarget hsecond (fun h => .of (hinside (.target ?_))) hafter h
          rwa [hty]

/-- Behind its condition an `if` goes on in one of its blocks, from either of which it comes to its
end. -/
theorem Stmt.fits_cond (condition : Expr) {thenBlock elseBlock : List Stmt}
    (hfitThen : Stmt.AllFit C code N thenBlock) (hfitElse : Stmt.AllFit C code N elseBlock)
    (span : Span) :
    Stmt.Fit C code N (.cond condition thenBlock elseBlock span) := by
  intro sh inLoop loop pc typed hcode hloop hinside hexit here x h
  cases typed with
  | cond hcondition hthen helse =>
      obtain ⟨hcodeTest, hcodeBranch, hcodeThen, hcodeSkip, hcodeElse⟩ := hcode.cond
      have hafter := hexit rfl
      simp only [Stmt.size, Stmt.binds, List.nil_append, ← Nat.add_assoc] at hafter
      have henterElse := StmtsInside.reaches elseBlock sh (fun h => hinside (.elseBlock h))
        (fun _ => hafter.mono (Stmt.subset_bindsIn _ _))
      have hskip : Reaches N (pc + condition.size + 1 + Stmt.sizes thenBlock) sh.operands sh.vars :=
        .of (hinside .skip)
      have henterThen := StmtsInside.reaches thenBlock sh (fun h => hinside (.thenBlock h))
        (fun _ => hskip.mono (Stmt.subset_bindsIn _ _))
      cases h with
      | condition h =>
          exact Expr.fits condition hcondition hcodeTest (fun h => .of (hinside (.condition h)))
            (.of (hinside .branch)) h
      | branch => exact ⟨_, hcodeBranch, .jumpIfFalse henterElse henterThen⟩
      | thenBlock h =>
          exact hfitThen sh hthen hcodeThen hloop (fun h => hinside (.thenBlock h))
            (fun _ => hskip.mono (Stmt.subset_bindsIn _ _)) h
      | skip => exact ⟨_, hcodeSkip, .jump hafter⟩
      | elseBlock h =>
          exact hfitElse sh helse hcodeElse hloop (fun h => hinside (.elseBlock h))
            (fun _ => hafter.mono (Stmt.subset_bindsIn _ _)) h

/-- A `while` comes back to its condition with the operands that it began with. -/
theorem Stmt.fits_whileLoop (condition : Expr) {body : List Stmt}
    (hfitBody : Stmt.AllFit C code N body) (span : Span) :
    Stmt.Fit C code N (.whileLoop condition body span) := by
  intro sh inLoop loop pc typed hcode hloop hinside hexit here x h
  cases typed with
  | whileLoop hcondition hbody =>
      obtain ⟨hcodeTest, hcodeBranch, hcodeBody, hcodeBack⟩ := hcode.whileLoop
      have hafter := hexit rfl
      simp only [Stmt.size, Stmt.binds, List.nil_append, ← Nat.add_assoc] at hafter
      have hback : Reaches N (pc + condition.size + 1 + Stmt.sizes body) sh.operands sh.vars :=
        .of (hinside .whileBack)
      have hstart : Reaches N pc sh.operands sh.vars :=
        .of (hinside (.whileTest (.first condition pc _)))
      have henter := StmtsInside.reaches body sh (fun h => hinside (.whileBody h))
        (fun _ => hback.mono (Stmt.subset_bindsIn _ _))
      cases h with
      | whileTest h =>
          exact Expr.fits condition hcondition hcodeTest (fun h => .of (hinside (.whileTest h)))
            (.of (hinside .whileBranch)) h
      | whileBranch => exact ⟨_, hcodeBranch, .jumpIfFalse hafter henter⟩
      | whileBody h =>
          exact hfitBody sh hbody hcodeBody (fun _ => ⟨_, rfl, hafter, hstart⟩)
            (fun h => hinside (.whileBody h)) (fun _ => hback.mono (Stmt.subset_bindsIn _ _)) h
      | whileBack => exact ⟨_, hcodeBack, .jump hstart⟩

/-- A repetition keeps its count below the operands of its body. -/
theorem Stmt.fits_repeatLoop (count : Expr) {body : List Stmt}
    (hfitBody : Stmt.AllFit C code N body) (span : Span) :
    Stmt.Fit C code N (.repeatLoop count body span) := by
  intro sh inLoop loop pc typed hcode hloop hinside hexit here x h
  cases typed with
  | repeatLoop hcount hbody =>
      obtain ⟨hcodeCount, hcodeTest, hcodeBody, hcodeBack⟩ := hcode.repeatLoop
      have hafter := hexit rfl
      simp only [Stmt.size, Stmt.binds, List.nil_append, ← Nat.add_assoc] at hafter
      have hheader : Reaches N (pc + count.size) (.number :: sh.operands) sh.vars :=
        .of (hinside .repeatHeader)
      have hnext : Reaches N (pc + count.size + 4 + Stmt.sizes body) (.number :: sh.operands)
          sh.vars :=
        .of (hinside .repeatOne)
      have hdrop : Reaches N (pc + count.size + 4 + Stmt.sizes body + 3) (.number :: sh.operands)
          sh.vars :=
        .of (hinside .repeatDrop)
      have henter := StmtsInside.reaches body ⟨.number :: sh.operands, sh.vars⟩
        (fun h => hinside (.repeatBody h)) (fun _ => hnext.mono (Stmt.subset_bindsIn _ _))
      cases h with
      | count h =>
          exact Expr.fits count hcount hcodeCount (fun h => .of (hinside (.count h))) hheader h
      | repeatHeader => exact ⟨_, hcodeTest.head, .dup (.of (hinside .repeatZero))⟩
      | repeatZero => exact ⟨_, hcodeTest.tail.head, .push (.of (hinside .repeatCompare))⟩
      | repeatCompare =>
        exact ⟨_, hcodeTest.tail.tail.head, .binary rfl (.of (hinside .repeatBranch))⟩
      | repeatBranch => exact ⟨_, hcodeTest.tail.tail.tail.head, .jumpIfFalse hdrop henter⟩
      | repeatBody h =>
          exact hfitBody ⟨.number :: sh.operands, sh.vars⟩ hbody hcodeBody
            (fun _ => ⟨_, rfl, hdrop, hnext⟩) (fun h => hinside (.repeatBody h))
            (fun _ => hnext.mono (Stmt.subset_bindsIn _ _)) h
      | repeatOne => exact ⟨_, hcodeBack.head, .push (.of (hinside .repeatSubtract))⟩
      | repeatSubtract => exact ⟨_, hcodeBack.tail.head, .binary rfl (.of (hinside .repeatBack))⟩
      | repeatBack => exact ⟨_, hcodeBack.tail.tail.head, .jump hheader⟩
      | repeatDrop => exact ⟨_, hcodeBack.tail.tail.tail.head, .pop hafter⟩

mutual

/-- **The code of a typed statement fits.** -/
theorem Stmt.fits : ∀ s : Stmt, Stmt.Fit C code N s
  | .comment text span => by
      intro sh inLoop loop pc typed hcode hloop hinside hexit here x h
      cases h
  | .expr e => Stmt.fits_expr e
  | .var decl => Stmt.fits_var decl
  | .assign target value span => Stmt.fits_assign target value span
  | .cond condition thenBlock elseBlock span =>
      Stmt.fits_cond condition (Stmt.fitsAll thenBlock) (Stmt.fitsAll elseBlock) span
  | .whileLoop condition body span => Stmt.fits_whileLoop condition (Stmt.fitsAll body) span
  | .repeatLoop count body span => Stmt.fits_repeatLoop count (Stmt.fitsAll body) span
  | .ret (some value) span => by
      intro sh inLoop loop pc typed hcode hloop hinside hexit here x h
      cases typed with
      | retValue hvalue hne =>
          obtain ⟨hfirst, hret⟩ := hcode.expr
          cases h with
          | result h =>
              refine Expr.fits value hvalue hfirst (fun h => .of (hinside (.result h))) ?_ h
              rw [Ty.pushOn_of_ne hne, ← hvalue.ty_eq]
              exact .of (hinside .retValue)
          | retValue =>
              refine ⟨_, hret.head, ?_⟩
              rw [hvalue.ty_eq]
              exact .retValue hne
  | .ret none span => by
      intro sh inLoop loop pc typed hcode hloop hinside hexit here x h
      cases typed with
      | retNothing hnothing =>
          cases h
          exact ⟨_, hcode.head, .ret hnothing⟩
  | .breakLoop span => by
      intro sh inLoop loop pc typed hcode hloop hinside hexit here x h
      cases typed
      cases h
      obtain ⟨targets, rfl, hbreak, -⟩ := hloop rfl
      exact ⟨_, hcode.head, .jump hbreak⟩
  | .continueLoop span => by
      intro sh inLoop loop pc typed hcode hloop hinside hexit here x h
      cases typed
      cases h
      obtain ⟨targets, rfl, -, hcontinue⟩ := hloop rfl
      exact ⟨_, hcode.head, .jump hcontinue⟩

/-- The code of typed statements in a row fits. -/
theorem Stmt.fitsAll : ∀ ss : List Stmt, Stmt.AllFit C code N ss
  | [], sh, inLoop, loop, pc, typed, hcode, hloop, hinside, hexit, here, x, h => by cases h
  | s :: rest, sh, inLoop, loop, pc, typed, hcode, hloop, hinside, hexit, here, x, h => by
      cases typed with
      | cons htyped hrest =>
          obtain ⟨hfirst, hothers⟩ := hcode.stmt
          rw [Stmt.sizes, ← Nat.add_assoc, Stmt.bindsIn, endsWithReturn_cons] at hexit
          cases h with
          | head h =>
              refine Stmt.fits s sh htyped hfirst hloop (fun h => hinside (.head h)) ?_ h
              intro hret
              refine StmtsInside.reaches rest ⟨sh.operands, s.binds ++ sh.vars⟩
                (fun h => hinside (.tail h)) ?_
              intro hend
              exact hexit (by simp [hret, hend])
          | tail h =>
              have hsome := h.not_all_comments
              refine Stmt.fitsAll rest ⟨sh.operands, s.binds ++ sh.vars⟩ hrest hothers
                (hloop.mono (List.subset_append_right _ _)) (fun h => hinside (.tail h)) ?_ h
              intro hend
              exact hexit (by simp [hsome, hend])

end

end Fitting

section Functions

variable {r : Registry} {arrows : Callee → Option Arrow} {d : FunctionDecl}

theorem FunctionDecl.reaches_closing (d : FunctionDecl) (h : endsWithReturn d.body = false) :
    Reaches d.Inside (0 + Stmt.sizes d.body) d.entry.operands
      (Stmt.bindsIn d.body d.entry.vars) := by
  rw [Nat.zero_add]
  exact .of (.closing h)

/-- A function is entered without operands and with its parameters. -/
theorem FunctionDecl.reaches_entry (d : FunctionDecl) :
    Reaches d.Inside 0 [] (List.range d.params.length) :=
  StmtsInside.reaches d.body d.entry (fun h => .body h) d.reaches_closing

/-- The place of the `return` that a body is closed with. -/
def FunctionDecl.ClosesAt (d : FunctionDecl) (pc : Nat) : Prop :=
  endsWithReturn d.body = false ∧ pc = Stmt.sizes d.body

/-- **The code of a typed function fits at every place**, but for the closing `return`, which finds
no operand. -/
theorem FunctionDecl.fits (typed : FunctionTyped r arrows d) {here : Nat} {x : Shape}
    (h : d.Inside here x) :
    FitsAt (d.typing r arrows) (d.code r) (Reaches d.Inside) here x ∨
      (d.ClosesAt here ∧ x.operands = [] ∧ (d.code r)[here]? = some .ret) := by
  cases h with
  | body h =>
      refine .inl (Stmt.fitsAll d.body d.entry typed.body (d.codeAt_body r) ?_ (fun h => .body h)
        d.reaches_closing h)
      intro hin
      cases hin
  | closing hend => exact .inr ⟨⟨hend, rfl⟩, rfl, d.code_closing r hend⟩

end Functions

/-! ## Where statements begin -/

mutual

/-- A statement that starts at `pc` under `depth` repetitions has a statement in it, perhaps itself,
that starts at `here` under `k` repetitions. Comments have no code and do not count. -/
inductive StmtStarts : Stmt → Nat → Nat → Nat → Nat → Prop
  | self {s : Stmt} {pc depth : Nat} : s.isComment = false → StmtStarts s pc depth pc depth
  | thenBlock {condition : Expr} {thenBlock elseBlock : List Stmt} {span : Span}
      {pc depth here k : Nat} :
      StmtsStart thenBlock (pc + condition.size + 1) depth here k →
      StmtStarts (.cond condition thenBlock elseBlock span) pc depth here k
  | elseBlock {condition : Expr} {thenBlock elseBlock : List Stmt} {span : Span}
      {pc depth here k : Nat} :
      StmtsStart elseBlock (pc + condition.size + 1 + Stmt.sizes thenBlock + 1) depth here k →
      StmtStarts (.cond condition thenBlock elseBlock span) pc depth here k
  | whileBody {condition : Expr} {body : List Stmt} {span : Span} {pc depth here k : Nat} :
      StmtsStart body (pc + condition.size + 1) depth here k →
      StmtStarts (.whileLoop condition body span) pc depth here k
  | repeatBody {count : Expr} {body : List Stmt} {span : Span} {pc depth here k : Nat} :
      StmtsStart body (pc + count.size + 4) (depth + 1) here k →
      StmtStarts (.repeatLoop count body span) pc depth here k

/-- The same for statements in a row. -/
inductive StmtsStart : List Stmt → Nat → Nat → Nat → Nat → Prop
  | head {s : Stmt} {rest : List Stmt} {pc depth here k : Nat} :
      StmtStarts s pc depth here k → StmtsStart (s :: rest) pc depth here k
  | tail {s : Stmt} {rest : List Stmt} {pc depth here k : Nat} :
      StmtsStart rest (pc + s.size) depth here k → StmtsStart (s :: rest) pc depth here k

end

/-- A statement of a function that starts at an instruction, in the bodies of `k` repetitions. -/
def FunctionDecl.StartsAt (d : FunctionDecl) (pc k : Nat) : Prop := StmtsStart d.body 0 0 pc k

mutual

theorem ExprInside.bounds : ∀ (e : Expr) {pc here : Nat} {below ops : List Ty},
    ExprInside e pc below here ops →
    pc ≤ here ∧ here < pc + e.size ∧ (here = pc → ops = below)
  | .number .., _, _, _, _, .number => by simp [Expr.size]
  | .boolean .., _, _, _, _, .boolean => by simp [Expr.size]
  | .string .., _, _, _, _, .string => by simp [Expr.size]
  | .reference .., _, _, _, _, .reference => by simp [Expr.size]
  | .call _ _ arguments _, pc, here, below, ops, h => by
      rw [Expr.size]
      cases h with
      | argument h =>
          obtain ⟨hlow, hhigh, hfirst⟩ := ExprsInside.bounds arguments h
          exact ⟨hlow, by omega, hfirst⟩
      | call =>
          refine ⟨by omega, by omega, ?_⟩
          intro heq
          cases arguments with
          | nil => rfl
          | cons e es =>
              have hpos := (ExprInside.bounds e (.first e 0 [])).2.1
              rw [Expr.sizes] at heq
              omega
  | .field _ inner _, pc, here, below, ops, h => by
      rw [Expr.size]
      cases h with
      | record h =>
          obtain ⟨hlow, hhigh, hfirst⟩ := ExprInside.bounds inner h
          exact ⟨hlow, by omega, hfirst⟩
      | field =>
          have hpos := (ExprInside.bounds inner (.first inner 0 [])).2.1
          exact ⟨by omega, by omega, by omega⟩
  | .unary _ _ inner, pc, here, below, ops, h => by
      rw [Expr.size]
      cases h with
      | operand h =>
          obtain ⟨hlow, hhigh, hfirst⟩ := ExprInside.bounds inner h
          exact ⟨hlow, by omega, hfirst⟩
      | unary =>
          have hpos := (ExprInside.bounds inner (.first inner 0 [])).2.1
          exact ⟨by omega, by omega, by omega⟩
  | .binary _ _ first second, pc, here, below, ops, h => by
      rw [Expr.size]
      have hpos := (ExprInside.bounds first (.first first 0 [])).2.1
      cases h with
      | left h =>
          obtain ⟨hlow, hhigh, hfirst⟩ := ExprInside.bounds first h
          exact ⟨hlow, by omega, hfirst⟩
      | right h =>
          obtain ⟨hlow, hhigh, -⟩ := ExprInside.bounds second h
          exact ⟨by omega, by omega, by omega⟩
      | binary => exact ⟨by omega, by omega, by omega⟩

theorem ExprsInside.bounds : ∀ (es : List Expr) {pc here : Nat} {below ops : List Ty},
    ExprsInside es pc below here ops → pc ≤ here ∧ here < pc + Expr.sizes es ∧
    (here = pc → ops = below)
  | [], _, _, _, _, h => by cases h
  | e :: es, pc, here, below, ops, h => by
      rw [Expr.sizes]
      have hpos := (ExprInside.bounds e (.first e 0 [])).2.1
      cases h with
      | head h =>
          obtain ⟨hlow, hhigh, hfirst⟩ := ExprInside.bounds e h
          exact ⟨hlow, by omega, hfirst⟩
      | tail h =>
          obtain ⟨hlow, hhigh, -⟩ := ExprsInside.bounds es h
          exact ⟨by omega, by omega, by omega⟩

end

theorem Expr.size_pos (e : Expr) : 0 < e.size := by
  have h := (ExprInside.bounds e (.first e 0 [])).2.1
  omega

theorem Stmt.size_pos {s : Stmt} (h : s.isComment = false) : 0 < s.size := by
  cases s with
  | expr e => exact Nat.lt_of_lt_of_le e.size_pos (Nat.le_add_right _ _)
  | assign target value span => exact Nat.lt_of_lt_of_le value.size_pos (Nat.le_add_right _ _)
  | ret value span => cases value <;> simp [Stmt.size]
  | cond condition thenBlock elseBlock span =>
      rw [Stmt.size]
      omega
  | comment text span => cases h
  | _ => simp [Stmt.size]

mutual

theorem StmtStarts.bounds : ∀ (s : Stmt) {pc depth here k : Nat}, StmtStarts s pc depth here k →
    pc ≤ here ∧ here < pc + s.size
  | s, pc, depth, _, _, .self hs => by
      have := Stmt.size_pos hs
      omega
  | .cond condition thenBlock elseBlock span, pc, depth, here, k, .thenBlock h => by
      have := StmtsStart.bounds thenBlock h
      rw [Stmt.size]
      omega
  | .cond condition thenBlock elseBlock span, pc, depth, here, k, .elseBlock h => by
      have := StmtsStart.bounds elseBlock h
      rw [Stmt.size]
      omega
  | .whileLoop condition body span, pc, depth, here, k, .whileBody h => by
      have := StmtsStart.bounds body h
      rw [Stmt.size]
      omega
  | .repeatLoop count body span, pc, depth, here, k, .repeatBody h => by
      have := StmtsStart.bounds body h
      rw [Stmt.size]
      omega

theorem StmtsStart.bounds :
    ∀ (ss : List Stmt) {pc depth here k : Nat}, StmtsStart ss pc depth here k →
    pc ≤ here ∧ here < pc + Stmt.sizes ss
  | s :: rest, pc, depth, here, k, .head h => by
      have := StmtStarts.bounds s h
      rw [Stmt.sizes]
      omega
  | s :: rest, pc, depth, here, k, .tail h => by
      have := StmtsStart.bounds rest h
      rw [Stmt.sizes]
      omega

end

theorem TargetInside.bounds {target : Expr} {pc here : Nat} {below ops : List Ty}
    (h : TargetInside target pc below here ops) : pc ≤ here ∧ here < pc + target.targetSize := by
  cases h with
  | slot => simp [Expr.targetSize]
  | record h =>
      have := ExprInside.bounds _ h
      rw [Expr.targetSize]
      omega
  | field =>
      rw [Expr.targetSize]
      omega

mutual

theorem StmtInside.bounds : ∀ (s : Stmt) {pc here : Nat} {sh x : Shape}, StmtInside s pc sh here x →
    pc ≤ here ∧ here < pc + s.size
  | .comment .., pc, here, sh, x, h => by cases h
  | .expr e, pc, here, sh, x, h => by
      rw [Stmt.size]
      cases h with
      | expr h =>
          have := ExprInside.bounds e h
          omega
      | drop hne =>
          have hdrop : e.dropSize = 1 := by
            rw [Expr.dropSize, if_neg]
            intro hnothing
            exact hne (by rw [Expr.ty, hnothing, Option.getD_some])
          omega
  | .var decl, pc, here, sh, x, h => by
      rw [Stmt.size]
      cases h with
      | initial h =>
          have := ExprInside.bounds _ h
          omega
      | store => omega
  | .assign target value span, pc, here, sh, x, h => by
      rw [Stmt.size]
      cases h with
      | value h =>
          have := ExprInside.bounds _ h
          omega
      | target h =>
          have := h.bounds
          omega
  | .cond condition thenBlock elseBlock span, pc, here, sh, x, h => by
      rw [Stmt.size]
      cases h with
      | condition h =>
          have := ExprInside.bounds _ h
          omega
      | branch => omega
      | thenBlock h =>
          have := StmtsInside.bounds thenBlock h
          omega
      | skip => omega
      | elseBlock h =>
          have := StmtsInside.bounds elseBlock h
          omega
  | .whileLoop condition body span, pc, here, sh, x, h => by
      rw [Stmt.size]
      cases h with
      | whileTest h =>
          have := ExprInside.bounds _ h
          omega
      | whileBranch => omega
      | whileBody h =>
          have := StmtsInside.bounds body h
          omega
      | whileBack => omega
  | .repeatLoop count body span, pc, here, sh, x, h => by
      rw [Stmt.size]
      cases h with
      | count h =>
          have := ExprInside.bounds _ h
          omega
      | repeatBody h =>
          have := StmtsInside.bounds body h
          omega
      | _ => omega
  | .ret value span, pc, here, sh, x, h => by
      cases h with
      | result h =>
          have := ExprInside.bounds _ h
          rw [Stmt.size]
          omega
      | retValue =>
          rw [Stmt.size]
          omega
      | retNothing =>
          rw [Stmt.size]
          omega
  | .breakLoop span, pc, here, sh, x, h => by
      cases h
      rw [Stmt.size]
      omega
  | .continueLoop span, pc, here, sh, x, h => by
      cases h
      rw [Stmt.size]
      omega

theorem StmtsInside.bounds : ∀ (ss : List Stmt) {pc here : Nat} {sh x : Shape},
    StmtsInside ss pc sh here x →
    pc ≤ here ∧ here < pc + Stmt.sizes ss
  | [], pc, here, sh, x, h => by cases h
  | s :: rest, pc, here, sh, x, h => by
      rw [Stmt.sizes]
      cases h with
      | head h =>
          have := StmtInside.bounds s h
          omega
      | tail h =>
          have := StmtsInside.bounds rest h
          omega

end

/-- The first instruction of a statement has the operands from before it and no others. -/
theorem StmtInside.operands_of_first {s : Stmt} {pc here : Nat} {sh x : Shape}
    (h : StmtInside s pc sh here x) (hfirst : here = pc) : x.operands = sh.operands := by
  have key {e : Expr} {ops : List Ty} (h : ExprInside e pc sh.operands here ops) :
      ops = sh.operands :=
    (ExprInside.bounds e h).2.2 hfirst
  cases h with
  | expr h => exact key h
  | initial h => exact key h
  | value h => exact key h
  | condition h => exact key h
  | whileTest h => exact key h
  | count h => exact key h
  | result h => exact key h
  | retNothing => rfl
  | breakLoop => rfl
  | continueLoop => rfl
  | skip => rfl
  | whileBack => rfl
  | @drop e =>
      have := e.size_pos
      omega
  | @store decl =>
      have := decl.value.size_pos
      omega
  | @target _ value _ _ _ _ _ h =>
      have := h.bounds
      have := value.size_pos
      omega
  | @branch condition =>
      have := condition.size_pos
      omega
  | thenBlock h =>
      have := h.bounds
      omega
  | elseBlock h =>
      have := h.bounds
      omega
  | @whileBranch condition =>
      have := condition.size_pos
      omega
  | whileBody h =>
      have := h.bounds
      omega
  | @repeatHeader count =>
      have := count.size_pos
      omega
  | repeatBody h =>
      have := h.bounds
      omega
  | @retValue value =>
      have := value.size_pos
      omega
  | _ => omega

mutual

/-- **Where a statement begins there is one operand for every repetition around it**, counted from
the statement that encloses it. -/
theorem StmtStarts.height : ∀ (s : Stmt) {pc depth here k : Nat} {sh x : Shape},
    StmtStarts s pc depth here k →
    StmtInside s pc sh here x → sh.operands.length = depth → x.operands.length = k
  | s, pc, depth, _, _, sh, x, .self hs, h, hdepth => by rw [h.operands_of_first rfl, hdepth]
  | .cond condition thenBlock elseBlock span, pc, depth, here, k, sh, x, .thenBlock hstart, h,
      hdepth => by
      have hbounds := StmtsStart.bounds thenBlock hstart
      cases h with
      | thenBlock h => exact StmtsStart.height thenBlock hstart h hdepth
      | condition h =>
          have := ExprInside.bounds _ h
          omega
      | elseBlock h =>
          have := StmtsInside.bounds _ h
          omega
      | _ => omega
  | .cond condition thenBlock elseBlock span, pc, depth, here, k, sh, x, .elseBlock hstart, h,
      hdepth => by
      have hbounds := StmtsStart.bounds elseBlock hstart
      cases h with
      | elseBlock h => exact StmtsStart.height elseBlock hstart h hdepth
      | condition h =>
          have := ExprInside.bounds _ h
          omega
      | thenBlock h =>
          have := StmtsInside.bounds _ h
          omega
      | _ => omega
  | .whileLoop condition body span, pc, depth, here, k, sh, x, .whileBody hstart, h, hdepth => by
      have hbounds := StmtsStart.bounds body hstart
      cases h with
      | whileBody h => exact StmtsStart.height body hstart h hdepth
      | whileTest h =>
          have := ExprInside.bounds _ h
          omega
      | _ => omega
  | .repeatLoop count body span, pc, depth, here, k, sh, x, .repeatBody hstart, h, hdepth => by
      have hbounds := StmtsStart.bounds body hstart
      cases h with
      | repeatBody h => exact StmtsStart.height body hstart h (congrArg Nat.succ hdepth)
      | count h =>
          have := ExprInside.bounds _ h
          omega
      | _ => omega

theorem StmtsStart.height : ∀ (ss : List Stmt) {pc depth here k : Nat} {sh x : Shape},
    StmtsStart ss pc depth here k →
    StmtsInside ss pc sh here x → sh.operands.length = depth → x.operands.length = k
  | s :: rest, pc, depth, here, k, sh, x, .head hstart, h, hdepth => by
      have hbounds := StmtStarts.bounds s hstart
      cases h with
      | head h => exact StmtStarts.height s hstart h hdepth
      | tail h =>
          have := StmtsInside.bounds _ h
          omega
  | s :: rest, pc, depth, here, k, sh, x, .tail hstart, h, hdepth => by
      have hbounds := StmtsStart.bounds rest hstart
      cases h with
      | head h =>
          have := StmtInside.bounds _ h
          omega
      | tail h => exact StmtsStart.height rest hstart h hdepth

end

/-- Where a statement of a function begins there is one operand for every repetition around it. -/
theorem FunctionDecl.StartsAt.height {d : FunctionDecl} {pc k : Nat} {x : Shape}
    (hstart : d.StartsAt pc k) (h : d.Inside pc x) : x.operands.length = k := by
  cases h with
  | body h => exact StmtsStart.height d.body hstart h rfl
  | closing hend =>
      have := StmtsStart.bounds d.body hstart
      omega

end Stepwise
