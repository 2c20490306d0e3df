import Mathlib.Data.List.Forall2
import Stepwise.Proofs.Typing.Registry

/-!
# The typing rules

The rules of the language for trees as they are read. They are stated over the declarations of a
program and its host and over the types of the visible names, and speak neither of registries nor of
slots, numbers of functions or the order in which things are declared.

A name means a type, `Denotes`; a call means a function whose parameters have exactly the types of
the arguments, `Declares`; expressions have types, `HasType`; statements keep the rules and declare
names for the statements behind them, `StmtKeeps`. A program is well-formed if its declarations and
the bodies of its functions keep the rules, `WellFormed`.

What checking writes into a tree is compared with the rules node by node: at every node of an
`Annotated` expression stands the one type that the rules give the expression read there.
-/

set_option autoImplicit false

namespace Stepwise

variable {σ : Type}

/-! ## Declarations -/

/-- How a function is declared: its name, and the names of the types of its parameters and of its
result. -/
structure Heading where
  name : String
  params : List String
  result : String
  deriving Repr, DecidableEq

/-- What calls tell functions apart by. -/
def Heading.call (h : Heading) : String × List String := (h.name, h.params)

/-- The heading of a function of the program; without a written type it yields nothing. -/
def FunctionDecl.heading (d : FunctionDecl) : Heading :=
  ⟨d.name.name, d.params.map (·.typeName.name), (d.returnTypeName.map (·.name)).getD
    Ty.nothing.name⟩

/-- The heading of a function of the host. -/
def HostFunction.heading (h : HostFunction σ) : Heading :=
  ⟨h.name, h.params.map (·.typeName), h.resultName⟩

/-- The heading of the constructor of a record. -/
def RecordDecl.heading (d : RecordDecl) : Heading :=
  ⟨d.name.name, d.fields.map (·.typeName.name), d.name.name⟩

/-- What a program and its host declare. The statements outside of functions count as the body of a
function. -/
structure Declarations (σ : Type) where
  records : List RecordDecl
  functions : List FunctionDecl
  hosts : HostTable σ

/-- What a program declares together with a host. -/
def Program.declarations (p : Program) (host : HostTable σ) : Declarations σ :=
  ⟨p.records, p.allFunctions, host⟩

namespace Declarations

/-- The functions of the program. -/
def userHeadings (D : Declarations σ) : List Heading := D.functions.map FunctionDecl.heading

/-- The functions of the host and the constructors of the records. -/
def hostHeadings (D : Declarations σ) : List Heading :=
  D.hosts.map HostFunction.heading ++ D.records.map RecordDecl.heading

/-- The types that names mean: the built-in types and the records. -/
inductive Denotes (D : Declarations σ) : String → Ty → Prop
  | builtIn {t : Ty} : t ∈ Ty.builtIn → D.Denotes t.name t
  | record {d : RecordDecl} : d ∈ D.records → D.Denotes d.name.name (.record d.name.name)

/-- The types that what is stored or passed may be declared with. -/
def Stores (D : Declarations σ) (name : String) (t : Ty) : Prop := D.Denotes name t ∧ t ≠ .nothing

/-- The records of a name have a field of a name and a type. -/
def HasField (D : Declarations σ) (record field : String) (t : Ty) : Prop :=
  ∃ d ∈ D.records, d.name.name = record ∧ ∃ f ∈ d.fields, f.name.name = field ∧
  D.Stores f.typeName.name t

/-- The types in a heading are known, and no parameter is nothing. -/
def Types (D : Declarations σ) (h : Heading) (params : List Ty) (result : Ty) : Prop :=
  List.Forall₂ D.Stores h.params params ∧ D.Denotes h.result result

/-- There is a function of a name that takes exactly these types. -/
def Declares (D : Declarations σ) (name : String) (params : List Ty) (result : Ty) : Prop :=
  ∃ h ∈ D.userHeadings ++ D.hostHeadings, h.name = name ∧ D.Types h params result

end Declarations

/-! ## Expressions -/

/-- What a unary operator makes of a type. -/
inductive UnaryOp.Yields : UnaryOp → Ty → Ty → Prop
  | negate : Yields .negate .number .number
  | not : Yields .not .boolean .boolean

/-- What a binary operator makes of two types. Values of one type can be compared, but not
nothing. -/
inductive BinaryOp.Yields : BinaryOp → Ty → Ty → Ty → Prop
  | arithmetic {op : BinaryOp} : op ∈ [add, subtract, multiply, divide] →
      Yields op .number .number .number
  | concat : Yields .concat .string .string .string
  | order {op : BinaryOp} : op ∈ [less, lessEqual, greater, greaterEqual] →
      Yields op .number .number .boolean
  | logic {op : BinaryOp} : op ∈ [and, or, xor] → Yields op .boolean .boolean .boolean
  | comparison {op : BinaryOp} {t : Ty} : op ∈ [equal, notEqual] → t ≠ .nothing →
      Yields op t t .boolean

/-- The types of the visible names. -/
abbrev Context := List (String × Ty)

namespace Declarations

mutual

/-- An expression of a type. -/
inductive HasType (D : Declarations σ) (Γ : Context) : Expr → Ty → Prop
  | number {i : ExprInfo} {v : Float} : HasType D Γ (.number i v) .number
  | boolean {i : ExprInfo} {v : Bool} : HasType D Γ (.boolean i v) .boolean
  | string {i : ExprInfo} {v : String} : HasType D Γ (.string i v) .string
  | reference {i : ExprInfo} {name : String} {slot : Option Nat} {t : Ty} :
      Γ.lookup name = some t → HasType D Γ (.reference i name slot) t
  | call {i : ExprInfo} {name : Ident} {arguments : List Expr} {callee : Option Callee}
      {ts : List Ty} {t : Ty} :
      HaveTypes D Γ arguments ts → D.Declares name.name ts t →
      HasType D Γ (.call i name arguments callee) t
  | field {i : ExprInfo} {record : Expr} {name : Ident} {recordName : String} {t : Ty} :
      HasType D Γ record (.record recordName) → D.HasField recordName name.name t →
      HasType D Γ (.field i record name) t
  | unary {i : ExprInfo} {op : UnaryOp} {operand : Expr} {s t : Ty} :
      HasType D Γ operand s → op.Yields s t → HasType D Γ (.unary i op operand) t
  | binary {i : ExprInfo} {op : BinaryOp} {left right : Expr} {s s' t : Ty} :
      HasType D Γ left s → HasType D Γ right s' → op.Yields s s' t →
      HasType D Γ (.binary i op left right) t

/-- Expressions of types in order. -/
inductive HaveTypes (D : Declarations σ) (Γ : Context) : List Expr → List Ty → Prop
  | nil : HaveTypes D Γ [] []
  | cons {e : Expr} {es : List Expr} {t : Ty} {ts : List Ty} :
      HasType D Γ e t → HaveTypes D Γ es ts → HaveTypes D Γ (e :: es) (t :: ts)

end

end Declarations

/-! ## Statements -/

/-- What a statement has to know of its function. -/
structure Surroundings where
  result : Ty
  isMain : Bool

namespace Declarations

mutual

/-- A statement that keeps the rules, given whether it stands in a loop, with the visible names
before and behind it. A name can be declared where it is not visible, and is visible up to the end
of the block. -/
inductive StmtKeeps (D : Declarations σ) (S : Surroundings) : Bool → Context → Stmt → Context → Prop
  | expr {inLoop : Bool} {Γ : Context} {e : Expr} {t : Ty} :
      D.HasType Γ e t → StmtKeeps D S inLoop Γ (.expr e) Γ
  | var {inLoop : Bool} {Γ : Context} {decl : VarDecl} {t : Ty} :
      D.HasType Γ decl.value t → t ≠ .nothing →
      (∀ written ∈ decl.typeName, D.Denotes written.name t) →
      Γ.lookup decl.name.name = none → StmtKeeps D S inLoop Γ (.var decl) ((decl.name.name, t) :: Γ)
  | assign {inLoop : Bool} {Γ : Context} {target value : Expr} {span : Span} {t : Ty} :
      D.HasType Γ value t → D.HasType Γ target t → t ≠ .nothing →
      StmtKeeps D S inLoop Γ (.assign target value span) Γ
  | cond {inLoop : Bool} {Γ Γ' Γ'' : Context} {condition : Expr} {thenBlock elseBlock : List Stmt}
      {span : Span} :
      D.HasType Γ condition .boolean → StmtsKeep D S inLoop Γ thenBlock Γ' →
      StmtsKeep D S inLoop Γ elseBlock Γ'' →
      StmtKeeps D S inLoop Γ (.cond condition thenBlock elseBlock span) Γ
  | whileLoop {inLoop : Bool} {Γ Γ' : Context} {condition : Expr} {body : List Stmt} {span : Span} :
      D.HasType Γ condition .boolean → StmtsKeep D S true Γ body Γ' →
      StmtKeeps D S inLoop Γ (.whileLoop condition body span) Γ
  | repeatLoop {inLoop : Bool} {Γ Γ' : Context} {count : Expr} {body : List Stmt} {span : Span} :
      D.HasType Γ count .number → StmtsKeep D S true Γ body Γ' →
      StmtKeeps D S inLoop Γ (.repeatLoop count body span) Γ
  | retValue {inLoop : Bool} {Γ : Context} {value : Expr} {span : Span} :
      S.isMain = false → D.HasType Γ value S.result → S.result ≠ .nothing →
      StmtKeeps D S inLoop Γ (.ret (some value) span) Γ
  | retNothing {inLoop : Bool} {Γ : Context} {span : Span} :
      S.result = .nothing → StmtKeeps D S inLoop Γ (.ret none span) Γ
  | breakLoop {Γ : Context} {span : Span} : StmtKeeps D S true Γ (.breakLoop span) Γ
  | continueLoop {Γ : Context} {span : Span} : StmtKeeps D S true Γ (.continueLoop span) Γ
  | comment {inLoop : Bool} {Γ : Context} {text : String} {span : Span} :
      StmtKeeps D S inLoop Γ (.comment text span) Γ

/-- Statements in a row that keep the rules. -/
inductive StmtsKeep (D : Declarations σ) (S : Surroundings) :
    Bool → Context → List Stmt → Context → Prop
  | nil {inLoop : Bool} {Γ : Context} : StmtsKeep D S inLoop Γ [] Γ
  | cons {inLoop : Bool} {Γ Γ' Γ'' : Context} {s : Stmt} {rest : List Stmt} :
      StmtKeeps D S inLoop Γ s Γ' → StmtsKeep D S inLoop Γ' rest Γ'' →
      StmtsKeep D S inLoop Γ (s :: rest) Γ''

end

/-! ## Programs -/

/-- The names and types of parameters. -/
def Parameters (D : Declarations σ) (params : List Param) (Γ : Context) : Prop :=
  List.Forall₂ (fun p x => x.1 = p.name.name ∧ D.Stores p.typeName.name x.2) params Γ

/-- The body of a function keeps the rules: at its beginning exactly the parameters are visible. -/
def BodyKeeps (D : Declarations σ) (d : FunctionDecl) : Prop :=
  ∃ (Γ Γ' : Context) (result : Ty), D.Parameters d.params Γ ∧ D.Denotes d.heading.result result ∧
    D.StmtsKeep ⟨result, d.isMain⟩ false Γ d.body Γ'

/-- Declarations that do not get in each other's way, with known types. -/
structure Consistent (D : Declarations σ) : Prop where
  /-- Records differ in name from each other and from the built-in types. -/
  recordNames : (D.records.map (·.name.name)).Nodup
  recordsNotBuiltIn : ∀ d ∈ D.records, ∀ t ∈ Ty.builtIn, t.name ≠ d.name.name
  /-- Fields differ in name, and their types are known and not nothing. -/
  fieldNames : ∀ d ∈ D.records, (d.fields.map (·.name.name)).Nodup
  fieldTypes : ∀ d ∈ D.records, ∀ f ∈ d.fields, ∃ t, D.Stores f.typeName.name t
  /-- No two functions of the host and constructors are called in one way, and their types are
  known. -/
  hostTypes : ∀ h ∈ D.hostHeadings, ∃ params result, D.Types h params result
  hostCalls : (D.hostHeadings.map Heading.call).Nodup
  /-- Nor are two functions of the program, or one of them and one of the host. -/
  userTypes : ∀ h ∈ D.userHeadings, ∃ params result, D.Types h params result
  userCalls : (D.userHeadings.map Heading.call).Nodup
  apart : (D.userHeadings.map Heading.call).Disjoint (D.hostHeadings.map Heading.call)
  /-- Parameters differ in name. -/
  paramNames : ∀ d ∈ D.functions, (d.params.map (·.name.name)).Nodup

/-- Declarations that keep the rules, with bodies that keep them. -/
structure WellFormed (D : Declarations σ) : Prop extends D.Consistent where
  bodies : ∀ d ∈ D.functions, D.BodyKeeps d

/-! ## Annotations -/

/-- The rules give an expression one type and no other. -/
def OnlyType (D : Declarations σ) (Γ : Context) (e : Expr) (t : Ty) : Prop :=
  ∀ u : Ty, D.HasType Γ e u ↔ u = t

mutual

/-- An expression and what checking made of it. At every node stands the only type of the expression
that was read there. A comparison may have become a call of `equals`; this call, too, bears the type
that the rules give it. -/
inductive Annotated (D : Declarations σ) (Γ : Context) : Expr → Expr → Prop
  | number {i : ExprInfo} {v : Float} {t : Ty} :
      D.OnlyType Γ (.number i v) t → Annotated D Γ (.number i v) (.number ⟨i.span, some t⟩ v)
  | boolean {i : ExprInfo} {v : Bool} {t : Ty} :
      D.OnlyType Γ (.boolean i v) t → Annotated D Γ (.boolean i v) (.boolean ⟨i.span, some t⟩ v)
  | string {i : ExprInfo} {v : String} {t : Ty} :
      D.OnlyType Γ (.string i v) t → Annotated D Γ (.string i v) (.string ⟨i.span, some t⟩ v)
  | reference {i : ExprInfo} {name : String} {slot slot' : Option Nat} {t : Ty} :
      D.OnlyType Γ (.reference i name slot) t →
      Annotated D Γ (.reference i name slot) (.reference ⟨i.span, some t⟩ name slot')
  | call {i : ExprInfo} {name : Ident} {arguments arguments' : List Expr}
      {callee callee' : Option Callee} {t : Ty} :
      D.OnlyType Γ (.call i name arguments callee) t → AllAnnotated D Γ arguments arguments' →
      Annotated D Γ (.call i name arguments callee) (.call ⟨i.span, some t⟩ name arguments' callee')
  | field {i : ExprInfo} {record record' : Expr} {name : Ident} {t : Ty} :
      D.OnlyType Γ (.field i record name) t → Annotated D Γ record record' →
      Annotated D Γ (.field i record name) (.field ⟨i.span, some t⟩ record' name)
  | unary {i : ExprInfo} {op : UnaryOp} {operand operand' : Expr} {t : Ty} :
      D.OnlyType Γ (.unary i op operand) t → Annotated D Γ operand operand' →
      Annotated D Γ (.unary i op operand) (.unary ⟨i.span, some t⟩ op operand')
  | binary {i : ExprInfo} {op : BinaryOp} {left right left' right' : Expr} {t : Ty} :
      D.OnlyType Γ (.binary i op left right) t → Annotated D Γ left left' →
      Annotated D Γ right right' →
      Annotated D Γ (.binary i op left right) (.binary ⟨i.span, some t⟩ op left' right')
  | equal {i : ExprInfo} {left right left' right' : Expr} {callee : Callee} {t : Ty} :
      D.OnlyType Γ (.binary i .equal left right) t →
      D.OnlyType Γ (.call i ⟨equalsName, i.span⟩ [left, right] none) t →
      Annotated D Γ left left' → Annotated D Γ right right' →
      Annotated D Γ (.binary i .equal left right)
        (.call ⟨i.span, some t⟩ ⟨equalsName, i.span⟩ [left', right'] (some callee))
  | notEqual {i : ExprInfo} {left right left' right' : Expr} {callee : Callee} {s t : Ty} :
      D.OnlyType Γ (.binary i .notEqual left right) t →
      D.OnlyType Γ (.call i ⟨equalsName, i.span⟩ [left, right] none) s →
      Annotated D Γ left left' → Annotated D Γ right right' →
      Annotated D Γ (.binary i .notEqual left right) (.unary ⟨i.span, some t⟩ .not
        (.call ⟨i.span, some s⟩ ⟨equalsName, i.span⟩ [left', right'] (some callee)))

/-- Expressions and what checking made of them. -/
inductive AllAnnotated (D : Declarations σ) (Γ : Context) : List Expr → List Expr → Prop
  | nil : AllAnnotated D Γ [] []
  | cons {e e' : Expr} {es es' : List Expr} :
      Annotated D Γ e e' → AllAnnotated D Γ es es' → AllAnnotated D Γ (e :: es) (e' :: es')

end

mutual

/-- A statement and what checking made of it, with the visible names before and behind it. -/
inductive StmtAnnotated (D : Declarations σ) : Context → Stmt → Stmt → Context → Prop
  | expr {Γ : Context} {e e' : Expr} : D.Annotated Γ e e' → StmtAnnotated D Γ (.expr e) (.expr e') Γ
  | var {Γ : Context} {decl : VarDecl} {value : Expr} {slot : Option Nat} {t : Ty} :
      D.Annotated Γ decl.value value → D.OnlyType Γ decl.value t →
      StmtAnnotated D Γ (.var decl) (.var { decl with value, ty := some t, slot })
        ((decl.name.name, t) :: Γ)
  | assign {Γ : Context} {target target' value value' : Expr} {span : Span} :
      D.Annotated Γ target target' → D.Annotated Γ value value' →
      StmtAnnotated D Γ (.assign target value span) (.assign target' value' span) Γ
  | cond {Γ Γ' Γ'' : Context} {condition condition' : Expr}
      {thenBlock thenBlock' elseBlock elseBlock' : List Stmt} {span : Span} :
      D.Annotated Γ condition condition' → StmtsAnnotated D Γ thenBlock thenBlock' Γ' →
      StmtsAnnotated D Γ elseBlock elseBlock' Γ'' →
      StmtAnnotated D Γ (.cond condition thenBlock elseBlock span)
        (.cond condition' thenBlock' elseBlock' span) Γ
  | whileLoop {Γ Γ' : Context} {condition condition' : Expr} {body body' : List Stmt}
      {span : Span} :
      D.Annotated Γ condition condition' → StmtsAnnotated D Γ body body' Γ' →
      StmtAnnotated D Γ (.whileLoop condition body span) (.whileLoop condition' body' span) Γ
  | repeatLoop {Γ Γ' : Context} {count count' : Expr} {body body' : List Stmt} {span : Span} :
      D.Annotated Γ count count' → StmtsAnnotated D Γ body body' Γ' →
      StmtAnnotated D Γ (.repeatLoop count body span) (.repeatLoop count' body' span) Γ
  | retValue {Γ : Context} {value value' : Expr} {span : Span} :
      D.Annotated Γ value value' →
      StmtAnnotated D Γ (.ret (some value) span) (.ret (some value') span) Γ
  | retNothing {Γ : Context} {span : Span} : StmtAnnotated D Γ (.ret none span) (.ret none span) Γ
  | breakLoop {Γ : Context} {span : Span} : StmtAnnotated D Γ (.breakLoop span) (.breakLoop span) Γ
  | continueLoop {Γ : Context} {span : Span} :
      StmtAnnotated D Γ (.continueLoop span) (.continueLoop span) Γ
  | comment {Γ : Context} {text : String} {span : Span} :
      StmtAnnotated D Γ (.comment text span) (.comment text span) Γ

/-- Statements in a row and what checking made of them. -/
inductive StmtsAnnotated (D : Declarations σ) : Context → List Stmt → List Stmt → Context → Prop
  | nil {Γ : Context} : StmtsAnnotated D Γ [] [] Γ
  | cons {Γ Γ' Γ'' : Context} {s s' : Stmt} {rest rest' : List Stmt} :
      StmtAnnotated D Γ s s' Γ' → StmtsAnnotated D Γ' rest rest' Γ'' →
      StmtsAnnotated D Γ (s :: rest) (s' :: rest') Γ''

end

/-- A function and what checking made of it. -/
def FunctionAnnotated (D : Declarations σ) (d d' : FunctionDecl) : Prop :=
  d'.name = d.name ∧ ∃ Γ Γ' : Context, D.Parameters d.params Γ ∧ d'.paramTys = Γ.map (·.2) ∧
    D.Denotes d.heading.result d'.resultTy ∧ D.StmtsAnnotated Γ d.body d'.body Γ'

end Declarations

/-! ## What the rules say at once -/

theorem UnaryOp.yields_iff {op : UnaryOp} {s t : Ty} : op.Yields s t ↔ op.result? s = some t := by
  constructor
  · rintro (_ | _) <;> rfl
  · intro h
    cases op <;> cases s <;> cases h
    · exact .negate
    · exact .not

theorem BinaryOp.yields_iff {op : BinaryOp} {s s' t : Ty} :
    op.Yields s s' t ↔ op.result? s s' = some t := by
  constructor
  · rintro (h | _ | h | h | ⟨h, hne⟩)
    · simp only [List.mem_cons, List.not_mem_nil, or_false] at h
      rcases h with rfl | rfl | rfl | rfl <;> rfl
    · rfl
    · simp only [List.mem_cons, List.not_mem_nil, or_false] at h
      rcases h with rfl | rfl | rfl | rfl <;> rfl
    · simp only [List.mem_cons, List.not_mem_nil, or_false] at h
      rcases h with rfl | rfl | rfl <;> rfl
    · simp only [List.mem_cons, List.not_mem_nil, or_false] at h
      rcases h with rfl | rfl <;> simp [BinaryOp.result?, hne]
  · intro h
    unfold BinaryOp.result? at h
    split at h <;> split at h <;> cases h
    all_goals
      next htys =>
        obtain ⟨rfl, htys⟩ := htys
        first
        | exact .comparison (by decide) htys
        | subst htys
          first
          | exact .arithmetic (by decide)
          | exact .order (by decide)
          | exact .concat
          | exact .logic (by decide)

namespace Declarations

variable {D : Declarations σ} {Γ : Context}

/-- A type is known by its name. -/
theorem Denotes.name_eq {name : String} {t : Ty} (h : D.Denotes name t) : t.name = name := by
  cases h <;> rfl

/-- The records can be named in call signatures. -/
def Named (D : Declarations σ) : Prop := ∀ d ∈ D.records, (Ty.record d.name.name).Nameable

theorem Named.nameable (named : D.Named) {name : String} {t : Ty} (h : D.Denotes name t) :
    t.Nameable := by
  cases h with
  | builtIn ht =>
      simp only [Ty.builtIn, List.mem_cons, List.not_mem_nil, or_false] at ht
      rcases ht with rfl | rfl | rfl | rfl <;> trivial
  | record hd => exact named _ hd

theorem Named.storable (named : D.Named) {name : String} {t : Ty} (h : D.Stores name t) :
    t.Storable :=
  ⟨h.2, named.nameable h.1⟩

/-- A name means one type. -/
theorem Named.denotes_unique (named : D.Named) {name : String} {s t : Ty} (hs : D.Denotes name s)
    (ht : D.Denotes name t) : s = t :=
  (named.nameable hs).eq_of_name_eq (named.nameable ht) (hs.name_eq.trans ht.name_eq.symm)

/-- A heading has the types of its parameters and of its result in one way. -/
theorem Named.types_unique (named : D.Named) {h : Heading} {ss ts : List Ty} {s t : Ty}
    (hs : D.Types h ss s) (ht : D.Types h ts t) : ss = ts ∧ s = t := by
  refine ⟨?_, named.denotes_unique hs.2 ht.2⟩
  exact List.right_unique_forall₂' (fun a b c hb hc => named.denotes_unique hb.1 hc.1) hs.1 ht.1

theorem Named.types_storable (named : D.Named) {h : Heading} {ts : List Ty} {t : Ty}
    (ht : D.Types h ts t) :
    ∀ s ∈ ts, s.Storable := by
  intro s hs
  obtain ⟨i, hi, rfl⟩ := List.getElem_of_mem hs
  have hlt : i < h.params.length := by rw [ht.1.length_eq]; exact hi
  exact named.storable (ht.1.get hlt hi)

/-- The names of the types in a heading are those of the types that it has. -/
theorem Types.params_eq {h : Heading} {ts : List Ty} {t : Ty} (ht : D.Types h ts t) :
    h.params = ts.map Ty.name := by
  obtain ⟨hparams, -⟩ := ht
  generalize h.params = names at hparams
  induction hparams with
  | nil => rfl
  | cons hfirst _ ih => rw [List.map_cons, hfirst.1.name_eq, ih]

end Declarations

end Stepwise
