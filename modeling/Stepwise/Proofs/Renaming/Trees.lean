import Stepwise.Proofs.Code.Size
import Stepwise.Proofs.Diagnosed

/-!
# Renamed programs

A renaming gives other names to the variables and parameters of a function. Everything else stays:
the names of functions, records, fields and types, where things are written, and what checking has
noted.

Every stage of compilation is compared with itself on its renamed input: either both stop, with
faults of one kind at one place, or the result of the second is the renamed result of the first
(`Diagnosed.Mirrors`).

This module renames trees. What a tree becomes depends on what the renaming does to the names that
occur in it (`FunctionDecl.rename_congr`).
-/

set_option autoImplicit false

namespace Stepwise

namespace Diagnosed

variable {α β : Type}

/-- Two compilations that come to a result and its image, or stop with faults of one kind at one
place. -/
abbrev Mirrors (image : α → β) : Diagnosed α → Diagnosed β → Prop :=
  Related (fun d e => e.cause.kind = d.cause.kind ∧ e.span = d.span) fun a b => b = image a

theorem Mirrors.refl (x : Diagnosed α) : Mirrors id x x := by
  cases x with
  | ok a => exact .ok rfl
  | error d => exact .stop ⟨rfl, rfl⟩

end Diagnosed

variable (ρ : String → String)

/-! ## Renaming -/

/-- A name, renamed where it is written. -/
def Ident.rename (name : Ident) : Ident := { name with name := ρ name.name }

mutual

/-- An expression with its variables renamed. -/
def Expr.rename : Expr → Expr
  | .number i v => .number i v
  | .boolean i v => .boolean i v
  | .string i v => .string i v
  | .reference i name slot => .reference i (ρ name) slot
  | .call i name arguments callee => .call i name (Expr.renameAll arguments) callee
  | .field i record name => .field i record.rename name
  | .unary i op operand => .unary i op operand.rename
  | .binary i op left right => .binary i op left.rename right.rename

/-- Expressions with their variables renamed. -/
def Expr.renameAll : List Expr → List Expr
  | [] => []
  | e :: es => e.rename :: Expr.renameAll es

end

/-- The declaration of a variable, renamed. -/
def VarDecl.rename (decl : VarDecl) : VarDecl :=
  { decl with name := decl.name.rename ρ, value := decl.value.rename ρ }

mutual

/-- A statement with its variables renamed. -/
def Stmt.rename : Stmt → Stmt
  | .expr e => .expr (e.rename ρ)
  | .var decl => .var (decl.rename ρ)
  | .assign target value span => .assign (target.rename ρ) (value.rename ρ) span
  | .cond condition thenBlock elseBlock span =>
    .cond (condition.rename ρ) (Stmt.renameAll thenBlock) (Stmt.renameAll elseBlock) span
  | .whileLoop condition body span => .whileLoop (condition.rename ρ) (Stmt.renameAll body) span
  | .repeatLoop count body span => .repeatLoop (count.rename ρ) (Stmt.renameAll body) span
  | .ret value span => .ret (value.map (Expr.rename ρ)) span
  | .breakLoop span => .breakLoop span
  | .continueLoop span => .continueLoop span
  | .comment text span => .comment text span

/-- Statements with their variables renamed. -/
def Stmt.renameAll : List Stmt → List Stmt
  | [] => []
  | s :: rest => s.rename :: Stmt.renameAll rest

end

/-- A parameter, renamed. -/
def Param.rename (p : Param) : Param := { p with name := p.name.rename ρ }

/-- A function with its parameters and variables renamed. -/
def FunctionDecl.rename (d : FunctionDecl) : FunctionDecl :=
  { d with params := d.params.map (Param.rename ρ), body := Stmt.renameAll ρ d.body }

/-- Functions numbered from `index`, each with its own renaming. -/
def FunctionDecl.renameEach (ρ : Nat → String → String) (index : Nat) :
    List FunctionDecl → List FunctionDecl
  | [] => []
  | d :: rest => d.rename (ρ index) :: FunctionDecl.renameEach ρ (index + 1) rest

/-- A program with the variables of each function renamed. The statements outside of functions have
the number 0. -/
def Program.rename (ρ : Nat → String → String) (p : Program) : Program :=
  ⟨p.records, FunctionDecl.renameEach ρ 1 p.functions, Stmt.renameAll (ρ 0) p.main⟩

theorem Program.allFunctions_rename (ρ : Nat → String → String) (p : Program) :
    (p.rename ρ).allFunctions = FunctionDecl.renameEach ρ 0 p.allFunctions := rfl

/-! ## What stays -/

theorem Expr.renameAll_eq_map (es : List Expr) : Expr.renameAll ρ es = es.map (Expr.rename ρ) := by
  induction es with
  | nil => rfl
  | cons e es ih => rw [renameAll, ih, List.map_cons]

theorem Stmt.renameAll_eq_map (ss : List Stmt) : Stmt.renameAll ρ ss = ss.map (Stmt.rename ρ) := by
  induction ss with
  | nil => rfl
  | cons s rest ih => rw [renameAll, ih, List.map_cons]

namespace Expr

@[simp] theorem info_rename (e : Expr) : (e.rename ρ).info = e.info := by
  cases e <;> simp [rename, info]

@[simp] theorem span_rename (e : Expr) : (e.rename ρ).span = e.span := by
  rw [span, info_rename, span]

@[simp] theorem ty?_rename (e : Expr) : (e.rename ρ).ty? = e.ty? := by
  rw [ty?, info_rename, ty?]

mutual

@[simp] theorem size_rename : ∀ e : Expr, (e.rename ρ).size = e.size
  | .number .. | .boolean .. | .string .. | .reference .. => rfl
  | .call _ _ arguments _ => by rw [rename, size, size, sizes_renameAll arguments]
  | .field _ record _ => by rw [rename, size, size, size_rename record]
  | .unary _ _ operand => by rw [rename, size, size, size_rename operand]
  | .binary _ _ left right => by rw [rename, size, size, size_rename left, size_rename right]

@[simp] theorem sizes_renameAll : ∀ es : List Expr, sizes (renameAll ρ es) = sizes es
  | [] => rfl
  | e :: es => by rw [renameAll, sizes, sizes, size_rename e, sizes_renameAll es]

end

@[simp] theorem targetSize_rename (e : Expr) : (e.rename ρ).targetSize = e.targetSize := by
  cases e <;> simp [rename, targetSize]

@[simp] theorem dropSize_rename (e : Expr) : (e.rename ρ).dropSize = e.dropSize := by
  simp only [dropSize, ty?_rename]

end Expr

namespace Stmt

@[simp] theorem isComment_rename (s : Stmt) : (s.rename ρ).isComment = s.isComment := by
  cases s <;> simp [rename, isComment]

@[simp] theorem isReturn_rename (s : Stmt) : (s.rename ρ).isReturn = s.isReturn := by
  cases s <;> simp [rename, isReturn]

mutual

@[simp] theorem size_rename : ∀ s : Stmt, (s.rename ρ).size = s.size
  | .expr e => by simp only [rename, size, Expr.size_rename, Expr.dropSize_rename]
  | .var decl => by simp only [rename, size, VarDecl.rename, Expr.size_rename]
  | .assign target value _ => by simp only [rename, size, Expr.size_rename, Expr.targetSize_rename]
  | .cond condition thenBlock elseBlock _ => by
      simp only [rename, size, Expr.size_rename, sizes_renameAll thenBlock,
        sizes_renameAll elseBlock]
  | .whileLoop condition body _ =>
    by simp only [rename, size, Expr.size_rename, sizes_renameAll body]
  | .repeatLoop count body _ => by simp only [rename, size, Expr.size_rename, sizes_renameAll body]
  | .ret none _ => rfl
  | .ret (some value) _ => by simp only [rename, size, Option.map_some, Expr.size_rename]
  | .breakLoop _ | .continueLoop _ | .comment .. => rfl

@[simp] theorem sizes_renameAll : ∀ ss : List Stmt, sizes (renameAll ρ ss) = sizes ss
  | [] => rfl
  | s :: rest => by rw [renameAll, sizes, sizes, size_rename s, sizes_renameAll rest]

end

end Stmt

theorem endsWithReturn_renameAll (body : List Stmt) :
    endsWithReturn (Stmt.renameAll ρ body) = endsWithReturn body := by
  have hfind : (Stmt.renameAll ρ body).reverse.find? (!·.isComment) =
      (body.reverse.find? (!·.isComment)).map (Stmt.rename ρ) := by
    rw [Stmt.renameAll_eq_map, ← List.map_reverse, List.find?_map]
    simp only [Function.comp_def, Stmt.isComment_rename]
  unfold endsWithReturn
  rw [hfind]
  cases body.reverse.find? (!·.isComment) with
  | none => rfl
  | some s => exact s.isReturn_rename ρ

@[simp] theorem FunctionDecl.size_rename (d : FunctionDecl) : (d.rename ρ).size = d.size := by
  simp only [size, rename, Stmt.sizes_renameAll, endsWithReturn_renameAll]

theorem FunctionDecl.paramTys_rename (d : FunctionDecl) : (d.rename ρ).paramTys = d.paramTys := by
  rw [paramTys, rename, List.map_map]
  rfl

/-! ## The names of a tree -/

mutual

/-- The variables of an expression. -/
def Expr.names : Expr → List String
  | .number .. | .boolean .. | .string .. => []
  | .reference _ name _ => [name]
  | .call _ _ arguments _ => Expr.namesIn arguments
  | .field _ record _ => record.names
  | .unary _ _ operand => operand.names
  | .binary _ _ left right => left.names ++ right.names

/-- The variables of expressions in a row. -/
def Expr.namesIn : List Expr → List String
  | [] => []
  | e :: es => e.names ++ Expr.namesIn es

end

mutual

/-- The variables that a statement declares or uses. -/
def Stmt.names : Stmt → List String
  | .expr e => e.names
  | .var decl => decl.name.name :: decl.value.names
  | .assign target value _ => target.names ++ value.names
  | .cond condition thenBlock elseBlock _ =>
    condition.names ++ Stmt.namesIn thenBlock ++ Stmt.namesIn elseBlock
  | .whileLoop condition body _ | .repeatLoop condition body _ =>
    condition.names ++ Stmt.namesIn body
  | .ret (some value) _ => value.names
  | .ret none _ | .breakLoop _ | .continueLoop _ | .comment .. => []

/-- The variables that statements in a row declare or use. -/
def Stmt.namesIn : List Stmt → List String
  | [] => []
  | s :: rest => s.names ++ Stmt.namesIn rest

end

/-- The parameters and variables that a function declares or uses. -/
def FunctionDecl.names (d : FunctionDecl) : List String :=
  d.params.map (·.name.name) ++ Stmt.namesIn d.body

section Congruence

variable {ρ} {ρ' : String → String}

mutual

theorem Expr.rename_congr : ∀ e : Expr, (∀ x ∈ e.names, ρ x = ρ' x) → e.rename ρ = e.rename ρ'
  | .number .., _ | .boolean .., _ | .string .., _ => rfl
  | .reference _ name _, h =>
    by rw [Expr.rename, Expr.rename, h name (List.mem_singleton_self name)]
  | .call _ _ arguments _, h => by rw [Expr.rename, Expr.rename, Expr.renameAll_congr arguments h]
  | .field _ record _, h => by rw [Expr.rename, Expr.rename, Expr.rename_congr record h]
  | .unary _ _ operand, h => by rw [Expr.rename, Expr.rename, Expr.rename_congr operand h]
  | .binary _ _ left right, h => by
      rw [Expr.rename, Expr.rename, Expr.rename_congr left fun x hx =>
        h x (List.mem_append_left _ hx), Expr.rename_congr right fun x hx =>
        h x (List.mem_append_right _ hx)]

theorem Expr.renameAll_congr : ∀ es : List Expr, (∀ x ∈ Expr.namesIn es, ρ x = ρ' x) →
    Expr.renameAll ρ es = Expr.renameAll ρ' es
  | [], _ => rfl
  | e :: es, h => by
      rw [Expr.renameAll, Expr.renameAll, Expr.rename_congr e fun x hx =>
        h x (List.mem_append_left _ hx), Expr.renameAll_congr es fun x hx =>
        h x (List.mem_append_right _ hx)]

end

mutual

theorem Stmt.rename_congr : ∀ s : Stmt, (∀ x ∈ s.names, ρ x = ρ' x) → s.rename ρ = s.rename ρ'
  | .expr e, h => by rw [Stmt.rename, Stmt.rename, e.rename_congr h]
  | .var decl, h => by
      have hname : decl.name.rename ρ = decl.name.rename ρ' := by
        rw [Ident.rename, Ident.rename, h _ List.mem_cons_self]
      rw [Stmt.rename, Stmt.rename, VarDecl.rename, VarDecl.rename, hname,
        decl.value.rename_congr fun x hx => h x (List.mem_cons_of_mem _ hx)]
  | .assign target value _, h => by
      rw [Stmt.rename, Stmt.rename, target.rename_congr fun x hx => h x (List.mem_append_left _ hx),
        value.rename_congr fun x hx => h x (List.mem_append_right _ hx)]
  | .cond condition thenBlock elseBlock _, h => by
      have hfront : ∀ x ∈ condition.names ++ Stmt.namesIn thenBlock, ρ x = ρ' x :=
        fun x hx => h x (List.mem_append_left _ hx)
      rw [Stmt.rename, Stmt.rename, condition.rename_congr fun x hx =>
        hfront x (List.mem_append_left _ hx), Stmt.renameAll_congr thenBlock fun x hx =>
        hfront x (List.mem_append_right _ hx),
        Stmt.renameAll_congr elseBlock fun x hx => h x (List.mem_append_right _ hx)]
  | .whileLoop condition body _, h | .repeatLoop condition body _, h => by
      rw [Stmt.rename, Stmt.rename, condition.rename_congr fun x hx =>
        h x (List.mem_append_left _ hx), Stmt.renameAll_congr body fun x hx =>
        h x (List.mem_append_right _ hx)]
  | .ret (some value) _, h =>
    by rw [Stmt.rename, Stmt.rename, Option.map_some, Option.map_some, value.rename_congr h]
  | .ret none _, _ | .breakLoop _, _ | .continueLoop _, _ | .comment .., _ => rfl

theorem Stmt.renameAll_congr : ∀ ss : List Stmt, (∀ x ∈ Stmt.namesIn ss, ρ x = ρ' x) →
    Stmt.renameAll ρ ss = Stmt.renameAll ρ' ss
  | [], _ => rfl
  | s :: rest, h => by
      rw [Stmt.renameAll, Stmt.renameAll, Stmt.rename_congr s fun x hx =>
        h x (List.mem_append_left _ hx), Stmt.renameAll_congr rest fun x hx =>
        h x (List.mem_append_right _ hx)]

end

/-- **Renamings that agree on the names of a function** rename it alike. -/
theorem FunctionDecl.rename_congr {d : FunctionDecl} (h : ∀ x ∈ d.names, ρ x = ρ' x) :
    d.rename ρ = d.rename ρ' := by
  have hparams : d.params.map (Param.rename ρ) = d.params.map (Param.rename ρ') := by
    refine List.map_congr_left fun p hp => ?_
    rw [Param.rename, Param.rename, Ident.rename, Ident.rename,
      h _ (List.mem_append_left _ (List.mem_map_of_mem hp))]
  rw [rename, rename, hparams, Stmt.renameAll_congr d.body fun x hx =>
    h x (List.mem_append_right _ hx)]

end Congruence

/-- The functions in a row are renamed alike. -/
theorem FunctionDecl.renameEach_congr {ρ ρ' : Nat → String → String} {decls : List FunctionDecl} :
    ∀ {start : Nat},
    (∀ {i : Nat} {d : FunctionDecl}, decls[i]? = some d → ∀ x ∈ d.names,
      ρ (start + i) x = ρ' (start + i) x) →
      FunctionDecl.renameEach ρ start decls = FunctionDecl.renameEach ρ' start decls := by
  induction decls with
  | nil => exact fun _ => rfl
  | cons d rest ih =>
      intro start h
      have hhead : ∀ x ∈ d.names, ρ start x = ρ' start x := h (i := 0) rfl
      have htail : renameEach ρ (start + 1) rest = renameEach ρ' (start + 1) rest := by
        refine ih fun {i d} hd x hx => ?_
        have hx' := h (i := i + 1) hd x hx
        rwa [← Nat.add_assoc, Nat.add_right_comm] at hx'
      rw [renameEach, renameEach, rename_congr hhead, htail]

end Stepwise
