import Stepwise.Operator
import Stepwise.Source.Position
import Stepwise.Types.Registry

/-!
# Program trees

The tree of a program: declarations of records and functions, and statements made of expressions.
Every node knows the span it was read from. A node has room for what checking finds out about it,
the type of an expression, the slot of a variable and the target of a call, and is read with that
room empty.
-/

set_option autoImplicit false

namespace Stepwise

/-- A name and where it is written. -/
structure Ident where
  name : String
  span : Span
  deriving Repr, DecidableEq, Inhabited

/-- What every expression carries: where it is written and, once checked, its type. -/
structure ExprInfo where
  span : Span
  ty : Option Ty
  deriving Repr, DecidableEq, Inhabited

/-- Expressions. -/
inductive Expr where
  | number (info : ExprInfo) (value : Float)
  | boolean (info : ExprInfo) (value : Bool)
  | string (info : ExprInfo) (value : String)
  /-- A variable or parameter, with its slot once checked. -/
  | reference (info : ExprInfo) (name : String) (slot : Option Nat)
  /-- A call, with its target once checked. -/
  | call (info : ExprInfo) (name : Ident) (arguments : List Expr) (callee : Option Callee)
  | field (info : ExprInfo) (record : Expr) (name : Ident)
  | unary (info : ExprInfo) (op : UnaryOp) (operand : Expr)
  | binary (info : ExprInfo) (op : BinaryOp) (left right : Expr)
  deriving Repr, Inhabited

namespace Expr

/-- What the node itself carries. -/
def info : Expr → ExprInfo
  | number i _ | boolean i _ | string i _ | reference i _ _ | call i _ _ _ | field i _ _ |
      unary i _ _
  | binary i _ _ _ => i

/-- Where the expression is written. -/
def span (e : Expr) : Span := e.info.span

/-- The type that checking has found. -/
def ty? (e : Expr) : Option Ty := e.info.ty

/-- The type that checking has found; an unchecked expression counts as nothing. -/
def ty (e : Expr) : Ty := e.ty?.getD .nothing

/-- The expression with its own information replaced. -/
def withInfo (i : ExprInfo) : Expr → Expr
  | number _ v => number i v
  | boolean _ v => boolean i v
  | string _ v => string i v
  | reference _ n s => reference i n s
  | call _ n as c => call i n as c
  | field _ r n => field i r n
  | unary _ op e => unary i op e
  | binary _ op l r => binary i op l r

/-- The expression with another span. -/
def withSpan (s : Span) (e : Expr) : Expr := e.withInfo { e.info with span := s }

/-- Whether the expression may stand before an equals sign. -/
def isAssignable : Expr → Bool
  | reference .. | field .. => true
  | _ => false

end Expr

/-- The declaration of a variable with its first value. -/
structure VarDecl where
  name : Ident
  typeName : Option Ident
  value : Expr
  ty : Option Ty
  slot : Option Nat
  span : Span
  deriving Repr, Inhabited

/-- Statements. -/
inductive Stmt where
  | expr (e : Expr)
  | var (decl : VarDecl)
  | assign (target value : Expr) (span : Span)
  | cond (condition : Expr) (thenBlock elseBlock : List Stmt) (span : Span)
  | whileLoop (condition : Expr) (body : List Stmt) (span : Span)
  | repeatLoop (count : Expr) (body : List Stmt) (span : Span)
  | ret (value : Option Expr) (span : Span)
  | breakLoop (span : Span)
  | continueLoop (span : Span)
  | comment (text : String) (span : Span)
  deriving Repr, Inhabited

namespace Stmt

/-- Where the statement is written. -/
def span : Stmt → Span
  | expr e => e.span
  | var d => d.span
  | assign _ _ s | cond _ _ _ s | whileLoop _ _ s | repeatLoop _ _ s | ret _ s | breakLoop s |
      continueLoop s
  | comment _ s => s

/-- Whether the statement is a comment. -/
def isComment : Stmt → Bool
  | comment .. => true
  | _ => false

/-- Whether the statement is a `return`. -/
def isReturn : Stmt → Bool
  | ret .. => true
  | _ => false

end Stmt

/-- Whether the last statement that is no comment is a `return`. -/
def endsWithReturn (body : List Stmt) : Bool :=
  match body.reverse.find? (!·.isComment) with
  | some s => s.isReturn
  | none => false

/-- A field of a record declaration. -/
structure FieldDecl where
  name : Ident
  typeName : Ident
  ty : Option Ty
  deriving Repr, Inhabited

/-- The declaration of a record. -/
structure RecordDecl where
  name : Ident
  fields : List FieldDecl
  span : Span
  deriving Repr, Inhabited

/-- A parameter of a function. -/
structure Param where
  name : Ident
  typeName : Ident
  ty : Option Ty
  slot : Option Nat
  deriving Repr, Inhabited

/-- The declaration of a function. -/
structure FunctionDecl where
  name : Ident
  params : List Param
  returnTypeName : Option Ident
  returnType : Option Ty
  body : List Stmt
  span : Span
  deriving Repr, Inhabited

namespace FunctionDecl

/-- The name of the function that holds the statements outside of functions. No program can write
it. -/
def mainName : String := "$main"

/-- The function that holds the statements outside of functions. -/
def main (body : List Stmt) : FunctionDecl :=
  ⟨⟨mainName, .origin⟩, [], none, some .nothing, body, .origin⟩

/-- Whether this is the function of the statements outside of functions. -/
def isMain (f : FunctionDecl) : Bool := f.name.name == mainName

/-- The type of the result; nothing until it is known. -/
def resultTy (f : FunctionDecl) : Ty := f.returnType.getD .nothing

/-- The types of the parameters; nothing where they are not known. -/
def paramTys (f : FunctionDecl) : List Ty := f.params.map fun p => p.ty.getD .nothing

end FunctionDecl

/-- A program: its declarations in order, and the statements outside of functions. -/
structure Program where
  records : List RecordDecl
  functions : List FunctionDecl
  main : List Stmt
  deriving Repr, Inhabited

/-- All functions of a program, the one of the statements outside of functions first. -/
def Program.allFunctions (p : Program) : List FunctionDecl := .main p.main :: p.functions

end Stepwise
