import Stepwise.Proofs.Machine.Drive
import Stepwise.Typing.Program

/-!
# Evaluating a program by its tree

What a program means, said by its tree as it was read and without any code: statements are carried
out one after the other, operands and arguments are evaluated from left to right and all of them, a
value is assigned before the record that it is put into is looked for. Values go with their static
types, which decide the function that a call goes to and the comparison of records: records of a
type are compared by the program's `equals` for it, if there is one that yields a truth value, and
else by identity.

Variables are found by name. Slots, numbers of functions that were noted in the tree, jumps and
operand stacks play no part here. A function calls others through an answering function, so
evaluation is recursive in the tree; how deep functions call each other and how often loops repeat
is bounded by fuel, and a program that runs out of it has no result.

* `Setting.evaluate` is the meaning of a whole program: what it leaves of the world, and the calls
  of the host that it made.
-/

set_option autoImplicit false

namespace Stepwise

variable {σ : Type}

/-! ## Variables -/

/-- A value and its static type. -/
structure TypedValue where
  value : Value
  ty : Ty
  deriving Repr

/-- A variable in scope. -/
structure Variable where
  name : String
  content : TypedValue
  deriving Repr

/-- The variables in scope, the latest first. -/
abbrev Variables := List Variable

namespace Variables

/-- What the variable of a name holds. -/
def read? (vars : Variables) (name : String) : Option TypedValue :=
  (vars.find? (·.name == name)).map (·.content)

/-- Sets the variable of a name. -/
def write (name : String) (v : Value) : Variables → Variables
  | [] => []
  | x :: rest =>
    if x.name == name then { x with content := ⟨v, x.content.ty⟩ } :: rest else
      x :: write name v rest

/-- The variables behind a block: those that it declared are gone. -/
def leave (outer inner : Variables) : Variables := inner.drop (inner.length - outer.length)

end Variables

/-! ## What a program does to its surroundings -/

/-- The world and the calls of the host that were made so far. -/
structure Effects (σ : Type) where
  world : World σ
  calls : List HostCall

/-- How a call is answered. -/
abbrev Answering (σ : Type) := Callee → List TypedValue → Effects σ → Option (Value × Effects σ)

/-- What a program is evaluated in: its declared types and functions, the functions as they were
read, and the functions of the host. -/
structure Setting (σ : Type) where
  registry : Registry
  functions : List FunctionDecl
  hostFunctions : HostTable σ

/-- The place and the type of a field in records of a type. -/
def Registry.fieldAt? (r : Registry) (t : Ty) (name : String) : Option (Nat × Ty) :=
  match t with
  | .record recordName => do
    let record ← r.record? recordName
    let index ← record.fieldIndex? name
    let field ← record.fields[index]?
    return (index, field.ty)
  | _ => none

/-- Applies a binary operator. Records that have a comparison of their own are compared by calling
it. -/
def Setting.applyBinary (s : Setting σ) (answer : Answering σ) (op : BinaryOp) (x y : TypedValue)
    (out : Effects σ) :
    Option (Value × Effects σ) :=
  match op, s.registry.equality? x.ty with
  | .equal, some callee => answer callee [x, y] out
  | .notEqual, some callee => do
    let (v, out) ← answer callee [x, y] out
    return (UnaryOp.not.apply v, out)
  | _, _ => some (op.apply x.value y.value, out)

/-! ## Expressions -/

mutual

/-- The value of an expression, with its static type. -/
def Expr.evaluate (s : Setting σ) (answer : Answering σ) (vars : Variables) :
    Expr → Effects σ → Option (TypedValue × Effects σ)
  | .number _ v, out => some (⟨.number v, .number⟩, out)
  | .boolean _ v, out => some (⟨.boolean v, .boolean⟩, out)
  | .string _ v, out => some (⟨.string v, .string⟩, out)
  | .reference _ name _, out => (vars.read? name).map fun x => (x, out)
  | .call _ name arguments _, out => do
    let (xs, out) ← Expr.evaluateAll s answer vars arguments out
    let f ← s.registry.resolveCall? name.name (xs.map (·.ty))
    let (v, out) ← answer f.callee xs out
    return (⟨v, f.result⟩, out)
  | .field _ record name, out => do
    let (x, out) ← record.evaluate s answer vars out
    let (index, ty) ← s.registry.fieldAt? x.ty name.name
    return (⟨out.world.fieldOf index x.value, ty⟩, out)
  | .unary _ op operand, out => do
    let (x, out) ← operand.evaluate s answer vars out
    let ty ← op.result? x.ty
    return (⟨op.apply x.value, ty⟩, out)
  | .binary _ op left right, out => do
    let (x, out) ← left.evaluate s answer vars out
    let (y, out) ← right.evaluate s answer vars out
    let ty ← op.result? x.ty y.ty
    let (v, out) ← s.applyBinary answer op x y out
    return (⟨v, ty⟩, out)

/-- The values of expressions, from left to right. -/
def Expr.evaluateAll (s : Setting σ) (answer : Answering σ) (vars : Variables) :
    List Expr → Effects σ → Option (List TypedValue × Effects σ)
  | [], out => some ([], out)
  | e :: es, out => do
    let (x, out) ← e.evaluate s answer vars out
    let (xs, out) ← Expr.evaluateAll s answer vars es out
    return (x :: xs, out)

end

/-- Assigns a value to a variable or to a field. -/
def Expr.assign (s : Setting σ) (answer : Answering σ) (vars : Variables) (v : Value)
    (out : Effects σ) :
    Expr → Option (Variables × Effects σ)
  | .reference _ name _ => some (vars.write name v, out)
  | .field _ record name => do
    let (x, out) ← record.evaluate s answer vars out
    let (index, _) ← s.registry.fieldAt? x.ty name.name
    return (vars, { out with world := out.world.withField index x.value v })
  | _ => none

/-! ## Statements -/

/-- How a statement ends. -/
inductive Signal where
  /-- The next statement follows. -/
  | next
  | breakLoop
  | continueLoop
  | returned (v : Value)
  deriving Repr

/-- What a statement leaves: how it ended, the variables, and the effects. -/
structure Left (σ : Type) where
  signal : Signal
  vars : Variables
  effects : Effects σ

/-- What is carried out with the variables in scope. -/
abbrev Carrying (σ : Type) := Variables → Effects σ → Option (Left σ)

/-- What a block leaves: its variables go out of scope. -/
def Left.outOf (l : Left σ) (outer : Variables) : Left σ := { l with vars := outer.leave l.vars }

/-- Goes through a loop's body once and then, unless the loop is left, goes on. -/
def goThrough (body : Carrying σ) (goOn : Carrying σ) : Carrying σ := fun vars out => do
  let l ← body vars out
  let l := l.outOf vars
  match l.signal with
  | .next | .continueLoop => goOn l.vars l.effects
  | .breakLoop => return { l with signal := .next }
  | .returned _ => return l

/-- Carries out a body as long as a condition is true. -/
def whileTrue (test : Variables → Effects σ → Option (TypedValue × Effects σ)) (body : Carrying σ) :
    Nat → Carrying σ
  | 0, _, _ => none
  | fuel + 1, vars, out => do
    let (x, out) ← test vars out
    if x.value.asBool then goThrough body (whileTrue test body fuel) vars out else
      return ⟨.next, vars, out⟩

/-- Carries out a body as long as a count, which goes down by one each time, is above zero. -/
def repeatTimes (body : Carrying σ) : Nat → Float → Carrying σ
  | 0, _, _, _ => none
  | fuel + 1, count, vars, out =>
    if 0 < count then goThrough body (repeatTimes body fuel (count - 1)) vars out else
      return ⟨.next, vars, out⟩

mutual

/-- Carries out a statement. -/
def Stmt.carryOut (s : Setting σ) (answer : Answering σ) (fuel : Nat) : Stmt → Carrying σ
  | .comment .., vars, out => some ⟨.next, vars, out⟩
  | .expr e, vars, out => do
    let (_, out) ← e.evaluate s answer vars out
    return ⟨.next, vars, out⟩
  | .var decl, vars, out => do
    let (x, out) ← decl.value.evaluate s answer vars out
    return ⟨.next, ⟨decl.name.name, x⟩ :: vars, out⟩
  | .assign target value _, vars, out => do
    let (x, out) ← value.evaluate s answer vars out
    let (vars, out) ← target.assign s answer vars x.value out
    return ⟨.next, vars, out⟩
  | .cond condition thenBlock elseBlock _, vars, out => do
    let (x, out) ← condition.evaluate s answer vars out
    let l ←
      if x.value.asBool then Stmt.carryOutAll s answer fuel thenBlock vars out
      else Stmt.carryOutAll s answer fuel elseBlock vars out
    return l.outOf vars
  | .whileLoop condition body _, vars, out =>
    whileTrue (condition.evaluate s answer) (Stmt.carryOutAll s answer fuel body) fuel vars out
  | .repeatLoop count body _, vars, out => do
    let (x, out) ← count.evaluate s answer vars out
    repeatTimes (Stmt.carryOutAll s answer fuel body) fuel x.value.asNumber vars out
  | .ret (some value) _, vars, out => do
    let (x, out) ← value.evaluate s answer vars out
    return ⟨.returned x.value, vars, out⟩
  | .ret none _, vars, out => some ⟨.returned .nothing, vars, out⟩
  | .breakLoop _, vars, out => some ⟨.breakLoop, vars, out⟩
  | .continueLoop _, vars, out => some ⟨.continueLoop, vars, out⟩

/-- Carries out statements in order, up to one that does not end in the ordinary way. -/
def Stmt.carryOutAll (s : Setting σ) (answer : Answering σ) (fuel : Nat) : List Stmt → Carrying σ
  | [], vars, out => some ⟨.next, vars, out⟩
  | stmt :: rest, vars, out => do
    let l ← stmt.carryOut s answer fuel vars out
    match l.signal with
    | .next => Stmt.carryOutAll s answer fuel rest l.vars l.effects
    | _ => return l

end

/-! ## Functions and programs -/

/-- The value that a body ends with: nothing if it does not return one. -/
def Signal.result : Signal → Value
  | .returned v => v
  | _ => .nothing

/-- The parameters of a function with their arguments. -/
def FunctionDecl.bind (d : FunctionDecl) (xs : List TypedValue) : Variables :=
  (List.zipWith (fun p x => ⟨p.name.name, x⟩) d.params xs).reverse

/-- Calls a function of the host. -/
def Setting.callHost (s : Setting σ) (index : Nat) (xs : List TypedValue) (out : Effects σ) :
    Option (Value × Effects σ) := do
  let f ← s.hostFunctions[index]?
  let arguments := xs.map (·.value)
  match f.native arguments out.world with
  | (.ready v, world) => return (v, ⟨world, out.calls ++ [⟨index, arguments⟩]⟩)
  | (.pending _, _) => none

/-- Answers a call, where functions call each other no deeper than the fuel allows. -/
def Setting.answer (s : Setting σ) : Nat → Answering σ
  | _, .host index, xs, out => s.callHost index xs out
  | 0, .user _, _, _ => none
  | fuel + 1, .user index, xs, out => do
    let d ← s.functions[index]?
    let l ← Stmt.carryOutAll s (s.answer fuel) fuel d.body (d.bind xs) out
    return (l.signal.result, l.effects)

/-- Evaluates a program: its first function is called in the given world. -/
def Setting.evaluate (s : Setting σ) (fuel : Nat) (world : World σ) : Option (Effects σ) :=
  (s.answer fuel (.user 0) [] ⟨world, []⟩).map (·.2)

end Stepwise
