import Stepwise.Source.Position
import Stepwise.Text.Quoted
import Stepwise.Types.Ty
import Stepwise.Value.Heap

/-!
# Host functions

The functions that the environment of a program provides. A native sees the arguments and the world,
which is the heap, the futures handed out so far and a state of the environment's own, and answers
at once or with a future: a value that the environment delivers later.

The functions of a host are known by their number in the table. They name their types; what the
names mean depends on the program compiled against them.
-/

set_option autoImplicit false

namespace Stepwise

/-! ## Futures -/

/-- A value to be delivered. It is kept until it is taken, which leaves nothing in its place. -/
structure Future where
  completed : Bool
  value : Value
  deriving Repr

namespace Future

/-- A future that waits for its value. -/
def waiting : Future := ⟨false, .nothing⟩

instance : Inhabited Future := ⟨waiting⟩

/-- The future with a value delivered. -/
def complete (_ : Future) (v : Value) : Future := ⟨true, v⟩

/-- The future with its value taken. -/
def emptied (f : Future) : Future := { f with value := .nothing }

end Future

/-- What natives see and change: the heap, the futures, and the environment's own state. -/
structure World (σ : Type) where
  heap : Heap
  futures : Array Future
  env : σ

namespace World

variable {σ : Type}

/-- The world before anything has run. -/
def initial (env : σ) : World σ := ⟨.empty, #[], env⟩

/-- Hands out a new future. -/
def newFuture (w : World σ) (f : Future) : Nat × World σ :=
  (w.futures.size, { w with futures := w.futures.push f })

/-- Whether a future's value is there. A future that was never handed out is never completed. -/
def isCompleted (w : World σ) (i : Nat) : Bool := ((w.futures[i]?).map (·.completed)).getD false

/-- The world with a value delivered to a future. -/
def complete (w : World σ) (i : Nat) (v : Value) : World σ :=
  { w with futures := w.futures.modify i (·.complete v) }

/-- The value delivered to a future, and the world with it taken. -/
def takeValue (w : World σ) (i : Nat) : Value × World σ :=
  (((w.futures[i]?).map (·.value)).getD .nothing,
    { w with futures := w.futures.modify i (·.emptied) })

/-- Makes a record on the heap. -/
def allocate (w : World σ) (fields : List Value) : Value × World σ :=
  let (id, heap) := w.heap.allocate fields
  (.record id, { w with heap })

end World

/-! ## Functions -/

/-- What a native answers: a value at once, or the number of a future. -/
inductive Reply where
  | ready (v : Value)
  | pending (future : Nat)
  deriving Repr

/-- A function of the environment. -/
abbrev Native (σ : Type) := List Value → World σ → Reply × World σ

/-- The native that computes its value from its arguments alone. -/
def Native.ofFunction {σ : Type} (f : List Value → Value) : Native σ :=
  fun arguments w => (.ready (f arguments), w)

/-- The native that makes a record of its arguments. -/
def Native.constructor {σ : Type} : Native σ := fun arguments w =>
  let (v, w) := w.allocate arguments
  (.ready v, w)

/-- A parameter of a host function. -/
structure HostParameter where
  name : String
  typeName : String
  deriving Repr, DecidableEq

/-- A host function. It has a span if the program itself brings it about, as the constructor of a
record. -/
structure HostFunction (σ : Type) where
  name : String
  params : List HostParameter
  resultName : String
  isAsync : Bool
  description : String
  span : Option Span
  native : Native σ

/-- The host functions that a program is compiled against, in order. -/
abbrev HostTable (σ : Type) := List (HostFunction σ)

namespace HostFunction

variable {σ : Type}

/-- The signature, written with the names of the types. -/
def signature (f : HostFunction σ) : String :=
  applied f.name (f.params.map (·.typeName)) ++ ":" ++ f.resultName

/-- Whether a call leaves a value. -/
def returnsValue (f : HostFunction σ) : Bool := f.resultName != Ty.nothing.name

/-- Where the function is declared in the program; the beginning if it is not. -/
def place (f : HostFunction σ) : Span := f.span.getD .origin

/-- The function as diagnostics of the host show it. -/
def summary (f : HostFunction σ) : String :=
  "HostFunction \x7b signature: " ++ Text.quoted f.signature ++ ", is_async: " ++
    (if f.isAsync then "true" else "false") ++ ", .. \x7d"

end HostFunction

/-- The table as diagnostics of the host show it. -/
def HostTable.summary {σ : Type} (t : HostTable σ) : String :=
  "[" ++ ", ".intercalate (t.map fun f => Text.quoted f.signature) ++ "]"

/-- The future as diagnostics of the host show it. -/
def Future.summary (f : Future) : String :=
  "HostFuture \x7b completed: " ++ (if f.completed then "true" else "false") ++ " \x7d"

end Stepwise
