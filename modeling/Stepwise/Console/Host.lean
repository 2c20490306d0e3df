import Stepwise.Host.Standard

/-!
# The host of the console

What programs find on the command line: the standard functions, `print` for every kind of plain
value, and `pause`, which is answered after a number of seconds. The natives write into the state of
the console; whoever drives the machine passes the lines on and sees to the pauses.
-/

set_option autoImplicit false

namespace Stepwise

/-- A future to be completed after a time. -/
structure Pause where
  future : Nat
  seconds : Float
  deriving Repr

/-- The state of the console: lines to be printed and pauses to be seen to, both latest first. -/
structure Console where
  lines : List String
  pauses : List Pause
  deriving Repr

namespace Console

/-- The console before anything has run. -/
def empty : Console := ⟨[], []⟩

instance : Inhabited Console := ⟨empty⟩

/-- The console with a line more to be printed. -/
def say (c : Console) (line : String) : Console := { c with lines := line :: c.lines }

/-- Prints its argument on a line. -/
def printNative : Native Console := fun arguments w =>
  let line := (arguments.head?.map fun v => v.display w.heap).getD ""
  (.ready .nothing, { w with env := w.env.say line })

/-- A time to wait for; what is negative or no number is no time. -/
def waitingTime (seconds : Float) : Float := if 0 < seconds then seconds else 0

/-- Answers after a number of seconds. -/
def pauseNative : Native Console := fun arguments w =>
  let seconds := waitingTime ((arguments.headD .nothing).asNumber)
  let (future, w) := w.newFuture .waiting
  (.pending future, { w with env := { w.env with pauses := ⟨future, seconds⟩ :: w.env.pauses } })

/-- The function that prints values of a type. -/
def printFunction (typeName : String) : HostFunction Console :=
  ⟨"print", [⟨"value", typeName⟩], "nothing", false, "Print a value on its own line", none,
    printNative⟩

/-- The function that pauses the program. -/
def pauseFunction : HostFunction Console :=
  ⟨"pause", [⟨"seconds", "number"⟩], "nothing", true, "Wait for a number of seconds", none,
    pauseNative⟩

/-- The functions that programs on the console can call. -/
def table : HostTable Console :=
  Standard.table ++ ["string", "number", "boolean"].map printFunction ++ [pauseFunction]

end Console

end Stepwise
