import Stepwise.Console.Session

/-!
# The command line

Reads the files that an invocation names, prints what it yields, and keeps the time of its session.
-/

set_option autoImplicit false

namespace Stepwise

/-- The fault that an error of the system stands for. -/
def FileFault.ofError : IO.Error → FileFault
  | .noFileOrDirectory .. => .missing
  | .inappropriateType none .. => .isDirectory
  | .inappropriateType .. => .notDirectory
  | .invalidArgument .. => .nameTooLong
  | .userError _ => .notText
  | e => .other (toString e)

/-- What reading a file yields. -/
def readText (path : String) : IO (Except FileFault String) := do
  try
    let text ← IO.FS.readFile path
    return .ok text
  catch e => return .error (.ofError e)

/-- A pause that is over at a time of the clock. -/
structure DuePause where
  future : Nat
  time : Nat

/-- The milliseconds of a pause. -/
def Pause.millis (p : Pause) : Nat := (p.seconds * 1000).ceil.toUInt64.toNat

/-- The greatest number of milliseconds that the system sleeps at once. -/
def longestSleep : Nat := Nat.pow 2 32 - 1

/-- Goes on with a session until it ends. -/
partial def Session.carryOn (s : Session) (due : List DuePause) : IO Unit := do
  let (continuation, s) := s.turn
  let (lines, s) := s.takeLines
  for line in lines do
    IO.println line
  let (pauses, s) := s.takePauses
  let now ← IO.monoMsNow
  let due := due ++ pauses.map fun p => ⟨p.future, now + p.millis⟩
  match continuation with
  | .ended => return
  | .atOnce => s.carryOn due
  | .afterTick =>
    IO.sleep (UInt32.ofNat (min s.tickMillis longestSleep))
    let now ← IO.monoMsNow
    let (past, due) := due.partition (·.time ≤ now)
    (past.foldl (fun s p => s.endPause p.future) s).carryOn due

/-- Carries out an invocation. -/
def Invocation.carryOut (inv : Invocation) : IO UInt32 := do
  let config ← match inv.config with
    | none => pure (.error .missing)
    | some path => readText path
  let program ← readText inv.file
  match inv.begin config program with
  | .finished output =>
    IO.print output
    return 0
  | .failed error =>
    IO.eprintln error
    return 1
  | .session warnings s =>
    for warning in warnings do
      IO.eprintln warning
    s.carryOn []
    return 0

end Stepwise

/-- The program. -/
def main (words : List String) : IO UInt32 :=
  match Stepwise.Invocation.ofWords? words with
  | some inv => inv.carryOut
  | none => do
    IO.eprintln
      "usage: stepwise [--config FILE] (check | dump [--json] | run | debug [--into]) FILE"
    return 2
