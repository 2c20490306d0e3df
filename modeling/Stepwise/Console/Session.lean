import Stepwise.Code.Export
import Stepwise.Code.Listing
import Stepwise.Compile
import Stepwise.Console.Host
import Stepwise.Console.Invocation
import Stepwise.Machine.Run
import Stepwise.Settings.Basic

/-!
# Sessions on the console

What an invocation does, but for reading files, printing and waiting. An invocation either ends at
once or begins a session, in which a program is run or stepped through. A session goes on by turns;
after each it tells whether it goes on at once, goes on after a tick, or has ended.

* `Invocation.begin` is the outcome of an invocation, given what reading its files has yielded.
* `Session.turn` is a turn of a session; the lines it prints are left on the console.
-/

set_option autoImplicit false

namespace Stepwise

/-- How a program is driven. -/
inductive Drive where
  /-- By so many instructions a tick. -/
  | run (budget : Nat)
  /-- By steps, into calls or over them; a step over a statement that paused is gone on with. -/
  | debug (into : Bool) (paused : Option Snapshot)
  deriving Repr

/-- A program on the console. -/
structure Session where
  machine : Machine Console
  drive : Drive
  tickMillis : Nat

/-- How a session goes on. -/
inductive Continuation where
  | atOnce
  | afterTick
  | ended
  deriving Repr, DecidableEq

namespace Session

/-! ## What is printed -/

/-- The session with lines printed. -/
def print (s : Session) (lines : List String) : Session :=
  { s with machine := { s.machine with
      world := { s.machine.world with env := lines.foldl Console.say s.machine.world.env } } }

/-- The lines printed and not passed on yet, and the session with them passed on. -/
def takeLines (s : Session) : List String × Session :=
  let env := s.machine.world.env
  (env.lines.reverse,
    { s with machine :=
      { s.machine with world := { s.machine.world with env := { env with lines := [] } } } })

/-- The pauses not seen to yet, and the session with them seen to. -/
def takePauses (s : Session) : List Pause × Session :=
  let env := s.machine.world.env
  (env.pauses.reverse,
    { s with machine :=
      { s.machine with world := { s.machine.world with env := { env with pauses := [] } } } })

/-- The session after a pause is over. -/
def endPause (s : Session) (future : Nat) : Session :=
  { s with machine := s.machine.complete future .nothing }

end Session

/-- The lines that show the locals of every activation. -/
def Machine.localLines {σ : Type} (m : Machine σ) : List String :=
  m.frames.reverse.zipIdx.map fun (frame, index) =>
    let name := ((m.module.function? frame.function).map (·.name)).getD "?"
    let shown := (m.localsInScope index).map fun (l, v) => s!"{l.name} = {v.display m.world.heap}"
    s!"    #{index} {name}: " ++ ", ".intercalate shown

namespace Session

/-! ## Turns -/

/-- A tick of a running program. -/
def runTurn (s : Session) (budget : Nat) : Continuation × Session :=
  let s := { s with machine := s.machine.run budget }
  if s.machine.phase = .completed then (.ended, s)
  else if s.machine.atBreakpoint && !s.machine.isSuspended then
    (.afterTick, s.print (s!"[break] line {s.machine.line?.getD 0}" :: s.machine.localLines))
  else (.afterTick, s)

/-- What is shown before a step: the line and the locals, unless a step is gone on with. -/
def announced (s : Session) (paused : Option Snapshot) : Session :=
  if paused.isSome || s.machine.isSuspended then s
  else
    match s.machine.line? with
    | none => s
    | some line => s.print (s!"[line {line}]" :: s.machine.localLines)

/-- A step through a program. -/
def debugTurn (s : Session) (into : Bool) (paused : Option Snapshot) : Continuation × Session :=
  if s.machine.phase = .completed then (.ended, s)
  else
    let s := s.announced paused
    let (paused, machine) :=
      if into then (paused, s.machine.stepInto) else s.machine.stepOver paused
    let next : Session := ⟨machine, .debug into paused, s.tickMillis⟩
    (if machine.isSuspended || paused.isSome then .afterTick else .atOnce, next)

/-- A turn of a session. -/
def turn (s : Session) : Continuation × Session :=
  match s.drive with
  | .run budget => s.runTurn budget
  | .debug into paused => s.debugTurn into paused

end Session

/-! ## Invocations -/

/-- What an invocation leads to. -/
inductive Outcome where
  /-- It has ended, having printed a text. -/
  | finished (output : String)
  /-- It has ended with an error. -/
  | failed (error : String)
  /-- A session begins, with warnings. -/
  | session (warnings : List String) (s : Session)

/-- Sets breakpoints on lines; yields the lines on which nothing begins. -/
def Machine.setBreakpointsAtLines {σ : Type} (m : Machine σ) : List Nat → List Nat × Machine σ
  | [] => ([], m)
  | line :: rest =>
    let (count, m) := m.setBreakpointsAtLine line
    let (missed, m) := m.setBreakpointsAtLines rest
    (if count = 0 then line :: missed else missed, m)

namespace Task

/-- A machine for a module on the console. -/
def machine (settings : RunnerSettings) (m : Module Console) : Machine Console :=
  .start m settings.machineStepLimit (.initial .empty)

/-- What a task does with a module. -/
def perform (settings : RunnerSettings) (m : Module Console) : Task → Outcome
  | .check => .finished s!"ok: {m.functions.length} function(s)\n"
  | .dump true => .finished (m.tree.render ++ "\n")
  | .dump false => .finished m.listing
  | .run budget tickMillis breakpoints =>
    let (missed, machine) := (machine settings m).setBreakpointsAtLines breakpoints
    .session (missed.map fun line => s!"No statement starts on line {line}; breakpoint ignored.")
      ⟨machine, .run (budget.getD settings.instructionsPerTick),
        tickMillis.getD settings.tickMillis⟩
  | .debug into => .session [] ⟨machine settings m, .debug into none, settings.tickMillis⟩

end Task

namespace Invocation

/-- The settings of an invocation, given what reading their file has yielded. -/
def settings (inv : Invocation) (config : Except FileFault String) :
    Except SettingsFault RunnerSettings :=
  if inv.config.isNone then .ok RunnerSettings.standard else RunnerSettings.ofReading config

/-- What an invocation leads to, given what reading the file of the settings and that of the program
has yielded. -/
def begin (inv : Invocation) (config program : Except FileFault String) : Outcome :=
  match inv.settings config with
  | .error fault => .failed s!"Error: {fault.message}"
  | .ok settings =>
    match program with
    | .error fault => .failed s!"Error: Failed to read {inv.file}: {fault.message}"
    | .ok source =>
      match compile source Console.table with
      | .error d => .failed ("Error: " ++ d.report.render source)
      | .ok m => inv.task.perform settings m

end Invocation

end Stepwise
