import Mathlib.Logic.Function.Iterate
import Stepwise.Machine.Run

/-!
# Driving a machine

A machine is driven from outside: it is told to run, to step, or to change its breakpoints. Between
two such actions the environment may deliver the value of a future.

`Machine.perform` is the machine after an action and `Machine.executed` lists the machines, in
order, of which the action executed an instruction. Whatever an action does is made of four changes:
an instruction is executed while no call is outstanding, an answer that is there is taken, the end
of the program is noted, the breakpoints change. `Executes` is the first of them repeated, which is
all that an action does between an answer and its end (`StepsUntil.executes`).

`Invariant` says that a property of what was executed so far and of the present machine survives
these four, and then it survives every action (`Invariant.perform`) and every sequence of events
(`Invariant.handleAll`).
-/

set_option autoImplicit false

namespace Stepwise

/-- What a machine can be told to do. -/
inductive Action where
  | run (budget : Nat)
  | stepOver (last : Option Snapshot)
  | stepInto
  | setBreakpoint (function pc : Nat)
  | setBreakpointsAtLine (line : Nat)
  | clearBreakpoint (function pc : Nat)
  | clearBreakpoints
  deriving Repr, DecidableEq

/-- Whether an action may execute instructions. -/
def Action.drives : Action → Bool
  | .run _ | .stepOver _ | .stepInto => true
  | .setBreakpoint .. | .setBreakpointsAtLine _ | .clearBreakpoint .. | .clearBreakpoints => false

/-- What can happen to a machine: an action, the delivery of a value to a future, a restart. -/
inductive Event where
  | act (a : Action)
  | complete (future : Nat) (v : Value)
  | restart
  deriving Repr

/-- A call of a host function: its number and its arguments. -/
structure HostCall where
  function : Nat
  arguments : List Value
  deriving Repr

variable {σ : Type}

/-- The field of a record; nothing if the value is no record. -/
def World.fieldOf (w : World σ) (index : Nat) (v : Value) : Value :=
  match v.record? with
  | none => .nothing
  | some id => w.heap.get id index

/-- The world with a field of a record set; the same world if the value is no record. -/
def World.withField (w : World σ) (index : Nat) (record value : Value) : World σ :=
  match record.record? with
  | none => w
  | some id => { w with heap := w.heap.set id index value }

namespace Machine

/-! ## The next instruction -/

/-- The instruction that is next, if there is one. -/
def instruction? (m : Machine σ) : Option Instruction := do
  let frame ← m.frames.head?
  let code ← m.module.function? frame.function
  code.instructions[frame.pc]?

/-- The call of the host that the next instruction makes, if it makes one. -/
def hostCall? (m : Machine σ) : Option HostCall :=
  match m.instruction? with
  | some (.callHost index) =>
    (m.module.hostFunction? index).map fun f => ⟨index, m.arguments f.params.length⟩
  | _ => none

/-- Two numbers of rounds that lead to where a round changes nothing lead to the same place. -/
theorem iterate_eq_of_fixed {α : Type} {f : α → α} {x : α} {j k : Nat} (hj : f (f^[j] x) = f^[j] x)
    (hk : f (f^[k] x) = f^[k] x) : f^[j] x = f^[k] x := by
  rcases Nat.le_total j k with hle | hle
  · obtain ⟨d, rfl⟩ := Nat.exists_eq_add_of_le hle
    rw [Nat.add_comm, Function.iterate_add_apply, Function.iterate_fixed hj]
  · obtain ⟨d, rfl⟩ := Nat.exists_eq_add_of_le hle
    rw [Nat.add_comm, Function.iterate_add_apply, Function.iterate_fixed hk]

/-! ## Actions and the instructions they execute -/

/-- The machine after an action. -/
def perform (m : Machine σ) : Action → Machine σ
  | .run budget => m.run budget
  | .stepOver last => (m.stepOver last).2
  | .stepInto => m.stepInto
  | .setBreakpoint function pc => (m.setBreakpoint function pc).2
  | .setBreakpointsAtLine line => (m.setBreakpointsAtLine line).2
  | .clearBreakpoint function pc => m.clearBreakpoint function pc
  | .clearBreakpoints => m.clearBreakpoints

/-- The machines of which `advance` executes an instruction. -/
def advanceSteps : Nat → Machine σ → List (Machine σ)
  | 0, _ => []
  | budget + 1, m =>
    if m.pending.isSome || m.frames.isEmpty then []
    else m :: if m.step.atBreakpoint then [] else advanceSteps budget m.step

/-- The machines of which `stepUntil` executes an instruction. -/
def untilSteps (arrived : Snapshot → Bool) : Nat → Machine σ → List (Machine σ)
  | budget, m =>
    if m.pending.isSome then []
    else
      match m.snapshot? with
      | none => []
      | some current =>
        if arrived current then []
        else
          match budget with
          | 0 => []
          | budget + 1 => m :: if m.step.atBreakpoint then [] else untilSteps arrived budget m.step

/-- The machines of which an action executes an instruction, in order. -/
def executed (m : Machine σ) : Action → List (Machine σ)
  | .run budget => if m.frames.isEmpty || m.isSuspended then [] else advanceSteps budget m.resume
  | .stepOver last =>
    match m.snapshot? with
    | none => []
    | some present =>
      if m.isSuspended then [] else untilSteps (Snapshot.passedBy (last.getD present)) m.stepLimit
        m.resume
  | .stepInto =>
    match m.snapshot? with
    | none => []
    | some start => if m.isSuspended then [] else untilSteps (· != start) m.stepLimit m.resume
  | .setBreakpoint .. | .setBreakpointsAtLine _ | .clearBreakpoint .. | .clearBreakpoints => []

/-! ## What every action is made of -/

theorem snapshot?_eq_none {m : Machine σ} : m.snapshot? = none ↔ m.frames = [] := by
  unfold snapshot?
  cases m.frames with
  | nil => simp
  | cons frame callers => simp

theorem frames_ne_nil_of_snapshot? {m : Machine σ} {s : Snapshot} (h : m.snapshot? = some s) :
    m.frames ≠ [] := by
  intro hnil
  rw [snapshot?_eq_none.mpr hnil] at h
  cases h

/-- The instructions of a step on their way to where it arrives: with so many that may be executed,
from a machine, the machines of which one is executed, whether the step pauses or is finished, and
the machine then. -/
inductive StepsUntil (arrived : Snapshot → Bool) :
    Nat → Machine σ → List (Machine σ) → StepOutcome → Machine σ → Prop
  /-- A call is outstanding. -/
  | waiting {budget : Nat} {m : Machine σ} : m.pending ≠ none →
      StepsUntil arrived budget m [] .paused m
  /-- The step has arrived, or there is no activation. -/
  | there {budget : Nat} {m : Machine σ} : m.pending = none →
      (∀ current, m.snapshot? = some current → arrived current = true) →
      StepsUntil arrived budget m [] .finished m
  /-- No instruction may be executed any more. -/
  | exhausted {m : Machine σ} : m.pending = none → m.frames ≠ [] →
      StepsUntil arrived 0 m [] .paused m
  /-- An instruction comes to a breakpoint. -/
  | broken {budget : Nat} {m : Machine σ} {current : Snapshot} : m.pending = none →
      m.snapshot? = some current →
      arrived current = false → m.step.atBreakpoint = true →
      StepsUntil arrived (budget + 1) m [m] .finished m.step
  /-- An instruction is executed in front of the others. -/
  | step {budget : Nat} {m m' : Machine σ} {current : Snapshot} {xs : List (Machine σ)}
      {outcome : StepOutcome} :
      m.pending = none → m.snapshot? = some current → arrived current = false →
      m.step.atBreakpoint = false →
      StepsUntil arrived budget m.step xs outcome m' →
      StepsUntil arrived (budget + 1) m (m :: xs) outcome m'

/-- **What `stepUntil` does is what `untilSteps` lists.** -/
theorem stepsUntil (arrived : Snapshot → Bool) (budget : Nat) (m : Machine σ) :
    StepsUntil arrived budget m (untilSteps arrived budget m) (stepUntil arrived budget m).1
      (stepUntil arrived budget m).2 := by
  fun_induction stepUntil arrived budget m with
  | case1 budget m hpending =>
      unfold untilSteps
      rw [if_pos hpending]
      exact .waiting (Option.isSome_iff_ne_none.mp hpending)
  | case2 budget m hpending hnone =>
      unfold untilSteps
      rw [if_neg hpending, hnone]
      exact .there (by simpa using hpending) (by simp [hnone])
  | case3 budget m hpending current hcurrent harrived =>
      unfold untilSteps
      simp only [if_neg hpending, hcurrent, if_pos harrived]
      exact .there (by simpa using hpending) (by simpa [hcurrent] using harrived)
  | case4 m hpending current hcurrent hgo =>
      simp only [untilSteps, if_neg hpending, hcurrent, if_neg hgo]
      exact .exhausted (by simpa using hpending) (frames_ne_nil_of_snapshot? hcurrent)
  | case5 m hpending current hcurrent hgo budget next hat =>
      simp only [untilSteps, if_neg hpending, hcurrent, if_neg hgo]
      rw [if_pos hat]
      exact .broken (by simpa using hpending) hcurrent (by simpa using hgo) hat
  | case6 m hpending current hcurrent hgo budget next hat ih =>
      simp only [untilSteps, if_neg hpending, hcurrent, if_neg hgo]
      rw [if_neg hat]
      exact .step (by simpa using hpending) hcurrent (by simpa using hgo) (by simpa using hat) ih

theorem stepsUntil_of_eq {arrived : Snapshot → Bool} {budget : Nat} {m m' : Machine σ}
    {outcome : StepOutcome} (h : stepUntil arrived budget m = (outcome, m')) :
    StepsUntil arrived budget m (untilSteps arrived budget m) outcome m' := by
  simpa only [h] using stepsUntil arrived budget m

/-- Instructions executed in a row: of each machine listed, while it waits for nothing and has an
activation, and what its instruction leads to is the next one. -/
inductive Executes : Machine σ → List (Machine σ) → Machine σ → Prop where
  | done (m : Machine σ) : Executes m [] m
  | step {m m' : Machine σ} {xs : List (Machine σ)} : m.pending = none → m.frames ≠ [] →
      Executes m.step xs m' →
      Executes m (m :: xs) m'

/-- What `advance` does is what `advanceSteps` lists. -/
theorem executes_advance (budget : Nat) :
    ∀ m : Machine σ, Executes m (advanceSteps budget m) (advance budget m) := by
  induction budget with
  | zero => exact .done
  | succ budget ih =>
      intro m
      unfold advanceSteps advance
      split
      · exact .done m
      · next hgo =>
          simp only [Bool.or_eq_true, not_or, Bool.not_eq_true, Option.isSome_eq_false_iff,
            Option.isNone_iff_eq_none, List.isEmpty_eq_false_iff] at hgo
          refine .step hgo.1 hgo.2 ?_
          dsimp only
          split
          · exact .done m.step
          · exact ih m.step

theorem StepsUntil.executes {arrived : Snapshot → Bool} {budget : Nat} {m m' : Machine σ}
    {xs : List (Machine σ)} {outcome : StepOutcome}
    (h : StepsUntil arrived budget m xs outcome m') : Executes m xs m' := by
  induction h with
  | waiting | there | exhausted => exact .done _
  | broken hpending hcurrent => exact .step hpending (frames_ne_nil_of_snapshot? hcurrent) (.done _)
  | step hpending hcurrent _ _ _ ih => exact .step hpending (frames_ne_nil_of_snapshot? hcurrent) ih

theorem resume_of_pending_none {m : Machine σ} (h : m.pending = none) : m.resume = m := by
  simp [resume, h]

/-- Whether the function of an outstanding call yields a value. -/
def awaitsValue (m : Machine σ) (call : PendingCall) : Bool :=
  ((m.module.hostFunction? call.function).map (·.returnsValue)).getD false

/-- Taking an answer pushes its value if there is to be one, and the call is outstanding no more. -/
theorem resume_of_pending {m : Machine σ} {call : PendingCall} (h : m.pending = some call) :
    m.resume =
      { m with
        stack := if m.awaitsValue call then (m.world.takeValue call.future).1 :: m.stack
          else m.stack
        pending := none
        world := (m.world.takeValue call.future).2 } := by
  simp only [resume, h]
  rfl

/-- Setting a breakpoint changes nothing but the table. -/
theorem setBreakpoint_snd (m : Machine σ) (function pc : Nat) :
    ∃ table, (m.setBreakpoint function pc).2 = { m with breakpoints := table } := by
  unfold setBreakpoint
  dsimp only
  split
  · exact ⟨_, rfl⟩
  · exact ⟨m.breakpoints, rfl⟩

theorem setBreakpoints_snd (locations : List CodeLocation) (m : Machine σ) :
    ∃ table, (m.setBreakpoints locations).2 = { m with breakpoints := table } := by
  induction locations generalizing m with
  | nil => exact ⟨m.breakpoints, rfl⟩
  | cons l rest ih =>
      obtain ⟨first, hfirst⟩ := m.setBreakpoint_snd l.function l.pc
      obtain ⟨others, hothers⟩ := ih (m.setBreakpoint l.function l.pc).2
      refine ⟨others, ?_⟩
      rw [hfirst] at hothers
      simpa [setBreakpoints, hfirst] using hothers

/-- What driving a machine can come to, with the machines of which an instruction is executed. -/
inductive DrivesTo (m : Machine σ) : List (Machine σ) → Machine σ → Prop where
  /-- There is nothing to execute, and the end of the program is noted. -/
  | ended : m.frames = [] → DrivesTo m [] m.settle
  /-- The answer that the machine waits for is not there. -/
  | suspended : m.frames ≠ [] → m.isSuspended = true → DrivesTo m [] m
  /-- A number of instructions is executed. -/
  | run (budget : Nat) : m.frames ≠ [] → m.isSuspended = false →
      DrivesTo m (advanceSteps budget m.resume) (advance budget m.resume).settle
  /-- A step is not over. -/
  | paused {arrived : Snapshot → Bool} {xs : List (Machine σ)} {m' : Machine σ} : m.frames ≠ [] →
      m.isSuspended = false → StepsUntil arrived m.stepLimit m.resume xs .paused m' →
      DrivesTo m xs m'
  /-- A step is over. -/
  | finished {arrived : Snapshot → Bool} {xs : List (Machine σ)} {m' : Machine σ} : m.frames ≠ [] →
      m.isSuspended = false → StepsUntil arrived m.stepLimit m.resume xs .finished m' →
      DrivesTo m xs m'.settle

theorem drivesTo (m : Machine σ) {a : Action} (ha : a.drives = true) :
    m.DrivesTo (m.executed a) (m.perform a) := by
  cases a with
  | run budget =>
      by_cases hframes : m.frames = []
      · simpa [executed, perform, Machine.run, hframes] using DrivesTo.ended hframes
      · cases hsuspended : m.isSuspended with
        | true =>
            simpa [executed, perform, Machine.run, hframes, hsuspended] using
              DrivesTo.suspended hframes hsuspended
        | false =>
            simpa [executed, perform, Machine.run, hframes, hsuspended] using
              DrivesTo.run budget hframes hsuspended
  | stepOver last =>
      cases hpresent : m.snapshot? with
      | none =>
        simpa [executed, perform, stepOver, hpresent]
          using DrivesTo.ended (snapshot?_eq_none.mp hpresent)
      | some present =>
          have hframes := frames_ne_nil_of_snapshot? hpresent
          cases hsuspended : m.isSuspended with
          | true =>
              simpa [executed, perform, stepOver, hpresent, hsuspended] using DrivesTo.suspended
                hframes hsuspended
          | false =>
              cases hsteps : stepUntil (Snapshot.passedBy (last.getD present)) m.stepLimit
                m.resume with
              | mk outcome m' =>
                  have hlisted := stepsUntil_of_eq hsteps
                  cases outcome with
                  | paused =>
                      simpa [executed, perform, stepOver, hpresent, hsuspended, hsteps] using
                        DrivesTo.paused hframes hsuspended hlisted
                  | finished =>
                      simpa [executed, perform, stepOver, hpresent, hsuspended, hsteps] using
                        DrivesTo.finished hframes hsuspended hlisted
  | stepInto =>
      cases hpresent : m.snapshot? with
      | none =>
        simpa [executed, perform, stepInto, hpresent]
          using DrivesTo.ended (snapshot?_eq_none.mp hpresent)
      | some present =>
          have hframes := frames_ne_nil_of_snapshot? hpresent
          cases hsuspended : m.isSuspended with
          | true =>
              simpa [executed, perform, stepInto, hpresent, hsuspended] using DrivesTo.suspended
                hframes hsuspended
          | false =>
              cases hsteps : stepUntil (· != present) m.stepLimit m.resume with
              | mk outcome m' =>
                  have hlisted := stepsUntil_of_eq hsteps
                  cases outcome with
                  | paused =>
                      simpa [executed, perform, stepInto, hpresent, hsuspended, hsteps] using
                        DrivesTo.paused hframes hsuspended hlisted
                  | finished =>
                      simpa [executed, perform, stepInto, hpresent, hsuspended, hsteps] using
                        DrivesTo.finished hframes hsuspended hlisted
  | _ => cases ha

/-- The other actions change the table of breakpoints and nothing else. -/
theorem perform_of_not_drives (m : Machine σ) {a : Action} (ha : a.drives = false) :
    m.executed a = [] ∧ ∃ table, m.perform a = { m with breakpoints := table } := by
  cases a with
  | setBreakpoint function pc => exact ⟨rfl, m.setBreakpoint_snd function pc⟩
  | setBreakpointsAtLine line => exact ⟨rfl, setBreakpoints_snd (m.module.locationsAt line) m⟩
  | clearBreakpoint function pc => exact ⟨rfl, _, rfl⟩
  | clearBreakpoints => exact ⟨rfl, _, rfl⟩
  | _ => cases ha

/-- A property of the machines executed so far and the present machine that the four changes
keep. -/
structure Invariant (P : List (Machine σ) → Machine σ → Prop) : Prop where
  step : ∀ {xs : List (Machine σ)} {m : Machine σ}, P xs m → m.pending = none → m.frames ≠ [] →
    P (xs ++ [m]) m.step
  resume : ∀ {xs : List (Machine σ)} {m : Machine σ} {call : PendingCall}, P xs m → m.frames ≠ [] →
    m.pending = some call → m.world.isCompleted call.future = true → P xs m.resume
  settle : ∀ {xs : List (Machine σ)} {m : Machine σ}, P xs m → m.frames = [] →
    P xs { m with phase := .completed }
  breakpoints : ∀ {xs : List (Machine σ)} {m : Machine σ} (table : BreakpointTable), P xs m →
    P xs { m with breakpoints := table }

namespace Invariant

variable {P : List (Machine σ) → Machine σ → Prop} {xs : List (Machine σ)} {m : Machine σ}

theorem settled (inv : Invariant P) (h : P xs m) : P xs m.settle := by
  unfold Machine.settle
  split
  · next hempty => exact inv.settle h (List.isEmpty_iff.mp hempty)
  · exact h

theorem resumed (inv : Invariant P) (h : P xs m) (hf : m.frames ≠ [])
    (hs : ¬ m.isSuspended = true) :
    P xs m.resume := by
  cases hp : m.pending with
  | none => rwa [resume_of_pending_none hp]
  | some call =>
      refine inv.resume h hf hp ?_
      simpa [isSuspended, hp] using hs

theorem executed (inv : Invariant P) {ys : List (Machine σ)} {m' : Machine σ}
    (h : Executes m ys m') :
    ∀ {xs : List (Machine σ)}, P xs m → P (xs ++ ys) m' := by
  induction h with
  | done =>
      intro xs h
      simpa using h
  | step hpending hframes _ ih =>
      intro xs h
      simpa using ih (inv.step h hpending hframes)

/-- **What the four changes keep, every action keeps.** -/
theorem perform (inv : Invariant P) (h : P xs m) (a : Action) :
    P (xs ++ m.executed a) (m.perform a) := by
  cases ha : a.drives with
  | false =>
      obtain ⟨hnone, table, htable⟩ := m.perform_of_not_drives ha
      rw [hnone, htable, List.append_nil]
      exact inv.breakpoints table h
  | true =>
      have hresumed (hframes : m.frames ≠ []) (hsuspended : m.isSuspended = false) :
          P xs m.resume :=
        inv.resumed h hframes (by simp [hsuspended])
      have hdriven := m.drivesTo ha
      generalize m.executed a = ys at hdriven
      generalize m.perform a = m' at hdriven
      cases hdriven with
      | ended hframes => simpa using inv.settled h
      | suspended hframes hsuspended => simpa using h
      | run budget hframes hsuspended =>
        exact inv.settled
          (inv.executed (executes_advance budget m.resume) (hresumed hframes hsuspended))
      | paused hframes hsuspended hsteps =>
        exact inv.executed hsteps.executes (hresumed hframes hsuspended)
      | finished hframes hsuspended hsteps =>
          exact inv.settled (inv.executed hsteps.executes (hresumed hframes hsuspended))

end Invariant

/-- While the answer of a call is not there, no action executes an instruction or changes what the
program can see. -/
theorem perform_of_suspended (m : Machine σ) (h : m.isSuspended = true) (a : Action) :
    m.executed a = [] ∧ (m.perform a).frames = m.frames ∧ (m.perform a).stack = m.stack ∧
      (m.perform a).pending = m.pending ∧ (m.perform a).world = m.world := by
  have inv : Invariant fun xs x => xs = [] ∧ x.frames = m.frames ∧ x.stack = m.stack ∧
      x.pending = m.pending ∧ x.world = m.world := by
    refine ⟨?_, ?_, fun hx _ => hx, fun _ hx => hx⟩
    · rintro xs x ⟨-, -, -, hp, -⟩ hnone -
      rw [hp] at hnone
      simp [isSuspended, hnone] at h
    · rintro xs x call ⟨-, -, -, hp, hw⟩ - hsome hdone
      rw [hp] at hsome
      rw [hw] at hdone
      simp [isSuspended, hsome, hdone] at h
  exact inv.perform ⟨rfl, rfl, rfl, rfl, rfl⟩ a

/-! ## Events -/

/-- The machine after an event. -/
def handle (m : Machine σ) : Event → Machine σ
  | .act a => m.perform a
  | .complete future v => m.complete future v
  | .restart => m.restart

/-- The machine after events in a row. -/
def handleAll (m : Machine σ) (events : List Event) : Machine σ := events.foldl handle m

/-- The machines of which events in a row execute an instruction, in order. -/
def history (m : Machine σ) : List Event → List (Machine σ)
  | [] => []
  | .act a :: rest => m.executed a ++ (m.perform a).history rest
  | .complete future v :: rest => (m.complete future v).history rest
  | .restart :: rest => m.restart.history rest

/-- What later events execute is listed behind what earlier ones do. -/
theorem history_append (events later : List Event) : ∀ m : Machine σ,
    m.history (events ++ later) = m.history events ++ (m.handleAll events).history later := by
  induction events with
  | nil => exact fun _ => rfl
  | cons e rest ih =>
      intro m
      cases e with
      | act a =>
          rw [List.cons_append, history, history, ih, List.append_assoc]
          rfl
      | complete future v => exact ih _
      | restart => exact ih _

/-- What the four changes keep, deliveries and restarts as well, every sequence of events keeps. -/
theorem Invariant.handleAll {P : List (Machine σ) → Machine σ → Prop} (inv : Invariant P)
    (complete : ∀ {xs : List (Machine σ)} {m : Machine σ} (future : Nat) (v : Value),
      P xs m → P xs (m.complete future v))
    (restart : ∀ {xs : List (Machine σ)} {m : Machine σ}, P xs m → P xs m.restart)
    (events : List Event) :
    ∀ {xs : List (Machine σ)} {m : Machine σ}, P xs m →
    P (xs ++ m.history events) (m.handleAll events) := by
  induction events with
  | nil =>
      intro xs m h
      simpa [history, Machine.handleAll] using h
  | cons e rest ih =>
      intro xs m h
      cases e with
      | act a => simpa [history, Machine.handleAll, handle] using ih (inv.perform h a)
      | complete future v => exact ih (complete future v h)
      | restart => exact ih (restart h)

end Machine

end Stepwise
