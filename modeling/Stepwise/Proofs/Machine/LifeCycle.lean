import Stepwise.Proofs.Machine.Passing

/-!
# The life of a machine

A machine is started on a module, sound or not, in any world, and then anything happens to it in any
order: it is driven, its breakpoints are changed, values are delivered, it is restarted. Nothing is
assumed of the functions of the module, of its host, or of the steps that are said to be continued.

**Ending.** A machine that was just driven has completed exactly if it has no activation. A machine
that was only started or restarted may have none without having completed, if its module has no
function.

**Waiting.** A call of the host is outstanding only while there is an activation, no instruction is
executed meanwhile, and the call stays the same until a restart drops it or its answer is there and
is taken. The answer goes onto the stack if the function of the call yields a value, and its future
is empty afterwards.

**Executing.** The instructions that are executed are listed (`Machine.history`). Those of one
action follow each other: what the first leads to is where the second is executed, and what the last
leads to is where the action ends (`Machine.Driving`).

**Resting.** Once a machine has completed, nothing but a restart gives it anything to do.

**Breakpoints.** The table keeps its shape. A cell says what was last done to it, or what the module
says if nothing was (`Machine.lastEffect`).

`life_cycle` puts them together.
-/

set_option autoImplicit false

namespace Stepwise

variable {σ : Type}

/-- Whether the module has a breakpoint at an instruction. -/
def Module.hasBreakpoint (program : Module σ) (function pc : Nat) : Bool :=
  (((program.function? function).bind fun code => code.breakpoints[pc]?).bind id).isSome

/-- The line of the statement that an instruction belongs to. -/
def Module.lineAt? (program : Module σ) (function pc : Nat) : Option Nat := do
  let code ← program.function? function
  let info ← code.lineInfos[pc]?
  return info.line

namespace Machine

variable {m m' : Machine σ}

/-! ## Driving -/

section StepsUntil

variable {arrived : Snapshot → Bool} {budget : Nat} {xs : List (Machine σ)} {outcome : StepOutcome}

theorem StepsUntil.breakpoints_eq (h : StepsUntil arrived budget m xs outcome m') :
    m'.breakpoints = m.breakpoints := by
  induction h with
  | waiting | there | exhausted => rfl
  | broken => exact breakpoints_step _
  | step _ _ _ _ _ ih => exact ih.trans (breakpoints_step _)

/-- A step that pauses has a call outstanding or an activation to go on with. -/
theorem StepsUntil.active (h : StepsUntil arrived budget m xs .paused m') :
    m'.pending ≠ none ∨ m'.frames ≠ [] := by
  generalize houtcome : StepOutcome.paused = outcome at h
  induction h with
  | waiting hpending => exact .inl hpending
  | exhausted _ hframes => exact .inr hframes
  | step _ _ _ _ _ ih => exact ih houtcome
  | _ => cases houtcome

end StepsUntil

theorem breakpoints_perform {a : Action} (ha : a.drives = true) :
    (m.perform a).breakpoints = m.breakpoints := by
  have hdriven := m.drivesTo ha
  generalize m.executed a = xs at hdriven
  generalize m.perform a = m' at hdriven ⊢
  cases hdriven with
  | ended hframes => exact breakpoints_settle m
  | suspended hframes hsuspended => rfl
  | run budget hframes hsuspended =>
    rw [breakpoints_settle, breakpoints_advance, breakpoints_resume]
  | paused hframes hsuspended hsteps => exact hsteps.breakpoints_eq.trans m.breakpoints_resume
  | finished hframes hsuspended hsteps =>
    rw [breakpoints_settle, hsteps.breakpoints_eq, breakpoints_resume]

/-- What an action comes to, and the machines of which it executes an instruction. -/
inductive Driving (m : Machine σ) (a : Action) (xs : List (Machine σ)) : Prop where
  /-- It is about breakpoints. -/
  | table (table : BreakpointTable) : a.drives = false → xs = [] →
      m.perform a = { m with breakpoints := table } →
      Driving m a xs
  /-- There is nothing to execute, and the end of the program is noted. -/
  | ended : a.drives = true → m.frames = [] → xs = [] → m.perform a = m.settle → Driving m a xs
  /-- The answer that the machine waits for is not there. -/
  | suspended : a.drives = true → m.frames ≠ [] → m.isSuspended = true → xs = [] → m.perform a = m →
      Driving m a xs
  /-- The answer is taken, if the machine waits for one, and instructions are executed in a row. -/
  | executed {m' : Machine σ} : a.drives = true → m.frames ≠ [] → m.isSuspended = false →
      Executes m.resume xs m' →
      (m.perform a = m' ∨ m.perform a = m'.settle) → Driving m a xs

/-- **The machines that are listed for an action are those that it steps.** -/
theorem driving (m : Machine σ) (a : Action) : m.Driving a (m.executed a) := by
  cases ha : a.drives with
  | false =>
      obtain ⟨hnone, table, htable⟩ := m.perform_of_not_drives ha
      exact .table table ha hnone htable
  | true =>
      have hdriven := m.drivesTo ha
      generalize hxs : m.executed a = xs at hdriven
      generalize hm' : m.perform a = m' at hdriven
      cases hdriven with
      | ended hframes => exact .ended ha hframes rfl hm'
      | suspended hframes hsuspended => exact .suspended ha hframes hsuspended rfl hm'
      | run budget hframes hsuspended =>
          exact .executed ha hframes hsuspended (executes_advance budget m.resume) (.inr hm')
      | paused hframes hsuspended hsteps =>
        exact .executed ha hframes hsuspended hsteps.executes (.inl hm')
      | finished hframes hsuspended hsteps =>
        exact .executed ha hframes hsuspended hsteps.executes (.inr hm')

/-! ## Ending -/

/-- A machine on a module that has no activation once it has completed, and one while it waits. -/
structure Orderly (program : Module σ) (m : Machine σ) : Prop where
  runs : m.module = program
  ended : m.phase = .completed → m.frames = []
  active : m.pending ≠ none → m.frames ≠ []

namespace Orderly

variable {program : Module σ}

/-- Instructions are executed while no call is outstanding, and machines stay orderly. -/
theorem invariant (program : Module σ) :
    Invariant fun xs (m : Machine σ) => m.Orderly program ∧ ∀ x ∈ xs, x.pending = none where
  step := by
    rintro xs m ⟨h, hxs⟩ hpending hframes
    obtain ⟨hmodule, hphase⟩ := m.step_unchanged
    refine ⟨⟨hmodule.trans h.runs, ?_, ?_⟩, ?_⟩
    · intro hcompleted
      exact absurd (h.ended (hphase.symm.trans hcompleted)) hframes
    · intro hcall
      obtain ⟨call, hcall⟩ := Option.ne_none_iff_exists'.mp hcall
      obtain ⟨frame, callers, -, -, hnext, -⟩ := waits_step hpending call hcall
      rw [hnext]
      exact List.cons_ne_nil frame callers
    · intro x hx
      rcases List.mem_append.mp hx with hx | hx
      · exact hxs x hx
      · rwa [List.mem_singleton.mp hx]
  resume := by
    rintro xs m call ⟨h, hxs⟩ hframes hpending -
    rw [resume_of_pending hpending]
    exact ⟨⟨h.runs, h.ended, fun _ => hframes⟩, hxs⟩
  settle := by
    rintro xs m ⟨h, hxs⟩ hframes
    exact ⟨⟨h.runs, fun _ => hframes, h.active⟩, hxs⟩
  breakpoints := by
    rintro xs m table ⟨h, hxs⟩
    exact ⟨⟨h.runs, h.ended, h.active⟩, hxs⟩

theorem complete (h : m.Orderly program) (future : Nat) (v : Value) :
    (m.complete future v).Orderly program :=
  ⟨h.runs, h.ended, h.active⟩

theorem restart (h : m.Orderly program) : m.restart.Orderly program where
  runs := h.runs
  ended := by rintro ⟨⟩
  active hcall := absurd rfl hcall

theorem start (program : Module σ) (limit : Nat) (world : World σ) :
    (Machine.start program limit world).Orderly program where
  runs := rfl
  ended := by rintro ⟨⟩
  active hcall := absurd rfl hcall

/-- Machines stay orderly whatever happens, and what was executed was executed while no call was
outstanding. -/
theorem handleAll (h : m.Orderly program) (events : List Event) :
    (m.handleAll events).Orderly program ∧ ∀ x ∈ m.history events, x.pending = none :=
  @Invariant.handleAll _ _ (invariant program) (fun future v h => ⟨h.1.complete future v, h.2⟩)
    (fun h => ⟨h.1.restart, h.2⟩) events [] m ⟨h, by simp⟩

/-- **A machine that was just driven has completed exactly if it has no activation.** -/
theorem completed_iff (h : m.Orderly program) {a : Action} (ha : a.drives = true) :
    (m.perform a).phase = .completed ↔ (m.perform a).frames = [] := by
  have hafter : (m.perform a).Orderly program :=
    ((invariant program).perform ⟨h, List.forall_mem_nil _⟩ a).1
  refine ⟨hafter.ended, fun hframes => ?_⟩
  have hdriven := m.drivesTo ha
  generalize m.executed a = xs at hdriven
  generalize m.perform a = m' at hafter hframes hdriven ⊢
  cases hdriven with
  | ended _ | run _ _ _ | finished _ _ _ => exact phase_settle _ hframes
  | suspended hsome _ => exact absurd hframes hsome
  | paused _ _ hsteps =>
      rcases hsteps.active with hcall | hsome
      · exact absurd hframes (hafter.active hcall)
      · exact absurd hframes hsome

/-- Without a function there is no activation from the beginning, which is noted when the machine is
driven. -/
example (registry : Registry) (host : List (HostFunction σ)) (limit : Nat) (world : World σ) :
    let m := Machine.start ⟨[], registry, host⟩ limit world
    m.frames = [] ∧ m.phase = .running ∧ (m.run 0).phase = .completed := ⟨rfl, rfl, rfl⟩

end Orderly

/-! ## Waiting -/

/-- Taking an answer that is there is what driving a machine begins with. -/
theorem perform_resume (hframes : m.frames ≠ []) (hsuspended : m.isSuspended = false) {a : Action}
    (ha : a.drives = true) :
    m.perform a = m.resume.perform a ∧ m.executed a = m.resume.executed a := by
  have hpending : m.resume.pending = none := by
    cases h : m.pending with
    | none => rw [resume_of_pending_none h, h]
    | some call => rw [resume_of_pending h]
  have hsnapshot : m.resume.snapshot? = m.snapshot? := by
    unfold resume
    split <;> rfl
  have hlimit : m.resume.stepLimit = m.stepLimit := by
    unfold resume
    split <;> rfl
  have htaken : m.resume.resume = m.resume := resume_of_pending_none hpending
  have hgoing : m.resume.isSuspended = false := by simp [isSuspended, hpending]
  obtain ⟨present, hpresent⟩ := Option.ne_none_iff_exists'.mp (mt snapshot?_eq_none.mp hframes)
  cases a with
  | run budget => simp [perform, executed, run, frames_resume, hframes, hsuspended, hgoing, htaken]
  | stepOver last =>
    simp [perform, executed, stepOver, hsnapshot, hpresent, hlimit, hsuspended, hgoing, htaken]
  | stepInto =>
    simp [perform, executed, stepInto, hsnapshot, hpresent, hlimit, hsuspended, hgoing, htaken]
  | _ => cases ha

/-- What an event can do while a call is outstanding: nothing that the program can see, or to drop
the call with a restart, or to take the answer, which is there, before anything else. -/
inductive Awaited (m : Machine σ) (call : PendingCall) (e : Event) : Prop where
  | kept : m.history [e] = [] → (m.handle e).frames = m.frames → (m.handle e).stack = m.stack →
      (m.handle e).pending = some call → Awaited m call e
  | dropped : e = .restart → m.history [e] = [] → (m.handle e).pending = none → Awaited m call e
  | taken : m.world.isCompleted call.future = true → m.resume = { m with
        stack := if m.awaitsValue call then (m.world.takeValue call.future).1 :: m.stack
          else m.stack
        pending := none
        world := (m.world.takeValue call.future).2 } →
      m.handle e = m.resume.handle e → m.history [e] = m.resume.history [e] → Awaited m call e

/-- **An outstanding call stays until its answer is there and taken**, unless a restart drops it. -/
theorem awaited_of_pending {call : PendingCall} (hpending : m.pending = some call)
    (hframes : m.frames ≠ []) (e : Event) : m.Awaited call e := by
  cases e with
  | restart => exact .dropped rfl rfl rfl
  | complete future v => exact .kept rfl rfl rfl hpending
  | act a =>
      cases ha : a.drives with
      | false =>
          obtain ⟨hnone, table, htable⟩ := m.perform_of_not_drives ha
          refine .kept ?_ ?_ ?_ ?_
          · rw [history, hnone]
            rfl
          all_goals rw [handle, htable]
          exact hpending
      | true =>
          cases hsuspended : m.isSuspended with
          | true =>
              obtain ⟨hnone, hsame, hstack, hcall, -⟩ := m.perform_of_suspended hsuspended a
              refine .kept ?_ hsame hstack (hcall.trans hpending)
              rw [history, hnone]
              rfl
          | false =>
              obtain ⟨hperform, hexecuted⟩ := perform_resume hframes hsuspended ha
              refine .taken ?_ (resume_of_pending hpending) hperform ?_
              · simpa [isSuspended, hpending] using hsuspended
              · rw [history, history, hexecuted]
                rfl

/-! ## Resting -/

/-- The machine `x` has come from the completed machine `m` without executing anything, and is where
`m` was. -/
structure Resting (m : Machine σ) (xs : List (Machine σ)) (x : Machine σ) : Prop where
  idle : xs = []
  ended : x.frames = []
  answered : x.pending = none
  phase : x.phase = .completed
  stack : x.stack = m.stack
  heap : x.world.heap = m.world.heap
  env : x.world.env = m.world.env

namespace Resting

theorem invariant (m : Machine σ) : Invariant (Resting m) where
  step h _ hframes := absurd h.ended hframes
  resume h hframes := absurd h.ended hframes
  settle h _ := ⟨h.idle, h.ended, h.answered, rfl, h.stack, h.heap, h.env⟩
  breakpoints _ h := ⟨h.idle, h.ended, h.answered, h.phase, h.stack, h.heap, h.env⟩

theorem complete {xs : List (Machine σ)} {x : Machine σ} (h : Resting m xs x) (future : Nat)
    (v : Value) :
    Resting m xs (x.complete future v) :=
  ⟨h.idle, h.ended, h.answered, h.phase, h.stack, h.heap, h.env⟩

/-- **A completed machine rests** until it is restarted. -/
theorem handleAll {later : List Event} (hlater : .restart ∉ later) :
    ∀ {xs : List (Machine σ)} {x : Machine σ},
    Resting m xs x → Resting m (xs ++ x.history later) (x.handleAll later) := by
  induction later with
  | nil =>
      intro xs x h
      simpa [history, Machine.handleAll] using h
  | cons e rest ih =>
      intro xs x h
      have hrest : .restart ∉ rest := fun hin => hlater (List.mem_cons_of_mem _ hin)
      cases e with
      | act a =>
        simpa [history, Machine.handleAll, handle] using ih hrest ((invariant m).perform h a)
      | complete future v => exact ih hrest (h.complete future v)
      | restart => exact absurd List.mem_cons_self hlater

end Resting

/-! ## The shape of the table -/

/-- The lengths of the rows of the table. -/
def rowSizes (m : Machine σ) : List Nat := m.breakpoints.toList.map (·.size)

theorem rowSizes_congr (h : m'.breakpoints = m.breakpoints) : m'.rowSizes = m.rowSizes := by
  rw [rowSizes, h, rowSizes]

theorem rowSizes_start (program : Module σ) (limit : Nat) (world : World σ) :
    (Machine.start program limit world).rowSizes = program.functions.map (·.breakpoints.size) := by
  simp [rowSizes, Machine.start, restart]

@[simp] theorem rowSizes_writeBreakpoint (m : Machine σ) (function pc : Nat) (cell : Option Nat) :
    (m.writeBreakpoint function pc cell).rowSizes = m.rowSizes := by
  apply List.ext_getElem?
  intro i
  simp only [rowSizes, writeBreakpoint, List.getElem?_map, Array.getElem?_toList,
    Array.getElem?_modify]
  split
  · cases m.breakpoints[i]? <;> simp
  · rfl

@[simp] theorem rowSizes_setBreakpoint (m : Machine σ) (function pc : Nat) :
    (m.setBreakpoint function pc).2.rowSizes = m.rowSizes := by
  unfold setBreakpoint
  dsimp only
  split
  · exact m.rowSizes_writeBreakpoint function pc _
  · rfl

@[simp] theorem rowSizes_setBreakpoints (locations : List CodeLocation) : ∀ m : Machine σ,
    (m.setBreakpoints locations).2.rowSizes = m.rowSizes := by
  induction locations with
  | nil => exact fun _ => rfl
  | cons l rest ih => exact fun m => (ih _).trans (m.rowSizes_setBreakpoint l.function l.pc)

@[simp] theorem rowSizes_clearBreakpoints (m : Machine σ) :
    m.clearBreakpoints.rowSizes = m.rowSizes := by
  simp [rowSizes, clearBreakpoints]

/-- Nothing changes the shape of the table. -/
theorem rowSizes_handle (m : Machine σ) (e : Event) : (m.handle e).rowSizes = m.rowSizes := by
  cases e with
  | complete future v => rfl
  | restart => rfl
  | act a =>
      cases a with
      | setBreakpoint function pc => exact m.rowSizes_setBreakpoint function pc
      | setBreakpointsAtLine line => exact rowSizes_setBreakpoints _ m
      | clearBreakpoint function pc => exact m.rowSizes_writeBreakpoint function pc none
      | clearBreakpoints => exact m.rowSizes_clearBreakpoints
      | run budget => exact rowSizes_congr (breakpoints_perform rfl)
      | stepOver last => exact rowSizes_congr (breakpoints_perform rfl)
      | stepInto => exact rowSizes_congr (breakpoints_perform rfl)

theorem rowSizes_handleAll (events : List Event) :
    ∀ m : Machine σ, (m.handleAll events).rowSizes = m.rowSizes := by
  induction events with
  | nil => exact fun _ => rfl
  | cons e rest ih => exact fun m => (ih _).trans (m.rowSizes_handle e)

/-- Whether there is a cell depends on the shape of the table. -/
theorem isSome_breakpoint? (m : Machine σ) (function pc : Nat) :
    (m.breakpoint? function pc).isSome = m.rowSizes[function]?.any (pc < ·) := by
  simp only [breakpoint?, rowSizes, List.getElem?_map, Array.getElem?_toList]
  cases m.breakpoints[function]? with
  | none => rfl
  | some row => by_cases hpc : pc < row.size <;> simp [hpc]

/-! ## The cells of the table -/

theorem breakpoint?_writeBreakpoint (m : Machine σ) (function pc f p : Nat) (cell : Option Nat) :
    (m.writeBreakpoint function pc cell).breakpoint? f p =
      if function = f ∧ pc = p then (m.breakpoint? f p).map fun _ =>
      cell else m.breakpoint? f p := by
  simp only [breakpoint?, writeBreakpoint, Array.getElem?_modify]
  by_cases hfunction : function = f
  · subst hfunction
    cases m.breakpoints[function]? with
    | none => simp
    | some row =>
        by_cases hpc : pc = p
        · subst hpc
          by_cases hcell : pc < row.size <;> simp [hcell]
        · simp [hpc]
  · simp [hfunction]

/-- The two outcomes of setting a breakpoint: it is there with its line, or nothing has changed. -/
theorem setBreakpoint_cases (m : Machine σ) (function pc : Nat) :
    (∃ line, m.module.lineAt? function pc = some line ∧ (m.breakpoint? function pc).isSome = true ∧
        m.setBreakpoint function pc = (true, m.writeBreakpoint function pc (some line))) ∨
      ((m.module.lineAt? function pc).isSome && (m.breakpoint? function pc).isSome) = false ∧
        m.setBreakpoint function pc = (false, m) := by
  unfold setBreakpoint
  dsimp only
  split
  · next line cell hline hcell =>
      refine .inl ⟨line, hline, ?_, rfl⟩
      rw [hcell]
      rfl
  · next hnot =>
      refine .inr ⟨?_, rfl⟩
      cases hline : m.module.lineAt? function pc with
      | none => rfl
      | some line =>
          cases hcell : m.breakpoint? function pc with
          | none => rfl
          | some cell => exact absurd hcell (hnot line cell hline)

/-- A breakpoint can be set where there are a statement and a cell. -/
theorem setBreakpoint_fst (m : Machine σ) (function pc : Nat) :
    (m.setBreakpoint function pc).1 =
      ((m.module.lineAt? function pc).isSome && (m.breakpoint? function pc).isSome) := by
  obtain ⟨line, hline, hcell, hset⟩ | ⟨hnone, hset⟩ := m.setBreakpoint_cases function pc
  · rw [hset, hline, hcell]
    rfl
  · rw [hset, hnone]

/-- Whether a breakpoint can be set depends on the module and the shape of the table. -/
theorem setBreakpoint_fst_congr (hmodule : m'.module = m.module) (hsizes : m'.rowSizes = m.rowSizes)
    (function pc : Nat) : (m'.setBreakpoint function pc).1 = (m.setBreakpoint function pc).1 := by
  rw [setBreakpoint_fst, setBreakpoint_fst, isSome_breakpoint?, isSome_breakpoint?, hmodule, hsizes]

theorem hasBreakpoint_writeBreakpoint (m : Machine σ) (function pc f p : Nat) (cell : Option Nat) :
    (m.writeBreakpoint function pc cell).hasBreakpoint f p =
      if function = f ∧ pc = p then (m.breakpoint? f p).isSome && cell.isSome else
        m.hasBreakpoint f p := by
  unfold hasBreakpoint
  rw [breakpoint?_writeBreakpoint]
  split
  · cases m.breakpoint? f p <;> simp
  · rfl

/-- A breakpoint that could be set is there, and the others are as they were. -/
theorem hasBreakpoint_setBreakpoint (m : Machine σ) (function pc f p : Nat) :
    (m.setBreakpoint function pc).2.hasBreakpoint f p = true ↔
      ((function = f ∧ pc = p) ∧ (m.setBreakpoint f p).1 = true) ∨ m.hasBreakpoint f p = true := by
  by_cases hsame : function = f ∧ pc = p
  · obtain ⟨rfl, rfl⟩ := hsame
    obtain ⟨line, -, hcell, hset⟩ | ⟨-, hset⟩ := m.setBreakpoint_cases function pc
    · simp [hset, hasBreakpoint_writeBreakpoint, hcell]
    · simp [hset]
  · obtain ⟨line, -, -, hset⟩ | ⟨-, hset⟩ := m.setBreakpoint_cases function pc
    · simp [hset, hasBreakpoint_writeBreakpoint, hsame]
    · simp [hset, hsame]

theorem module_setBreakpoint (m : Machine σ) (function pc : Nat) :
    (m.setBreakpoint function pc).2.module = m.module := by
  obtain ⟨table, h⟩ := m.setBreakpoint_snd function pc
  rw [h]

theorem hasBreakpoint_setBreakpoints (f p : Nat) (locations : List CodeLocation) : ∀ m : Machine σ,
    (m.setBreakpoints locations).2.hasBreakpoint f p = true ↔
      (⟨f, p⟩ ∈ locations ∧ (m.setBreakpoint f p).1 = true) ∨ m.hasBreakpoint f p = true := by
  induction locations with
  | nil => simp [setBreakpoints]
  | cons l rest ih =>
      intro m
      have hset := setBreakpoint_fst_congr (m.module_setBreakpoint l.function l.pc)
        (m.rowSizes_setBreakpoint l.function l.pc) f p
      have hmem : (⟨f, p⟩ : CodeLocation) ∈ l :: rest ↔ (l.function = f ∧ l.pc = p) ∨
          ⟨f, p⟩ ∈ rest := by
        rw [List.mem_cons, eq_comm, CodeLocation.mk.injEq]
      rw [setBreakpoints, ih, hset, hasBreakpoint_setBreakpoint, hmem, or_and_right, or_assoc,
        or_left_comm]

theorem hasBreakpoint_clearBreakpoint (m : Machine σ) (function pc f p : Nat) :
    (m.clearBreakpoint function pc).hasBreakpoint f p =
      if function = f ∧ pc = p then false else m.hasBreakpoint f p := by
  rw [clearBreakpoint, hasBreakpoint_writeBreakpoint, Option.isSome_none, Bool.and_false]

theorem hasBreakpoint_clearBreakpoints (m : Machine σ) (f p : Nat) :
    m.clearBreakpoints.hasBreakpoint f p = false := by
  apply hasBreakpoint_of_cells
  intro row hrow cell hcell
  simp only [clearBreakpoints, Array.mem_map] at hrow
  obtain ⟨old, -, rfl⟩ := hrow
  obtain ⟨-, -, rfl⟩ := Array.mem_map.mp hcell
  rfl

/-- What an event does to a cell, if it does anything: whether there is a breakpoint then. -/
def effect (m : Machine σ) (f p : Nat) : Event → Option Bool
  | .act (.setBreakpoint function pc) =>
    if (function = f ∧ pc = p) ∧ (m.setBreakpoint f p).1 = true then some true else none
  | .act (.setBreakpointsAtLine line) =>
    if ⟨f, p⟩ ∈ m.module.locationsAt line ∧ (m.setBreakpoint f p).1 = true then some true else none
  | .act (.clearBreakpoint function pc) => if function = f ∧ pc = p then some false else none
  | .act .clearBreakpoints => some false
  | .act (.run _) | .act (.stepOver _) | .act .stepInto | .complete .. | .restart => none

/-- What events in a row do to a cell, if they do anything: what the last of them does that does
something. -/
def lastEffect (m : Machine σ) (f p : Nat) : List Event → Option Bool
  | [] => none
  | e :: rest => ((m.handle e).lastEffect f p rest).or (m.effect f p e)

theorem hasBreakpoint_congr (h : m'.breakpoints = m.breakpoints) (f p : Nat) :
    m'.hasBreakpoint f p = m.hasBreakpoint f p := by
  rw [hasBreakpoint, breakpoint?, h]
  rfl

/-- A cell says what an event does to it, or what it said before if the event does nothing to it. -/
theorem hasBreakpoint_handle (m : Machine σ) (f p : Nat) (e : Event) :
    (m.handle e).hasBreakpoint f p = (m.effect f p e).getD (m.hasBreakpoint f p) := by
  cases e with
  | complete future v => rfl
  | restart => rfl
  | act a =>
      cases a with
      | setBreakpoint function pc =>
          rw [Bool.eq_iff_iff, handle, perform, effect, hasBreakpoint_setBreakpoint]
          split <;> simp [*]
      | setBreakpointsAtLine line =>
          rw [Bool.eq_iff_iff, handle, perform, effect, setBreakpointsAtLine,
            hasBreakpoint_setBreakpoints]
          split <;> simp [*]
      | clearBreakpoint function pc =>
          rw [handle, perform, effect, hasBreakpoint_clearBreakpoint]
          split <;> rfl
      | clearBreakpoints => exact m.hasBreakpoint_clearBreakpoints f p
      | run budget => exact hasBreakpoint_congr (breakpoints_perform rfl) f p
      | stepOver last => exact hasBreakpoint_congr (breakpoints_perform rfl) f p
      | stepInto => exact hasBreakpoint_congr (breakpoints_perform rfl) f p

/-- **A cell says what was last done to it**, or what it said in the beginning if nothing was. -/
theorem hasBreakpoint_handleAll (f p : Nat) (events : List Event) : ∀ m : Machine σ,
    (m.handleAll events).hasBreakpoint f p =
      (m.lastEffect f p events).getD (m.hasBreakpoint f p) := by
  induction events with
  | nil => exact fun _ => rfl
  | cons e rest ih =>
      intro m
      have hrest : (m.handleAll (e :: rest)).hasBreakpoint f p =
        ((m.handle e).handleAll rest).hasBreakpoint f p := rfl
      rw [hrest, ih, hasBreakpoint_handle, lastEffect]
      cases (m.handle e).lastEffect f p rest <;> rfl

theorem hasBreakpoint_start (program : Module σ) (limit : Nat) (world : World σ) (f p : Nat) :
    (Machine.start program limit world).hasBreakpoint f p = program.hasBreakpoint f p := by
  simp only [hasBreakpoint, breakpoint?, Machine.start, restart, Module.hasBreakpoint,
    Module.function?, List.getElem?_toArray, List.getElem?_map]
  cases program.functions[f]? <;> rfl

/-! ## The life of a machine -/

/-- What holds of a machine `m` that events have brought from its start `first` on a module. -/
structure LifeCycle (program : Module σ) (first : Machine σ) (events : List Event) (m : Machine σ) :
    Prop where
  /-- Just after it was driven, the machine has completed exactly if it has no activation. -/
  ending : ∀ a : Action, a.drives = true →
    ((m.perform a).phase = .completed ↔ (m.perform a).frames = [])
  /-- A call is outstanding only while there is an activation. -/
  active : m.pending ≠ none → m.frames ≠ []
  /-- What an event executes is listed behind what was executed before. -/
  listed : ∀ e, first.history (events ++ [e]) = first.history events ++ m.history [e]
  /-- Deliveries and restarts execute nothing, and what is listed for an action is what it steps. -/
  driving : (∀ future v, m.history [.complete future v] = []) ∧ m.history [.restart] = [] ∧
    ∀ a : Action, m.Driving a (m.history [.act a])
  /-- No instruction was executed while a call was outstanding. -/
  waiting : ∀ x ∈ first.history events, x.pending = none
  /-- An outstanding call stays until its answer is there and taken, unless a restart drops it. -/
  awaiting : ∀ call, m.pending = some call → ∀ e, m.Awaited call e
  /-- After it has completed, the machine rests until it is restarted. -/
  resting : m.phase = .completed → ∀ later : List Event, .restart ∉ later →
    Resting m (m.history later) (m.handleAll later)
  /-- The table has a row for each function, as long as in the module. -/
  shape : m.rowSizes = program.functions.map (·.breakpoints.size)
  /-- A cell says what was last done to it, or what the module says if nothing was. -/
  cells : ∀ function pc, m.hasBreakpoint function pc =
    (first.lastEffect function pc events).getD (program.hasBreakpoint function pc)

end Machine

/-- **The life of a machine.** Start any module, sound or not, in any world, and let anything happen
in any order. Just after it was driven, the machine has completed exactly if it has no activation.
Only driving executes instructions, and no others than are listed. A call of the host is outstanding
only while there is an activation; no instruction is executed meanwhile, and the call stays the same
until its answer is there and taken or a restart drops it. A completed machine has no activation and
no outstanding call, and until it is restarted it executes nothing and keeps its operands, its heap
and what its host keeps. The table of breakpoints has the shape that it has in the module, and each
cell says what was last done to it, or what the module says if nothing was. -/
theorem life_cycle (program : Module σ) (limit : Nat) (world : World σ) (events : List Event) :
    Machine.LifeCycle program (Machine.start program limit world) events
      ((Machine.start program limit world).handleAll events) := by
  obtain ⟨h, hfree⟩ := (Machine.Orderly.start program limit world).handleAll events
  refine ⟨fun a => h.completed_iff, h.active, fun e => Machine.history_append events [e] _,
    ⟨fun _ _ => rfl, rfl, fun a => ?_⟩, hfree, ?_, ?_, ?_, ?_⟩
  · simpa [Machine.history] using Machine.driving _ a
  · intro call hpending e
    refine Machine.awaited_of_pending hpending (h.active ?_) e
    simp [hpending]
  · intro hcompleted later hlater
    have hframes := h.ended hcompleted
    have hnone : ((Machine.start program limit world).handleAll events).pending = none := by
      by_contra hcall
      exact h.active hcall hframes
    have hrests : Machine.Resting _ [] ((Machine.start program limit world).handleAll events) :=
      ⟨rfl, hframes, hnone, hcompleted, rfl, rfl, rfl⟩
    exact hrests.handleAll hlater
  · rw [Machine.rowSizes_handleAll, Machine.rowSizes_start]
  · intro function pc
    rw [Machine.hasBreakpoint_handleAll, Machine.hasBreakpoint_start]

end Stepwise
