import Stepwise.Compile
import Stepwise.Proofs.Diagnosed
import Stepwise.Proofs.Machine.Drive

/-!
# Where runs stop

A run stops where the next instruction has a breakpoint, where a call of the host is outstanding, or
where its budget is used up, and the run after it executes its first instruction without looking at
breakpoints again. So a host that only runs a machine, and delivers values in between, learns of a
breakpoint from the run that comes to it.

**Announcement.** Whenever a run executes an instruction with a breakpoint, the run just before it
returned with that instruction next (`run_stops_at_breakpoints`).

**Coincidence.** That run may have returned with a call outstanding as well, but only if the
breakpoint stands directly behind the instruction that made the call (`Waits`). There a host that
looks at breakpoints only while no call is outstanding does not see it: once the value is delivered,
the next run takes it and goes on (`breakpoint_behind_call_unseen`).
-/

set_option autoImplicit false

namespace Stepwise

variable {σ : Type}

/-- Whether an event is the delivery of a value. -/
def Event.isDelivery : Event → Bool
  | .complete .. => true
  | .act _ | .restart => false

/-- Whether an event is a run or the delivery of a value. -/
def Event.onlyRuns : Event → Bool
  | .act (.run _) | .complete .. => true
  | .act _ | .restart => false

namespace Machine

/-! ## Awaited calls -/

/-- The instruction just before the next one calls the host function of a number. -/
def BehindCall (m : Machine σ) (index : Nat) : Prop :=
  ∃ frame callers code pc, m.frames = frame :: callers ∧
    m.module.function? frame.function = some code ∧
    frame.pc = pc + 1 ∧ code.instructions[pc]? = some (.callHost index)

/-- While a call is outstanding, the machine stands directly behind the instruction that made it. -/
def Waits (m : Machine σ) : Prop := ∀ call, m.pending = some call → m.BehindCall call.function

theorem waits_of_pending_none {m : Machine σ} (h : m.pending = none) : m.Waits := by
  intro call hcall
  rw [h] at hcall
  cases hcall

/-- Waiting depends on the module, the activations and the outstanding call. -/
theorem Waits.congr {m m' : Machine σ} (h : m.Waits) (hmodule : m'.module = m.module)
    (hframes : m'.frames = m.frames) (hpending : m'.pending = m.pending) : m'.Waits := by
  intro call hcall
  rw [hpending] at hcall
  obtain ⟨frame, callers, code, pc, hm, hcode, hpc, hcalls⟩ := h call hcall
  exact ⟨frame, callers, code, pc, hframes.trans hm, hmodule ▸ hcode, hpc, hcalls⟩

/-- Only a call of the host leaves a call outstanding, and the activation is then just behind it. -/
theorem waits_execute {m : Machine σ} {code : FunctionCode} {frame : Frame} {callers : List Frame}
    {pc : Nat} {instruction : Instruction} (hpending : m.pending = none)
    (hcode : m.module.function? frame.function = some code) (hpc : frame.pc = pc + 1)
    (hinstruction : code.instructions[pc]? = some instruction) :
    (m.execute code frame callers instruction).Waits := by
  cases instruction with
  | call index =>
      refine waits_of_pending_none ?_
      unfold execute
      dsimp only
      split <;> exact hpending
  | callHost index =>
      unfold execute
      dsimp only
      split
      · exact waits_of_pending_none hpending
      · unfold callHost
        dsimp only
        split
        · exact waits_of_pending_none hpending
        · rintro call ⟨⟩
          exact ⟨frame, callers, code, pc, rfl, hcode, hpc, hinstruction⟩
  | _ => exact waits_of_pending_none hpending

/-- An instruction that is executed while no call is outstanding leaves a machine that waits behind
its call. -/
theorem waits_step {m : Machine σ} (hpending : m.pending = none) : m.step.Waits := by
  unfold step
  split
  · exact waits_of_pending_none hpending
  · next frame callers hframes =>
      split
      · exact waits_of_pending_none hpending
      · next code hcode =>
          split
          · refine waits_of_pending_none ?_
            unfold leave
            split <;> exact hpending
          · next instruction hinstruction => exact waits_execute hpending hcode rfl hinstruction

theorem Waits.invariant : Invariant fun _ (m : Machine σ) => m.Waits where
  step _ hpending _ := waits_step hpending
  resume _ _ hpending _ := waits_of_pending_none (by rw [resume_of_pending hpending])
  settle h _ := h.congr rfl rfl rfl
  breakpoints _ h := h.congr rfl rfl rfl

/-- **An outstanding call was made by the instruction just before the next one**, and stays so
whatever happens. -/
theorem Waits.handleAll {m : Machine σ} (h : m.Waits) (events : List Event) :
    (m.handleAll events).Waits :=
  @Invariant.handleAll _ _ Waits.invariant (fun _ _ h => h.congr rfl rfl rfl)
      (fun _ => waits_of_pending_none rfl)
    events [] m h

theorem waits_restart (m : Machine σ) : m.restart.Waits := waits_of_pending_none rfl

/-! ## Breakpoints that are reached -/

/-- Whether a breakpoint is next depends on the activations and the table. -/
theorem atBreakpoint_congr {m m' : Machine σ} (hframes : m'.frames = m.frames)
    (htable : m'.breakpoints = m.breakpoints) : m'.atBreakpoint = m.atBreakpoint := by
  simp only [atBreakpoint, hasBreakpoint, breakpoint?, hframes, htable]

theorem frames_resume (m : Machine σ) : m.resume.frames = m.frames := by
  unfold resume
  split <;> rfl

theorem breakpoints_resume (m : Machine σ) : m.resume.breakpoints = m.breakpoints := by
  unfold resume
  split <;> rfl

/-- Behind its first instruction a run executes none that has a breakpoint. -/
theorem eq_of_mem_advanceSteps {budget : Nat} {m x : Machine σ} (hx : x ∈ advanceSteps budget m)
    (hat : x.atBreakpoint = true) : x = m := by
  induction budget generalizing m with
  | zero => cases hx
  | succ budget ih =>
      unfold advanceSteps at hx
      split at hx
      · cases hx
      · rcases List.mem_cons.mp hx with rfl | hlater
        · rfl
        · split at hlater
          · cases hlater
          · next hnone =>
              obtain rfl := ih hlater
              exact absurd hat hnone

/-- An instruction with a breakpoint that a run executes is the one that was next when the run
began. -/
theorem frames_of_mem_executed {m x : Machine σ} {budget : Nat} (hx : x ∈ m.executed (.run budget))
    (hat : x.atBreakpoint = true) : x.frames = m.frames ∧ m.atBreakpoint = true := by
  simp only [executed] at hx
  split at hx
  · cases hx
  · obtain rfl := eq_of_mem_advanceSteps hx hat
    refine ⟨m.frames_resume, ?_⟩
    rwa [atBreakpoint_congr m.frames_resume m.breakpoints_resume] at hat

theorem handleAll_append (m : Machine σ) (first rest : List Event) :
    m.handleAll (first ++ rest) = (m.handleAll first).handleAll rest := by
  simp [handleAll, List.foldl_append]

/-- Deliveries move neither the activations nor the breakpoints. -/
theorem handleAll_deliveries {m : Machine σ} {deliveries : List Event}
    (h : ∀ e ∈ deliveries, e.isDelivery = true) :
    (m.handleAll deliveries).frames = m.frames ∧
    (m.handleAll deliveries).breakpoints = m.breakpoints := by
  induction deliveries generalizing m with
  | nil => exact ⟨rfl, rfl⟩
  | cons e rest ih =>
      have hrest := fun x hx => h x (List.mem_cons_of_mem _ hx)
      cases e with
      | complete future v => exact ih (m := m.complete future v) hrest
      | act a => cases h _ List.mem_cons_self
      | restart => cases h _ List.mem_cons_self

/-- A host that only runs its machine has run it, or has only delivered values so far. -/
theorem split_at_last_run {events : List Event} (h : ∀ e ∈ events, e.onlyRuns = true) :
    (∀ e ∈ events, e.isDelivery = true) ∨ ∃ earlier n deliveries,
      events = earlier ++ .act (.run n) :: deliveries ∧ ∀ e ∈ deliveries, e.isDelivery = true := by
  induction events with
  | nil => exact .inl (by simp)
  | cons e rest ih =>
      rcases ih fun x hx => h x (List.mem_cons_of_mem _ hx) with hall |
        ⟨earlier, n, deliveries, rfl, hall⟩
      · cases e with
        | act a =>
            have hrun := h _ List.mem_cons_self
            cases a with
            | run n => exact .inr ⟨[], n, rest, rfl, hall⟩
            | _ => cases hrun
        | complete future v =>
            left
            intro x hx
            rcases List.mem_cons.mp hx with rfl | hx
            · rfl
            · exact hall x hx
        | restart => cases h _ List.mem_cons_self
      · exact .inr ⟨e :: earlier, n, deliveries, rfl, hall⟩

end Machine

/-- **Runs stop at breakpoints.** Let a machine with any breakpoints be restarted where none is
next, and then only be run and be delivered values. Whenever a run executes an instruction that has
a breakpoint, a run came before it with nothing but deliveries in between, and that run returned
with the instruction next. A call was outstanding then only if the instruction stands directly
behind the call. -/
theorem run_stops_at_breakpoints {m : Machine σ} (hstart : m.restart.atBreakpoint = false)
    {events : List Event} (hevents : ∀ e ∈ events, e.onlyRuns = true) {budget : Nat} {x : Machine σ}
    (hx : x ∈ (m.restart.handleAll events).executed (.run budget)) (hat : x.atBreakpoint = true) :
    ∃ earlier n deliveries, events = earlier ++ .act (.run n) :: deliveries ∧
      (∀ e ∈ deliveries, e.isDelivery = true) ∧
      let stopped := (m.restart.handleAll earlier).run n
      stopped.frames = x.frames ∧ stopped.atBreakpoint = true ∧
        ∀ call, stopped.pending = some call → stopped.BehindCall call.function := by
  obtain ⟨hframes, hnext⟩ := Machine.frames_of_mem_executed hx hat
  rcases Machine.split_at_last_run hevents with hall | ⟨earlier, n, deliveries, rfl, hall⟩
  · obtain ⟨hsame, htable⟩ := Machine.handleAll_deliveries (m := m.restart) hall
    rw [Machine.atBreakpoint_congr hsame htable, hstart] at hnext
    cases hnext
  · refine ⟨earlier, n, deliveries, rfl, hall, ?_⟩
    have hafter : m.restart.handleAll (earlier ++ .act (.run n) :: deliveries) =
        ((m.restart.handleAll earlier).run n).handleAll deliveries := by
      rw [Machine.handleAll_append]
      rfl
    have hwaits := m.waits_restart.handleAll (earlier ++ [.act (.run n)])
    rw [Machine.handleAll_append] at hwaits
    obtain ⟨hsame, htable⟩ :=
      Machine.handleAll_deliveries (m := (m.restart.handleAll earlier).run n) hall
    rw [hafter] at hframes hnext
    rw [Machine.atBreakpoint_congr hsame htable] at hnext
    exact ⟨(hframes.trans hsame).symm, hnext, hwaits⟩

/-- A host with one function that yields nothing and whose end is awaited. -/
def pausingHost : HostTable Unit :=
  [⟨"wait", [], "nothing", true, "", none, fun _ w =>
    let (future, w) := w.newFuture .waiting
    (.pending future, w)⟩]

/-- The machine of a source text, with breakpoints where its second line begins. -/
def brokenAtSecondLine (source : String) : Diagnosed (Machine Unit) := do
  let module ← compile source pausingHost
  return ((Machine.start module 1000 (.initial ())).setBreakpointsAtLine 2).2

theorem run_stops_at_breakpoints_slicing : ∃ (m x : Machine Unit) (earlier : List Event) (n : Nat)
    (deliveries : List Event), brokenAtSecondLine "var a = true\nvar b = a\n" = .ok m ∧
    x ∈ (m.restart.handleAll [.act (.run 1), .act (.run 100)]).executed (.run 2) ∧
    x.atBreakpoint = true ∧
    [.act (.run 1), .act (.run 100)] = earlier ++ .act (.run n) :: deliveries ∧
    ((m.restart.handleAll earlier).run n).frames = x.frames ∧
    ((m.restart.handleAll earlier).run n).atBreakpoint = true := by
  have heval :
      ((brokenAtSecondLine "var a = true\nvar b = a\n").map fun m => (m.restart.atBreakpoint,
        ((m.restart.handleAll [.act (.run 1), .act (.run 100)]).executed (.run 2)).any
          (·.atBreakpoint))) =
      .ok (false, true) := by decide +kernel
  obtain ⟨m, hm, heval⟩ := Diagnosed.map_eq_ok.mp heval
  simp only [Prod.mk.injEq, List.any_eq_true] at heval
  obtain ⟨hstart, x, hx, hat⟩ := heval
  obtain ⟨earlier, n, deliveries, hsplit, -, hframes, hstopped, -⟩ :=
    run_stops_at_breakpoints hstart (by decide) hx hat
  exact ⟨m, x, earlier, n, deliveries, hm, hx, hat, hsplit, hframes, hstopped⟩

/-- A breakpoint directly behind a call: the first run returns with the call outstanding, and once
its value is delivered the next run executes the instruction with the breakpoint and all that
follow. -/
theorem breakpoint_behind_call_unseen : ∃ (m x : Machine Unit),
    brokenAtSecondLine "wait()\nvar b = true\n" = .ok m ∧ m.restart.atBreakpoint = false ∧
    (m.restart.run 100).isSuspended = true ∧
    x ∈ ((m.restart.run 100).complete 0 .nothing).executed (.run 100) ∧ x.atBreakpoint = true ∧
    (((m.restart.run 100).complete 0 .nothing).run 100).phase = .completed := by
  have heval : ((brokenAtSecondLine "wait()\nvar b = true\n").map fun m => (m.restart.atBreakpoint,
      (m.restart.run 100).isSuspended,
      (((m.restart.run 100).complete 0 .nothing).executed (.run 100)).any (·.atBreakpoint),
      (((m.restart.run 100).complete 0 .nothing).run 100).phase)) = .ok (false, true, true,
      .completed) := by decide +kernel
  obtain ⟨m, hm, heval⟩ := Diagnosed.map_eq_ok.mp heval
  simp only [Prod.mk.injEq, List.any_eq_true] at heval
  obtain ⟨hstart, hsuspended, ⟨x, hx, hat⟩, hcompleted⟩ := heval
  exact ⟨m, x, hm, hstart, hsuspended, hx, hat, hcompleted⟩

end Stepwise
