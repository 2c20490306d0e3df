import Stepwise.Proofs.Evaluation.Driving
import Stepwise.Proofs.Machine.Schedule
import Stepwise.Proofs.Machine.Stops

/-!
# Steps that are continued

A step over a statement may have to pause, because a call is outstanding or the limit is reached,
and is then to be continued from where it began. Hosts are given by their conduct, with futures that
are delivered once, at any time.

Such a step, with all its pauses, is compared with a machine that executes single instructions and
is delivered what it waits for before each (`Machine.oneByOne`). Wherever the step pauses, its
machine is where that one is after as many instructions, but that it may have taken an answer which
the other still waits for (`Ahead`). When the step is over depends only on the activations and the
breakpoints. So it ends at the first place at which it may end (`StepOverSession.arrives`), whatever
the limit is and whenever values are delivered, and two such steps from one machine end alike
(`StepOverSession.agree`).
-/

set_option autoImplicit false

namespace Stepwise

variable {σ : Type}

/-! ## Reachable machines -/

/-- The machines that come about on a program, on a host with futures. -/
inductive Reachable (program : Module σ) (c : Conduct) : Machine CallBook → Prop
  | start (limit : Nat) (heap : Heap) :
      Reachable program c
        (Machine.start (program.withNatives c.deferred) limit ⟨heap, #[], ⟨[], []⟩⟩)
  | follow {m : Machine CallBook} (move : Move) : Reachable program c m →
      Reachable program c (m.follow move)
  | restart {m : Machine CallBook} : Reachable program c m → Reachable program c m.restart

namespace Machine

variable {program : Module σ} {c : Conduct} {m : Machine CallBook} {p : Machine (List HostCall)}

/-- Noting the end of the program keeps machines in step. -/
theorem InStep.settle (h : InStep program c m p) : InStep program c m.settle p := by
  unfold Machine.settle
  split
  · next hempty =>
      exact ⟨h.deferred, h.prompt, h.frames, h.stack, h.heap, h.calls, h.promises, h.awaited,
        fun _ => List.isEmpty_iff.mp hempty⟩
  · exact h

/-- Machines in step begin their program anew in step. -/
theorem InStep.restart (h : InStep program c m p) : InStep program c m.restart p.restart where
  deferred := h.deferred
  prompt := h.prompt
  frames := by
    have hmain : p.module.main? = m.module.main? := by
      rw [h.prompt, h.deferred]
      rfl
    simp only [Machine.restart, hmain]
  stack := rfl
  heap := h.heap
  calls := h.calls
  promises := h.promises
  awaited call hcall := by cases hcall
  ended hphase := by cases hphase

/-- Delivering changes nothing but a future. -/
theorem deliver_eq (m : Machine CallBook) (future : Nat) :
    ∃ futures, m.deliver future = { m with world := { m.world with futures } } := by
  unfold deliver
  split
  · exact ⟨m.world.futures, rfl⟩
  · split
    · exact ⟨m.world.futures, rfl⟩
    · exact ⟨_, rfl⟩

theorem Waits.deliver (h : m.Waits) (future : Nat) : (m.deliver future).Waits := by
  obtain ⟨futures, hdeliver⟩ := m.deliver_eq future
  rw [hdeliver]
  exact h.congr rfl rfl rfl

end Machine

namespace Reachable

variable {program : Module σ} {c : Conduct} {m : Machine CallBook}

/-- Every reachable machine is in step with one whose host answers at once. -/
theorem inStep (h : Reachable program c m) : ∃ p, Machine.InStep program c m p := by
  induction h with
  | start limit heap => exact ⟨_, .start program c heap limit limit⟩
  | follow move _ ih =>
      obtain ⟨p, hp⟩ := ih
      exact ⟨_, (Machine.InStep.followAll program c p [move] [] ⟨hp, by simp⟩).1⟩
  | restart _ ih =>
      obtain ⟨p, hp⟩ := ih
      exact ⟨_, hp.restart⟩

theorem waits (h : Reachable program c m) : m.Waits := by
  induction h with
  | start limit heap => exact Machine.waits_of_pending_none rfl
  | @follow m move _ ih =>
      cases move with
      | act a => exact ih.handleAll [.act a]
      | deliver future => exact ih.deliver future
  | restart => exact Machine.waits_of_pending_none rfl

end Reachable

namespace Machine

variable {program : Module σ} {c : Conduct} {m x y : Machine CallBook} {p : Machine (List HostCall)}

/-! ## What a call leaves -/

/-- The call outstanding and the promises behind the next instruction, on a host with futures. -/
def leaves (c : Conduct) (m : Machine CallBook) : Option PendingCall × List Value :=
  match m.hostCall? with
  | none => (none, m.world.env.promises)
  | some call =>
    let a := c call.function m.world.env.calls m.world.heap call.arguments
    match a.timing with
    | .atOnce => (none, m.world.env.promises)
    | .later | .delivered =>
      (some ⟨call.function, m.world.env.promises.length⟩, m.world.env.promises ++ [a.value])

theorem leaves_of_no_call (h : m.hostCall? = none) : m.leaves c = (none, m.world.env.promises) := by
  rw [leaves, h]

theorem leave_env (m : Machine σ) (code : FunctionCode) :
    (m.leave code).pending = m.pending ∧ (m.leave code).world.env = m.world.env := by
  unfold Machine.leave
  split <;> exact ⟨rfl, rfl⟩

/-- Only a call of a host function leaves a call outstanding or changes the environment. -/
theorem execute_env (m : Machine σ) (code : FunctionCode) (frame : Frame) (callers : List Frame)
    {I : Instruction} (h : ∀ index, I ≠ .callHost index) :
    (m.execute code frame callers I).pending = m.pending ∧
      (m.execute code frame callers I).world.env = m.world.env := by
  cases I with
  | callHost index => exact absurd rfl (h index)
  | call index =>
      unfold Machine.execute
      dsimp only
      split <;> exact ⟨rfl, rfl⟩
  | ret => exact leave_env _ code
  | storeField index => exact ⟨rfl, by simp only [Machine.execute, worldWithField_eq]⟩
  | _ => exact ⟨rfl, rfl⟩

/-- A call of a host function leaves what the conduct says of it. -/
theorem execute_callHost_leaves (h : InStep program c m p) (hpending : m.pending = none)
    (code : FunctionCode) (frame : Frame) (callers : List Frame) {index : Nat}
    (hnext : m.instruction? = some (.callHost index)) :
    ((m.execute code frame callers (.callHost index)).pending,
      (m.execute code frame callers (.callHost index)).world.env.promises) = m.leaves c := by
  rw [leaves, hostCall?, hnext]
  unfold Machine.execute
  dsimp only
  rcases h.hostFunction? index with ⟨hnone, -⟩ | ⟨f, hf, -⟩
  · rw [hnone]
    exact congrArg (·, m.world.env.promises) hpending
  · rw [hf]
    dsimp only [Option.map]
    unfold Machine.callHost
    simp only [params_withNative, native_withNative, Conduct.deferred, arguments, h.promises]
    generalize c index m.world.env.calls m.world.heap (m.stack.take f.params.length).reverse = a
    obtain ⟨v, heap, timing⟩ := a
    cases timing with
    | atOnce => rw [hpending]
    | later => rfl
    | delivered => rfl

/-- An instruction leaves what its machine says. -/
theorem step_leaves (h : InStep program c m p) (hpending : m.pending = none) :
    (m.step.pending, m.step.world.env.promises) = m.leaves c := by
  have hkept {m' : Machine CallBook} (hcall : m.hostCall? = none)
      (hm : m'.pending = m.pending ∧ m'.world.env = m.world.env) :
      (m'.pending, m'.world.env.promises) = m.leaves c := by
    rw [leaves_of_no_call hcall, hm.1, hm.2, hpending]
  cases hframes : m.frames with
  | nil =>
      rw [m.step_of_frames_nil hframes]
      exact hkept (by simp [hostCall?, instruction?, hframes]) ⟨rfl, rfl⟩
  | cons frame callers =>
      simp only [Machine.step, hframes]
      cases hcode : m.module.function? frame.function with
      | none => exact hkept (by simp [hostCall?, instruction?, hframes, hcode]) ⟨rfl, rfl⟩
      | some code =>
          dsimp only
          cases hI : code.instructions[frame.pc]? with
          | none =>
            exact hkept (by simp [hostCall?, instruction?, hframes, hcode, hI]) (leave_env m code)
          | some I =>
              have hnext : m.instruction? = some I := by simp [instruction?, hframes, hcode, hI]
              cases I with
              | callHost index => exact execute_callHost_leaves h hpending code _ callers hnext
              | _ => exact hkept (by rw [hostCall?, hnext]) (execute_env m code _ callers (by simp))

/-- What an instruction leaves depends on the activations, the operands, the heap, the calls and the
promises. -/
theorem leaves_congr (hmodule : x.module = y.module) (hframes : x.frames = y.frames)
    (hstack : x.stack = y.stack) (hheap : x.world.heap = y.world.heap)
    (hcalls : x.world.env.calls = y.world.env.calls)
    (hpromises : x.world.env.promises = y.world.env.promises) : x.leaves c = y.leaves c := by
  simp only [leaves, hostCall?, instruction?, arguments, hmodule, hframes, hstack, hheap, hcalls,
    hpromises]

/-- An instruction leaves the breakpoints alone. -/
theorem breakpoints_step (m : Machine σ) : m.step.breakpoints = m.breakpoints := by
  have haside : m.step = m.step.aside m.phase m.breakpoints := m.step_aside m.phase m.breakpoints
  rw [haside]
  rfl

/-! ## One instruction at a time -/

/-- The machine after taking the answer it waits for, which is delivered first. -/
def ready (m : Machine CallBook) : Machine CallBook :=
  match m.pending with
  | none => m
  | some call => (m.deliver call.future).resume

/-- The machine after it has been delivered what it waits for and has executed one instruction. -/
def oneByOne (m : Machine CallBook) : Machine CallBook :=
  match m.pending with
  | none => m.run 1
  | some call => (m.deliver call.future).run 1

theorem InStep.isCompleted_deliver (h : InStep program c m p) {call : PendingCall}
    (hpending : m.pending = some call) :
    (m.deliver call.future).world.isCompleted call.future = true := by
  obtain ⟨v, f, hv, hfuture, -⟩ := h.awaited call hpending
  unfold Machine.deliver
  rw [hv]
  dsimp only
  split
  · next hdone => exact hdone
  · simp [Machine.complete, World.complete, World.isCompleted, Array.getElem?_modify, hfuture,
      Future.complete]

theorem ready_of_pending {call : PendingCall} (h : m.pending = some call) :
    m.ready = (m.deliver call.future).resume := by
  simp only [ready, h]

theorem ready_of_pending_none (h : m.pending = none) : m.ready = m := by
  simp only [ready, h]

/-- A machine that has taken its answer is where it was, with no call outstanding. -/
theorem InStep.ready (h : InStep program c m p) :
    InStep program c m.ready p ∧ m.ready.pending = none ∧ m.ready.world.env = m.world.env ∧
      m.ready.breakpoints = m.breakpoints := by
  cases hpending : m.pending with
  | none =>
      rw [ready_of_pending_none hpending]
      exact ⟨h, hpending, rfl, rfl⟩
  | some call =>
      obtain ⟨futures, hdeliver⟩ := m.deliver_eq call.future
      have hstill : (m.deliver call.future).pending = some call := by
        rw [hdeliver]
        exact hpending
      rw [ready_of_pending hpending]
      refine ⟨(h.deliver call.future).resume hstill (h.isCompleted_deliver hpending), ?_⟩
      rw [resume_of_pending hstill, hdeliver]
      exact ⟨rfl, rfl, rfl⟩

/-- Running a machine by one instruction, if no call is outstanding. -/
theorem run_one {m : Machine σ} (hframes : m.frames ≠ []) (hsuspended : m.isSuspended = false)
    (hpending : m.resume.pending = none) : m.run 1 = m.resume.step.settle := by
  have hresumed : m.resume.frames.isEmpty = false := by
    rw [m.frames_resume, List.isEmpty_eq_false_iff]
    exact hframes
  simp [run, hframes, hsuspended, advance, hpending, hresumed]

theorem InStep.oneByOne_eq (h : InStep program c m p) (hframes : m.frames ≠ []) :
    m.oneByOne = m.ready.step.settle := by
  unfold oneByOne
  cases hpending : m.pending with
  | none =>
      have hresume := resume_of_pending_none hpending
      rw [ready_of_pending_none hpending]
      exact (run_one hframes (by simp [isSuspended, hpending]) (by rw [hresume, hpending])).trans
        (by rw [hresume])
  | some call =>
      obtain ⟨futures, hdeliver⟩ := m.deliver_eq call.future
      have hstill : (m.deliver call.future).pending = some call := by
        rw [hdeliver]
        exact hpending
      rw [ready_of_pending hpending]
      refine run_one (by rw [hdeliver]; exact hframes) ?_ ?_
      · simp [isSuspended, hstill, h.isCompleted_deliver hpending]
      · rw [resume_of_pending hstill]

/-! ## Two machines of which one may have taken its answer -/

/-- The machine `x` is where `y` is, but that it may have taken an answer that `y` still waits
for. -/
structure Ahead (program : Module σ) (c : Conduct) (x y : Machine CallBook) : Prop where
  inStep : ∃ p, InStep program c x p ∧ InStep program c y p
  promises : x.world.env.promises = y.world.env.promises
  breakpoints : x.breakpoints = y.breakpoints
  pending : x.pending = none ∨ x.pending = y.pending
  waits : x.Waits

namespace Ahead

theorem module_eq (h : Ahead program c x y) : x.module = y.module := by
  obtain ⟨p, hx, hy⟩ := h.inStep
  rw [hx.deferred, hy.deferred]

theorem frames_eq (h : Ahead program c x y) : x.frames = y.frames := by
  obtain ⟨p, hx, hy⟩ := h.inStep
  rw [← hx.frames, hy.frames]

theorem heap_eq (h : Ahead program c x y) : x.world.heap = y.world.heap := by
  obtain ⟨p, hx, hy⟩ := h.inStep
  rw [← hx.heap, hy.heap]

theorem calls_eq (h : Ahead program c x y) : x.world.env.calls = y.world.env.calls := by
  obtain ⟨p, hx, hy⟩ := h.inStep
  rw [← hx.calls, hy.calls]

/-- Two machines ahead of one and the same have the same operands if they wait for the same. -/
theorem stack_eq {x' : Machine CallBook} (h : Ahead program c x y) (h' : Ahead program c x' y)
    (hpending : x.pending = x'.pending) : x.stack = x'.stack := by
  obtain ⟨p, hx, hy⟩ := h.inStep
  obtain ⟨p', hx', hy'⟩ := h'.inStep
  have howed : x.owed = x'.owed := by
    unfold owed awaitsValue
    rw [hpending, h.module_eq, h'.module_eq, h.promises, h'.promises]
  have hstack : x.owed ++ x.stack = x'.owed ++ x'.stack := by
    rw [← hx.stack, ← hx'.stack, hy.stack, hy'.stack]
  rw [howed] at hstack
  exact List.append_cancel_left hstack

theorem snapshot?_eq (h : Ahead program c x y) : x.snapshot? = y.snapshot? := by
  simp only [snapshot?, statement?, lineInfo?, h.frames_eq, h.module_eq]

theorem atBreakpoint_eq (h : Ahead program c x y) : x.atBreakpoint = y.atBreakpoint :=
  atBreakpoint_congr h.frames_eq h.breakpoints

theorem refl (h : InStep program c x p) (hwaits : x.Waits) : Ahead program c x x :=
  ⟨⟨p, h, h⟩, rfl, rfl, .inr rfl, hwaits⟩

/-- Deliveries make no difference. -/
theorem deliver (h : Ahead program c x y) (future : Nat) :
    Ahead program c (x.deliver future) y := by
  obtain ⟨p, hx, hy⟩ := h.inStep
  obtain ⟨futures, hdeliver⟩ := x.deliver_eq future
  have hnext := hx.deliver future
  have hwaits := h.waits.deliver future
  rw [hdeliver] at hnext hwaits ⊢
  exact ⟨⟨p, hnext, hy⟩, h.promises, h.breakpoints, h.pending, hwaits⟩

/-- Taking an answer that is there makes no difference. -/
theorem resume (h : Ahead program c x y) {call : PendingCall} (hpending : x.pending = some call)
    (hdone : x.world.isCompleted call.future = true) : Ahead program c x.resume y := by
  obtain ⟨p, hx, hy⟩ := h.inStep
  have hnext := hx.resume hpending hdone
  have hresume := resume_of_pending hpending
  refine ⟨⟨p, hnext, hy⟩, ?_, ?_, .inl ?_, waits_of_pending_none ?_⟩
  · rw [hresume]
    exact h.promises
  · rw [hresume]
    exact h.breakpoints
  · rw [hresume]
  · rw [hresume]

theorem settle (h : Ahead program c x y) : Ahead program c x.settle y := by
  obtain ⟨p, hx, hy⟩ := h.inStep
  have hnext := hx.settle
  unfold Machine.settle at hnext ⊢
  split
  · next hempty =>
      rw [if_pos hempty] at hnext
      exact ⟨⟨p, hnext, hy⟩, h.promises, h.breakpoints, h.pending, h.waits.congr rfl rfl rfl⟩
  · exact h

/-- **An instruction of the one is a round of the other**, and leaves the same call outstanding. -/
theorem step (h : Ahead program c x y) (hpending : x.pending = none) (hframes : x.frames ≠ []) :
    Ahead program c x.step y.oneByOne ∧ x.step.pending = y.oneByOne.pending := by
  obtain ⟨p, hx, hy⟩ := h.inStep
  obtain ⟨hready, hnone, henv, htable⟩ := hy.ready
  have hframes' : y.ready.frames = x.frames := by rw [← hready.frames, hx.frames]
  have hy' : y.frames ≠ [] := h.frames_eq ▸ hframes
  have hleaves : x.leaves c = y.ready.leaves c :=
    leaves_congr (by rw [hx.deferred, hready.deferred]) hframes'.symm
      (by rw [← hx.stack_eq hpending, hready.stack_eq hnone]) (by rw [← hx.heap, hready.heap])
      (by rw [← hx.calls, hready.calls]) (h.promises.trans (by rw [henv]))
  have hsame := (step_leaves hx hpending).trans (hleaves.trans (step_leaves hready hnone).symm)
  rw [Prod.mk.injEq] at hsame
  have hround : y.oneByOne = y.ready.step.settle := hy.oneByOne_eq hy'
  have hsettle (m : Machine CallBook) : m.settle.pending = m.pending ∧ m.settle.world = m.world ∧
      m.settle.breakpoints = m.breakpoints := by
    unfold Machine.settle
    split <;> exact ⟨rfl, rfl, rfl⟩
  obtain ⟨hsettlePending, hsettleWorld, hsettleTable⟩ := hsettle y.ready.step
  have hpendingNext : x.step.pending = y.oneByOne.pending := by rw [hround, hsettlePending, hsame.1]
  refine ⟨⟨⟨p.step, hx.step hpending hframes, ?_⟩, ?_, ?_, .inr hpendingNext, waits_step hpending⟩,
    hpendingNext⟩
  · rw [hround]
    exact (hready.step hnone (by rw [hframes']; exact hframes)).settle
  · rw [hround, hsettleWorld, hsame.2]
  · rw [hround, hsettleTable, breakpoints_step, breakpoints_step, htable]
    exact h.breakpoints

end Ahead

/-! ## When a step is over -/

/-- Whether a step that began at `start` is over where the machine is: it has passed by, or the
program has ended. -/
def passed (m : Machine σ) (start : Snapshot) : Bool :=
  match m.snapshot? with
  | none => true
  | some current => Snapshot.passedBy start current

theorem passed_eq_true {m : Machine σ} {start : Snapshot} :
    m.passed start = true ↔ ∀ current, m.snapshot? = some current →
    Snapshot.passedBy start current = true := by
  unfold passed
  cases m.snapshot? <;> simp

theorem passed_eq_false {m : Machine σ} {start current : Snapshot}
    (hcurrent : m.snapshot? = some current) (hgo : Snapshot.passedBy start current = false) :
    m.passed start = false := by
  rw [passed, hcurrent, ← hgo]

/-- A step that began at `start` may end behind as many rounds of `y`: at a breakpoint that is come
to, or where it is over. -/
def Halts (start : Snapshot) (y : Machine CallBook) (k : Nat) : Prop :=
  (0 < k ∧ (oneByOne^[k] y).atBreakpoint = true) ∨ (oneByOne^[k] y).passed start = true

/-- A step from `y` is on its way: `x` is where `y` is after as many rounds, and the step could not
have ended before. -/
structure Underway (program : Module σ) (c : Conduct) (start : Snapshot) (y : Machine CallBook)
    (k : Nat) (x : Machine CallBook) : Prop where
  ahead : Ahead program c x (oneByOne^[k] y)
  going : ∀ i < k, ¬ Halts start y i
  unbroken : ¬ (0 < k ∧ (oneByOne^[k] y).atBreakpoint = true)

/-- A step from `y` has ended in `x`, where it first could. A call is outstanding only at a
breakpoint. -/
structure Arrived (program : Module σ) (c : Conduct) (start : Snapshot) (y : Machine CallBook)
    (k : Nat) (x : Machine CallBook) : Prop where
  ahead : Ahead program c x (oneByOne^[k] y)
  going : ∀ i < k, ¬ Halts start y i
  halts : Halts start y k
  pending : x.pending =
    if 0 < k ∧ (oneByOne^[k] y).atBreakpoint = true then (oneByOne^[k] y).pending else none

namespace Underway

variable {start : Snapshot} {k : Nat}

theorem deliver (h : Underway program c start y k x) (future : Nat) :
    Underway program c start y k (x.deliver future) :=
  ⟨h.ahead.deliver future, h.going, h.unbroken⟩

theorem resume (h : Underway program c start y k x) (hsuspended : x.isSuspended = false) :
    Underway program c start y k x.resume := by
  cases hpending : x.pending with
  | none => rwa [resume_of_pending_none hpending]
  | some call =>
      refine ⟨h.ahead.resume hpending ?_, h.going, h.unbroken⟩
      simpa [isSuspended, hpending] using hsuspended

/-- A step that is over where no call is outstanding has arrived. -/
theorem arrived (h : Underway program c start y k x) (hpending : x.pending = none)
    (hpassed : x.passed start = true) :
    Arrived program c start y k x := by
  refine ⟨h.ahead, h.going, .inr ?_, ?_⟩
  · rw [← hpassed]
    simp only [passed, h.ahead.snapshot?_eq]
  · rw [if_neg h.unbroken, hpending]

/-- An instruction brings a step that is not over to its end at a breakpoint, or leaves it on its
way. -/
theorem step (h : Underway program c start y k x) (hpending : x.pending = none)
    (hpassed : x.passed start = false) :
    if x.step.atBreakpoint then Arrived program c start y (k + 1) x.step
    else Underway program c start y (k + 1) x.step := by
  have hframes : x.frames ≠ [] := by
    intro hnil
    simp [passed, snapshot?_eq_none.mpr hnil] at hpassed
  obtain ⟨hahead, hsame⟩ := h.ahead.step hpending hframes
  rw [← Function.iterate_succ_apply' oneByOne] at hahead hsame
  have hgoing : ∀ i < k + 1, ¬ Halts start y i := by
    intro i hi
    rcases Nat.lt_succ_iff_lt_or_eq.mp hi with hlt | rfl
    · exact h.going i hlt
    · rintro (hbroken | hover)
      · exact h.unbroken hbroken
      · simp only [passed, ← h.ahead.snapshot?_eq] at hover
        simp only [passed] at hpassed
        rw [hover] at hpassed
        cases hpassed
  split
  · next hat =>
      rw [hahead.atBreakpoint_eq] at hat
      exact ⟨hahead, hgoing, .inl ⟨Nat.succ_pos k, hat⟩,
        by rw [if_pos ⟨Nat.succ_pos k, hat⟩, hsame]⟩
  · next hat =>
      rw [hahead.atBreakpoint_eq] at hat
      exact ⟨hahead, hgoing, fun hbroken => hat hbroken.2⟩

/-- The instructions of a step leave it on its way if they pause, and bring it to its end if they
finish. -/
theorem stepsUntil {budget : Nat} {xs : List (Machine CallBook)} {outcome : StepOutcome}
    {x' : Machine CallBook} (hsteps : StepsUntil (Snapshot.passedBy start) budget x xs outcome x') :
    ∀ {k : Nat}, Underway program c start y k x →
      (outcome = .paused → ∃ k, Underway program c start y k x') ∧
      (outcome = .finished → ∃ k, Arrived program c start y k x') := by
  induction hsteps with
  | waiting | exhausted =>
      intro k h
      exact ⟨fun _ => ⟨k, h⟩, nofun⟩
  | there hpending harrived =>
      intro k h
      exact ⟨nofun, fun _ => ⟨k, h.arrived hpending (passed_eq_true.mpr harrived)⟩⟩
  | broken hpending hcurrent hgo hat =>
      intro k h
      have hnext := h.step hpending (passed_eq_false hcurrent hgo)
      rw [if_pos hat] at hnext
      exact ⟨nofun, fun _ => ⟨k + 1, hnext⟩⟩
  | step hpending hcurrent hgo hat _ ih =>
      intro k h
      have hnext := h.step hpending (passed_eq_false hcurrent hgo)
      rw [hat, if_neg Bool.false_ne_true] at hnext
      exact ih hnext

end Underway

/-! ## Sessions -/

/-- A step over a statement with all its pauses, continued from each place that it yields until it
is done, while values are delivered in between: the machine, where the step is to be continued from,
the places yielded, and the machine in the end. -/
inductive StepOverSession : Machine CallBook → Option Snapshot → List Snapshot →
    Machine CallBook → Prop
  | deliver {m m' : Machine CallBook} {last : Option Snapshot} {yielded : List Snapshot}
      (future : Nat) :
      StepOverSession (m.deliver future) last yielded m' → StepOverSession m last yielded m'
  | done {m m' : Machine CallBook} {last : Option Snapshot} :
      m.stepOver last = (none, m') → StepOverSession m last [] m'
  | again {m m' m'' : Machine CallBook} {last : Option Snapshot} {place : Snapshot}
      {yielded : List Snapshot} :
      m.stepOver last = (some place, m') → StepOverSession m' (some place) yielded m'' →
      StepOverSession m last (place :: yielded) m''

theorem Arrived.settle {start : Snapshot} {k : Nat} (h : Arrived program c start y k x) :
    Arrived program c start y k x.settle := by
  refine ⟨h.ahead.settle, h.going, h.halts, ?_⟩
  rw [← h.pending]
  unfold Machine.settle
  split <;> rfl

theorem phase_settle (m : Machine σ) (h : m.settle.frames = []) : m.settle.phase = .completed := by
  unfold settle at h ⊢
  split
  · rfl
  · next hempty =>
      rw [if_neg hempty] at h
      exact absurd (List.isEmpty_iff.mpr h) hempty

/-- One call of a step that is under way leaves it under way and yields where it began, or brings it
to its end. -/
theorem Underway.stepOver {start : Snapshot} {k : Nat} (h : Underway program c start y k x)
    {last : Option Snapshot}
    (hlast : ∀ present, x.snapshot? = some present → last.getD present = start)
    {result : Option Snapshot} {x' : Machine CallBook} (hcall : x.stepOver last = (result, x')) :
    match result with
    | some place => place = start ∧ ∃ k, Underway program c start y k x'
    | none => (∃ k, Arrived program c start y k x') ∧ (x'.frames = [] → x'.phase = .completed) := by
  unfold Machine.stepOver at hcall
  cases hsnapshot : x.snapshot? with
  | none =>
      rw [hsnapshot] at hcall
      cases hcall
      have hframes := snapshot?_eq_none.mp hsnapshot
      have hpending : x.pending = none := by
        cases hp : x.pending with
        | none => rfl
        | some call =>
            obtain ⟨frame, callers, -, -, hcons, -⟩ := h.ahead.waits call hp
            rw [hframes] at hcons
            cases hcons
      exact ⟨⟨k, (h.arrived hpending (by simp [passed, hsnapshot])).settle⟩, phase_settle x⟩
  | some present =>
      rw [hsnapshot] at hcall
      dsimp only at hcall
      rw [hlast present hsnapshot] at hcall
      split at hcall
      · cases hcall
        exact ⟨rfl, k, h⟩
      · next hsuspended =>
          have hresumed := h.resume (by simpa using hsuspended)
          cases hsteps : Machine.stepUntil (Snapshot.passedBy start) x.stepLimit x.resume with
          | mk outcome next =>
              obtain ⟨hpaused, hfinished⟩ := stepsUntil (stepsUntil_of_eq hsteps) hresumed
              rw [hsteps] at hcall
              cases outcome with
              | paused =>
                  cases hcall
                  exact ⟨rfl, hpaused rfl⟩
              | finished =>
                  cases hcall
                  obtain ⟨k, harrived⟩ := hfinished rfl
                  exact ⟨⟨k, harrived.settle⟩, phase_settle next⟩

/-- **A step ends at the first place where it may end**, however often it pauses, and every place
that it yields is where it began. -/
theorem StepOverSession.arrives {start : Snapshot} {last : Option Snapshot}
    {yielded : List Snapshot} {x' : Machine CallBook} (h : StepOverSession x last yielded x') :
    ∀ {k : Nat}, Underway program c start y k x →
      (∀ present, x.snapshot? = some present → last.getD present = start) →
      (∀ place ∈ yielded, place = start) ∧ (∃ k, Arrived program c start y k x') ∧
        (x'.frames = [] → x'.phase = .completed) := by
  induction h with
  | @deliver m m' last yielded future _ ih =>
      intro k h hlast
      refine ih (h.deliver future) ?_
      obtain ⟨futures, hdeliver⟩ := m.deliver_eq future
      rw [hdeliver]
      exact hlast
  | done hcall =>
      intro k h hlast
      exact ⟨by simp, h.stepOver hlast hcall⟩
  | again hcall _ ih =>
      intro k h hlast
      obtain ⟨rfl, k, hnext⟩ := h.stepOver hlast hcall
      obtain ⟨hyielded, hend⟩ := ih hnext (fun _ _ => rfl)
      exact ⟨by simpa using hyielded, hend⟩

/-- A step begins where its machine is, whatever the limit is. -/
theorem Underway.begin (h : Ahead program c x y) (limit : Nat) (start : Snapshot) :
    Underway program c start y 0 { x with stepLimit := limit } := by
  obtain ⟨p, hx, hy⟩ := h.inStep
  have hlimited : InStep program c { x with stepLimit := limit } p :=
    ⟨hx.deferred, hx.prompt, hx.frames, hx.stack, hx.heap, hx.calls, hx.promises, hx.awaited,
      hx.ended⟩
  exact ⟨⟨⟨p, hlimited, hy⟩, h.promises, h.breakpoints, h.pending, h.waits.congr rfl rfl rfl⟩,
    fun i hi => absurd hi (Nat.not_lt_zero i), fun hbroken => absurd hbroken.1 (Nat.lt_irrefl 0)⟩

/-- Two steps that have arrived from the same beginning have done so at the same place. -/
theorem Arrived.unique {start : Snapshot} {k k' : Nat} {x x' : Machine CallBook}
    (h : Arrived program c start y k x) (h' : Arrived program c start y k' x') : k = k' := by
  rcases Nat.lt_trichotomy k k' with hlt | heq | hlt
  · exact absurd h.halts (h'.going k hlt)
  · exact heq
  · exact absurd h'.halts (h.going k' hlt)

/-- What is in two machines is the same but for their step limits, breakpoints and futures. -/
structure Agree (x x' : Machine CallBook) : Prop where
  frames : x.frames = x'.frames
  stack : x.stack = x'.stack
  pending : x.pending = x'.pending
  phase : x.phase = x'.phase
  heap : x.world.heap = x'.world.heap
  calls : x.world.env.calls = x'.world.env.calls

/-- Steps that arrive at the same place agree once the end of the program is noted. -/
theorem Arrived.agree {start : Snapshot} {k : Nat} {x x' : Machine CallBook}
    (h : Arrived program c start y k x) (h' : Arrived program c start y k x')
    (hended : x.frames = [] → x.phase = .completed)
    (hended' : x'.frames = [] → x'.phase = .completed) : Agree x x' := by
  have hframes : x.frames = x'.frames := h.ahead.frames_eq.trans h'.ahead.frames_eq.symm
  have hpending : x.pending = x'.pending := h.pending.trans h'.pending.symm
  refine ⟨hframes, h.ahead.stack_eq h'.ahead hpending, hpending, ?_,
    h.ahead.heap_eq.trans h'.ahead.heap_eq.symm, h.ahead.calls_eq.trans h'.ahead.calls_eq.symm⟩
  obtain ⟨p, hx, -⟩ := h.ahead.inStep
  obtain ⟨p', hx', -⟩ := h'.ahead.inStep
  cases hphase : x.phase with
  | completed => exact (hended' (hframes ▸ hx.ended hphase)).symm
  | running =>
      cases hphase' : x'.phase with
      | running => rfl
      | completed =>
          rw [hended (hframes.symm ▸ hx'.ended hphase')] at hphase
          cases hphase

/-- **Steps do not depend on their limit or on when values are delivered.** Two steps over a
statement, each continued until it is done, from a reachable machine with any two limits, end in
machines that agree, and all places that they yield are where they began. -/
theorem StepOverSession.agree (hm : Reachable program c m) {limit limit' : Nat}
    {yielded yielded' : List Snapshot} {x x' : Machine CallBook}
    (h : StepOverSession { m with stepLimit := limit } none yielded x)
    (h' : StepOverSession { m with stepLimit := limit' } none yielded' x') :
    Agree x x' ∧ ∀ place ∈ yielded ++ yielded', m.snapshot? = some place := by
  obtain ⟨p, hp⟩ := hm.inStep
  have hbegin (limit : Nat) (start : Snapshot) := Underway.begin (.refl hp hm.waits) limit start
  have harrives (start : Snapshot) (hstart : ∀ present, m.snapshot? = some present →
      present = start) :
      Agree x x' ∧ ∀ place ∈ yielded ++ yielded', place = start := by
    obtain ⟨hyielded, ⟨k, harrived⟩, hended⟩ := h.arrives (hbegin limit start) hstart
    obtain ⟨hyielded', ⟨k', harrived'⟩, hended'⟩ := h'.arrives (hbegin limit' start) hstart
    obtain rfl := harrived.unique harrived'
    refine ⟨harrived.agree harrived' hended hended', ?_⟩
    intro place hplace
    rcases List.mem_append.mp hplace with hplace | hplace
    · exact hyielded place hplace
    · exact hyielded' place hplace
  cases hsnapshot : m.snapshot? with
  | some start =>
      obtain ⟨hagree, hall⟩ := harrives start (fun present hpresent => by
        rw [hsnapshot, Option.some.injEq] at hpresent
        exact hpresent.symm)
      exact ⟨hagree, fun place hplace => by rw [hall place hplace]⟩
  | none =>
      -- Without an activation every place would have to be where a step began, so none is yielded.
      have hnone (start : Snapshot) := harrives start (fun present hpresent => by
        rw [hsnapshot] at hpresent
        cases hpresent)
      refine ⟨(hnone ⟨0, 0⟩).1, fun place hplace => ?_⟩
      have hfirst := (hnone ⟨0, 0⟩).2 place hplace
      have hsecond := (hnone ⟨1, 0⟩).2 place hplace
      rw [hfirst] at hsecond
      cases hsecond

end Machine

end Stepwise
