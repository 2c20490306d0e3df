import Mathlib.Data.List.Iterate
import Stepwise.Proofs.Machine.LifeCycle
import Stepwise.Proofs.Machine.Stepping
import Stepwise.Proofs.Machine.Waiting

/-!
# Stepping into programs that wait

A program that is stepped into stops where another statement or another activation comes up. On a
host with futures a call of `stepInto` may also return with a call of the host outstanding, and the
next one goes on from there. Only where a call returns with nothing outstanding has the program
stopped.

**Stops** (`step_into_stops_alike`). Whenever values are delivered, the stops are those on the host
that answers at once, except for those that are come to by a call of the host whose answer is a
future. There the machine shows the statement behind the call while it still waits, and the next
call of `stepInto` begins with that statement and passes it (`stop_behind_call_missed`). This can
only happen where the function of the host yields nothing: any other call is followed by an
instruction of its own statement. So if the functions that yield nothing answer at once, all stops
are the same.
-/

set_option autoImplicit false

namespace Stepwise

variable {σ : Type}

namespace Machine

/-! ## What a call of `stepInto` does -/

/-- Where a machine stops: how many activations it has, and the statement it shows. -/
def place (m : Machine σ) : Nat × Option Nat := (m.depth, m.statement?)

/-- A call of `stepInto` is ended by the limit: it pauses though no call of the host is
outstanding. -/
def atLimit (m : Machine σ) : Bool :=
  m.stepInto.pending.isNone &&
    match m.snapshot? with
    | none => false
    | some start => (stepUntil (· != start) m.stepLimit m.resume).1 == .paused

/-- No instruction has a breakpoint. -/
def Unbroken (m : Machine σ) : Prop := ∀ function pc, m.hasBreakpoint function pc = false

/-- So many instructions are executed with no call outstanding, and all are at one place. -/
structure Walks (start : Snapshot) (m : Machine σ) (count : Nat) : Prop where
  idle : ∀ i < count, (step^[i] m).pending = none
  shown : ∀ i < count, (step^[i] m).snapshot? = some start

section Unbroken

variable {m m' : Machine σ} {start : Snapshot} {count : Nat}

theorem Unbroken.congr (h : m.Unbroken) (htable : m'.breakpoints = m.breakpoints) :
    m'.Unbroken := by
  intro function pc
  rw [hasBreakpoint_congr htable]
  exact h function pc

theorem Unbroken.step (h : m.Unbroken) : m.step.Unbroken := h.congr m.breakpoints_step

theorem Unbroken.resume (h : m.Unbroken) : m.resume.Unbroken := h.congr m.breakpoints_resume

theorem Unbroken.iterate (h : m.Unbroken) (count : Nat) : (Machine.step^[count] m).Unbroken := by
  induction count with
  | zero => exact h
  | succ count ih =>
      rw [Function.iterate_succ_apply']
      exact ih.step

theorem Unbroken.settle (h : m.Unbroken) : m.settle.Unbroken := h.congr m.breakpoints_settle

/-- The last of some rounds in a row. -/
theorem getLast?_iterate_succ {α : Type} (f : α → α) (a : α) (count : Nat) :
    (List.iterate f a (count + 1)).getLast? = some (f^[count] a) := by
  rw [List.iterate_add, List.iterate, List.iterate, List.getLast?_concat]

theorem Walks.cons (hidle : m.pending = none) (hshown : m.snapshot? = some start)
    (h : Walks start m.step count) :
    Walks start m (count + 1) := by
  constructor
  · intro i hi
    cases i with
    | zero => exact hidle
    | succ i => exact h.idle i (Nat.lt_of_succ_lt_succ hi)
  · intro i hi
    cases i with
    | zero => exact hshown
    | succ i => exact h.shown i (Nat.lt_of_succ_lt_succ hi)

theorem walks_zero (start : Snapshot) (m : Machine σ) : Walks start m 0 :=
  ⟨fun i hi => absurd hi i.not_lt_zero, fun i hi => absurd hi i.not_lt_zero⟩

/-- Without breakpoints the instructions of a step walk from where it began, until it pauses or is
at another place. -/
theorem StepsUntil.walks {budget : Nat} {xs : List (Machine σ)} {outcome : StepOutcome}
    (h : StepsUntil (· != start) budget m xs outcome m') (hunbroken : m.Unbroken) :
    ∃ count, Walks start m count ∧ xs = List.iterate Machine.step m count ∧
      m' = Machine.step^[count] m ∧
      (outcome = .finished → m'.pending = none ∧ m'.snapshot? ≠ some start) := by
  induction h with
  | @waiting budget m hpending => exact ⟨0, walks_zero start m, rfl, rfl, nofun⟩
  | @there budget m hpending harrived =>
      refine ⟨0, walks_zero start m, rfl, rfl, fun _ => ⟨hpending, fun hstart => ?_⟩⟩
      simpa using harrived start hstart
  | @exhausted m hpending hframes => exact ⟨0, walks_zero start m, rfl, rfl, nofun⟩
  | broken _ _ _ hat =>
      rw [atBreakpoint_eq_false hunbroken.step] at hat
      cases hat
  | step hpending hcurrent hgo _ _ ih =>
      obtain ⟨count, hwalks, rfl, hlast, hend⟩ := ih hunbroken.step
      obtain rfl : _ = start := by simpa using hgo
      exact ⟨count + 1, hwalks.cons hpending hcurrent, rfl, hlast, hend⟩

/-- A call of `stepInto` that is not ended by the limit walks from where it began, and waits then or
is at another place. -/
theorem Unbroken.stepInto_walks (h : m.Unbroken) (hlimit : m.atLimit = false)
    (hsnapshot : m.snapshot? = some start) (hsuspended : m.isSuspended = false) :
    ∃ count, Walks start m.resume count ∧
      m.executed .stepInto = List.iterate Machine.step m.resume count ∧
      ((m.stepInto = Machine.step^[count] m.resume ∧
        (Machine.step^[count] m.resume).pending.isSome = true) ∨
        (m.stepInto = (Machine.step^[count] m.resume).settle ∧
          (Machine.step^[count] m.resume).pending = none ∧
          (Machine.step^[count] m.resume).snapshot? ≠ some start)) := by
  cases hsteps : Machine.stepUntil (· != start) m.stepLimit m.resume with
  | mk outcome m' =>
      obtain ⟨count, hwalks, hexecuted, rfl, hend⟩ := (stepsUntil_of_eq hsteps).walks h.resume
      refine ⟨count, hwalks, ?_, ?_⟩
      · simp only [executed, hsnapshot, hsuspended, Bool.false_eq_true, if_false, hexecuted]
      · cases outcome with
        | finished =>
            right
            exact ⟨by simp only [stepInto, hsnapshot, hsuspended, Bool.false_eq_true, if_false,
              hsteps], hend rfl⟩
        | paused =>
            left
            have hpaused : m.stepInto = Machine.step^[count] m.resume := by
              simp only [stepInto, hsnapshot, hsuspended, Bool.false_eq_true, if_false, hsteps]
            refine ⟨hpaused, ?_⟩
            simpa [atLimit, hpaused, hsnapshot, hsteps, Option.isSome_iff_ne_none] using hlimit

theorem pending_resume (m : Machine σ) : m.resume.pending = none := by
  cases hpending : m.pending with
  | none => rwa [resume_of_pending_none hpending]
  | some call => rw [resume_of_pending hpending]

theorem snapshot?_resume (m : Machine σ) : m.resume.snapshot? = m.snapshot? := by
  unfold resume
  split <;> rfl

/-- A call of `stepInto` goes on where there is an activation and no answer is missing, unless the
limit ends it. -/
theorem Unbroken.executed_stepInto_ne_nil (h : m.Unbroken) (hlimit : m.atLimit = false)
    (hframes : m.frames ≠ []) (hsuspended : m.isSuspended = false) : m.executed .stepInto ≠ [] := by
  obtain ⟨start, hsnapshot⟩ := Option.ne_none_iff_exists'.mp (mt snapshot?_eq_none.mp hframes)
  obtain ⟨count, -, hexecuted, hend⟩ := h.stepInto_walks hlimit hsnapshot hsuspended
  rw [hexecuted, Ne, List.iterate_eq_nil]
  rintro rfl
  rcases hend with ⟨-, hwaits⟩ | ⟨-, -, hother⟩
  · rw [Function.iterate_zero_apply, pending_resume] at hwaits
    cases hwaits
  · exact hother (m.snapshot?_resume.trans hsnapshot)

/-- The instructions that a call of `stepInto` executes are all where it began. -/
theorem Unbroken.snapshot?_executed (h : m.Unbroken) {y : Machine σ}
    (hy : y ∈ m.executed .stepInto) :
    y.snapshot? = m.snapshot? := by
  unfold executed at hy
  dsimp only at hy
  cases hsnapshot : m.snapshot? with
  | none =>
      rw [hsnapshot] at hy
      cases hy
  | some start =>
      rw [hsnapshot] at hy
      dsimp only at hy
      split at hy
      · cases hy
      · obtain ⟨count, hwalks, hexecuted, -⟩ :=
          (stepsUntil (· != start) m.stepLimit m.resume).walks h.resume
        rw [hexecuted] at hy
        obtain ⟨i, hi, rfl⟩ := List.mem_iterate.mp hy
        exact hwalks.shown i hi

end Unbroken

/-! ## Machines whose host answers at once -/

/-- A machine whose host answers at once: no call is ever outstanding. -/
structure Prompt (program : Module σ) (c : Conduct) (q : Machine (List HostCall)) : Prop where
  runs : q.module = program.withNatives c.prompt
  idle : q.pending = none
  unbroken : q.Unbroken

namespace Prompt

variable {program : Module σ} {c : Conduct} {q : Machine (List HostCall)} {start : Snapshot}
    {count : Nat}

theorem settle (h : Prompt program c q) : Prompt program c q.settle := by
  refine ⟨?_, q.pending_settle.trans h.idle, h.unbroken.settle⟩
  unfold Machine.settle
  split <;> exact h.runs

/-- An instruction leaves no call outstanding. -/
theorem step (h : Prompt program c q) : Prompt program c q.step := by
  refine ⟨q.step_unchanged.1.trans h.runs, ?_, h.unbroken.step⟩
  unfold Machine.step
  split
  · exact h.idle
  · next frame callers _ =>
      split
      · exact h.idle
      · next code _ =>
          split
          · exact (q.leave_env code).1.trans h.idle
          · next I _ =>
              cases I with
              | callHost index =>
                  simp only [execute, h.runs, hostFunction?_withNatives]
                  cases program.hostFunction? index with
                  | none => exact h.idle
                  | some f => exact h.idle
              | _ => exact (q.execute_env code _ callers (by simp)).1.trans h.idle

theorem iterate (h : Prompt program c q) (count : Nat) :
    Prompt program c (Machine.step^[count] q) := by
  induction count with
  | zero => exact h
  | succ count ih =>
      rw [Function.iterate_succ_apply']
      exact ih.step

theorem resume_eq (h : Prompt program c q) : q.resume = q := resume_of_pending_none h.idle

theorem not_suspended (h : Prompt program c q) : q.isSuspended = false := by
  rw [isSuspended, h.idle]

/-- A call of `stepInto` executes the instructions up to the first that is at another place. -/
theorem stepInto_eq (h : Prompt program c q) (hlimit : q.atLimit = false)
    (hsnapshot : q.snapshot? = some start)
    (hshown : ∀ i < count, (Machine.step^[i] q).snapshot? = some start)
    (hnext : (Machine.step^[count] q).snapshot? ≠ some start) :
    q.stepInto = (Machine.step^[count] q).settle ∧
    q.executed .stepInto = List.iterate Machine.step q count := by
  obtain ⟨count', hwalks, hexecuted, hend⟩ :=
    h.unbroken.stepInto_walks hlimit hsnapshot h.not_suspended
  rw [h.resume_eq] at hwalks hexecuted hend
  rcases hend with ⟨-, hwaits⟩ | ⟨hstops, -, hother⟩
  · rw [(h.iterate count').idle] at hwaits
    cases hwaits
  · obtain rfl : count' = count := by
      rcases Nat.lt_trichotomy count' count with hlt | heq | hlt
      · exact absurd (hshown count' hlt) hother
      · exact heq
      · exact absurd (hwalks.shown count hlt) hnext
    exact ⟨hstops, hexecuted⟩

/-- The last instruction that a call of `stepInto` executes comes to another place. -/
theorem last_executed (h : Prompt program c q) (hlimit : q.atLimit = false)
    {y : Machine (List HostCall)} (hlast : (q.executed .stepInto).getLast? = some y) :
    Prompt program c y ∧ y.step.snapshot? ≠ y.snapshot? := by
  cases hsnapshot : q.snapshot? with
  | none => simp [executed, hsnapshot] at hlast
  | some start =>
      obtain ⟨count, hwalks, hexecuted, ⟨-, hwaits⟩ | ⟨-, -, hother⟩⟩ :=
        h.unbroken.stepInto_walks hlimit hsnapshot h.not_suspended
      · rw [h.resume_eq, (h.iterate count).idle] at hwaits
        cases hwaits
      · rw [h.resume_eq] at hwalks hexecuted hother
        cases count with
        | zero => simp [hexecuted] at hlast
        | succ count =>
            rw [hexecuted, getLast?_iterate_succ, Option.some.injEq] at hlast
            subst hlast
            rw [Function.iterate_succ_apply', ← hwalks.shown count count.lt_succ_self] at hother
            exact ⟨h.iterate count, hother⟩

theorem stepInto (h : Prompt program c q) (hlimit : q.atLimit = false) :
    Prompt program c q.stepInto := by
  cases hsnapshot : q.snapshot? with
  | none =>
      rw [show q.stepInto = q.settle by simp only [Machine.stepInto, hsnapshot]]
      exact h.settle
  | some start =>
      obtain ⟨count, -, -, ⟨hpaused, -⟩ | ⟨hstops, -⟩⟩ :=
        h.unbroken.stepInto_walks hlimit hsnapshot h.not_suspended
      · rw [hpaused, h.resume_eq]
        exact h.iterate count
      · rw [hstops, h.resume_eq]
        exact (h.iterate count).settle

theorem iterate_stepInto (h : Prompt program c q)
    (hlimit : ∀ k, (Machine.stepInto^[k] q).atLimit = false) (count : Nat) :
    Prompt program c (Machine.stepInto^[count] q) := by
  induction count with
  | zero => exact h
  | succ count ih =>
      rw [Function.iterate_succ_apply']
      exact ih.stepInto (hlimit count)

end Prompt

/-- A program that comes to its end is not stopped by the limit behind it. -/
theorem atLimit_of_ends {m : Machine σ} {count : Nat} (hend : (stepInto^[count] m).frames = [])
    (h : ∀ y ∈ List.iterate stepInto m count, y.atLimit = false) (k : Nat) :
    (stepInto^[k] m).atLimit = false := by
  have hended (j : Nat) : (stepInto^[j] (stepInto^[count] m)).frames = [] := by
    induction j with
    | zero => exact hend
    | succ j ih =>
        rw [Function.iterate_succ_apply', stepInto, snapshot?_eq_none.mpr ih]
        dsimp only
        unfold settle
        split <;> exact ih
  rcases Nat.lt_or_ge k count with hlt | hge
  · exact h _ (List.mem_iterate.mpr ⟨k, hlt, rfl⟩)
  · obtain ⟨j, rfl⟩ := Nat.exists_eq_add_of_le' hge
    rw [Function.iterate_add_apply, atLimit, snapshot?_eq_none.mpr (hended j), Bool.and_false]

/-! ## Answers that are still to come -/

/-- Whether the next instruction calls a function of the host whose answer is a future. -/
def defers (c : Conduct) (q : Machine (List HostCall)) : Bool :=
  match q.hostCall? with
  | none => false
  | some call => (c call.function q.world.env q.world.heap call.arguments).timing != .atOnce

/-- Whether a call of `stepInto` ends with a call of the host whose answer is a future. -/
def endsDeferred (c : Conduct) (q : Machine (List HostCall)) : Bool :=
  (q.executed .stepInto).getLast?.any (·.defers c)

section InStep

variable {program : Module σ} {c : Conduct} {x : Machine CallBook} {p q : Machine (List HostCall)}

theorem InStep.snapshot?_eq (h : InStep program c x p) : x.snapshot? = p.snapshot? := by
  simp only [snapshot?, statement?, lineInfo?, h.frames, h.function?]

theorem InStep.place_eq (h : InStep program c x p) : x.place = p.place := by
  simp only [place, depth, statement?, lineInfo?, h.frames, h.function?]

theorem InStep.hostCall?_eq (h : InStep program c x p) (hpending : x.pending = none) :
    p.hostCall? = x.hostCall? := by
  have hnext : p.instruction? = x.instruction? := by simp only [instruction?, h.frames, h.function?]
  unfold hostCall?
  rw [hnext]
  split
  · next index _ =>
      rcases h.hostFunction? index with ⟨hx, hp⟩ | ⟨f, hx, hp⟩
      · rw [hx, hp]
        rfl
      · rw [hx, hp]
        simp only [Option.map_some, params_withNative, arguments, h.stack_eq hpending]
  · rfl

/-- An instruction leaves a call outstanding if it is one whose answer is a future. -/
theorem InStep.isSome_pending_step (h : InStep program c x p) (hpending : x.pending = none) :
    x.step.pending.isSome = p.defers c := by
  have hleaves := congrArg Prod.fst (step_leaves h hpending)
  dsimp only at hleaves
  rw [hleaves, leaves, defers, h.hostCall?_eq hpending, h.calls, h.heap]
  cases x.hostCall? with
  | none => rfl
  | some call =>
      dsimp only
      generalize c call.function x.world.env.calls x.world.heap call.arguments = a
      obtain ⟨v, heap, timing⟩ := a
      cases timing <;> rfl

/-- That the prompt machine notes the end of the program makes no difference. -/
theorem InStep.settled (h : InStep program c x p) : InStep program c x p.settle := by
  unfold Machine.settle
  split
  · exact ⟨h.deferred, h.prompt, h.frames, h.stack, h.heap, h.calls, h.promises, h.awaited, h.ended⟩
  · exact h

/-- As long as no call is outstanding, machines in step execute the same instructions. -/
theorem InStep.walk {start : Snapshot} {count : Nat} (h : InStep program c x p)
    (hwalks : Walks start x count) :
    ∀ i ≤ count, InStep program c (Machine.step^[i] x) (Machine.step^[i] p) := by
  intro i
  induction i with
  | zero => exact fun _ => h
  | succ i ih =>
      intro hi
      rw [Function.iterate_succ_apply', Function.iterate_succ_apply']
      exact (ih (Nat.le_of_succ_le hi)).step (hwalks.idle i hi)
        (frames_ne_nil_of_snapshot? (hwalks.shown i hi))

end InStep

/-! ## One call of `stepInto` -/

/-- The machine `x` is on the way of a call of `stepInto` that began at `q`: it is where `q` is
after some instructions that have not come to another place. -/
structure Midway (program : Module σ) (c : Conduct) (q : Machine (List HostCall))
    (x : Machine CallBook) : Prop where
  prompt : Prompt program c q
  unbroken : x.Unbroken
  way : ∃ count, InStep program c x (step^[count] q) ∧ ∀ i ≤ count,
    (step^[i] q).snapshot? = q.snapshot?

namespace Midway

variable {program : Module σ} {c : Conduct} {q : Machine (List HostCall)} {x : Machine CallBook}

theorem snapshot?_eq (h : Midway program c q x) : x.snapshot? = q.snapshot? := by
  obtain ⟨count, hstep, hway⟩ := h.way
  exact hstep.snapshot?_eq.trans (hway count le_rfl)

/-- What the next call executes is where the call from `q` begins. -/
theorem snapshot?_executed (h : Midway program c q x) (y : Machine CallBook)
    (hy : y ∈ x.executed .stepInto) :
    y.snapshot? = q.snapshot? :=
  (h.unbroken.snapshot?_executed hy).trans h.snapshot?_eq

theorem deliver (h : Midway program c q x) (future : Nat) :
    Midway program c q (x.deliver future) := by
  obtain ⟨count, hstep, hway⟩ := h.way
  obtain ⟨futures, hdeliver⟩ := x.deliver_eq future
  refine ⟨h.prompt, h.unbroken.congr ?_, count, hstep.deliver future, hway⟩
  rw [hdeliver]

/-- A call of `stepInto` begins where both machines are. -/
theorem begin (hprompt : Prompt program c q) (hunbroken : x.Unbroken) (h : InStep program c x q) :
    Midway program c q x :=
  ⟨hprompt, hunbroken, 0, h, fun i hi => by rw [Nat.le_zero.mp hi, Function.iterate_zero_apply]⟩

theorem resume (h : Midway program c q x) (hsuspended : x.isSuspended = false) :
    Midway program c q x.resume := by
  obtain ⟨count, hstep, hway⟩ := h.way
  refine ⟨h.prompt, h.unbroken.resume, count, ?_, hway⟩
  cases hpending : x.pending with
  | none => rwa [resume_of_pending_none hpending]
  | some call => exact hstep.resume hpending (by simpa [isSuspended, hpending] using hsuspended)

theorem settle (h : Midway program c q x) : Midway program c q x.settle := by
  obtain ⟨count, hstep, hway⟩ := h.way
  exact ⟨h.prompt, h.unbroken.settle, count, hstep.settle, hway⟩

/-- A walk from midway that comes to another place ends where the call of `stepInto` from `q` does,
and a call of the host is outstanding if that was its last instruction and the answer is a
future. -/
theorem arrives {start : Snapshot} {count : Nat} (h : Midway program c q x) (hq : q.atLimit = false)
    (hstart : x.snapshot? = some start) (hwalks : Walks start x count)
    (hother : (step^[count] x).snapshot? ≠ some start) :
    InStep program c (step^[count] x) q.stepInto ∧
    (step^[count] x).pending.isSome = q.endsDeferred c := by
  obtain ⟨before, hstep, hway⟩ := h.way
  have hq' : q.snapshot? = some start := h.snapshot?_eq.symm.trans hstart
  have hwalked (i : Nat) (hi : i ≤ count) :
      InStep program c (step^[i] x) (step^[before + i] q) := by
    rw [Nat.add_comm, Function.iterate_add_apply]
    exact hstep.walk hwalks i hi
  have hshown : ∀ i < before + count, (step^[i] q).snapshot? = some start := by
    intro i hi
    rcases Nat.le_total i before with hle | hle
    · rw [hway i hle, hq']
    · obtain ⟨k, rfl⟩ := Nat.exists_eq_add_of_le hle
      have hk : k < count := Nat.lt_of_add_lt_add_left hi
      rw [← (hwalked k hk.le).snapshot?_eq, hwalks.shown k hk]
  have hlast := hwalked count le_rfl
  rw [hlast.snapshot?_eq] at hother
  obtain ⟨hstepInto, hexecuted⟩ := h.prompt.stepInto_eq hq hq' hshown hother
  refine ⟨hstepInto ▸ hlast.settled, ?_⟩
  -- The last instruction is one of the walk, since the walk begins where `q` is.
  cases count with
  | zero => exact absurd ((hlast.snapshot?_eq).symm.trans hstart) hother
  | succ count =>
      rw [endsDeferred, hexecuted, ← Nat.add_assoc, getLast?_iterate_succ, Option.any_some,
        Function.iterate_succ_apply']
      exact (hwalked count count.le_succ).isSome_pending_step (hwalks.idle count count.lt_succ_self)

/-- A walk from midway that comes to no other place stays midway. -/
theorem walk {start : Snapshot} {count : Nat} (h : Midway program c q x)
    (hstart : x.snapshot? = some start) (hwalks : Walks start x count)
    (hsame : (step^[count] x).snapshot? = some start) :
    Midway program c q (step^[count] x) := by
  obtain ⟨before, hstep, hway⟩ := h.way
  have hwalked (i : Nat) (hi : i ≤ count) :
      InStep program c (step^[i] x) (step^[i + before] q) := by
    rw [Function.iterate_add_apply]
    exact hstep.walk hwalks i hi
  refine ⟨h.prompt, h.unbroken.iterate count, count + before, hwalked count le_rfl, fun i hi => ?_⟩
  rcases Nat.le_total i before with hle | hle
  · exact hway i hle
  · obtain ⟨k, rfl⟩ := Nat.exists_eq_add_of_le' hle
    have hk : k ≤ count := Nat.le_of_add_le_add_right hi
    rw [← (hwalked k hk).snapshot?_eq, ← h.snapshot?_eq, hstart]
    rcases hk.lt_or_eq with hlt | rfl
    · exact hwalks.shown k hlt
    · exact hsame

/-- Behind the end of the program nothing is left to do. -/
theorem stepInto_ended (h : Midway program c q x) (hsnapshot : x.snapshot? = none)
    (hpending : x.pending = none) :
    x.stepInto.pending.isSome = q.endsDeferred c ∧ InStep program c x.stepInto q.stepInto ∧
      Midway program c q.stepInto x.stepInto := by
  have hq : q.snapshot? = none := h.snapshot?_eq.symm.trans hsnapshot
  have hx' : x.stepInto = x.settle := by simp only [Machine.stepInto, hsnapshot]
  have hq' : q.stepInto = q.settle := by simp only [Machine.stepInto, hq]
  obtain ⟨count, hstep, -⟩ := h.way
  rw [Function.iterate_fixed (q.step_of_frames_nil (snapshot?_eq_none.mp hq))] at hstep
  rw [hx', hq']
  refine ⟨?_, hstep.settle.settled, begin h.prompt.settle h.unbroken.settle hstep.settle.settled⟩
  rw [pending_settle, hpending, endsDeferred]
  simp only [executed, hq]
  rfl

/-- **One call of `stepInto` on a host with futures** returns on the way of the call from `q`, with
a call of the host outstanding, or where the call from `q` returns. There a call is outstanding if
it was the last instruction. -/
theorem stepInto (h : Midway program c q x) (hq : q.atLimit = false) (hx : x.atLimit = false) :
    (x.stepInto.pending.isSome = true ∧ Midway program c q x.stepInto) ∨
      (x.stepInto.pending.isSome = q.endsDeferred c ∧ InStep program c x.stepInto q.stepInto ∧
        Midway program c q.stepInto x.stepInto) := by
  cases hsnapshot : x.snapshot? with
  | none =>
      cases hpending : x.pending with
      | none => exact .inr (h.stepInto_ended hsnapshot hpending)
      | some call =>
          have hx' : x.stepInto = x.settle := by simp only [Machine.stepInto, hsnapshot]
          rw [hx', pending_settle, hpending]
          exact .inl ⟨rfl, h.settle⟩
  | some start =>
      cases hsuspended : x.isSuspended with
      | true =>
          have hx' : x.stepInto = x := by
            simp only [Machine.stepInto, hsnapshot, hsuspended, if_true]
          rw [hx']
          refine .inl ⟨?_, h⟩
          cases hpending : x.pending with
          | none => simp [isSuspended, hpending] at hsuspended
          | some call => rfl
      | false =>
          have hresumed := h.resume hsuspended
          have hstart : x.resume.snapshot? = some start :=
            hresumed.snapshot?_eq.trans (h.snapshot?_eq.symm.trans hsnapshot)
          obtain ⟨count, hwalks, -, ⟨hwaits, hpending⟩ | ⟨hstops, -, hother⟩⟩ :=
            h.unbroken.stepInto_walks hx hsnapshot hsuspended
          · rw [hwaits]
            by_cases hsame : (step^[count] x.resume).snapshot? = some start
            · exact .inl ⟨hpending, hresumed.walk hstart hwalks hsame⟩
            · obtain ⟨hlast, hends⟩ := hresumed.arrives hq hstart hwalks hsame
              exact .inr
                ⟨hends, hlast, begin (h.prompt.stepInto hq) (hresumed.unbroken.iterate count) hlast⟩
          · rw [hstops, pending_settle]
            obtain ⟨hlast, hends⟩ := hresumed.arrives hq hstart hwalks hother
            exact .inr ⟨hends, hlast.settle,
              begin (h.prompt.stepInto hq) (hresumed.unbroken.iterate count).settle hlast.settle⟩

end Midway

/-! ## Runs -/

/-- Calls of `stepInto` with deliveries in between, none of them ended by the limit: the machine,
the machines of which an instruction is executed, where those calls stop that return with no call of
the host outstanding, and the machine in the end. -/
inductive StepIntoRun : Machine CallBook → List (Machine CallBook) → List (Nat × Option Nat) →
    Machine CallBook → Prop
  | done (m : Machine CallBook) : StepIntoRun m [] [] m
  | deliver {m m' : Machine CallBook} {executed : List (Machine CallBook)}
      {stops : List (Nat × Option Nat)}
      (future : Nat) : StepIntoRun (m.deliver future) executed stops m' →
      StepIntoRun m executed stops m'
  | waits {m m' : Machine CallBook} {call : PendingCall} {executed : List (Machine CallBook)}
      {stops : List (Nat × Option Nat)} :
      m.stepInto.pending = some call → StepIntoRun m.stepInto executed stops m' →
      StepIntoRun m (m.executed .stepInto ++ executed) stops m'
  | stops {m m' : Machine CallBook} {executed : List (Machine CallBook)}
      {stops : List (Nat × Option Nat)} :
      m.stepInto.pending = none → m.atLimit = false → StepIntoRun m.stepInto executed stops m' →
      StepIntoRun m (m.executed .stepInto ++ executed) (m.stepInto.place :: stops) m'

section Runs

variable {program : Module σ} {c : Conduct} {x x' : Machine CallBook} {q : Machine (List HostCall)}

/-- The places at which so many calls of `stepInto` return, but those that end with a call whose
answer is a future. -/
def promptStops (c : Conduct) (q : Machine (List HostCall)) (count : Nat) :
    List (Nat × Option Nat) :=
  ((List.iterate stepInto q count).filter fun y => !y.endsDeferred c).map (·.stepInto.place)

theorem promptStops_succ (c : Conduct) (q : Machine (List HostCall)) (count : Nat) :
    q.promptStops c (count + 1) =
      (if q.endsDeferred c then [] else [q.stepInto.place]) ++ q.stepInto.promptStops c count := by
  cases h : q.endsDeferred c <;> simp [promptStops, List.iterate, h]

/-- What a run follows: a prompt machine that has so many calls of `stepInto` before it. -/
structure Follows (program : Module σ) (c : Conduct) (q : Machine (List HostCall)) (count : Nat)
    (executed : List (Machine CallBook)) (stops : List (Nat × Option Nat)) (x : Machine CallBook) :
      Prop where
  stops_eq : stops = q.promptStops c count
  /-- What is executed is where one of the calls begins. -/
  executed : ∀ y ∈ executed, ∃ k ≤ count, y.snapshot? = (stepInto^[k] q).snapshot?
  midway : Midway program c (stepInto^[count] q) x

namespace Follows

variable {count : Nat} {executed : List (Machine CallBook)} {stops : List (Nat × Option Nat)}

/-- What is executed where the first call begins comes in front. -/
theorem executes {first : List (Machine CallBook)} (h : Follows program c q count executed stops x)
    (hfirst : ∀ y ∈ first, y.snapshot? = q.snapshot?) :
    Follows program c q count (first ++ executed) stops x := by
  refine ⟨h.stops_eq, fun y hy => ?_, h.midway⟩
  rcases List.mem_append.mp hy with hy | hy
  · exact ⟨0, Nat.zero_le count, hfirst y hy⟩
  · exact h.executed y hy

/-- A call comes in front. -/
theorem calls (h : Follows program c q.stepInto count executed stops x) :
    Follows program c q (count + 1) executed
      ((if q.endsDeferred c then [] else [q.stepInto.place]) ++ stops) x := by
  refine ⟨by rw [h.stops_eq, promptStops_succ], fun y hy => ?_, h.midway⟩
  obtain ⟨k, hk, hshown⟩ := h.executed y hy
  exact ⟨k + 1, Nat.succ_le_succ hk, hshown⟩

end Follows

/-- **A run stops where its prompt machine stops**, but not behind calls whose answers are
futures. -/
theorem StepIntoRun.follows {executed : List (Machine CallBook)} {stops : List (Nat × Option Nat)}
    (h : StepIntoRun x executed stops x') :
    ∀ {q : Machine (List HostCall)}, Midway program c q x →
      (∀ k, (stepInto^[k] q).atLimit = false) →
      ∃ count, Follows program c q count executed stops x' := by
  induction h with
  | done m =>
      intro q hmidway _
      exact ⟨0, rfl, by simp, hmidway⟩
  | deliver future _ ih =>
      intro q hmidway hlimit
      exact ih (hmidway.deliver future) hlimit
  | @waits m m' call executed stops hwaits _ ih =>
      intro q hmidway hlimit
      have hm : m.atLimit = false := by simp [atLimit, hwaits]
      rcases hmidway.stepInto (hlimit 0) hm with ⟨-, hstill⟩ | ⟨hends, -, hnext⟩
      · obtain ⟨count, hrest⟩ := ih hstill hlimit
        exact ⟨count, hrest.executes hmidway.snapshot?_executed⟩
      · obtain ⟨count, hrest⟩ := ih hnext fun k => hlimit (k + 1)
        have hcalls := hrest.calls
        rw [hwaits, Option.isSome_some] at hends
        rw [← hends, if_pos rfl, List.nil_append] at hcalls
        exact ⟨count + 1, hcalls.executes hmidway.snapshot?_executed⟩
  | @stops m m' executed stops hpending hm _ ih =>
      intro q hmidway hlimit
      rcases hmidway.stepInto (hlimit 0) hm with ⟨hwaits, -⟩ | ⟨hends, hstep, hnext⟩
      · rw [hpending] at hwaits
        cases hwaits
      · obtain ⟨count, hrest⟩ := ih hnext fun k => hlimit (k + 1)
        have hcalls := hrest.calls
        rw [hpending, Option.isSome_none] at hends
        rw [← hends, if_neg Bool.false_ne_true, ← hstep.place_eq] at hcalls
        exact ⟨count + 1, hcalls.executes hmidway.snapshot?_executed⟩

end Runs

/-! ## What a missed stop stands behind -/

section Missed

variable {program : Module σ} {c : Conduct} {q : Machine (List HostCall)}

/-- A call of the host goes on behind itself. -/
theorem frames_step_of_callHost {m : Machine σ} {frame : Frame} {callers : List Frame}
    {code : FunctionCode} {index : Nat} (hframes : m.frames = frame :: callers)
    (hcode : m.module.function? frame.function = some code)
    (hI : code.instructions[frame.pc]? = some (.callHost index)) :
    m.step.frames = { frame with pc := frame.pc + 1 } :: callers := by
  simp only [step, hframes, hcode, hI, execute]
  split
  · rfl
  · unfold callHost
    dsimp only
    split <;> rfl

/-- The next instruction where a machine is about to call the host. -/
theorem instruction_of_hostCall? {m : Machine σ} {call : HostCall} (h : m.hostCall? = some call) :
    ∃ frame callers code, m.frames = frame :: callers ∧
      m.module.function? frame.function = some code ∧
      code.instructions[frame.pc]? = some (.callHost call.function) := by
  unfold hostCall? at h
  split at h
  · next index hnext =>
      obtain ⟨-, -, rfl⟩ := Option.map_eq_some_iff.mp h
      simp only [instruction?, Option.bind_eq_bind, Option.bind_eq_some_iff, List.head?_eq_some_iff]
        at hnext
      obtain ⟨frame, ⟨callers, hframes⟩, code, hcode, hI⟩ := hnext
      exact ⟨frame, callers, code, hframes, hcode, hI⟩
  · cases h

/-- A call of the host that comes to another place yields nothing. -/
theorem yields_eq_false_of_snapshot?_step {source : String} {host : HostTable σ}
    (hcompile : compile source host = .ok program) {τ : Type} {y : Machine τ}
    (hmodule : y.module.functions = program.functions) {call : HostCall}
    (hcall : y.hostCall? = some call) (hother : y.step.snapshot? ≠ y.snapshot?) :
    program.yields (.host call.function) = false := by
  obtain ⟨p, hcheck, made⟩ := compile_eq_ok.mp hcompile
  obtain ⟨typed, -⟩ := checkSource_typed hcheck
  obtain ⟨frame, callers, code, hframes, hcode, hI⟩ := instruction_of_hostCall? hcall
  have hcode' : program.function? frame.function = some code := by
    rwa [Module.function?, ← hmodule]
  have hI' : code.instructions[frame.pc]? = some (Callee.host call.function).instruction := hI
  obtain ⟨info, hinfo, hnext | ⟨hnothing, -⟩⟩ := lineInfo_behind_call made typed hcode' hI'
  · refine absurd ?_ hother
    simp only [snapshot?, statement?, lineInfo?, frames_step_of_callHost hframes hcode hI,
      y.step_unchanged.1, hframes, List.head?_cons, Option.bind_eq_bind, Option.bind_some, hcode,
      hnext, hinfo]
  · exact hnothing

/-- A call of `stepInto` that ends with a call of the host whose answer is a future has come to
another place with it, so that the function yields nothing. -/
theorem Prompt.yields_of_endsDeferred {source : String} {host : HostTable σ}
    (hcompile : compile source host = .ok program) (h : Prompt program c q)
    (hlimit : q.atLimit = false) (hends : q.endsDeferred c = true) :
    ∃ y call, (q.executed .stepInto).getLast? = some y ∧ y.hostCall? = some call ∧
      (c call.function y.world.env y.world.heap call.arguments).timing ≠ .atOnce ∧
      program.yields (.host call.function) = false := by
  obtain ⟨y, hlast, hdefers⟩ : ∃ y, (q.executed .stepInto).getLast? = some y ∧
      y.defers c = true := by
    cases hlast : (q.executed .stepInto).getLast? with
    | none => simp [endsDeferred, hlast] at hends
    | some y => exact ⟨y, rfl, by simpa [endsDeferred, hlast] using hends⟩
  obtain ⟨hy, hother⟩ := h.last_executed hlimit hlast
  unfold defers at hdefers
  split at hdefers
  · cases hdefers
  · next call hcall =>
      refine ⟨y, call, hlast, hcall, bne_iff_ne.mp hdefers, yields_eq_false_of_snapshot?_step
        hcompile ?_ hcall hother⟩
      rw [hy.runs]
      rfl

/-- Compiled programs begin without breakpoints. -/
theorem unbroken_start {source : String} {host : HostTable σ}
    (hcompile : compile source host = .ok program) {τ : Type} (natives : Nat → Native τ)
    (limit : Nat) (world : World τ) :
    (Machine.start (program.withNatives natives) limit world).Unbroken := by
  obtain ⟨p, -, made⟩ := compile_eq_ok.mp hcompile
  intro function pc
  rw [hasBreakpoint_start, Module.hasBreakpoint]
  cases hcode : (program.withNatives natives).function? function with
  | none => rfl
  | some code =>
      obtain ⟨d, -, hmade⟩ := emitModule_made made hcode
      rw [Option.bind_some, (emitFunction_columns hmade).2, Array.getElem?_replicate]
      split <;> rfl

end Missed

end Machine

open Machine

/-- **Stops do not depend on when answers come, but behind calls that yield nothing.** Let a
compiled program without breakpoints be stepped into on a host with futures, with deliveries at any
time between the calls, and let no call be ended by the limit, neither there nor on the host that
answers at once. The calls that return with no call of the host outstanding stop where those on the
other host do, one after the other, except that no stop is made where a call of the other host ends
with a call of a function that is answered by a future here. Such a function yields nothing. If all
functions that yield nothing answer at once, the stops are the same. What is executed is always
where a call on the other host begins, which is at the start or at one of its stops, and unless an
answer is missing the next call goes on. -/
theorem step_into_stops_alike {source : String} {host : HostTable σ} {program : Module σ}
    (hcompile : compile source host = .ok program) (c : Conduct) (heap : Heap) (limit limit' : Nat)
    {executed : List (Machine CallBook)} {stops : List (Nat × Option Nat)} {x : Machine CallBook}
    (hrun : StepIntoRun (Machine.start (program.withNatives c.deferred) limit ⟨heap, #[], ⟨[], []⟩⟩)
      executed stops x)
    (hlimit : ∀ k,
      (stepInto^[k] (Machine.start (program.withNatives c.prompt) limit' ⟨heap, #[], []⟩)).atLimit =
        false) :
    let first := Machine.start (program.withNatives c.prompt) limit' ⟨heap, #[], []⟩
    ∃ count,
      stops = ((List.iterate stepInto first count).filter fun q => !q.endsDeferred c).map
        (·.stepInto.place) ∧
      (∀ q ∈ List.iterate stepInto first count, q.endsDeferred c = true → ∃ y call,
        (q.executed .stepInto).getLast? = some y ∧ y.hostCall? = some call ∧
          (c call.function y.world.env y.world.heap call.arguments).timing ≠ .atOnce ∧
          program.yields (.host call.function) = false) ∧
      (∀ y ∈ executed, ∃ k ≤ count, y.snapshot? = (stepInto^[k] first).snapshot?) ∧
      x.snapshot? = (stepInto^[count] first).snapshot? ∧
      (x.frames ≠ [] → x.isSuspended = false → x.atLimit = false → x.executed .stepInto ≠ []) ∧
      ((∀ function, program.yields (.host function) = false →
          ∀ calls heap arguments, (c function calls heap arguments).timing = .atOnce) →
        stops = (List.iterate stepInto first count).map (·.stepInto.place)) := by
  intro first
  have hprompt : Prompt program c first := ⟨rfl, rfl, unbroken_start hcompile _ _ _⟩
  obtain ⟨count, hfollows⟩ := hrun.follows
    (Midway.begin hprompt (unbroken_start hcompile _ _ _) (.start program c heap limit limit'))
      hlimit
  have hmissed : ∀ q ∈ List.iterate stepInto first count, q.endsDeferred c = true → ∃ y call,
      (q.executed .stepInto).getLast? = some y ∧ y.hostCall? = some call ∧
        (c call.function y.world.env y.world.heap call.arguments).timing ≠ .atOnce ∧
        program.yields (.host call.function) = false := by
    intro q hq hends
    obtain ⟨k, -, rfl⟩ := List.mem_iterate.mp hq
    exact (hprompt.iterate_stepInto hlimit k).yields_of_endsDeferred hcompile (hlimit k) hends
  refine ⟨count, hfollows.stops_eq, hmissed, hfollows.executed, hfollows.midway.snapshot?_eq,
    fun hframes hsuspended hx => hfollows.midway.unbroken.executed_stepInto_ne_nil hx hframes
      hsuspended,
    fun hatOnce => ?_⟩
  have hall : ((List.iterate stepInto first count).filter fun q => !q.endsDeferred c) =
      List.iterate stepInto first count := by
    rw [List.filter_eq_self]
    intro q hq
    rw [Bool.not_eq_true', ← Bool.not_eq_true]
    intro hends
    obtain ⟨y, call, -, -, htiming, hnothing⟩ := hmissed q hq hends
    exact htiming (hatOnce _ hnothing _ _ _)
  rw [hfollows.stops_eq, promptStops, hall]

/-- The machine of a program whose calls are answered at once. -/
def promptMachine (program : Module Unit) : Machine (List HostCall) :=
  Machine.start (program.withNatives answersLater.prompt) 1000 ⟨.empty, #[], []⟩

/-- A program that asks the host for a value and then waits for it. -/
def askingThenWaitingSource : String := "var a = ask()\nwait()\na = false\n"

/-- The stop behind the call that yields a value is made, the one behind the call that yields
nothing is not. -/
theorem step_into_stops_alike_asking :
    ∃ (program : Module Unit) (executed : List (Machine CallBook)) (x : Machine CallBook),
    compile askingThenWaitingSource (askingHost ++ pausingHost) = .ok program ∧
    let first := promptMachine program
    StepIntoRun (askingMachine program 1000) executed [(1, some 1), (0, none)] x ∧
    (List.iterate stepInto first 3).map (·.stepInto.place) = [(1, some 1), (1, some 2), (0, none)] ∧
    (∀ k, (stepInto^[k] first).atLimit = false) ∧
    ∃ count, [(1, some 1), (0, none)] =
        ((List.iterate stepInto first count).filter fun q => !q.endsDeferred answersLater).map
          (·.stepInto.place) ∧
      ∀ y ∈ executed, ∃ k ≤ count, y.snapshot? = (stepInto^[k] first).snapshot? := by
  have hlater : ((compile askingThenWaitingSource (askingHost ++ pausingHost)).map fun program =>
      let waiting := (askingMachine program 1000).stepInto
      let stopped := (waiting.deliver 0).stepInto
      let waiting' := stopped.stepInto
      let stopped' := (waiting'.deliver 1).stepInto
      ([waiting.pending, stopped.pending, waiting'.pending, stopped'.pending],
        [(waiting.deliver 0).atLimit, (waiting'.deliver 1).atLimit],
        [stopped.place, stopped'.place])) =
      .ok ([some ⟨0, 0⟩, none, some ⟨1, 1⟩, none], [false, false], [(1, some 1), (0, none)]) := by
    decide +kernel
  have hprompt : ((compile askingThenWaitingSource (askingHost ++ pausingHost)).map fun program =>
      ((List.iterate stepInto (promptMachine program) 3).map fun q => (q.atLimit, q.stepInto.place),
        (stepInto^[3] (promptMachine program)).depth)) =
      .ok ([(false, (1, some 1)), (false, (1, some 2)), (false, (0, none))], 0) := by decide +kernel
  obtain ⟨program, hcompile, hlater⟩ := Diagnosed.map_eq_ok.mp hlater
  rw [hcompile, Except.map, Except.ok.injEq] at hprompt
  simp only [Prod.mk.injEq, List.cons.injEq] at hlater
  obtain ⟨⟨hwaits, hgoes, hwaits', hgoes', -⟩, ⟨hinside, hinside', -⟩, hplace, hplace', -⟩ := hlater
  simp only [Prod.mk.injEq, List.iterate, List.map_cons, List.map_nil, List.cons.injEq] at hprompt
  obtain ⟨⟨⟨hfirst, hstop⟩, ⟨hsecond, hstop'⟩, ⟨hthird, hstop''⟩, -⟩, hend⟩ := hprompt
  have hrun := StepIntoRun.waits hwaits
    (.deliver 0
      (.stops hgoes hinside (.waits hwaits' (.deliver 1 (.stops hgoes' hinside' (.done _))))))
  rw [hplace, hplace'] at hrun
  have hlimit := atLimit_of_ends (m := promptMachine program) (List.length_eq_zero_iff.mp hend)
    (by simp [List.iterate, hfirst, hsecond, hthird])
  obtain ⟨count, hstops, -, hexecuted, -, -, -⟩ :=
    step_into_stops_alike hcompile answersLater .empty 1000 1000 hrun hlimit
  exact ⟨program, _, _, hcompile, hrun,
    by simp [List.iterate, hstop, hstop', hstop''], hlimit, count, hstops, hexecuted⟩

/-- A program that waits for the host in a statement in front of two others. -/
def waitingInFrontSource : String := "wait()\nvar b = true\nvar c = true\n"

/-- The call of `stepInto` behind the first statement executes the second, which has been no stop,
and stops at the third. -/
theorem stop_behind_call_missed : ∃ (program : Module Unit) (executed : List (Machine CallBook))
    (x : Machine CallBook),
    compile waitingInFrontSource pausingHost = .ok program ∧
    let first := promptMachine program
    StepIntoRun (askingMachine program 1000) executed [(1, some 2)] x ∧
    (∀ k, (stepInto^[k] first).atLimit = false) ∧
    (∃ y ∈ executed, y.place = (1, some 1)) ∧ first.place = (1, some 0) ∧
    ∀ count, [(1, some 2)] ≠ (List.iterate stepInto first count).map (·.stepInto.place) := by
  have hlater : ((compile waitingInFrontSource pausingHost).map fun program =>
      let waiting := (askingMachine program 1000).stepInto
      let stopped := (waiting.deliver 0).stepInto
      (([waiting.pending, stopped.pending], (waiting.deliver 0).atLimit), stopped.place,
        ((waiting.deliver 0).executed .stepInto).map place)) =
      .ok (([some ⟨0, 0⟩, none], false), (1, some 2), [(1, some 1), (1, some 1)]) := by
    decide +kernel
  have hprompt : ((compile waitingInFrontSource pausingHost).map fun program =>
      ((List.iterate stepInto (promptMachine program) 3).map fun q => (q.atLimit, q.place),
        (stepInto^[3] (promptMachine program)).depth)) =
      .ok ([(false, (1, some 0)), (false, (1, some 1)), (false, (1, some 2))], 0) := by
    decide +kernel
  obtain ⟨program, hcompile, hlater⟩ := Diagnosed.map_eq_ok.mp hlater
  rw [hcompile, Except.map, Except.ok.injEq] at hprompt
  simp only [Prod.mk.injEq, List.cons.injEq] at hlater
  obtain ⟨⟨⟨hwaits, hgoes, -⟩, hinside⟩, hplace, hexecuted⟩ := hlater
  simp only [Prod.mk.injEq, List.iterate, List.map_cons, List.map_nil, List.cons.injEq] at hprompt
  obtain ⟨⟨⟨hfirst, hbegin⟩, ⟨hsecond, hstop⟩, ⟨hthird, -⟩, -⟩, hend⟩ := hprompt
  have hrun := StepIntoRun.waits hwaits (.deliver 0 (.stops hgoes hinside (.done _)))
  rw [hplace] at hrun
  have hlimit := atLimit_of_ends (m := promptMachine program) (List.length_eq_zero_iff.mp hend)
    (by simp [List.iterate, hfirst, hsecond, hthird])
  refine ⟨program, _, _, hcompile, hrun, hlimit, ?_, hbegin, fun count hsame => ?_⟩
  · obtain ⟨y, hy, hat⟩ := List.mem_map.mp (hexecuted ▸ List.mem_cons_self :
      ((1, some 1) : Nat × Option Nat) ∈ _)
    exact ⟨y, List.mem_append_right _ (List.mem_append_left _ hy), hat⟩
  · cases count with
    | zero => cases hsame
    | succ count =>
        rw [List.iterate, List.map_cons, hstop] at hsame
        cases hsame

end Stepwise
