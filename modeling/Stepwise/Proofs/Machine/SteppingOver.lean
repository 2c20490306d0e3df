import Stepwise.Proofs.Machine.LifeCycle

/-!
# When a step over a statement is over

`Machine.stepOver` yields nothing when the step is over, and where it began when it is to be called
again. Nothing is assumed here of the module, of what happened to the machine before, of its
breakpoints, or of the snapshot that is given.

**Over.** If it yields nothing, the program has ended, or the activation where the step began has
ended or is at another statement, or the next instruction has a breakpoint (`Machine.StepDone`).

**Paused.** If it yields something, that is where the step began, and a call of the host is
outstanding or as many instructions were executed as a step executes at most.

**Coincidence.** A breakpoint is looked for before the outstanding call. So a step may be over with
a call outstanding, but only if the instruction executed last made the call and the one behind it
has a breakpoint. What the caller is told then is that there is nothing to go on with
(`step_over_before_answer`).
-/

set_option autoImplicit false

namespace Stepwise

variable {σ : Type}

namespace Machine

variable {m m' : Machine σ} {arrived : Snapshot → Bool} {budget : Nat}

/-! ## What an instruction leaves outstanding -/

/-- An instruction that leaves a call outstanding is that call. -/
theorem instruction?_of_step_pending (hpending : m.pending = none) {call : PendingCall}
    (h : m.step.pending = some call) : m.instruction? = some (.callHost call.function) := by
  have hnot {x : Machine σ} (hx : x.pending = m.pending) : x.pending ≠ some call := by
    rw [hx, hpending]
    simp
  cases hframes : m.frames with
  | nil =>
      rw [m.step_of_frames_nil hframes] at h
      exact absurd h (hnot rfl)
  | cons frame callers =>
      simp only [step, hframes] at h
      cases hcode : m.module.function? frame.function with
      | none =>
          rw [hcode] at h
          exact absurd h (hnot rfl)
      | some code =>
          cases hI : code.instructions[frame.pc]? with
          | none =>
              simp only [hcode, hI] at h
              exact absurd h (hnot (m.leave_env code).1)
          | some I =>
              simp only [hcode, hI] at h
              have hnext : m.instruction? = some I := by simp [instruction?, hframes, hcode, hI]
              cases I with
              | callHost index =>
                  unfold execute at h
                  dsimp only at h
                  split at h
                  · exact absurd h (hnot rfl)
                  · unfold callHost at h
                    dsimp only at h
                    split at h
                    · exact absurd h (hnot rfl)
                    · cases h
                      exact hnext
              | _ => exact absurd h (hnot (m.execute_env code _ callers (by simp)).1)

/-! ## How the instructions of a step end -/

theorem frames_ne_nil_of_atBreakpoint (h : m.atBreakpoint = true) : m.frames ≠ [] := by
  intro hnil
  rw [atBreakpoint, hnil] at h
  cases h

/-- Instructions that pause do so at an outstanding call, or because there were as many as there may
be. Instructions that are finished have arrived, or have ended the program, with no call
outstanding, or the last of them came to a breakpoint. -/
theorem StepsUntil.stops {budget : Nat} {xs : List (Machine σ)} {outcome : StepOutcome}
    (h : StepsUntil arrived budget m xs outcome m') :
    match outcome with
    | .paused => m'.pending ≠ none ∨ xs.length = budget
    | .finished =>
      (m'.pending = none ∧ ∀ current, m'.snapshot? = some current → arrived current = true) ∨
        (m'.atBreakpoint = true ∧ ∃ x, xs.getLast? = some x ∧ x.pending = none ∧ m' = x.step) := by
  induction h with
  | waiting hpending => exact .inl hpending
  | there hpending harrived => exact .inl ⟨hpending, harrived⟩
  | exhausted => exact .inr rfl
  | broken hpending _ _ hat => exact .inr ⟨hat, _, rfl, hpending, rfl⟩
  | step _ _ _ _ _ ih =>
      split at ih
      · exact ih.imp_right fun hlength => congrArg Nat.succ hlength
      · refine ih.imp_right ?_
        rintro ⟨hat, x, hlast, hidle, hlanded⟩
        exact ⟨hat, x, by rw [List.getLast?_cons, hlast, Option.getD_some], hidle, hlanded⟩

/-! ## Steps -/

/-- Where a step over a statement begins: where it is said to have begun, or at the present
statement. There is no such place if there is no activation. -/
def stepStart? (m : Machine σ) (last : Option Snapshot) : Option Snapshot :=
  m.snapshot?.map fun present => last.getD present

/-- Why a step over a statement that began at a place is over. -/
inductive StepDone (start? : Option Snapshot) (m : Machine σ) : Prop
  /-- The program has ended. -/
  | completed : m.frames = [] → m.phase = .completed → StepDone start? m
  /-- The uppermost activation is below the one where the step began. -/
  | returned {start current : Snapshot} : start? = some start → m.snapshot? = some current →
      current.frame < start.frame → StepDone start? m
  /-- The activation where the step began is at another statement. -/
  | movedOn {start current : Snapshot} : start? = some start → m.snapshot? = some current →
      current.frame = start.frame → current.statement ≠ start.statement → StepDone start? m
  /-- The next instruction has a breakpoint. -/
  | broken : m.atBreakpoint = true → StepDone start? m

/-- The machine has ended its step or is where the step is passed by. -/
theorem stepDone_of_passedBy {start? : Option Snapshot} {start : Snapshot}
    (hstart : start? = some start) (hended : m.frames = [] → m.phase = .completed)
    (h : ∀ current, m.snapshot? = some current → Snapshot.passedBy start current = true) :
    m.StepDone start? := by
  cases hsnapshot : m.snapshot? with
  | none =>
      have hframes := snapshot?_eq_none.mp hsnapshot
      exact .completed hframes (hended hframes)
  | some current =>
      have hpassed := h current hsnapshot
      simp only [Snapshot.passedBy, Bool.or_eq_true, Bool.and_eq_true, decide_eq_true_eq,
        beq_iff_eq, bne_iff_ne] at hpassed
      rcases hpassed with hbelow | ⟨hsame, hother⟩
      · exact .returned hstart hsnapshot hbelow
      · exact .movedOn hstart hsnapshot hsame hother

theorem settle_of_frames_ne_nil (h : m.frames ≠ []) : m.settle = m := by
  rw [settle, if_neg (by simpa using h)]

theorem snapshot?_settle (m : Machine σ) : m.settle.snapshot? = m.snapshot? := by
  unfold settle
  split <;> rfl

/-- **A step that yields nothing is over**, and a call is outstanding then only if the instruction
executed last made it and the one behind it has a breakpoint. -/
theorem stepOver_none {last : Option Snapshot} (h : m.stepOver last = (none, m')) :
    m'.StepDone (m.stepStart? last) ∧
      (m.pending = none ∨ m.frames ≠ [] → ∀ call, m'.pending = some call →
        m'.atBreakpoint = true ∧ ∃ x, (m.executed (.stepOver last)).getLast? = some x ∧
          x.instruction? = some (.callHost call.function) ∧ m' = x.step) := by
  unfold stepOver at h
  cases hpresent : m.snapshot? with
  | none =>
      have hframes := snapshot?_eq_none.mp hpresent
      rw [hpresent] at h
      cases h
      have hempty : m.settle.frames = [] := by rw [settle]; split <;> exact hframes
      refine ⟨.completed hempty (phase_settle m hempty), ?_⟩
      rintro (hnone | hsome) call hcall
      · rw [pending_settle, hnone] at hcall
        cases hcall
      · exact absurd hframes hsome
  | some present =>
      have hstart : m.stepStart? last = some (last.getD present) := by
        rw [stepStart?, hpresent, Option.map_some]
      simp only [hpresent] at h
      split at h
      · cases h
      · next hgoing =>
          split at h
          · cases h
          · next landed hsteps =>
              cases h
              have hexecuted : m.executed (.stepOver last) =
                  untilSteps (Snapshot.passedBy (last.getD present)) m.stepLimit m.resume := by
                simp [executed, hpresent, hgoing]
              rcases (stepsUntil_of_eq hsteps).stops with ⟨hnone, harrived⟩ |
                ⟨hat, x, hlast, hidle, hlanded⟩
              · refine ⟨stepDone_of_passedBy hstart (phase_settle landed) ?_, ?_⟩
                · rwa [snapshot?_settle]
                · intro _ call hcall
                  rw [pending_settle, hnone] at hcall
                  cases hcall
              · rw [settle_of_frames_ne_nil (frames_ne_nil_of_atBreakpoint hat)]
                refine ⟨.broken hat, fun _ call hcall => ⟨hat, x, hexecuted ▸ hlast, ?_, hlanded⟩⟩
                rw [hlanded] at hcall
                exact instruction?_of_step_pending hidle hcall

/-- **A step that is to be continued** yields where it began, and has come to an outstanding call or
has executed as many instructions as it may. -/
theorem stepOver_some {last : Option Snapshot} {start : Snapshot}
    (h : m.stepOver last = (some start, m')) :
    m.stepStart? last = some start ∧
      (m'.pending ≠ none ∨ (m.executed (.stepOver last)).length = m.stepLimit) := by
  unfold stepOver at h
  cases hpresent : m.snapshot? with
  | none =>
      rw [hpresent] at h
      cases h
  | some present =>
      simp only [hpresent] at h
      rw [stepStart?, hpresent, Option.map_some]
      split at h
      · next hwaiting =>
          cases h
          refine ⟨rfl, .inl fun hnone => ?_⟩
          rw [isSuspended, hnone] at hwaiting
          cases hwaiting
      · next hgoing =>
          split at h
          · next hsteps =>
              cases h
              refine ⟨rfl, ?_⟩
              simpa [executed, hpresent, hgoing] using (stepsUntil_of_eq hsteps).stops
          · cases h

end Machine

/-- **How steps over statements end.** Let anything happen to a machine on any module, with any
breakpoints, and then let it step over a statement, from any place. If that yields nothing, the
program has ended, or the activation where the step began has ended or is at another statement, or
the next instruction has a breakpoint; a call is outstanding then only if the step came to the
breakpoint directly from the instruction that made the call. If it yields something, that is where
the step began, and a call is outstanding or as many instructions were executed as may be. -/
theorem step_over_ends (module : Module σ) (limit : Nat) (world : World σ) (events : List Event)
    (last : Option Snapshot) :
    let m := (Machine.start module limit world).handleAll events
    (∀ ended, m.stepOver last = (none, ended) → ended.StepDone (m.stepStart? last) ∧
      ∀ call, ended.pending = some call → ended.atBreakpoint = true ∧
        ∃ x, (m.executed (.stepOver last)).getLast? = some x ∧
          x.instruction? = some (.callHost call.function) ∧ ended = x.step) ∧
    (∀ start paused, m.stepOver last = (some start, paused) → m.stepStart? last = some start ∧
      (paused.pending ≠ none ∨ (m.executed (.stepOver last)).length = m.stepLimit)) := by
  intro m
  have horderly : m.Orderly module :=
    ((Machine.Orderly.start module limit world).handleAll events).1
  refine ⟨fun ended h => ?_, fun start paused h => Machine.stepOver_some h⟩
  obtain ⟨hdone, hcall⟩ := Machine.stepOver_none h
  refine ⟨hdone, hcall ?_⟩
  by_cases hnone : m.pending = none
  · exact .inl hnone
  · exact .inr (horderly.active hnone)

/-- A breakpoint directly behind a call of the host: the step is said to be over while the call is
outstanding. -/
theorem step_over_before_answer :
    ∃ m : Machine Unit, brokenAtSecondLine "wait()\nvar b = true\n" = .ok m ∧
    (m.stepOver none).1 = none ∧ (m.stepOver none).2.isSuspended = true := by
  have heval : ((brokenAtSecondLine "wait()\nvar b = true\n").map fun m =>
      ((m.stepOver none).1, (m.stepOver none).2.isSuspended)) = .ok (none, true) := by
    decide +kernel
  obtain ⟨m, hm, heval⟩ := Diagnosed.map_eq_ok.mp heval
  simp only [Prod.mk.injEq] at heval
  exact ⟨m, hm, heval⟩

end Stepwise
