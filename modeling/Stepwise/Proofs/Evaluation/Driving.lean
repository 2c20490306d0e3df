import Stepwise.Proofs.Evaluation.Pace

/-!
# A machine that is driven on and on

Whatever actions drive a machine, it is where it would be after as many instructions, but for its
breakpoints and for having noted the end of the program (`InPlace`); natives that answer at once
keep it from ever waiting. An action that runs the machine executes an instruction as long as there
is one, so a machine that is run time and again completes exactly if its instructions come to the
end of the program (`InPlace.completes_iff`).
-/

set_option autoImplicit false

namespace Stepwise

variable {σ : Type}

/-- A native that answers every call at once. -/
def Native.Prompt (native : Native σ) : Prop :=
  ∀ (arguments : List Value) (w : World σ), ∃ v w', native arguments w = (.ready v, w')

theorem Native.prompt_constructor : (Native.constructor : Native σ).Prompt := fun arguments w =>
  ⟨(w.allocate arguments).1, (w.allocate arguments).2, rfl⟩

namespace Machine

/-- A machine has come to the end of its program with the given effects. -/
def EndsWith (x : Machine σ × List HostCall) (out : Effects σ) : Prop :=
  x.1.frames = [] ∧ x.1.world = out.world ∧ x.2 = out.calls

theorem EndsWith.unique {x : Machine σ × List HostCall} {first second : Effects σ}
    (h : EndsWith x first) (h' : EndsWith x second) : first = second := by
  obtain ⟨world, calls⟩ := first
  obtain ⟨-, rfl, rfl⟩ := h
  obtain ⟨world, calls⟩ := second
  obtain ⟨-, rfl, rfl⟩ := h'
  rfl

/-! ## From instructions to actions -/

/-- A machine with other breakpoints, which may have noted the end of the program. -/
def aside (m : Machine σ) (phase : Phase) (table : BreakpointTable) : Machine σ :=
  { m with phase, breakpoints := table }

theorem leave_aside (m : Machine σ) (phase : Phase) (table : BreakpointTable)
    (code : FunctionCode) :
    (m.aside phase table).leave code = (m.leave code).aside phase table := by
  obtain ⟨module, limit, phase', frames, stack, pending, table', world⟩ := m
  cases frames with
  | nil => rfl
  | cons frame callers => rfl

theorem callHost_aside (m : Machine σ) (phase : Phase) (table : BreakpointTable) (index : Nat)
    (f : HostFunction σ) :
    (m.aside phase table).callHost index f = (m.callHost index f).aside phase table := by
  have hsame :
      f.native ((m.aside phase table).arguments f.params.length) (m.aside phase table).world =
      f.native (m.arguments f.params.length) m.world := rfl
  unfold callHost
  rw [hsame]
  dsimp only
  split <;> rfl

theorem execute_aside (m : Machine σ) (phase : Phase) (table : BreakpointTable)
    (code : FunctionCode) (frame : Frame) (callers : List Frame) (I : Instruction) :
    (m.aside phase table).execute code frame callers I =
      (m.execute code frame callers I).aside phase table := by
  cases I with
  | call index =>
      have hsame : (m.aside phase table).module = m.module := rfl
      unfold execute
      rw [hsame]
      dsimp only
      split <;> rfl
  | callHost index =>
      have hsame : (m.aside phase table).module = m.module := rfl
      unfold execute
      rw [hsame]
      dsimp only
      split
      · rfl
      · exact callHost_aside { m with frames := frame :: callers } phase table index _
  | ret => exact leave_aside { m with frames := frame :: callers } phase table code
  | _ => rfl

/-- Breakpoints and whether the end has been noted make no difference to an instruction. -/
theorem step_aside (m : Machine σ) (phase : Phase) (table : BreakpointTable) :
    (m.aside phase table).step = m.step.aside phase table := by
  have hframes : (m.aside phase table).frames = m.frames := rfl
  have hmodule : (m.aside phase table).module = m.module := rfl
  unfold step
  rw [hframes, hmodule]
  split
  · rfl
  · split
    · rfl
    · split
      · exact m.leave_aside phase table _
      · exact m.execute_aside phase table _ _ _ _

/-- An instruction leaves the module alone, and a host that answers at once leaves no call
outstanding. -/
theorem step_of_prompt (m : Machine σ) (hprompt : ∀ f ∈ m.module.hostFunctions, f.native.Prompt) :
    m.step.module = m.module ∧ m.step.pending = m.pending := by
  have hleave (x : Machine σ) (code : FunctionCode) : (x.leave code).module = x.module ∧
      (x.leave code).pending = x.pending := by
    unfold leave
    split <;> exact ⟨rfl, rfl⟩
  unfold step
  split
  · exact ⟨rfl, rfl⟩
  · next frame callers _ =>
      split
      · exact ⟨rfl, rfl⟩
      · next code _ =>
          split
          · exact hleave m code
          · next I _ =>
              cases I with
              | call index =>
                  unfold execute
                  dsimp only
                  split <;> exact ⟨rfl, rfl⟩
              | callHost index =>
                  unfold execute
                  dsimp only
                  split
                  · exact ⟨rfl, rfl⟩
                  · next f hf =>
                      obtain ⟨v, world, hnative⟩ := hprompt f (List.mem_of_getElem? hf)
                        (arguments { m with frames := { frame with pc := frame.pc + 1 } :: callers }
                          f.params.length)
                        m.world
                      unfold callHost
                      dsimp only
                      rw [hnative]
                      exact ⟨rfl, rfl⟩
              | ret =>
                exact hleave { m with frames := { frame with pc := frame.pc + 1 } :: callers } code
              | _ => exact ⟨rfl, rfl⟩

/-- The machine `m` is where `start` is after the instructions of `xs`, but for its breakpoints and
for having noted the end, and has made the calls that `start` makes with these. -/
structure InPlace (start : Machine σ) (xs : List (Machine σ)) (m : Machine σ) : Prop where
  place : m = (traced^[xs.length] (start, [])).1.aside m.phase m.breakpoints
  calls : xs.filterMap hostCall? = (traced^[xs.length] (start, [])).2
  module : m.module = start.module
  pending : m.pending = none
  ended : m.phase = .completed → m.frames = []

namespace InPlace

variable {start : Machine σ}

/-- Being in place survives every action. -/
theorem invariant (hprompt : ∀ f ∈ start.module.hostFunctions, f.native.Prompt) :
    Invariant (InPlace start) where
  step := by
    intro xs m h hpending hframes
    obtain ⟨hmodule, hstill⟩ := m.step_of_prompt (h.module ▸ hprompt)
    have hstep : m.step = (traced^[xs.length] (start, [])).1.step.aside m.phase m.breakpoints :=
      (congrArg Machine.step h.place).trans (step_aside _ _ _)
    have hcall : m.hostCall? = (traced^[xs.length] (start, [])).1.hostCall? :=
      (congrArg hostCall? h.place).trans rfl
    refine ⟨?_, ?_, hmodule.trans h.module, hstill.trans hpending, ?_⟩
    · rw [List.length_append, List.length_singleton, Function.iterate_succ_apply', hstep]
      rfl
    · rw [List.length_append, List.length_singleton, Function.iterate_succ_apply',
        List.filterMap_append, h.calls, traced, ← hcall]
      cases hmade : m.hostCall? <;> simp [hmade]
    · intro hphase
      rw [hstep] at hphase
      exact absurd (h.ended hphase) hframes
  resume := by
    intro xs m call h _ hcall
    rw [h.pending] at hcall
    cases hcall
  settle := by
    intro xs m h hframes
    refine ⟨?_, h.calls, h.module, h.pending, fun _ => hframes⟩
    rw [h.place]
    rfl
  breakpoints := by
    intro xs m table h
    refine ⟨?_, h.calls, h.module, h.pending, h.ended⟩
    rw [h.place]
    rfl

end InPlace

/-! ## Driving without end -/

/-- The machine after as many of the actions. -/
def driven (m : Machine σ) (actions : Nat → Action) : Nat → Machine σ
  | 0 => m
  | n + 1 => (m.driven actions n).perform (actions n)

/-- The machines of which these actions execute an instruction, in order. -/
def drivenSteps (m : Machine σ) (actions : Nat → Action) : Nat → List (Machine σ)
  | 0 => []
  | n + 1 => m.drivenSteps actions n ++ (m.driven actions n).executed (actions n)

/-- Actions that run the machine time and again. -/
def RunOnAndOn (actions : Nat → Action) : Prop :=
  ∀ n, ∃ i ≥ n, ∃ budget, actions i = .run (budget + 1)

namespace InPlace

variable {start : Machine σ} {actions : Nat → Action}

theorem driven (hprompt : ∀ f ∈ start.module.hostFunctions, f.native.Prompt)
    (hstart : InPlace start [] start) (actions : Nat → Action) (n : Nat) :
    InPlace start (start.drivenSteps actions n) (start.driven actions n) := by
  induction n with
  | zero => exact hstart
  | succ n ih => exact (invariant hprompt).perform ih (actions n)

/-- Running a machine executes an instruction if there is one. -/
theorem executed_run {xs : List (Machine σ)} {m : Machine σ} (h : InPlace start xs m)
    (hframes : m.frames ≠ []) (budget : Nat) : 0 < (m.executed (.run (budget + 1))).length := by
  have hsuspended : m.isSuspended = false := by simp [isSuspended, h.pending]
  simp [executed, hframes, hsuspended, resume_of_pending_none h.pending, advanceSteps, h.pending]

theorem steps_mono (m : Machine σ) (actions : Nat → Action) {i j : Nat} (hle : i ≤ j) :
    (m.drivenSteps actions i).length ≤ (m.drivenSteps actions j).length := by
  induction hle with
  | refl => exact Nat.le_refl _
  | step _ ih =>
      rw [drivenSteps, List.length_append]
      omega

/-- Actions that run the machine time and again execute any number of instructions, or bring it to
its end. -/
theorem progress (hprompt : ∀ f ∈ start.module.hostFunctions, f.native.Prompt)
    (hstart : InPlace start [] start) (hagain : RunOnAndOn actions) (k : Nat) :
    ∃ n, (start.driven actions n).frames = [] ∨ k ≤ (start.drivenSteps actions n).length := by
  induction k with
  | zero => exact ⟨0, .inr (Nat.zero_le _)⟩
  | succ k ih =>
      obtain ⟨n, hended | hmany⟩ := ih
      · exact ⟨n, .inl hended⟩
      · obtain ⟨i, hi, budget, haction⟩ := hagain n
        by_cases hframes : (start.driven actions i).frames = []
        · exact ⟨i, .inl hframes⟩
        · have hmore := (InPlace.driven hprompt hstart actions i).executed_run hframes budget
          have hlonger := steps_mono start actions hi
          refine ⟨i + 1, .inr ?_⟩
          rw [drivenSteps, List.length_append, haction]
          omega

/-- A machine without activations has come to the end of its program. -/
theorem endsWith {xs : List (Machine σ)} {m : Machine σ} (h : InPlace start xs m)
    (hframes : m.frames = []) :
    EndsWith (traced^[xs.length] (start, [])) ⟨m.world, xs.filterMap hostCall?⟩ :=
  ⟨(congrArg Machine.frames h.place).symm.trans hframes, (congrArg Machine.world h.place).symm,
    h.calls.symm⟩

/-- At the end of its program a machine stays there. -/
theorem ended_mono (hprompt : ∀ f ∈ start.module.hostFunctions, f.native.Prompt)
    (hstart : InPlace start [] start) {i j : Nat} (hle : i ≤ j)
    (hended : (start.driven actions i).frames = []) :
    (start.driven actions j).frames = [] := by
  have hi := (InPlace.driven hprompt hstart actions i).endsWith hended
  have hj := InPlace.driven hprompt hstart actions j
  obtain ⟨d, hd⟩ := Nat.exists_eq_add_of_le' (steps_mono start actions hle)
  have hsame := hj.place
  rw [hd, Function.iterate_add_apply, Function.iterate_fixed (traced_of_frames_nil hi.1)] at hsame
  exact (congrArg Machine.frames hsame).trans hi.1

/-- **A machine that is driven on and on completes exactly if the instructions come to the end of
the program**, and with the same effects. -/
theorem completes_iff (hprompt : ∀ f ∈ start.module.hostFunctions, f.native.Prompt)
    (hstart : InPlace start [] start) (hagain : RunOnAndOn actions) (out : Effects σ) :
    (∃ k, EndsWith (traced^[k] (start, [])) out) ↔
      ∃ n, (start.driven actions n).phase = .completed ∧
      (start.driven actions n).world = out.world ∧
      (start.drivenSteps actions n).filterMap hostCall? = out.calls := by
  have hplace (n : Nat) := InPlace.driven hprompt hstart actions n
  constructor
  · rintro ⟨k, hends⟩
    have hended : ∃ n, (start.driven actions n).frames = [] := by
      obtain ⟨n, hended | hmany⟩ := progress hprompt hstart hagain k
      · exact ⟨n, hended⟩
      · obtain ⟨d, hd⟩ := Nat.exists_eq_add_of_le' hmany
        have hsame := (hplace n).place
        rw [hd, Function.iterate_add_apply, Function.iterate_fixed (traced_of_frames_nil hends.1)]
          at hsame
        exact ⟨n, (congrArg Machine.frames hsame).trans hends.1⟩
    obtain ⟨n, hended⟩ := hended
    -- The next action that runs the machine notes the end.
    obtain ⟨i, hi, budget, haction⟩ := hagain n
    have hbefore := ended_mono hprompt hstart hi hended
    have hafter := ended_mono hprompt hstart (Nat.le_succ i) hbefore
    have hcompleted : (start.driven actions (i + 1)).phase = .completed := by
      rw [Machine.driven, haction]
      simpa [Machine.perform, run, hbefore] using settle_of_frames_nil _ hbefore
    have hends' := (hplace (i + 1)).endsWith hafter
    rw [iterate_eq_of_fixed (traced_of_frames_nil hends'.1) (traced_of_frames_nil hends.1)]
      at hends'
    rw [hends.unique hends']
    exact ⟨i + 1, hcompleted, rfl, rfl⟩
  · rintro ⟨n, hcompleted, hworld, hcalls⟩
    have hends := (hplace n).endsWith ((hplace n).ended hcompleted)
    rw [hworld, hcalls] at hends
    exact ⟨_, hends⟩

end InPlace

end Machine

end Stepwise
