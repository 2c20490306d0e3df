import Mathlib.Data.List.Destutter
import Stepwise.Proofs.Machine.Moves
import Stepwise.Proofs.Machine.Stepping
import Stepwise.Proofs.Typing.Programs

/-!
# Stepping over a whole program

A program that is stepped over from its beginning shows one statement before each step. These are
the statements that the first activation shows while it is the only one, instruction after
instruction, with repetitions merged (`StepOverRun.observed_eq`): a step passes over the
instructions of its statement and of the calls in it, and ends at the next statement of the first
activation.
-/

set_option autoImplicit false

namespace Stepwise

variable {σ : Type}

/-! ## Repetitions -/

/-- Equal entries in a row merge into one. -/
theorem destutter_block {α : Type} [DecidableEq α] {a : α} {block rest : List α}
    (hblock : ∀ b ∈ block, b = a) (hrest : ∀ b ∈ rest.head?, b ≠ a) :
    (a :: block ++ rest).destutter (· ≠ ·) = a :: rest.destutter (· ≠ ·) := by
  rw [List.cons_append, List.destutter_cons']
  induction block with
  | nil =>
      cases rest with
      | nil => rfl
      | cons b rest => exact List.destutter'_cons_pos rest (hrest b rfl).symm
  | cons b block ih =>
      obtain rfl := hblock b List.mem_cons_self
      rw [List.cons_append, List.destutter'_cons_neg _ (by simp)]
      exact ih fun b hb => hblock b (List.mem_cons_of_mem _ hb)

namespace Machine

variable {program : Module σ} {c : Conduct} {m x y : Machine CallBook}

/-! ## What is observed -/

/-- The statements shown before each of so many instructions where there is a single activation, on
a machine that executes one instruction after the other. -/
def singleStatements (m : Machine CallBook) (count : Nat) : List (Option Nat) :=
  (((List.range count).map fun k => oneByOne^[k] m).filter fun x => x.depth == 1).map statement?

/-- Steps over one statement after the other until the program has completed, with the statements
shown before each step. -/
inductive StepOverRun : Machine CallBook → List (Option Nat) → Machine CallBook → Prop
  | completed {m : Machine CallBook} : m.phase = .completed → StepOverRun m [] m
  | step {m m' m'' : Machine CallBook} {yielded : List Snapshot} {observed : List (Option Nat)} :
      m.phase = .running → StepOverSession m none yielded m' → StepOverRun m' observed m'' →
      StepOverRun m (m.statement? :: observed) m''

/-- What is shown in a row is shown by the parts of the row. -/
theorem singleStatements_add (m : Machine CallBook) (k count : Nat) :
    m.singleStatements (k + count) = m.singleStatements k ++
      (oneByOne^[k] m).singleStatements count := by
  have hlater : (List.range count).map (fun i => oneByOne^[k + i] m) =
      (List.range count).map fun i => oneByOne^[i] (oneByOne^[k] m) := by
    refine List.map_congr_left fun i _ => ?_
    rw [Nat.add_comm k i, Function.iterate_add_apply]
  simp only [singleStatements, List.range_add, List.map_append, List.map_map, List.filter_append,
    Function.comp_def, hlater]

theorem singleStatements_succ (m : Machine CallBook) (count : Nat) :
    m.singleStatements (count + 1) =
      (if m.depth = 1 then [m.statement?] else []) ++ m.oneByOne.singleStatements count := by
  rw [Nat.add_comm, singleStatements_add]
  congr 1
  by_cases h : m.depth = 1 <;> simp [singleStatements, h]

theorem mem_singleStatements {count : Nat} {shown : Option Nat}
    (h : shown ∈ m.singleStatements count) :
    ∃ k < count, (oneByOne^[k] m).depth = 1 ∧ (oneByOne^[k] m).statement? = shown := by
  simp only [singleStatements, List.mem_map, List.mem_filter, List.mem_range, beq_iff_eq] at h
  obtain ⟨_, ⟨⟨k, hk, rfl⟩, hdepth⟩, hshown⟩ := h
  exact ⟨k, hk, hdepth, hshown⟩

/-! ## Machines without breakpoints -/

theorem breakpoints_advance (budget : Nat) :
    ∀ m : Machine σ, (advance budget m).breakpoints = m.breakpoints := by
  induction budget with
  | zero => exact fun _ => rfl
  | succ budget ih =>
      intro m
      unfold advance
      split
      · rfl
      · dsimp only
        split
        · exact m.breakpoints_step
        · exact (ih _).trans m.breakpoints_step

theorem breakpoints_settle (m : Machine σ) : m.settle.breakpoints = m.breakpoints := by
  unfold settle
  split <;> rfl

theorem pending_settle (m : Machine σ) : m.settle.pending = m.pending := by
  unfold settle
  split <;> rfl

/-- Running leaves the breakpoints alone. -/
theorem breakpoints_run (m : Machine σ) (budget : Nat) :
    (m.run budget).breakpoints = m.breakpoints := by
  unfold run
  split
  · exact m.breakpoints_settle
  · split
    · rfl
    · rw [breakpoints_settle, breakpoints_advance, breakpoints_resume]

/-- A table of empty cells has no breakpoints. -/
theorem hasBreakpoint_of_cells {m : Machine σ}
    (h : ∀ row ∈ m.breakpoints, ∀ cell ∈ row, cell = none) (function pc : Nat) :
    m.hasBreakpoint function pc = false := by
  unfold hasBreakpoint breakpoint?
  cases hrow : m.breakpoints[function]? with
  | none => rfl
  | some row =>
      cases hcell : row[pc]? with
      | none => simp [hcell]
      | some cell =>
        simp [hcell, h row (Array.mem_of_getElem? hrow) cell (Array.mem_of_getElem? hcell)]

/-- Where there are no breakpoints, none is next. -/
theorem atBreakpoint_eq_false {m : Machine σ}
    (h : ∀ function pc, m.hasBreakpoint function pc = false) :
    m.atBreakpoint = false := by
  unfold atBreakpoint
  split
  · rfl
  · exact h _ _

/-- A machine on a module has no breakpoints and is at instructions. -/
structure Clear (module : Module CallBook) (m : Machine CallBook) : Prop where
  runs : m.module = module
  table : ∀ function pc, m.hasBreakpoint function pc = false
  located : ∀ frame ∈ m.frames, module.Locates frame

namespace Clear

variable {module : Module CallBook}

theorem run (closed : module.Closed) (h : m.Clear module) (budget : Nat) :
    (m.run budget).Clear module := by
  obtain ⟨hmodule, hlocated⟩ :=
    @Invariant.perform _ _ [] m (locates_invariant closed) ⟨h.runs, h.located⟩ (.run budget)
  refine ⟨hmodule, fun function pc => ?_, hlocated⟩
  rw [hasBreakpoint, breakpoint?, breakpoints_run]
  exact h.table function pc

theorem oneByOne (closed : module.Closed) (h : m.Clear module) : m.oneByOne.Clear module := by
  unfold Machine.oneByOne
  split
  · exact h.run closed 1
  · next call _ =>
      obtain ⟨futures, hdeliver⟩ := m.deliver_eq call.future
      have hdelivered : (m.deliver call.future).Clear module := by
        rw [hdeliver]
        exact ⟨h.runs, h.table, h.located⟩
      exact hdelivered.run closed 1

theorem iterate (closed : module.Closed) (h : m.Clear module) (k : Nat) :
    (Machine.oneByOne^[k] m).Clear module := by
  induction k with
  | zero => exact h
  | succ k ih =>
      rw [Function.iterate_succ_apply']
      exact ih.oneByOne closed

theorem not_atBreakpoint (h : m.Clear module) : m.atBreakpoint = false :=
  atBreakpoint_eq_false h.table

/-- A machine with an activation shows a statement. -/
theorem exists_statement (closed : module.Closed) (h : m.Clear module) (hframes : m.frames ≠ []) :
    ∃ s, m.statement? = some s := by
  obtain ⟨rfl, -, hlocated⟩ := h
  exact Option.isSome_iff_exists.mp (isSome_statement? closed hlocated hframes)

end Clear

/-! ## Where steps over statements end -/

/-- Where a single activation is at a statement, a step that began there is over once it has ended
or has come to another statement with none above it. -/
theorem passed_iff {s : Nat} {m : Machine σ} :
    m.passed ⟨0, s⟩ = true ↔ m.frames = [] ∨ m.depth = 1 ∧ m.statement?.getD noStatement ≠ s := by
  unfold passed snapshot? depth
  cases m.frames with
  | nil => simp
  | cons frame callers => simp [Snapshot.passedBy]

/-- A step from a single activation that arrives has shown one statement all along, and ends without
activations or at another statement of the only one. -/
theorem Arrived.block {module : Module CallBook} (closed : module.Closed) (hclear : y.Clear module)
    {s k : Nat} (hdepth : y.depth = 1) (hstatement : y.statement? = some s)
    (h : Arrived program c ⟨0, s⟩ y k x) :
    (∃ block, y.singleStatements k = some s :: block ∧ ∀ b ∈ block, b = some s) ∧
      (∀ i < k, (oneByOne^[i] y).frames ≠ []) ∧
      ((oneByOne^[k] y).frames = [] ∨
        (oneByOne^[k] y).depth = 1 ∧ (oneByOne^[k] y).statement? ≠ some s) := by
  have hgoing {i : Nat} (hi : i < k) : (oneByOne^[i] y).frames ≠ [] ∧
      ((oneByOne^[i] y).depth = 1 → (oneByOne^[i] y).statement? = some s) := by
    have hnot : ¬ ((oneByOne^[i] y).passed ⟨0, s⟩ = true) :=
      fun hpassed => h.going i hi (.inr hpassed)
    rw [passed_iff, not_or, not_and_not_right] at hnot
    obtain ⟨t, ht⟩ := (hclear.iterate closed i).exists_statement closed hnot.1
    refine ⟨hnot.1, fun hone => ?_⟩
    rw [ht, ← hnot.2 hone, ht, Option.getD_some]
  have hpassed : (oneByOne^[k] y).passed ⟨0, s⟩ = true := by
    rcases h.halts with ⟨-, hat⟩ | hpassed
    · rw [(hclear.iterate closed k).not_atBreakpoint] at hat
      cases hat
    · exact hpassed
  rw [passed_iff] at hpassed
  have hframes : y.frames ≠ [] := fun hnil => by simp [depth, hnil] at hdepth
  refine ⟨?_, fun i hi => (hgoing hi).1, hpassed.imp_right fun ⟨hone, hother⟩ =>
    ⟨hone, fun hsame => ?_⟩⟩
  · cases k with
    | zero =>
        -- The step has not passed by where it began.
        rcases hpassed with hnil | ⟨-, hother⟩
        · exact absurd hnil hframes
        · exact absurd (by rw [Function.iterate_zero_apply, hstatement, Option.getD_some]) hother
    | succ k =>
        refine ⟨y.oneByOne.singleStatements k,
          by simp [singleStatements_succ, hdepth, hstatement], ?_⟩
        intro b hb
        obtain ⟨i, hi, hone, rfl⟩ := mem_singleStatements hb
        rw [← Function.iterate_succ_apply] at hone ⊢
        exact (hgoing (Nat.succ_lt_succ hi)).2 hone
  · exact hother (by rw [hsame, Option.getD_some])

/-- **Stepping over a program shows what its first activation shows alone**, with repetitions
merged, up to the end of the program. -/
theorem StepOverRun.observed_eq {module : Module CallBook} (closed : module.Closed)
    {observed : List (Option Nat)} {x' : Machine CallBook} (h : StepOverRun x observed x') :
    ∀ {y : Machine CallBook}, Ahead program c x y → y.Clear module → x.pending = none →
      x.depth ≤ 1 →
      (x.frames = [] → x.phase = .completed) →
      ∃ count, (oneByOne^[count] y).frames = [] ∧ (∀ k < count, (oneByOne^[k] y).frames ≠ []) ∧
        observed = (y.singleStatements count).destutter (· ≠ ·) := by
  induction h with
  | @completed x hphase =>
      intro y hahead _ _ _ _
      obtain ⟨p, hx, -⟩ := hahead.inStep
      exact ⟨0, hahead.frames_eq ▸ hx.ended hphase, fun k hk => absurd hk (Nat.not_lt_zero k), rfl⟩
  | @step x x' x'' yielded observed hphase hsession _ ih =>
      intro y hahead hclear hpending hdepth hended
      have hframes : x.frames ≠ [] := by
        intro hnil
        rw [hended hnil] at hphase
        cases hphase
      have hone : x.depth = 1 := Nat.le_antisymm hdepth (List.length_pos_iff.mpr hframes)
      have hone' : y.depth = 1 := by rw [depth, ← hahead.frames_eq]; exact hone
      obtain ⟨s, hs⟩ := hclear.exists_statement closed (hahead.frames_eq ▸ hframes)
      have hshown : x.statement? = some s := by
        rw [← hs]
        simp only [statement?, lineInfo?, hahead.frames_eq, hahead.module_eq]
      have hstart (present : Snapshot) (hpresent : x.snapshot? = some present) :
          present = ⟨0, s⟩ := by
        cases hcons : x.frames with
        | nil => exact absurd hcons hframes
        | cons frame callers =>
            simp only [depth, hcons, List.length_cons, Nat.add_eq_right] at hone
            simp only [snapshot?, hcons, hone, hshown, Option.getD_some, Option.some.injEq]
              at hpresent
            exact hpresent.symm
      obtain ⟨-, ⟨k, harrived⟩, hended'⟩ :=
        hsession.arrives (Underway.begin hahead x.stepLimit ⟨0, s⟩) hstart
      obtain ⟨⟨block, hblock, hsame⟩, hgoing, hstops⟩ := harrived.block closed hclear hone' hs
      have hnext := hclear.iterate closed k
      have hdepth' : x'.depth ≤ 1 := by
        rw [depth, harrived.ahead.frames_eq]
        rcases hstops with hnil | ⟨hone, -⟩
        · rw [hnil]
          exact Nat.zero_le 1
        · exact Nat.le_of_eq hone
      have hpending' : x'.pending = none := by
        rw [harrived.pending, if_neg fun hat => by rw [hnext.not_atBreakpoint] at hat; cases hat.2]
      obtain ⟨count, hcount, hbefore, hobserved⟩ :=
        ih harrived.ahead hnext hpending' hdepth' hended'
      refine ⟨k + count, ?_, ?_, ?_⟩
      · rwa [Nat.add_comm, Function.iterate_add_apply]
      · intro i hi
        rcases Nat.lt_or_ge i k with hlt | hge
        · exact hgoing i hlt
        · obtain ⟨j, rfl⟩ := Nat.exists_eq_add_of_le' hge
          rw [Function.iterate_add_apply]
          exact hbefore j (by omega)
      · rw [singleStatements_add, hblock, destutter_block hsame, hshown, hobserved]
        intro b hb
        cases count with
        | zero => cases hb
        | succ count =>
            have hmore := hbefore 0 (Nat.succ_pos count)
            rcases hstops with hnil | ⟨hone, hother⟩
            · exact absurd hnil hmore
            · rw [singleStatements_succ, if_pos hone] at hb
              simp only [List.singleton_append, List.head?_cons, Option.mem_def, Option.some.injEq]
                at hb
              rwa [← hb]

/-! ## Programs from their beginning -/

/-- Compiled programs begin with an activation. -/
theorem frames_restart {source : String} {host : HostTable σ}
    (hcompile : compile source host = .ok program) (h : m.module.functions = program.functions) :
    m.restart.depth = 1 := by
  obtain ⟨p, hcheck, hemit⟩ := compile_eq_ok.mp hcompile
  obtain ⟨-, -, main, others, hfunctions, -⟩ := checkSource_typed hcheck
  obtain ⟨hcodes, -, -⟩ := emitModule_eq_ok.mp hemit
  rw [hfunctions] at hcodes
  obtain ⟨first, rest, -, -, hcodes⟩ := emitFunctions_cons_eq_ok.mp hcodes
  have hmain : m.module.main? = some first := by rw [Module.main?, h, hcodes, List.head?_cons]
  simp only [depth, restart, hmain, Option.map_some, Option.toList_some, List.length_singleton]

/-- Running until no activation is left takes note of the end. -/
theorem phase_run {m : Machine σ} {budget : Nat} (h : (m.run budget).frames = []) :
    (m.run budget).phase = .completed := by
  unfold run at h ⊢
  split
  · next hempty =>
      rw [if_pos hempty] at h
      exact phase_settle m h
  · next hempty =>
      rw [if_neg hempty] at h
      split
      · next hsuspended =>
          rw [if_pos hsuspended] at h
          exact absurd (List.isEmpty_iff.mpr h) hempty
      · next hsuspended =>
          rw [if_neg hsuspended] at h
          exact phase_settle _ h

theorem phase_oneByOne (h : m.oneByOne.frames = []) : m.oneByOne.phase = .completed := by
  unfold oneByOne at h ⊢
  split
  · next hpending => exact phase_run (by rwa [hpending] at h)
  · next hpending => exact phase_run (by rwa [hpending] at h)

end Machine

open Machine

/-- **Steps over statements may pause anywhere.** Let a machine be reachable on a compiled program,
with any breakpoints, on a host whose futures are delivered once, at any time. A step over a
statement, continued from each place that it yields until it is done, has the same activations,
operands, outstanding call, phase, heap and calls in the end whatever the limit is, and yields only
where it began. Without breakpoints, a run of such steps from the beginning of the program to its
end shows before them the statements shown by a machine that executes one instruction at a time
while it has a single activation, with repetitions merged. -/
theorem step_over_resumable {source : String} {host : HostTable σ} {program : Module σ}
    (hcompile : compile source host = .ok program) (c : Conduct) {m : Machine CallBook}
    (hm : Reachable program c m) :
    (∀ (limit limit' : Nat) (yielded yielded' : List Snapshot) (x x' : Machine CallBook),
        StepOverSession { m with stepLimit := limit } none yielded x →
        StepOverSession { m with stepLimit := limit' } none yielded' x' →
          Agree x x' ∧ ∀ place ∈ yielded ++ yielded', m.snapshot? = some place) ∧
      ((∀ function pc, m.hasBreakpoint function pc = false) →
        ∀ (limit : Nat) (observed : List (Option Nat)) (x : Machine CallBook),
          StepOverRun { m.restart with stepLimit := limit } observed x →
            ∃ count, (oneByOne^[count] m.restart).phase = .completed ∧
              (∀ k < count, (oneByOne^[k] m.restart).frames ≠ []) ∧
              observed = (m.restart.singleStatements count).destutter (· ≠ ·)) := by
  refine ⟨fun limit limit' yielded yielded' x x' h h' => h.agree hm h', fun htable limit observed x
    h => ?_⟩
  obtain ⟨p, -, hemit⟩ := compile_eq_ok.mp hcompile
  have closed := emitModule_closed hemit
  have closed' : (program.withNatives c.deferred).Closed :=
    ⟨closed.index, closed.nonempty, closed.shown, closed.flow⟩
  obtain ⟨q, hq⟩ := hm.restart.inStep
  have hmodule : m.module = program.withNatives c.deferred := hq.deferred
  have hdepth : m.restart.depth = 1 := frames_restart hcompile (by rw [hmodule]; rfl)
  have hframes : m.restart.frames ≠ [] := fun hnil => by simp [depth, hnil] at hdepth
  have hclear : m.restart.Clear (program.withNatives c.deferred) :=
    ⟨hmodule, htable, hmodule ▸ locates_restart (hmodule ▸ closed')⟩
  have hahead := (Underway.begin (.refl hq hm.restart.waits) limit ⟨0, 0⟩).ahead
  obtain ⟨count, hend, hbefore, hobserved⟩ :=
    h.observed_eq closed' hahead hclear rfl (Nat.le_of_eq hdepth) fun hnil => absurd hnil hframes
  refine ⟨count, ?_, hbefore, hobserved⟩
  cases count with
  | zero => exact absurd hend hframes
  | succ count =>
      rw [Function.iterate_succ_apply'] at hend ⊢
      exact phase_oneByOne hend

/-- A host with one function that yields a truth value. -/
def askingHost : HostTable Unit :=
  [⟨"ask", [], "boolean", true, "", none, fun _ w => (.ready (.boolean true), w)⟩]

/-- Every call comes to `true`, which is delivered later. -/
def answersLater : Conduct := fun _ _ heap _ => ⟨.boolean true, heap, .later⟩

/-- The machine of a program whose calls are answered later. -/
def askingMachine (program : Module Unit) (limit : Nat) : Machine CallBook :=
  Machine.start (program.withNatives answersLater.deferred) limit ⟨.empty, #[], ⟨[], []⟩⟩

/-- What a step over the first statement gives that is continued once behind the delivery of the
first future. -/
def askedOnce (program : Module Unit) (limit : Nat) : Option Snapshot × Machine CallBook :=
  (((askingMachine program limit).stepOver none).2.deliver 0).stepOver (some ⟨0, 0⟩)

/-- The call is outstanding when the step over it first pauses. With a limit of one instruction it
pauses again. -/
theorem step_over_resumable_asking : ∃ (program : Module Unit) (m x x' : Machine CallBook)
    (place : Snapshot),
    compile "var a = ask()\n" askingHost = .ok program ∧ Reachable program answersLater m ∧
      StepOverSession { m with stepLimit := 1 } none [place, place] x ∧
      StepOverSession { m with stepLimit := 100 } none [place] x' ∧ Agree x x' ∧
      m.snapshot? = some place ∧
      (∀ function pc, m.hasBreakpoint function pc = false) ∧
      StepOverRun { m.restart with stepLimit := 1 } [some 0] x ∧
      ∃ count, (oneByOne^[count] m.restart).phase = .completed ∧
        [some 0] = (m.restart.singleStatements count).destutter (· ≠ ·) := by
  have hpauses : ((compile "var a = ask()\n" askingHost).map fun program =>
      (((askingMachine program 1).stepOver none).1, (askedOnce program 1).1,
        ((askedOnce program 1).2.stepOver (some ⟨0, 0⟩)).1,
        ((askedOnce program 1).2.stepOver (some ⟨0, 0⟩)).2.phase)) =
          .ok (some ⟨0, 0⟩, some ⟨0, 0⟩, none, .completed) := by decide +kernel
  have hends : ((compile "var a = ask()\n" askingHost).map fun program =>
      (((askingMachine program 100).stepOver none).1, (askedOnce program 100).1,
        (askingMachine program 1).statement?,
          (askingMachine program 1).breakpoints.toList.map (·.toList))) =
          .ok (some ⟨0, 0⟩, none, some 0, [[none, none, none]]) := by decide +kernel
  obtain ⟨program, hcompile, hpauses⟩ := Diagnosed.map_eq_ok.mp hpauses
  rw [hcompile, Except.map, Except.ok.injEq] at hends
  simp only [Prod.mk.injEq] at hpauses hends
  obtain ⟨hcalled, honce, htwice, hphase⟩ := hpauses
  obtain ⟨hcalled', honce', hshown, htable⟩ := hends
  let m := askingMachine program 1000
  let x := ((askedOnce program 1).2.stepOver (some ⟨0, 0⟩)).2
  have hreach : Reachable program answersLater m := .start 1000 .empty
  have hslow : StepOverSession { m with stepLimit := 1 } none [⟨0, 0⟩, ⟨0, 0⟩] x :=
    .again (Prod.ext hcalled rfl)
      (.deliver 0 (.again (Prod.ext honce rfl) (.done (Prod.ext htwice rfl))))
  have hfast :
      StepOverSession { m with stepLimit := 100 } none [⟨0, 0⟩] (askedOnce program 100).2 :=
    .again (Prod.ext hcalled' rfl) (.deliver 0 (.done (Prod.ext honce' rfl)))
  have hclear (function pc : Nat) : m.hasBreakpoint function pc = false := by
    refine hasBreakpoint_of_cells (fun row hrow cell hcell => ?_) function pc
    have hmem : row.toList ∈ [[none, none, none]] :=
      htable ▸ List.mem_map_of_mem (Array.mem_toList_iff.mpr hrow)
    rw [List.mem_singleton] at hmem
    rw [← Array.mem_toList_iff, hmem] at hcell
    simpa using hcell
  have hrun : StepOverRun { m.restart with stepLimit := 1 } [some 0] x := by
    rw [← hshown]
    exact .step rfl hslow (.completed hphase)
  obtain ⟨hagree, hrest⟩ := step_over_resumable hcompile answersLater hreach
  obtain ⟨hsame, hplaces⟩ := hagree 1 100 _ _ _ _ hslow hfast
  obtain ⟨count, hend, -, hobserved⟩ := hrest hclear 1 _ _ hrun
  exact ⟨program, m, x, _, ⟨0, 0⟩, hcompile, hreach, hslow, hfast, hsame, hplaces _ (by simp),
    hclear, hrun, count, hend, hobserved⟩

end Stepwise
