import Stepwise.Proofs.Code.Beginnings
import Stepwise.Proofs.Machine.LifeCycle
import Stepwise.Proofs.Typing.Programs

/-!
# Breakpoints on lines

A breakpoint on a line stands where the statements of the line begin. In a module that was compiled
from a source text every location of a line has a statement on that line and a cell in the table, so
that each gets its breakpoint (`Machine.setBreakpoints_of_settable`). `line_locations` says what the
locations of a line are and that the breakpoints of a machine that has just been started stand there
and nowhere else.
-/

set_option autoImplicit false

namespace Stepwise

open Diagnosed

variable {σ : Type}

/-! ## Setting breakpoints in a row -/

namespace Machine

/-- A breakpoint for a line can be set at the location. -/
def Settable (m : Machine σ) (line : Nat) (l : CodeLocation) : Prop :=
  m.module.lineAt? l.function l.pc = some line ∧ (m.breakpoint? l.function l.pc).isSome = true

/-- Breakpoints that can all be set are all set, for the line; the other cells are as they were. -/
theorem setBreakpoints_of_settable {line : Nat} {locations : List CodeLocation} : ∀ {m : Machine σ},
    (∀ l ∈ locations, m.Settable line l) →
      (m.setBreakpoints locations).1 = locations.length ∧
        ∀ function pc, (m.setBreakpoints locations).2.breakpoint? function pc =
          if ⟨function, pc⟩ ∈ locations then some (some line) else m.breakpoint? function pc := by
  induction locations with
  | nil => exact fun _ => ⟨rfl, fun _ _ => rfl⟩
  | cons l rest ih =>
      intro m hsettable
      obtain ⟨hline, hcell⟩ := hsettable l List.mem_cons_self
      have hset : m.setBreakpoint l.function l.pc =
          (true, m.writeBreakpoint l.function l.pc (some line)) := by
        obtain ⟨line', hline', -, hset⟩ | ⟨hnone, -⟩ := m.setBreakpoint_cases l.function l.pc
        · rw [hline, Option.some.injEq] at hline'
          rw [hset, hline']
        · simp [hline, hcell] at hnone
      have hrest : ∀ l' ∈ rest, (m.writeBreakpoint l.function l.pc (some line)).Settable line
          l' := by
        intro l' hl'
        refine ⟨(hsettable l' (List.mem_cons_of_mem _ hl')).1, ?_⟩
        rw [isSome_breakpoint?, rowSizes_writeBreakpoint, ← isSome_breakpoint?]
        exact (hsettable l' (List.mem_cons_of_mem _ hl')).2
      obtain ⟨hcount, hcells⟩ := ih hrest
      rw [setBreakpoints, hset]
      refine ⟨congrArg (· + 1) hcount, fun function pc => (hcells function pc).trans ?_⟩
      rw [breakpoint?_writeBreakpoint]
      by_cases hmem : ⟨function, pc⟩ ∈ rest
      · rw [if_pos hmem, if_pos (List.mem_cons_of_mem _ hmem)]
      · rw [if_neg hmem]
        by_cases hhere : l.function = function ∧ l.pc = pc
        · obtain ⟨rfl, rfl⟩ := hhere
          rw [if_pos ⟨rfl, rfl⟩, if_pos List.mem_cons_self]
          obtain ⟨cell, hcell⟩ := Option.isSome_iff_exists.mp hcell
          rw [hcell]
          rfl
        · rw [if_neg hhere, if_neg]
          intro hmem'
          rcases List.mem_cons.mp hmem' with heq | hmem'
          · exact hhere ⟨congrArg CodeLocation.function heq.symm, congrArg CodeLocation.pc heq.symm⟩
          · exact hmem hmem'

theorem breakpoint?_start (program : Module σ) (limit : Nat) (world : World σ) (function pc : Nat) :
    (Machine.start program limit world).breakpoint? function pc =
      (program.function? function).bind fun code => code.breakpoints[pc]? := by
  simp only [breakpoint?, Machine.start, restart, Module.function?, List.getElem?_toArray,
    List.getElem?_map]
  cases program.functions[function]? <;> rfl

end Machine

/-! ## Modules made from a source text -/

section Made

variable {checked : CheckedProgram σ} {module : Module σ}

/-- The functions of a module bear their numbers, have a statement for each instruction, and no
breakpoints. -/
theorem emitModule_columns (h : emitModule checked.functions checked.environment = .ok module)
    {index : Nat} {code : FunctionCode} (hcode : module.function? index = some code) :
    code.index = index ∧ code.lineInfos.size = code.instructions.size ∧
      code.breakpoints = Array.replicate code.instructions.size none := by
  obtain ⟨d, -, hmade⟩ := emitModule_made h hcode
  exact ⟨(emitFunction_compiled hmade).index, emitFunction_columns hmade⟩

/-- A breakpoint can be set at every location of a line. -/
theorem emitModule_settable (h : emitModule checked.functions checked.environment = .ok module)
    (limit : Nat) (world : World σ) {line : Nat} {l : CodeLocation}
    (hl : l ∈ module.locationsAt line) :
    (Machine.start module limit world).Settable line l := by
  obtain ⟨code, hcode, hl⟩ := List.mem_flatMap.mp hl
  obtain ⟨index, hindex⟩ := List.mem_iff_getElem?.mp hcode
  obtain ⟨pc, hpc, rfl⟩ := List.mem_map.mp hl
  obtain ⟨rfl, hlineInfos, hbreakpoints⟩ := emitModule_columns h hindex
  obtain ⟨-, i, hi⟩ := firstOccurrences_bounds hpc
  rw [Nat.sub_zero, Array.getElem?_toList] at hi
  have hfunction : module.function? code.index = some code := hindex
  refine ⟨?_, ?_⟩
  · show module.lineAt? code.index pc = some line
    rw [Module.lineAt?, hfunction]
    simp [hi]
  · have hlt : pc < code.instructions.size := hlineInfos ▸ (Array.getElem?_eq_some_iff.mp hi).1
    rw [Machine.breakpoint?_start, hfunction, Option.bind_some, hbreakpoints]
    simp [hlt]

/-- The locations of a line, in order. -/
theorem emitModule_locationsAt (h : emitModule checked.functions checked.environment = .ok module)
    (line : Nat) :
    module.locationsAt line =
        checked.functions.zipIdx.flatMap (fun d => (d.1.startsOn line).map (CodeLocation.mk d.2)) ∧
      (module.locationsAt line).Pairwise CodeLocation.Before := by
  obtain ⟨hcodes, -, -⟩ := emitModule_eq_ok.mp h
  obtain ⟨hlocations, hordered, -⟩ := emitFunctions_locationsAt line hcodes
  exact ⟨hlocations, hordered⟩

/-- Where a statement begins is the first instruction that was made for it. -/
theorem emitModule_begins (h : emitModule checked.functions checked.environment = .ok module)
    {index : Nat} {d : FunctionDecl} (hd : checked.functions[index]? = some d) :
    ∃ code, module.function? index = some code ∧ ∀ {around : LoopAround} {pc : Nat} {s : Stmt},
      d.Occupies around pc s → s.isComment = false →
        d.MadeAt checked.environment.registry code around pc s ∧ 0 < s.size := by
  obtain ⟨code, hcode, -⟩ := (emitModule_compiles h).function hd
  obtain ⟨d', hd', hmade⟩ := emitModule_made h hcode
  cases hd.symm.trans hd'
  exact ⟨code, hcode, fun hs hcomment => ⟨hs.made hmade, Stmt.size_pos hcomment⟩⟩

end Made

/-! ## Lines -/

/-- What is found on a line of a module that was compiled from a program. -/
structure Module.LineFound (program : Program) (checked : CheckedProgram σ) (module : Module σ)
    (line : Nat) :
    Prop where
  /-- Checking leaves functions and their statements where they are written. -/
  written :
    List.Forall₂
      (fun d d' => d'.span = d.span ∧ d'.statements.map Stmt.span = d.statements.map Stmt.span)
    program.allFunctions checked.functions
  /-- The statements outside of functions count as a function written on line 1. -/
  main : checked.functions.head?.map (·.span.line) = some 1
  /-- The statements that begin somewhere in a function are its statements without comments, one
  after the other. -/
  statements : ∀ d ∈ checked.functions, d.beginnings.map (·.2) = d.statements ∧
    ∀ pc s, (pc, s) ∈ d.beginnings ↔ (∃ around, d.Occupies around pc s) ∧ s.isComment = false
  /-- Where a statement begins is the first instruction that was made for it. -/
  begin : ∀ {index : Nat} {d : FunctionDecl}, checked.functions[index]? = some d →
    ∃ code, module.function? index = some code ∧ ∀ {around : LoopAround} {pc : Nat} {s : Stmt},
      d.Occupies around pc s → s.isComment = false →
        d.MadeAt checked.environment.registry code around pc s ∧ 0 < s.size
  /-- The locations of the line are where its statements begin; a function without statements begins
  on its own line. -/
  locations : module.locationsAt line =
    checked.functions.zipIdx.flatMap fun d => (d.1.startsOn line).map (CodeLocation.mk d.2)
  /-- They come in order and none comes twice. -/
  ordered : (module.locationsAt line).Pairwise CodeLocation.Before

/-- What setting breakpoints on a line does to a machine that has just been started. -/
structure Machine.LineSet (module : Module σ) (limit : Nat) (world : World σ) (line : Nat) :
    Prop where
  /-- It tells the number of locations of the line. -/
  count : ((Machine.start module limit world).setBreakpointsAtLine line).1 =
    (module.locationsAt line).length
  /-- Nothing but the table changes. -/
  table : ∃ table, ((Machine.start module limit world).setBreakpointsAtLine line).2 =
    { Machine.start module limit world with breakpoints := table }
  /-- There are breakpoints for the line at its locations and nowhere else. -/
  cells : ∀ function pc,
    ((Machine.start module limit world).setBreakpointsAtLine line).2.breakpoint? function pc =
    if ⟨function, pc⟩ ∈ module.locationsAt line then some (some line)
    else (module.function? function).bind fun code => if pc < code.instructions.size then some none
      else none

/-- **Lines and their statements.** On a line of a module that was compiled from a source text are
found, function by function and in the order of the code, the first instructions of the statements
that start on that line, one for each, and the beginnings of the functions without statements that
are written there. Setting breakpoints on the line puts one at each of these and nowhere else, and
tells how many they are. -/
theorem line_locations {source : String} {host : HostTable σ} {module : Module σ}
    (h : compile source host = .ok module) : ∃ (program : Program) (checked : CheckedProgram σ),
      Program.ofSource source = .ok program ∧
      checkProgram program.records program.allFunctions host = .ok checked ∧
      ∀ line, module.LineFound program checked line ∧ ∀ limit world,
      Machine.LineSet module limit world line := by
  obtain ⟨program, hprogram, h⟩ := bind_eq_ok.mp h
  obtain ⟨checked, hchecked, hmade⟩ := bind_eq_ok.mp h
  refine ⟨program, checked, hprogram, hchecked, fun line => ⟨?_, fun limit world => ?_⟩⟩
  · have hcompletes := (completes_of_checkProgram hchecked).functions
    have hwritten : List.Forall₂
        (fun d d' => d'.span = d.span ∧ d'.statements.map Stmt.span = d.statements.map Stmt.span)
        program.allFunctions checked.functions := by
      refine hcompletes.imp fun d d' hd => ?_
      obtain ⟨params, t, body, -, hbody, rfl⟩ := hd
      exact ⟨rfl, hbody.map_span_everyIn⟩
    obtain ⟨hlocations, hordered⟩ := emitModule_locationsAt hmade line
    refine ⟨hwritten, ?_, ?_, ?_, hlocations, hordered⟩
    · obtain ⟨first, rest, hfirst, -, hfunctions⟩ := List.forall₂_cons_left_iff.mp hwritten
      rw [hfunctions]
      exact congrArg (fun span : Span => some span.line) hfirst.1
    · exact fun d _ => ⟨Stmt.map_beginningsIn d.body 0, fun pc s => FunctionDecl.mem_beginnings⟩
    · intro index d hd
      exact emitModule_begins hmade hd
  · have hsettable : ∀ l ∈ module.locationsAt line,
        (Machine.start module limit world).Settable line l :=
      fun l hl => emitModule_settable hmade limit world hl
    obtain ⟨hcount, hcells⟩ := Machine.setBreakpoints_of_settable hsettable
    refine ⟨hcount, Machine.setBreakpoints_snd _ _, fun function pc =>
      (hcells function pc).trans ?_⟩
    refine ite_congr rfl (fun _ => rfl) fun _ => ?_
    rw [Machine.breakpoint?_start]
    cases hcode : module.function? function with
    | none => rfl
    | some code =>
        rw [Option.bind_some, Option.bind_some, (emitModule_columns hmade hcode).2.2,
          Array.getElem?_replicate]

/-- A function without statements, and several statements on one line. -/
def crowdedSource : String :=
  "fun idle()\n  # nothing to do\nend\n" ++
    "while true do if true then break else idle() end end idle()\n"

theorem line_locations_crowded : ∃ (module : Module Unit) (program : Program)
    (checked : CheckedProgram Unit),
    compile crowdedSource [] = .ok module ∧
    (∀ line, module.LineFound program checked line ∧ ∀ limit world,
      Machine.LineSet module limit world line) ∧
    [1, 2, 3, 4].map module.locationsAt =
      [[⟨1, 0⟩], [], [], [⟨0, 0⟩, ⟨0, 2⟩, ⟨0, 4⟩, ⟨0, 6⟩, ⟨0, 8⟩]] := by
  have heval :
      ((compile crowdedSource ([] : HostTable Unit)).map fun module =>
        [1, 2, 3, 4].map module.locationsAt) =
      .ok [[⟨1, 0⟩], [], [], [⟨0, 0⟩, ⟨0, 2⟩, ⟨0, 4⟩, ⟨0, 6⟩, ⟨0, 8⟩]] := by decide +kernel
  obtain ⟨module, hcompile, heval⟩ := map_eq_ok.mp heval
  obtain ⟨program, checked, -, -, hlines⟩ := line_locations hcompile
  exact ⟨module, program, checked, hcompile, hlines, heval⟩

end Stepwise
