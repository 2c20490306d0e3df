import Stepwise.Proofs.Evaluation.Driving
import Stepwise.Proofs.Evaluation.Functions

/-!
# Compilation is correct

A compiled program does on the machine what evaluating the program by its tree does.

A machine at the beginning of a compiled program keeps pace with the evaluation of the program. So
an evaluation that comes to a result leads the machine to its end with that result, and one that
comes to none with whatever fuel keeps the machine from its end (`Setting.evaluate_iff`). A machine
that is driven by actions comes to the same end (`Machine.InPlace.completes_iff`).

**Correctness.** Together: a program's evaluation comes to a result exactly if the machine, driven
by actions that run it time and again, completes with that world and those calls of the host
(`compile_correct`).
-/

set_option autoImplicit false

namespace Stepwise

open Diagnosed Machine

variable {σ : Type}

/-! ## Settings of source texts -/

/-- What the program of a source text is evaluated in. -/
def Setting.ofSource (source : String) (host : HostTable σ) : Diagnosed (Setting σ) := do
  let program ← Program.ofSource source
  let p ← checkProgram program.records program.allFunctions host
  return ⟨p.environment.registry, program.allFunctions, p.environment.hostFunctions⟩

/-- What compiles can be evaluated. -/
theorem Setting.ofSource_of_compile {source : String} {host : HostTable σ} {module : Module σ}
    (h : compile source host = .ok module) (hprompt : ∀ f ∈ host, f.native.Prompt) :
    ∃ (s : Setting σ) (p : CheckedProgram σ), Setting.ofSource source host = .ok s ∧
      checkSource source host = .ok p ∧
      module.Compiles p ∧ s.Evaluates p := by
  obtain ⟨p, hcheck, hemit⟩ := compile_eq_ok.mp h
  obtain ⟨-, hhosts, -⟩ := checkSource_typed hcheck
  obtain ⟨program, hprogram, hchecked⟩ := bind_eq_ok.mp hcheck
  refine ⟨_, p, bind_eq_ok.mpr ⟨program, hprogram, bind_eq_ok.mpr ⟨p, hchecked, rfl⟩⟩, hcheck,
    emitModule_compiles hemit, rfl, rfl, checkProgram_reads hchecked,
    Program.targetsAssignable_of_ofSource hprogram, ?_⟩
  intro f hf
  rw [hhosts] at hf
  rcases List.mem_append.mp hf with hf | hf
  · exact hprompt f hf
  · obtain ⟨d, -, rfl⟩ := List.mem_map.mp hf
    exact Native.prompt_constructor

/-! ## From evaluations to instructions -/

section Programs

variable {s : Setting σ} {p : CheckedProgram σ} {m : Machine σ}

/-- From the beginning of its program a machine keeps pace with the evaluation of the program. -/
theorem Setting.evaluate_pace (typed : p.Typed) (compiles : m.module.Compiles p)
    (evaluates : s.Evaluates p) {main : FunctionDecl} (hmain : p.functions[0]? = some main)
    (harrow : main.arrow = ⟨[], .nothing⟩) (n : Nat) :
    Pace n (m.restart, []) (s.evaluate (n + 1) m.world) fun out y => EndsWith y out := by
  obtain ⟨hparams, hresult⟩ := Arrow.mk.inj harrow
  obtain ⟨code, hcode, compiled⟩ := compiles.function hmain
  obtain ⟨raw, hraw, becomes⟩ := evaluates.reads hmain
  have hhead : m.module.main? = some code := by
    rw [Module.main?, List.head?_eq_getElem?]
    exact hcode
  let A : Site σ := ⟨m.restart, 0, 0, []⟩
  have hruns : A.Runs code := hcode
  have hnone : ([] : List TypedValue).map (·.ty) = main.paramTys := hparams.symm
  have hbegin : A.here 0 (initialSlots code.numSlots (([] : List TypedValue).map (·.value))) []
      ⟨m.world, []⟩ = (m.restart, []) := by
    simp [A, Site.here, restart, hhead, Frame.enter, compiled.index]
  rw [Setting.evaluate, Setting.answer, hraw, Option.bind_eq_bind, Option.bind_some,
    Option.bind_eq_bind, Option.map_bind, ← hbegin]
  refine .bind
    (FunctionDecl.pace (typed.functions main (List.mem_of_getElem? hmain)) typed.registry becomes
      (evaluates.targets raw (List.mem_of_getElem? hraw)) compiled hruns evaluates.registry
      (Setting.answer_paced typed compiles evaluates n) hnone rfl) ?_
  rintro l y rfl
  rw [hresult]
  exact .pure ⟨rfl, rfl, rfl⟩

/-- **The evaluation of a program comes to a result exactly if the machine comes to its end with
it**, executing one instruction after the other. -/
theorem Setting.evaluate_iff (typed : p.Typed) (compiles : m.module.Compiles p)
    (evaluates : s.Evaluates p) {main : FunctionDecl} (hmain : p.functions[0]? = some main)
    (harrow : main.arrow = ⟨[], .nothing⟩) (out : Effects σ) :
    (∃ fuel, s.evaluate fuel m.world = some out) ↔
    ∃ k, EndsWith (traced^[k] (m.restart, [])) out := by
  have hpace := Setting.evaluate_pace typed compiles evaluates hmain harrow
  constructor
  · rintro ⟨fuel, hfuel⟩
    cases fuel with
    | zero => cases hfuel
    | succ n =>
        have hn := hpace n
        rw [hfuel] at hn
        obtain ⟨y, ⟨k, rfl⟩, hends⟩ := hn
        exact ⟨k, hends⟩
  · rintro ⟨k, hends⟩
    have hk := hpace k
    refine ⟨k + 1, ?_⟩
    cases hresult : s.evaluate (k + 1) m.world with
    | none =>
        rw [hresult] at hk
        exact absurd hends.1 hk
    | some found =>
        rw [hresult] at hk
        obtain ⟨y, ⟨j, rfl⟩, hends'⟩ := hk
        have hsame :=
          iterate_eq_of_fixed (traced_of_frames_nil hends'.1) (traced_of_frames_nil hends.1)
        rw [hsame] at hends'
        rw [hends.unique hends']

end Programs

/-! ## Correctness -/

/-- **Compilation is correct.** Take any source text that compiles against a host that answers every
call at once. What it compiles to can be evaluated by its tree as well; and the evaluation, from any
world, comes to a result exactly if the machine completes with that world and those calls of the
host, restarted in the same world and driven by whatever actions, as long as it is run time and
again. -/
theorem compile_correct {source : String} {host : HostTable σ} {module : Module σ}
    (hcompile : compile source host = .ok module) (hprompt : ∀ f ∈ host, f.native.Prompt) :
    ∃ s : Setting σ, Setting.ofSource source host = .ok s ∧
      ∀ (m : Machine σ) (actions : Nat → Action), m.module = module → RunOnAndOn actions →
        ∀ out : Effects σ,
        (∃ fuel, s.evaluate fuel m.world = some out) ↔
          ∃ n, (m.restart.driven actions n).phase = .completed ∧
            (m.restart.driven actions n).world = out.world ∧
            (m.restart.drivenSteps actions n).filterMap hostCall? = out.calls := by
  obtain ⟨s, p, hs, hcheck, compiles, evaluates⟩ := Setting.ofSource_of_compile hcompile hprompt
  obtain ⟨typed, -, main, others, hfunctions, harrow⟩ := checkSource_typed hcheck
  have hmain : p.functions[0]? = some main := by rw [hfunctions, List.getElem?_cons_zero]
  refine ⟨s, hs, ?_⟩
  rintro m actions rfl hagain out
  have hprompt' : ∀ f ∈ m.restart.module.hostFunctions, f.native.Prompt := by
    intro f hf
    refine evaluates.prompt f ?_
    rw [evaluates.hosts, ← compiles.hosts]
    exact hf
  have hstart : InPlace m.restart [] m.restart := ⟨rfl, rfl, rfl, rfl, nofun⟩
  exact (Setting.evaluate_iff typed compiles evaluates hmain harrow out).trans
    (InPlace.completes_iff hprompt' hstart hagain out)

/-- A host that notes the truth values that it is told. -/
def notingHost : HostTable (List Bool) :=
  [⟨"note", [⟨"x", "boolean"⟩], "nothing", false, "", none, fun arguments w =>
    (.ready .nothing, { w with env := w.env ++ arguments.map (·.asBool) })⟩]

/-- A program with two names for one record. -/
def sharingSource : String :=
  "record Cell\n  on: boolean\nend\nvar c = Cell(true)\nvar d = c\n" ++
    "while c.on do\n  note(c.on)\n  d.on = false\nend\nnote(c == d)\n"

theorem sharingSource_evaluates :
    ((Setting.ofSource sharingSource notingHost).toOption.bind fun s =>
      s.evaluate 3 (.initial [])).map (fun out => out.world.env) = some [true, true] := by
  decide +kernel

theorem compile_correct_sharing :
    ∃ module : Module (List Bool), compile sharingSource notingHost = .ok module ∧
    (∀ f ∈ notingHost, f.native.Prompt) ∧ RunOnAndOn (fun _ => .run 2) ∧
    ∃ n, let x := (Machine.start module 10 (.initial [])).restart.driven (fun _ => .run 2) n
      x.phase = .completed ∧ x.world.env = [true, true] := by
  have hcompile : (compile sharingSource notingHost).isOk = true := by decide +kernel
  have hresult := sharingSource_evaluates
  have hprompt : ∀ f ∈ notingHost, f.native.Prompt := by
    intro f hf arguments w
    rw [List.mem_singleton.mp hf]
    exact ⟨_, _, rfl⟩
  have hagain : RunOnAndOn fun _ => .run 2 := fun n => ⟨n, Nat.le_refl n, 1, rfl⟩
  obtain ⟨module, hmodule⟩ := isOk_iff.mp hcompile
  obtain ⟨s, hs, hcorrect⟩ := compile_correct hmodule hprompt
  rw [hs] at hresult
  obtain ⟨out, hout, henv⟩ := Option.map_eq_some_iff.mp hresult
  obtain ⟨n, hcompleted, hworld, -⟩ :=
    (hcorrect (Machine.start module 10 (.initial [])) _ rfl hagain out).mp ⟨3, hout⟩
  exact ⟨module, hmodule, hprompt, hagain, n, hcompleted, (congrArg World.env hworld).trans henv⟩

end Stepwise
