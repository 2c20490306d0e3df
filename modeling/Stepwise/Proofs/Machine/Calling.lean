import Mathlib.Data.List.Chain
import Stepwise.Proofs.Code.BlockEnds
import Stepwise.Proofs.Machine.Entering
import Stepwise.Proofs.Machine.Given
import Stepwise.Proofs.Machine.Stops

/-!
# Locals during calls

An activation that has called a function stands right behind the call while it waits: every
activation below the uppermost one does, and the uppermost one while an answer of the host is
outstanding (`Chained`, `Waits`). What is listed of it are the locals at the instruction behind the
call, where a debugger is to show those that the call sees.

These are the same but for one thing. If the call is the last instruction of a block, the ranges of
the block's variables end with it, and they are not listed until the call has returned
(`locals_visible_in_calls`). This can only be a call that yields nothing, since the value of any
other is still to be used or dropped. So the variable of a loop's body vanishes while the body's
last statement waits for the host (`variable_hidden_in_call`).
-/

set_option autoImplicit false

namespace Stepwise

variable {σ : Type}

/-! ## Activations that wait -/

/-- The activation stands right behind an instruction. -/
def Module.Behind (module : Module σ) (frame : Frame) (I : Instruction) : Prop :=
  ∃ code here, module.function? frame.function = some code ∧ frame.pc = here + 1 ∧
  code.instructions[here]? = some I

/-- Whether a call of the function leaves a value. -/
def Module.yields (module : Module σ) : Callee → Bool
  | .user index => ((module.function? index).map (·.returnsValue)).getD false
  | .host index => ((module.hostFunction? index).map (·.returnsValue)).getD false

namespace Machine

/-- The function that the activation of number `k` has called and waits for: that of the activation
above it, or the function of the host whose answer is outstanding. -/
def InCall (m : Machine σ) (k : Nat) : Callee → Prop
  | .user index => ∃ upper, m.frame? (k + 1) = some upper ∧ upper.function = index
  | .host index => k + 1 = m.depth ∧ ∃ call, m.pending = some call ∧ call.function = index

/-- Every activation but the uppermost one stands behind the call of the function of the one above
it. -/
def Chained (module : Module σ) (frames : List Frame) : Prop :=
  frames.IsChain fun upper lower => module.Behind lower (.call upper.function)

variable {module : Module σ} {m : Machine σ}

/-- **Activations stay behind their calls.** -/
theorem chained_step (closed : module.Closed) (hmodule : m.module = module)
    (h : Chained module m.frames) (hframes : m.frames ≠ []) : Chained module m.step.frames := by
  cases hcons : m.frames with
  | nil => exact absurd hcons hframes
  | cons frame callers =>
      rw [hcons, Chained, List.isChain_cons] at h
      obtain ⟨hhead, htail⟩ := h
      have hhands := step_hands [] [] hcons
      generalize m.step.frames = frames, m.giftsAfter [[]] = after at hhands ⊢
      cases hhands with
      | leaves => exact htail
      | goes | stores => exact List.isChain_cons.mpr ⟨hhead, htail⟩
      | @enters code callee index base hcode hI hcallee =>
          rw [hmodule] at hcode hcallee
          have hbehind : module.Behind { frame with pc := frame.pc + 1 }
              (.call (Frame.enter callee base (m.arguments callee.numParameters)).function) := by
            rw [Frame.enter, closed.index hcallee]
            exact ⟨code, frame.pc, hcode, rfl, hI⟩
          exact List.isChain_cons_cons.mpr ⟨hbehind, List.isChain_cons.mpr ⟨hhead, htail⟩⟩

theorem chained_restart (hmodule : m.module = module) : Chained module m.restart.frames := by
  rw [Machine.restart, hmodule]
  cases module.main? with
  | none => exact .nil
  | some code => exact .singleton _

theorem chained_invariant (closed : module.Closed) :
    Invariant fun _ (m : Machine σ) => m.module = module ∧ Chained module m.frames where
  step := by
    rintro xs m ⟨hmodule, h⟩ - hframes
    exact ⟨m.step_unchanged.1.trans hmodule, chained_step closed hmodule h hframes⟩
  resume := by
    rintro xs m call h - hpending -
    rw [resume_of_pending hpending]
    exact h
  settle h _ := h
  breakpoints _ h := h

/-- An activation that is in a call stands right behind it. -/
theorem InCall.behind (h : Chained m.module m.frames) (hwaits : m.Waits) {k : Nat} {frame : Frame}
    {callee : Callee} (hframe : m.frame? k = some frame) (hcall : m.InCall k callee) :
    m.module.Behind frame callee.instruction := by
  cases callee with
  | user index =>
      obtain ⟨upper, hupper, rfl⟩ := hcall
      obtain ⟨callers, hlength, hsuffix⟩ := suffix_of_getElem?_reverse hupper
      cases callers with
      | nil => cases hlength
      | cons lower rest =>
          have hlower := getElem?_reverse_of_suffix ((List.suffix_cons _ _).trans hsuffix)
          rw [Nat.succ.inj hlength, ← frame?, hframe, Option.some.injEq] at hlower
          subst hlower
          exact (List.isChain_cons_cons.mp (List.IsChain.suffix h hsuffix)).1
  | host index =>
      obtain ⟨hdepth, call, hpending, rfl⟩ := hcall
      obtain ⟨upper, callers, code, here, hframes, hcode, hpc, hI⟩ := hwaits call hpending
      rw [depth, hframes, List.length_cons, Nat.add_right_cancel_iff] at hdepth
      rw [frame?, hframes, hdepth, getElem?_reverse_of_suffix (List.suffix_refl _),
        Option.some.injEq] at hframe
      subst hframe
      exact ⟨code, here, hcode, hpc, hI⟩

end Machine

/-! ## What is listed behind a call -/

/-- A local that starts right behind a call holds no value yet, and none starts there. -/
theorem start_ne_behind_call {r : Registry} {index : Nat} {d : FunctionDecl} {code : FunctionCode}
    (made : emitFunction r index d = .ok code) {here : Nat} {callee : Callee}
    (hI : code.instructions[here]? = some callee.instruction) {l : LocalInfo}
    (hl : l ∈ code.locals) :
    l.live.start ≠ here + 1 := by
  intro hstart
  cases hkind : l.isParameter with
  | true =>
      rw [(emitFunction_wellFormed made).parameterLive l hl hkind] at hstart
      cases hstart
  | false =>
      have hstored := ((emitFunction_wellFormed made).variableLive l hl hkind).2.2.2
      rw [hstart, Nat.add_sub_cancel, hI, Option.some.injEq] at hstored
      exact callee.instruction_ne rfl hstored

/-- Behind a call the locals are those that the call sees, but for those whose ranges end with
it. -/
theorem mem_localsAt_behind_call {r : Registry} {index : Nat} {d : FunctionDecl}
    {code : FunctionCode} (made : emitFunction r index d = .ok code) {here : Nat} {callee : Callee}
    (hI : code.instructions[here]? = some callee.instruction) {l : LocalInfo} :
    l ∈ code.localsAt (here + 1) ↔ l ∈ code.localsAt here ∧ l.live.stop ≠ here := by
  rw [FunctionCode.mem_localsAt, FunctionCode.mem_localsAt, LiveRange.contains_iff,
    LiveRange.contains_iff]
  constructor
  · rintro ⟨hl, hstart, hstop⟩
    have := start_ne_behind_call made hI hl
    exact ⟨⟨hl, by omega, by omega⟩, by omega⟩
  · rintro ⟨⟨hl, hstart, hstop⟩, hne⟩
    exact ⟨hl, by omega, by omega⟩

variable {p : CheckedProgram σ} {module : Module σ}

/-- A function that yields nothing according to its type leaves no value. -/
theorem Module.Compiles.yields_eq_false (compiled : module.Compiles p) {d : FunctionDecl}
    {callee : Callee} (h : (d.typing p.environment.registry p.arrows).YieldsNothing callee) :
    module.yields callee = false := by
  obtain ⟨arrow, harrow, hresult⟩ := h
  cases callee with
  | user index =>
      obtain ⟨e, he, rfl⟩ := Option.map_eq_some_iff.mp harrow
      obtain ⟨code, hcode, hcompiled⟩ := compiled.function he
      rw [Module.yields, hcode, Option.map_some, Option.getD_some, FunctionCode.returnsValue,
        hcompiled.returnType, show e.resultTy = .nothing from hresult]
      rfl
  | host index =>
      obtain ⟨f, hf, rfl⟩ := Option.map_eq_some_iff.mp harrow
      rw [Module.yields, compiled.hostFunction?, hf, Option.map_some, Option.getD_some,
        ← Bool.not_eq_true, f.returnsValue_iff]
      exact not_not_intro hresult

/-- However a compiled program is driven, an activation that is in a call stands right behind it. -/
theorem Machine.InCall.behind_compiled {source : String} {host : HostTable σ}
    (hcompile : compile source host = .ok module) {limit : Nat} {world : World σ}
    (events : List Event) {k : Nat} {frame : Frame} {callee : Callee}
    (hcall : ((Machine.start module limit world).handleAll events).InCall k callee)
    (hframe : ((Machine.start module limit world).handleAll events).frame? k = some frame) :
    ((Machine.start module limit world).handleAll events).module = module ∧
      module.Behind frame callee.instruction := by
  obtain ⟨p, -, made⟩ := compile_eq_ok.mp hcompile
  have hstart : (Machine.start module limit world).Waits := Machine.waits_restart _
  have hwaits := hstart.handleAll events
  obtain ⟨hmodule, hchained⟩ := @Machine.Invariant.handleAll _ _
    (Machine.chained_invariant (emitModule_closed made)) (fun _ _ h => h)
      (fun h => ⟨h.1, Machine.chained_restart h.1⟩) events [] (Machine.start module limit world)
    ⟨rfl, Machine.chained_restart rfl⟩
  generalize (Machine.start module limit world).handleAll events = m at *
  subst hmodule
  exact ⟨rfl, hcall.behind hchained hwaits hframe⟩

/-- **Locals stay listed during calls.** However a compiled program is driven, an activation that is
in a call stands right behind it. What is listed of the activation are the locals that the call
sees, with their values, except for those whose ranges end with the call. These are variables of a
block inside the function, and the call yields nothing. -/
theorem locals_visible_in_calls {source : String} {host : HostTable σ}
    (hcompile : compile source host = .ok module) (limit : Nat) (world : World σ)
    (events : List Event) {k : Nat} {frame : Frame} {callee : Callee}
    (hframe : ((Machine.start module limit world).handleAll events).frame? k = some frame)
    (hcall : ((Machine.start module limit world).handleAll events).InCall k callee) :
    ∃ code here, module.function? frame.function = some code ∧ frame.pc = here + 1 ∧
      code.instructions[here]? = some callee.instruction ∧
      (∀ (l : LocalInfo) (v : Value),
        (l, v) ∈ ((Machine.start module limit world).handleAll events).localsInScope k ↔
          l ∈ code.localsAt here ∧ l.live.stop ≠ here ∧ v = frame.slot l.slot) ∧
      ∀ l ∈ code.localsAt here, l.live.stop = here →
        l.isParameter = false ∧ here < code.instructions.size - 1 ∧
        module.yields callee = false := by
  obtain ⟨hmodule, code, here, hcode, hpc, hI⟩ :=
    Machine.InCall.behind_compiled hcompile events hcall hframe
  obtain ⟨p, hcheck, made⟩ := compile_eq_ok.mp hcompile
  obtain ⟨typed, -⟩ := checkSource_typed hcheck
  obtain ⟨d, hd, hmade⟩ := emitModule_made made hcode
  refine ⟨code, here, hcode, hpc, hI, ?_, ?_⟩
  · intro l v
    simp only [Machine.localsInScope, hmodule, hframe, hcode, hpc, List.mem_map, Prod.mk.injEq]
    constructor
    · rintro ⟨l', hl, rfl, rfl⟩
      obtain ⟨hsees, hne⟩ := (mem_localsAt_behind_call hmade hI).mp hl
      exact ⟨hsees, hne, rfl⟩
    · rintro ⟨hsees, hne, rfl⟩
      exact ⟨l, (mem_localsAt_behind_call hmade hI).mpr ⟨hsees, hne⟩, rfl, rfl⟩
  · intro l hl hstop
    have compiled := emitFunction_compiled hmade
    have htable := (FunctionCode.mem_localsAt.mp hl).1
    rw [emitFunction_table hmade] at htable
    rw [compiled.getElem?, ← hstop] at hI
    obtain ⟨hvariable, hinside, hnothing⟩ :=
      FunctionDecl.ends_with_call (typed.functions d (List.mem_of_getElem? hd)) htable hI
    rw [compiled.size, ← hstop]
    exact ⟨hvariable, hinside, (emitModule_compiles made).yields_eq_false hnothing⟩

/-- A program whose variable is listed while a function waits for the host. -/
def waitingInsideSource : String :=
  "fun inside()\n  wait()\nend\nvar a = true\ninside()\na = false\n"

theorem locals_visible_in_calls_inside : ∃ (module : Module Unit) (frame : Frame),
    compile waitingInsideSource pausingHost = .ok module ∧
    let m := (Machine.start module 1000 (.initial ())).handleAll [.act (.run 100)]
    m.frame? 0 = some frame ∧ m.InCall 0 (.user 1) ∧ (m.localsInScope 0).map (·.1.name) = ["a"] ∧
      ∃ code here, module.function? frame.function = some code ∧ frame.pc = here + 1 ∧
        code.instructions[here]? = some (.call 1) ∧
        (∀ (l : LocalInfo) (v : Value), (l, v) ∈ m.localsInScope 0 ↔
          l ∈ code.localsAt here ∧ l.live.stop ≠ here ∧ v = frame.slot l.slot) ∧
        ∀ l ∈ code.localsAt here, l.live.stop = here →
          l.isParameter = false ∧ here < code.instructions.size - 1 ∧
          module.yields (.user 1) = false := by
  have hstops : ((compile waitingInsideSource pausingHost).map fun module =>
      ((((Machine.start module 1000 (.initial ())).handleAll [.act (.run 100)]).frames.map
        (·.function)),
        (((Machine.start module 1000 (.initial ())).handleAll [.act (.run 100)]).localsInScope
          0).map (·.1.name))) =
          .ok ([1, 0], ["a"]) := by decide +kernel
  obtain ⟨module, hmodule, hstops⟩ := Diagnosed.map_eq_ok.mp hstops
  simp only [Prod.mk.injEq] at hstops
  obtain ⟨hfunctions, hnames⟩ := hstops
  let m := (Machine.start module 1000 (.initial ())).handleAll [.act (.run 100)]
  obtain ⟨upper, frame, hframes, hupper⟩ : ∃ upper frame, m.frames = [upper, frame] ∧
      upper.function = 1 := by
    obtain ⟨upper, rest, hcons, hupper, hrest⟩ := List.map_eq_cons_iff.mp hfunctions
    obtain ⟨frame, hsingle, -⟩ := List.map_eq_singleton_iff.mp hrest
    exact ⟨upper, frame, hsingle ▸ hcons, hupper⟩
  have hframe : m.frame? 0 = some frame := by
    rw [Machine.frame?, hframes]
    rfl
  have hcall : m.InCall 0 (.user 1) := by
    refine ⟨upper, ?_, hupper⟩
    rw [Machine.frame?, hframes]
    rfl
  exact ⟨module, frame, hmodule, hframe, hcall, hnames,
    locals_visible_in_calls hmodule 1000 _ _ hframe hcall⟩

/-- A loop whose body ends with a call of the host. -/
def waitingLoopSource : String := "while true do\n  var x = true\n  wait()\nend\n"

/-- While the call that ends the loop's body waits, the variable that the body declares is not
listed. -/
theorem variable_hidden_in_call : ∃ (module : Module Unit) (frame : Frame) (code : FunctionCode)
    (l : LocalInfo),
    compile waitingLoopSource pausingHost = .ok module ∧
    let m := (Machine.start module 1000 (.initial ())).run 100
    m.frame? 0 = some frame ∧ m.InCall 0 (.host 0) ∧ module.function? frame.function = some code ∧
      code.instructions[frame.pc - 1]? = some (.callHost 0) ∧ l ∈ code.localsAt (frame.pc - 1) ∧
      l.name = "x" ∧
      m.localsInScope 0 = [] := by
  have hstops : ((compile waitingLoopSource pausingHost).map fun module =>
      (((Machine.start module 1000 (.initial ())).run 100).frames.map fun f => (f.function, f.pc),
        ((Machine.start module 1000 (.initial ())).run 100).pending.map (·.function),
        (((Machine.start module 1000 (.initial ())).run 100).localsInScope 0).length)) =
      .ok ([(0, 5)], some 0, 0) := by decide +kernel
  have hcode : ((compile waitingLoopSource pausingHost).map fun module =>
      (module.function? 0).map fun code : FunctionCode => (code.localsAt 4).map (·.name)) =
        .ok (some ["x"]) := by decide +kernel
  obtain ⟨module, hmodule, hstops⟩ := Diagnosed.map_eq_ok.mp hstops
  rw [hmodule, Except.map, Except.ok.injEq] at hcode
  simp only [Prod.mk.injEq, Option.map_eq_some_iff, List.map_eq_singleton_iff,
    List.length_eq_zero_iff] at hstops hcode
  obtain ⟨⟨frame, hframes, hfunction, hpc⟩, ⟨call, hpending, hcalled⟩, hlisted⟩ := hstops
  obtain ⟨code, hcode, l, hlocals, hname⟩ := hcode
  have hframe : ((Machine.start module 1000 (.initial ())).run 100).frame? 0 = some frame := by
    rw [Machine.frame?, hframes]
    rfl
  have hcall : ((Machine.start module 1000 (.initial ())).run 100).InCall 0 (.host 0) := by
    refine ⟨?_, call, hpending, hcalled⟩
    rw [Machine.depth, hframes, List.length_singleton]
  obtain ⟨-, code', here, hcode', hhere, hI⟩ :=
    Machine.InCall.behind_compiled hmodule [.act (.run 100)] hcall hframe
  rw [hfunction, hcode, Option.some.injEq] at hcode'
  subst hcode'
  rw [hpc] at hhere
  refine ⟨module, frame, code, l, hmodule, hframe, hcall, ?_, ?_, ?_, hname, hlisted⟩
  · rw [hfunction]
    exact hcode
  · rw [hpc, hhere, Nat.add_sub_cancel]
    exact hI
  · rw [hpc, show 5 - 1 = 4 from rfl, hlocals]
    exact List.mem_singleton.mpr rfl

end Stepwise
