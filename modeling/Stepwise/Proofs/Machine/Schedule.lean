import Stepwise.Proofs.Machine.Drive

/-!
# Schedules

The functions of a host may answer at once or by a future, and the environment may deliver the value
of a future at any moment. Here a host is given by its `Conduct`: what a call comes to, as a
function of the calls so far, the heap and the arguments, and whether the value is there at once,
comes later, or is delivered before the machine looks.

`Conduct.deferred` are the natives of such a host, and `Conduct.prompt` are the natives that give
every value at once. A machine on the first is compared with one on the second that executes single
instructions and nothing else.

**Transparency.** Whatever the machine is told to do, and whenever values are delivered, it is where
the prompt machine is after as many instructions, but for the value it still waits for
(`InStep.followAll`). So the order of running, stepping and delivering cannot be seen by the program
(`schedule_transparent`).
-/

set_option autoImplicit false

namespace Stepwise

variable {σ : Type}

/-! ## Hosts by their conduct -/

/-- When the value of a call is there: at once, once the environment delivers it, or in a future
that is complete when it is handed out. -/
inductive Timing where
  | atOnce
  | later
  | delivered
  deriving Repr, DecidableEq

/-- What a call comes to: its value, the heap behind it, and when the value is there. -/
structure Answer where
  value : Value
  heap : Heap
  timing : Timing
  deriving Repr

/-- How the functions of a host answer, given their number, the calls so far, the heap and the
arguments. -/
abbrev Conduct := Nat → List HostCall → Heap → List Value → Answer

/-- What a host with futures keeps: its calls, and the value promised with each future it has handed
out. -/
structure CallBook where
  calls : List HostCall
  promises : List Value
  deriving Repr

/-- The function of a number, with futures: each is new, and is promised the value that the call
comes to. -/
def Conduct.deferred (c : Conduct) (function : Nat) : Native CallBook := fun arguments w =>
  let a := c function w.env.calls w.heap arguments
  let calls := w.env.calls ++ [⟨function, arguments⟩]
  let handOut (f : Future) : Reply × World CallBook :=
    (.pending w.futures.size, ⟨a.heap, w.futures.push f, ⟨calls, w.env.promises ++ [a.value]⟩⟩)
  match a.timing with
  | .atOnce => (.ready a.value, ⟨a.heap, w.futures, ⟨calls, w.env.promises⟩⟩)
  | .later => handOut .waiting
  | .delivered => handOut (Future.waiting.complete a.value)

/-- The function of a number that gives its value at once. -/
def Conduct.prompt (c : Conduct) (function : Nat) : Native (List HostCall) := fun arguments w =>
  let a := c function w.env w.heap arguments
  (.ready a.value, ⟨a.heap, w.futures, w.env ++ [⟨function, arguments⟩]⟩)

/-- A host function with another native. -/
def HostFunction.withNative {τ : Type} (f : HostFunction σ) (native : Native τ) : HostFunction τ :=
  ⟨f.name, f.params, f.resultName, f.isAsync, f.description, f.span, native⟩

@[simp] theorem params_withNative {τ : Type} (f : HostFunction σ) (native : Native τ) :
    (f.withNative native).params = f.params := rfl

@[simp] theorem native_withNative {τ : Type} (f : HostFunction σ) (native : Native τ) :
    (f.withNative native).native = native := rfl

@[simp] theorem returnsValue_withNative {τ : Type} (f : HostFunction σ) (native : Native τ) :
    (f.withNative native).returnsValue = f.returnsValue := rfl

/-- A module with other natives, given by the number of the function. -/
def Module.withNatives {τ : Type} (program : Module σ) (natives : Nat → Native τ) : Module τ :=
  ⟨program.functions, program.registry, program.hostFunctions.mapIdx fun i f =>
    f.withNative (natives i)⟩

theorem hostFunction?_withNatives {τ : Type} (program : Module σ) (natives : Nat → Native τ)
    (i : Nat) :
    (program.withNatives natives).hostFunction? i =
      (program.hostFunction? i).map fun f => f.withNative (natives i) := by
  simp [Module.hostFunction?, Module.withNatives, List.getElem?_mapIdx]

namespace Machine

/-! ## Moves -/

/-- Delivers the value promised with a future, unless there is no such future or it has been
delivered before. -/
def deliver (m : Machine CallBook) (future : Nat) : Machine CallBook :=
  match m.world.env.promises[future]? with
  | none => m
  | some v => if m.world.isCompleted future then m else m.complete future v

end Machine

/-- What can happen to a machine on a host with futures: an action, or the delivery of a promised
value. -/
inductive Move where
  | act (a : Action)
  | deliver (future : Nat)
  deriving Repr

namespace Machine

/-- The machine after a move. -/
def follow (m : Machine CallBook) : Move → Machine CallBook
  | .act a => m.perform a
  | .deliver future => m.deliver future

/-- The machine after moves in a row. -/
def followAll (m : Machine CallBook) (moves : List Move) : Machine CallBook := moves.foldl follow m

/-- The machines of which moves in a row execute an instruction, in order. -/
def followed (m : Machine CallBook) : List Move → List (Machine CallBook)
  | [] => []
  | .act a :: rest => m.executed a ++ (m.perform a).followed rest
  | .deliver future :: rest => (m.deliver future).followed rest

/-- What the outstanding call will push: the promised value if its function yields one, and else
nothing. -/
def owed (m : Machine CallBook) : List Value :=
  match m.pending with
  | none => []
  | some call => if m.awaitsValue call then (m.world.env.promises[call.future]?).toList else []

/-! ## Two machines in step -/

/-- The prompt machine `p` is where the machine `m` is, but for the value that `m` waits for. -/
structure InStep (program : Module σ) (c : Conduct) (m : Machine CallBook)
    (p : Machine (List HostCall)) :
    Prop where
  deferred : m.module = program.withNatives c.deferred
  prompt : p.module = program.withNatives c.prompt
  frames : p.frames = m.frames
  stack : p.stack = m.owed ++ m.stack
  heap : p.world.heap = m.world.heap
  calls : p.world.env = m.world.env.calls
  /-- Every future has its promise. -/
  promises : m.world.env.promises.length = m.world.futures.size
  /-- The future waited for holds what was promised with it, once that is delivered. -/
  awaited : ∀ call, m.pending = some call → ∃ v f, m.world.env.promises[call.future]? = some v ∧
    m.world.futures[call.future]? = some f ∧ (f.completed = true → f.value = v)
  /-- A completed machine has come to its end. -/
  ended : m.phase = .completed → m.frames = []

/-- Setting a field changes nothing of the world but the heap. -/
theorem worldWithField_eq (m : Machine σ) (index : Nat) (record value : Value) :
    m.worldWithField index record value =
      { m.world with heap :=
        (record.record?.map fun id => m.world.heap.set id index value).getD m.world.heap } := by
  unfold worldWithField
  cases record.record? <;> rfl

namespace InStep

variable {program : Module σ} {c : Conduct} {m : Machine CallBook} {p : Machine (List HostCall)}

theorem function? (h : InStep program c m p) (i : Nat) :
    p.module.function? i = m.module.function? i := by
  rw [h.prompt, h.deferred]
  rfl

/-- The numbers of host functions mean functions of one description on both machines. -/
theorem hostFunction? (h : InStep program c m p) (i : Nat) :
    (m.module.hostFunction? i = none ∧ p.module.hostFunction? i = none) ∨
      ∃ f, m.module.hostFunction? i = some (f.withNative (c.deferred i)) ∧
        p.module.hostFunction? i = some ((f : HostFunction σ).withNative (c.prompt i)) := by
  rw [h.deferred, h.prompt, hostFunction?_withNatives, hostFunction?_withNatives]
  cases program.hostFunction? i with
  | none => exact .inl ⟨rfl, rfl⟩
  | some f => exact .inr ⟨f, rfl, rfl⟩

theorem stack_eq (h : InStep program c m p) (hp : m.pending = none) : p.stack = m.stack := by
  simp [h.stack, owed, hp]

/-- Machines in step stay so when both change their activations, operands and heap alike. -/
theorem alike (h : InStep program c m p) (hp : m.pending = none) (hf : m.frames ≠ [])
    (frames : List Frame) (stack : List Value) (heap : Heap) :
    InStep program c { m with frames, stack, world := { m.world with heap } }
      { p with frames, stack, world := { p.world with heap } } where
  deferred := h.deferred
  prompt := h.prompt
  frames := rfl
  stack := by simp [owed, hp]
  heap := rfl
  calls := h.calls
  promises := h.promises
  awaited call hcall := by simp [hp] at hcall
  ended hphase := absurd (h.ended hphase) hf

theorem withFrames (h : InStep program c m p) (hp : m.pending = none) (hf : m.frames ≠ [])
    (frames : List Frame) : InStep program c { m with frames } { p with frames } := by
  obtain ⟨_, _, _, _, _, _, _, heap, _, _⟩ := p
  obtain rfl := h.stack_eq hp
  obtain rfl := h.heap
  exact h.alike hp hf frames m.stack m.world.heap

/-- Ending an activation keeps machines in step. -/
theorem leave (h : InStep program c m p) (hp : m.pending = none) (hf : m.frames ≠ [])
    (code : FunctionCode) : InStep program c (m.leave code) (p.leave code) := by
  obtain ⟨_, _, _, _, _, _, _, heap, _, _⟩ := p
  obtain rfl := h.stack_eq hp
  obtain rfl := h.frames
  obtain rfl := h.heap
  unfold Machine.leave
  dsimp only
  split
  · contradiction
  · exact h.alike hp hf _ _ m.world.heap

/-- A call of the host keeps machines in step: an answer that is still to come is what the one waits
for and the other has pushed. -/
theorem callHost (h : InStep program c m p) (hp : m.pending = none) (hf : m.frames ≠ []) (i : Nat)
    {f : HostFunction σ} (hm : m.module.hostFunction? i = some (f.withNative (c.deferred i))) :
    InStep program c (m.callHost i (f.withNative (c.deferred i)))
      (p.callHost i (f.withNative (c.prompt i))) := by
  obtain ⟨_, _, _, _, _, _, _, heap, _, _⟩ := p
  obtain rfl := h.stack_eq hp
  obtain rfl := h.frames
  obtain rfl := h.heap
  obtain rfl := h.calls
  have hpromises := h.promises
  unfold Machine.callHost
  simp only [params_withNative, native_withNative, returnsValue_withNative, Conduct.deferred,
    Conduct.prompt, arguments]
  generalize c i m.world.env.calls m.world.heap (List.take f.params.length m.stack).reverse = a
  have hend : m.phase ≠ .completed := fun hphase => hf (h.ended hphase)
  -- By the moment at which the value is there; a future that is handed out is the next one and has
  -- the next promise.
  obtain ⟨v, heap, timing⟩ := a
  cases timing with
  | atOnce =>
      dsimp only
      refine ⟨h.deferred, h.prompt, rfl, ?_, rfl, rfl, h.promises,
        by simp [hp], fun hphase => absurd hphase hend⟩
      simp only [owed, hp]
      rfl
  | later =>
      dsimp only
      refine ⟨h.deferred, h.prompt, rfl, ?_, rfl, rfl,
        by simp [hpromises], ?_, fun hphase => absurd hphase hend⟩
      · by_cases hr : f.returnsValue = true <;> simp [owed, awaitsValue, hm, hr, ← hpromises]
      · rintro call ⟨rfl⟩
        exact ⟨v, .waiting, by simp [← hpromises], by simp, by simp [Future.waiting]⟩
  | delivered =>
      dsimp only
      refine ⟨h.deferred, h.prompt, rfl, ?_, rfl, rfl,
        by simp [hpromises], ?_, fun hphase => absurd hphase hend⟩
      · by_cases hr : f.returnsValue = true <;> simp [owed, awaitsValue, hm, hr, ← hpromises]
      · rintro call ⟨rfl⟩
        exact ⟨v, Future.waiting.complete v, by simp [← hpromises], by simp, fun _ => rfl⟩

/-- Carrying out one instruction keeps machines in step. -/
theorem execute (h : InStep program c m p) (hp : m.pending = none) (hf : m.frames ≠ [])
    (code : FunctionCode) (frame : Frame) (callers : List Frame) (instruction : Instruction) :
    InStep program c (m.execute code frame callers instruction)
      (p.execute code frame callers instruction) := by
  have hfun := h.function?
  have hhost := h.hostFunction?
  obtain ⟨_, _, _, _, _, _, _, heap, _, _⟩ := p
  obtain rfl := h.stack_eq hp
  obtain rfl := h.frames
  obtain rfl := h.heap
  have hmoved := h.alike hp hf (frame :: callers) m.stack m.world.heap
  cases instruction with
  | push constant => exact h.alike hp hf _ _ m.world.heap
  | pop => exact h.alike hp hf _ _ m.world.heap
  | dup => exact h.alike hp hf _ _ m.world.heap
  | load slot => exact h.alike hp hf _ _ m.world.heap
  | store slot => exact h.alike hp hf _ _ m.world.heap
  | loadField index => exact h.alike hp hf _ _ m.world.heap
  | storeField index =>
      simp only [Machine.execute, worldWithField_eq]
      exact h.alike hp hf _ _ _
  | jump target => exact h.alike hp hf _ _ m.world.heap
  | jumpIfTrue target => exact h.alike hp hf _ _ m.world.heap
  | jumpIfFalse target => exact h.alike hp hf _ _ m.world.heap
  | call index =>
      unfold Machine.execute
      dsimp only
      rw [hfun index]
      cases m.module.function? index with
      | none => exact hmoved
      | some callee => exact h.alike hp hf _ _ m.world.heap
  | callHost index =>
      unfold Machine.execute
      dsimp only
      rcases hhost index with ⟨hm, hp'⟩ | ⟨f, hm, hp'⟩
      · rw [hm, hp']
        exact hmoved
      · rw [hm, hp']
        exact hmoved.callHost hp (List.cons_ne_nil _ _) index hm
  | ret => exact hmoved.leave hp (List.cons_ne_nil _ _) code
  | binary op => exact h.alike hp hf _ _ m.world.heap
  | unary op => exact h.alike hp hf _ _ m.world.heap
  | concat => exact h.alike hp hf _ _ m.world.heap

/-- **One instruction keeps machines in step.** -/
theorem step (h : InStep program c m p) (hp : m.pending = none) (hf : m.frames ≠ []) :
    InStep program c m.step p.step := by
  cases hm : m.frames with
  | nil => exact absurd hm hf
  | cons frame callers =>
      have hpf := h.frames.trans hm
      have hfun := h.function? frame.function
      unfold Machine.step
      rw [hm, hpf]
      dsimp only
      rw [hfun]
      cases hcode : m.module.function? frame.function with
      | none => exact h.withFrames hp hf callers
      | some code =>
          dsimp only
          cases code.instructions[frame.pc]? with
          | none => exact h.leave hp hf code
          | some instruction => exact h.execute hp hf code _ callers instruction

/-- Taking an answer that is there pushes the promised value if there is to be one. -/
theorem stack_resume (h : InStep program c m p) {call : PendingCall} (hp : m.pending = some call)
    (hdone : m.world.isCompleted call.future = true) :
    ∃ v, m.world.env.promises[call.future]? = some v ∧
      m.resume.stack = if m.awaitsValue call then v :: m.stack else m.stack := by
  obtain ⟨v, f, hv, hfuture, hkept⟩ := h.awaited call hp
  have hcompleted : f.completed = true := by simpa [World.isCompleted, hfuture] using hdone
  refine ⟨v, hv, ?_⟩
  rw [resume_of_pending hp, ← hkept hcompleted]
  simp [World.takeValue, hfuture]

/-- Taking an answer that is there pushes what was owed, and the prompt machine need not move. -/
theorem resume (h : InStep program c m p) {call : PendingCall} (hp : m.pending = some call)
    (hdone : m.world.isCompleted call.future = true) : InStep program c m.resume p := by
  obtain ⟨v, hv, hstack⟩ := h.stack_resume hp hdone
  have hpushed : p.stack = m.resume.stack := by
    rw [h.stack, hstack, owed, hp]
    dsimp only
    rw [hv]
    split <;> rfl
  rw [resume_of_pending hp] at hpushed ⊢
  exact ⟨h.deferred, h.prompt, h.frames, hpushed, h.heap, h.calls,
    by simpa [World.takeValue] using h.promises, by simp, h.ended⟩

/-- Delivering a promised value keeps machines in step. -/
theorem deliver (h : InStep program c m p) (future : Nat) :
    InStep program c (m.deliver future) p := by
  unfold Machine.deliver
  cases hv : m.world.env.promises[future]? with
  | none => exact h
  | some v =>
      dsimp only
      split
      · exact h
      · refine ⟨h.deferred, h.prompt, h.frames, h.stack, h.heap, h.calls, ?_, ?_, h.ended⟩
        · simpa [Machine.complete, World.complete] using h.promises
        · intro call hcall
          obtain ⟨u, f, hu, hfuture, hkept⟩ := h.awaited call hcall
          refine ⟨u, if future = call.future then f.complete v else f, hu, ?_, ?_⟩
          · by_cases heq : future = call.future <;>
              simp [Machine.complete, World.complete, Array.getElem?_modify, hfuture, heq]
          · by_cases heq : future = call.future
            · subst heq
              rw [hv] at hu
              cases hu
              simp [Future.complete]
            · simpa [heq] using hkept

/-- Both machines begin their program in step. -/
theorem start (program : Module σ) (c : Conduct) (heap : Heap) (limit limit' : Nat) :
    InStep program c (Machine.start (program.withNatives c.deferred) limit ⟨heap, #[], ⟨[], []⟩⟩)
      (Machine.start (program.withNatives c.prompt) limit' ⟨heap, #[], []⟩) where
  deferred := rfl
  prompt := rfl
  frames := rfl
  stack := rfl
  heap := rfl
  calls := rfl
  promises := rfl
  awaited call hcall := by simp [Machine.start, restart] at hcall
  ended hphase := by simp [Machine.start, restart] at hphase

/-- Being in step with the prompt machine after as many instructions survives every action, and no
instruction is executed while a call is outstanding. -/
theorem invariant (program : Module σ) (c : Conduct) (p : Machine (List HostCall)) :
    Invariant fun xs m => InStep program c m (Machine.step^[xs.length] p) ∧ ∀ x ∈ xs,
    x.pending = none where
  step := by
    rintro xs m ⟨h, hxs⟩ hp hf
    rw [List.length_append, List.length_singleton, Function.iterate_succ_apply']
    refine ⟨h.step hp hf, fun x hx => ?_⟩
    rcases List.mem_append.mp hx with hx | hx
    · exact hxs x hx
    · rw [List.mem_singleton.mp hx]
      exact hp
  resume := by
    rintro xs m call ⟨h, hxs⟩ - hp hdone
    exact ⟨h.resume hp hdone, hxs⟩
  settle := by
    rintro xs m ⟨h, hxs⟩ hf
    exact ⟨⟨h.deferred, h.prompt, h.frames, h.stack, h.heap, h.calls, h.promises, h.awaited,
      fun _ => hf⟩, hxs⟩
  breakpoints := by
    rintro xs m table ⟨h, hxs⟩
    exact ⟨⟨h.deferred, h.prompt, h.frames, h.stack, h.heap, h.calls, h.promises, h.awaited,
      h.ended⟩, hxs⟩

/-- **Every sequence of moves leaves a machine in step** with the prompt machine after as many
instructions. -/
theorem followAll (program : Module σ) (c : Conduct) (p : Machine (List HostCall))
    (moves : List Move) :
    ∀ (xs : List (Machine CallBook)) {m : Machine CallBook},
      (InStep program c m (Machine.step^[xs.length] p) ∧ ∀ x ∈ xs, x.pending = none) →
        InStep program c (m.followAll moves) (Machine.step^[(xs ++ m.followed moves).length] p) ∧
          ∀ x ∈ xs ++ m.followed moves, x.pending = none := by
  induction moves with
  | nil =>
      intro xs m h
      simpa [Machine.followAll, followed] using h
  | cons move rest ih =>
      rintro xs m ⟨h, hxs⟩
      cases move with
      | act a =>
          have hnext := ih _ ((invariant program c p).perform ⟨h, hxs⟩ a)
          rw [List.append_assoc] at hnext
          exact hnext
      | deliver future => exact ih _ ⟨h.deliver future, hxs⟩

end InStep

/-- Two numbers of instructions that lead to the end of a program lead to the same machine. -/
theorem iterate_step_eq_of_ended {m : Machine σ} {j k : Nat} (hj : (step^[j] m).frames = [])
    (hk : (step^[k] m).frames = []) : step^[j] m = step^[k] m :=
  iterate_eq_of_fixed (step_of_frames_nil _ hj) (step_of_frames_nil _ hk)

end Machine

/-! ## Transparency -/

/-- **Schedules are transparent.** Take any program, compiled or not, on a host whose calls come to
what its conduct says, with futures that are new and delivered at most once. After any actions and
deliveries in any order the machine has the activations, operands, heap and calls that it has on the
host that answers at once after as many single instructions, but that a value still awaited is not
pushed yet. No instruction is executed while a call is outstanding; while the answer is not there no
action changes anything, and once it is, taking it pushes the promised value if the function yields
one and clears the call. Two schedules that complete the program leave the same heap and the same
calls. -/
theorem schedule_transparent (program : Module σ) (c : Conduct) (heap : Heap) (limit : Nat)
    (moves : List Move) :
    let first (limit : Nat) :=
  Machine.start (program.withNatives c.deferred) limit ⟨heap, #[], ⟨[], []⟩⟩
    let m := (first limit).followAll moves
    let executed := (first limit).followed moves
    let p := Machine.step^[executed.length]
      (Machine.start (program.withNatives c.prompt) limit ⟨heap, #[], []⟩)
    (p.frames = m.frames ∧ p.stack = m.owed ++ m.stack ∧ p.world.heap = m.world.heap ∧
        p.world.env = m.world.env.calls) ∧
      (∀ x ∈ executed, x.pending = none) ∧
      (m.isSuspended = true → ∀ a, m.executed a = [] ∧ (m.perform a).frames = m.frames ∧
        (m.perform a).stack = m.stack ∧ (m.perform a).pending = m.pending ∧
        (m.perform a).world = m.world) ∧
      (∀ call, m.pending = some call → m.world.isCompleted call.future = true →
        ∃ v, m.world.env.promises[call.future]? = some v ∧
          m.resume.stack = (if m.awaitsValue call then v :: m.stack else m.stack) ∧
          m.resume.pending = none) ∧
      (∀ (limit' : Nat) (moves' : List Move), m.phase = .completed →
        ((first limit').followAll moves').phase = .completed →
          ((first limit').followAll moves').world.heap = m.world.heap ∧
            ((first limit').followAll moves').world.env.calls = m.world.env.calls) := by
  intro first m executed p
  have hstart := fun limit' => Machine.InStep.start program c heap limit' limit
  have hall := fun limit' moves' => Machine.InStep.followAll program c
    (Machine.start (program.withNatives c.prompt) limit ⟨heap, #[], []⟩) moves' []
    ⟨hstart limit', by simp⟩
  obtain ⟨h, hxs⟩ := hall limit moves
  refine ⟨⟨h.frames, h.stack, h.heap, h.calls⟩, hxs, fun hs a => m.perform_of_suspended hs
    a, ?_, ?_⟩
  · intro call hp hdone
    obtain ⟨v, hv, hstack⟩ := h.stack_resume hp hdone
    exact ⟨v, hv, hstack, by rw [Machine.resume_of_pending hp]⟩
  · intro limit' moves' hdone hdone'
    obtain ⟨h', -⟩ := hall limit' moves'
    have heq :=
      Machine.iterate_step_eq_of_ended (h.frames.trans (h.ended hdone))
        (h'.frames.trans (h'.ended hdone'))
    exact ⟨by rw [← h'.heap, ← h.heap, heq], by rw [← h'.calls, ← h.calls, heq]⟩

end Stepwise
