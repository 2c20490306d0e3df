import Stepwise.Proofs.Machine.Calling

/-!
# Calls and their callers

A call takes its arguments from the operands of its caller, and the activation that it begins has
its own operands on top of the others. No instruction takes an operand that its activation does not
have, and whatever is called in turn has its operands further up. So as long as the call goes on,
its caller stands behind the call and the operands from below the arguments stay where they are
(`Within.step`), and when it returns only its value has been put on top of them (`Behind`).

`Turn` says what an instruction does to the activations and the operands. `Traced` is what follows
for every machine of a run, given the machines before it: calls that went on are kept, and the
uppermost activation has come where it is by an instruction of its own, be it a call that took long
(`Done`).
-/

set_option autoImplicit false

namespace Stepwise

variable {σ : Type}

/-! ## One instruction -/

/-- How many operands an instruction leaves once it is done; a call is done when its value is
there. -/
def Instruction.leaves (module : Module σ) : Instruction → Nat
  | .push _ | .load _ | .loadField _ | .unary _ | .binary _ | .concat => 1
  | .dup => 2
  | .pop | .store _ | .storeField _ | .jump _ | .jumpIfTrue _ | .jumpIfFalse _ | .ret => 0
  | .call index => if module.yields (.user index) then 1 else 0
  | .callHost index => if module.yields (.host index) then 1 else 0

namespace Machine

/-- What an instruction of the uppermost activation, with the operands that it takes, makes of the
machine. -/
inductive Turn (m : Machine σ) (frame : Frame) (callers : List Frame) (code : FunctionCode)
    (next : Machine σ) :
    Instruction → Prop
  | goes {I : Instruction} {target : Nat} {slots : List Value} (pushed : List Value) :
      I.Leads frame.pc target → next.frames = { frame with pc := target, slots } :: callers →
      (I.keepsSlots = true → slots = frame.slots) →
      next.stack = pushed ++ m.stack.drop (I.takes m.module code) →
      pushed.length = I.leaves m.module → next.pending = none → Turn m frame callers code next I
  | awaits {index : Nat} {call : PendingCall} :
      next.frames = { frame with pc := frame.pc + 1 } :: callers →
      next.stack = m.stack.drop ((Instruction.callHost index).takes m.module code) →
      next.pending = some call →
      call.function = index → Turn m frame callers code next (.callHost index)
  | enters {index : Nat} {callee : FunctionCode} :
      m.module.function? index = some callee →
      next.frames = Frame.enter callee (m.stack.drop callee.numParameters).length
        (m.arguments callee.numParameters) :: { frame with pc := frame.pc + 1 } :: callers →
      next.stack = m.stack.drop callee.numParameters → next.pending = none →
      Turn m frame callers code next (.call index)
  | leaves :
      next.frames = callers →
      next.stack = (if code.returnsValue then [m.resultAbove frame.base] else []) ++
        m.stack.drop (m.height - frame.base) →
      next.pending = none → Turn m frame callers code next .ret

variable {m : Machine σ} {frame : Frame} {callers : List Frame} {code : FunctionCode}
    {I : Instruction}

/-- **An instruction that finds its operands makes of the machine what `Turn` says.** -/
theorem step_turn (hpending : m.pending = none) (hframes : m.frames = frame :: callers)
    (hcode : m.module.function? frame.function = some code)
    (hI : code.instructions[frame.pc]? = some I)
    (hsupplied : I = .ret ∨ I.takes m.module code ≤ m.height) :
    Turn m frame callers code m.step I := by
  have hstep : m.step = m.execute code { frame with pc := frame.pc + 1 } callers I := by
    simp only [step, hframes, hcode, hI]
  have htwo (stack : List Value) : stack.tail.tail = stack.drop 2 := by
    rw [← List.drop_one, ← List.drop_one, List.drop_drop]
  rw [hstep]
  cases I with
  | push c => exact .goes [c.value] rfl rfl (fun _ => rfl) rfl rfl hpending
  | pop => exact .goes [] rfl rfl (fun _ => rfl) List.drop_one.symm rfl hpending
  | dup =>
      have hheight : 1 ≤ m.stack.length := hsupplied.resolve_left (by simp)
      obtain ⟨v, rest, hstack⟩ := List.exists_cons_of_length_pos hheight
      refine .goes [v, v] rfl rfl (fun _ => rfl) ?_ rfl hpending
      simp [execute, top, hstack, Instruction.takes]
  | load slot => exact .goes [frame.slot slot] rfl rfl (fun _ => rfl) rfl rfl hpending
  | store slot =>
    exact .goes [] rfl rfl (fun h => Bool.noConfusion h) List.drop_one.symm rfl hpending
  | loadField index =>
      exact .goes [m.fieldOf index m.top] rfl rfl (fun _ => rfl)
        (by simp [execute, Instruction.takes]) rfl hpending
  | storeField index =>
      exact .goes [] rfl rfl (fun _ => rfl) (htwo _) rfl hpending
  | jump target => exact .goes [] rfl rfl (fun _ => rfl) rfl rfl hpending
  | jumpIfTrue target =>
      simp only [execute]
      split
      · exact .goes [] (.inl rfl) rfl (fun _ => rfl) List.drop_one.symm rfl hpending
      · exact .goes [] (.inr rfl) rfl (fun _ => rfl) List.drop_one.symm rfl hpending
  | jumpIfFalse target =>
      simp only [execute]
      split
      · exact .goes [] (.inr rfl) rfl (fun _ => rfl) List.drop_one.symm rfl hpending
      · exact .goes [] (.inl rfl) rfl (fun _ => rfl) List.drop_one.symm rfl hpending
  | call index =>
      cases hcallee : m.module.function? index with
      | none =>
          refine .goes [] rfl (by simp only [execute, hcallee]) (fun _ => rfl) ?_ ?_ ?_
          · simp [execute, hcallee, Instruction.takes]
          · simp [Instruction.leaves, Module.yields, hcallee]
          · simp only [execute, hcallee]
            exact hpending
      | some callee =>
          simp only [execute, hcallee]
          exact .enters hcallee rfl rfl hpending
  | callHost index =>
      cases hf : m.module.hostFunction? index with
      | none =>
          refine .goes [] rfl (by simp only [execute, hf]) (fun _ => rfl) ?_ ?_ ?_
          · simp [execute, hf, Instruction.takes]
          · simp [Instruction.leaves, Module.yields, hf]
          · simp only [execute, hf]
            exact hpending
      | some f =>
          have htakes : (Instruction.callHost index).takes m.module code = f.params.length := by
            simp [Instruction.takes, hf]
          simp only [execute, hf, callHost]
          split
          · next v world hready =>
              refine .goes (if f.returnsValue then [v] else []) rfl rfl (fun _ => rfl) ?_ ?_
                hpending
              · rw [htakes]
                dsimp only
                split <;> rfl
              · simp only [Instruction.leaves, Module.yields, hf, Option.map_some, Option.getD_some]
                split <;> rfl
          · exact .awaits rfl (by rw [htakes]) rfl rfl
  | ret =>
      refine .leaves rfl ?_ hpending
      simp only [execute, leave, height]
      split <;> rfl
  | binary op =>
      exact .goes [op.apply m.second m.top] rfl rfl (fun _ => rfl) (congrArg (_ :: ·) (htwo _)) rfl
        hpending
  | unary op =>
      exact .goes [op.apply m.top] rfl rfl (fun _ => rfl) (by simp [execute, Instruction.takes]) rfl
        hpending
  | concat =>
      exact .goes [BinaryOp.concat.apply m.second m.top] rfl rfl (fun _ => rfl)
        (congrArg (_ :: ·) (htwo _)) rfl hpending

end Machine

/-! ## Calls and the activations that wait for them -/

/-- A call of a function: its code, the activation that calls it and those below, the arguments, and
the operands below these. -/
structure UserCall where
  callee : FunctionCode
  caller : Frame
  callers : List Frame
  arguments : List Value
  rest : List Value
  deriving Repr

namespace UserCall

/-- The caller while it waits. -/
def behind (c : UserCall) : Frame := { c.caller with pc := c.caller.pc + 1 }

/-- The activation that the call begins. -/
def entered (c : UserCall) : Frame := Frame.enter c.callee c.rest.length c.arguments

/-- The activations of a call that goes on. The lowest one is of the function that was called and
has its operands above those of the caller, and so have all that are above it. -/
inductive Above (c : UserCall) : List Frame → Prop
  | bottom {frame : Frame} : frame.function = c.callee.index → frame.base = c.rest.length →
      Above c (frame :: c.behind :: c.callers)
  | inner {frame : Frame} {frames : List Frame} : c.rest.length ≤ frame.base → Above c frames →
      Above c (frame :: frames)

theorem Above.base_le {c : UserCall} {frame : Frame} {frames : List Frame}
    (h : c.Above (frame :: frames)) :
    c.rest.length ≤ frame.base := by
  cases h with
  | bottom _ hbase => exact hbase.symm.le
  | inner hbase _ => exact hbase

/-- The uppermost activation may go on. -/
theorem Above.goes {c : UserCall} {frame : Frame} {frames : List Frame}
    (h : c.Above (frame :: frames)) (pc : Nat) (slots : List Value) :
    c.Above ({ frame with pc, slots } :: frames) := by
  cases h with
  | bottom hfunction hbase => exact .bottom hfunction hbase
  | inner hbase habove => exact .inner hbase habove

theorem Above.suffix {c : UserCall} {frames : List Frame} (h : c.Above frames) :
    c.behind :: c.callers <:+ frames := by
  induction h with
  | bottom => exact List.suffix_cons _ _
  | inner _ _ ih => exact ih.trans (List.suffix_cons _ _)

theorem Above.length_lt {c : UserCall} {frames : List Frame} (h : c.Above frames) :
    c.callers.length + 1 < frames.length := by
  induction h with
  | bottom => simp
  | inner _ _ ih => exact Nat.lt_succ_of_lt ih

end UserCall

namespace Machine

/-- The machine is about to make a call. -/
structure Calls (m : Machine σ) (c : UserCall) : Prop where
  pending : m.pending = none
  instruction : m.instruction? = some (.call c.callee.index)
  callee : m.module.function? c.callee.index = some c.callee
  frames : m.frames = c.caller :: c.callers
  supplied : c.arguments.length = c.callee.numParameters
  stack : m.stack = c.arguments.reverse ++ c.rest

/-- The call goes on. -/
structure Within (m : Machine σ) (c : UserCall) : Prop where
  frames : c.Above m.frames
  stack : c.rest <:+ m.stack

/-- The call has returned just now. -/
structure Behind (m : Machine σ) (c : UserCall) : Prop where
  frames : m.frames = c.behind :: c.callers
  pending : m.pending = none
  stack : ∃ result : List Value, m.stack = result ++ c.rest ∧
    result.length = if c.callee.returnsValue then 1 else 0

variable {m : Machine σ} {c : UserCall}

theorem Calls.depth_eq (h : m.Calls c) : m.depth = c.callers.length + 1 := by
  rw [depth, h.frames, List.length_cons]

theorem Within.depth_lt (h : m.Within c) : c.callers.length + 1 < m.depth := h.frames.length_lt

theorem Behind.depth_eq (h : m.Behind c) : m.depth = c.callers.length + 1 := by
  rw [depth, h.frames, List.length_cons]

theorem Within.congr {m' : Machine σ} (h : m.Within c) (hframes : m'.frames = m.frames)
    (hstack : m.stack <:+ m'.stack) : m'.Within c :=
  ⟨hframes ▸ h.frames, h.stack.trans hstack⟩

/-- The arguments that a machine about to make a call takes from its operands. -/
theorem Calls.arguments_eq (h : m.Calls c) : m.arguments c.callee.numParameters = c.arguments := by
  rw [arguments, h.stack, ← h.supplied, ← List.length_reverse, List.take_left, List.reverse_reverse]

theorem Calls.drop_eq (h : m.Calls c) : m.stack.drop c.callee.numParameters = c.rest := by
  rw [h.stack, ← h.supplied, ← List.length_reverse, List.drop_left]

theorem Calls.code (h : m.Calls c) : ∃ code, m.module.function? c.caller.function = some code ∧
    code.instructions[c.caller.pc]? = some (.call c.callee.index) := by
  have hinstruction := h.instruction
  simp only [instruction?, h.frames, List.head?_cons, Option.bind_eq_bind, Option.bind_some,
    Option.bind_eq_some_iff] at hinstruction
  exact hinstruction

/-- **A call begins an activation of its function on the operands below the arguments.** -/
theorem Calls.step (h : m.Calls c) :
    m.step.frames = c.entered :: c.behind :: c.callers ∧ m.step.stack = c.rest ∧
    m.step.pending = none := by
  obtain ⟨code, hcode, hI⟩ := h.code
  have hstep : m.step = m.execute code c.behind c.callers (.call c.callee.index) := by
    simp only [Machine.step, h.frames, hcode, hI]
    rfl
  rw [hstep]
  simp only [execute, h.callee, enter]
  refine ⟨?_, h.drop_eq, h.pending⟩
  rw [h.drop_eq, UserCall.entered]
  congr 2
  exact h.arguments_eq

theorem Calls.within_step (h : m.Calls c) : m.step.Within c := by
  obtain ⟨hframes, hstack, -⟩ := h.step
  refine ⟨?_, ?_⟩
  · rw [hframes]
    exact .bottom rfl rfl
  · exact hstack.symm ▸ List.suffix_refl c.rest

variable {p : CheckedProgram σ}

/-- An instruction finds its operands among those of its activation, so it makes of the machine what
`Turn` says. -/
theorem Disciplined.turn (h : m.Disciplined p) (hpending : m.pending = none) {frame : Frame}
    {callers : List Frame} (hframes : m.frames = frame :: callers) :
    ∃ (code : FunctionCode) (I : Instruction), m.module.function? frame.function = some code ∧
      code.instructions[frame.pc]? = some I ∧
      (I = .ret ∨ frame.base + I.takes m.module code ≤ m.height) ∧
      Turn m frame callers code m.step I := by
  obtain ⟨code, I, hcode, hI, -⟩ := h.located frame (by rw [hframes]; exact List.mem_cons_self)
  have hsupplied : I = .ret ∨ frame.base + I.takes m.module code ≤ m.height :=
    (h.supplied hpending frame code I (by rw [hframes, List.head?_cons]) hcode hI).elim .inr
      fun hends => .inl hends.2.1
  exact ⟨code, I, hcode, hI, hsupplied, step_turn hpending hframes hcode hI
    (hsupplied.imp_right fun h => by omega)⟩

/-- **A call that goes on goes on or returns**, and leaves the operands below its arguments as they
are. -/
theorem Within.step (h : m.Within c) (hpending : m.pending = none) (hdisciplined : m.Disciplined p)
    (hcallee : m.module.function? c.callee.index = some c.callee) :
    m.step.Within c ∨ m.step.Behind c := by
  obtain ⟨frame, frames, hframes⟩ := List.exists_cons_of_ne_nil (List.ne_nil_of_length_pos
    (Nat.lt_of_le_of_lt (Nat.zero_le _) h.depth_lt))
  obtain ⟨code, I, hcode, -, hsupplied, hturn⟩ := hdisciplined.turn hpending hframes
  have habove := h.frames
  rw [hframes] at habove
  have hbase := habove.base_le
  have hkeeps (count : Nat) (hcount : c.rest.length + count ≤ m.height) :
      c.rest <:+ m.stack.drop count := by
    refine List.suffix_of_suffix_length_le h.stack (List.drop_suffix _ _) ?_
    rw [List.length_drop]
    exact Nat.le_sub_of_add_le hcount
  cases hturn with
  | goes pushed hleads hnext _ hstack _ _ =>
      have htakes := hsupplied.resolve_left fun hret => by rw [hret] at hleads; exact hleads
      refine .inl ⟨hnext ▸ habove.goes _ _, ?_⟩
      rw [hstack]
      exact (hkeeps _ (by omega)).trans (List.suffix_append _ _)
  | awaits hnext hstack _ _ =>
      have htakes := hsupplied.resolve_left (by simp)
      refine .inl ⟨hnext ▸ habove.goes _ _, ?_⟩
      rw [hstack]
      exact hkeeps _ (by omega)
  | @enters _ callee hfound hnext hstack _ =>
      have htakes := hsupplied.resolve_left (by simp)
      rw [Instruction.takes, hfound, Option.map_some, Option.getD_some] at htakes
      have hrest := hkeeps callee.numParameters (by omega)
      refine .inl ⟨?_, by rwa [hstack]⟩
      rw [hnext]
      exact .inner hrest.length_le (habove.goes _ _)
  | leaves hnext hstack hidle =>
      have hrest : c.rest.length ≤ m.height := h.stack.length_le
      cases habove with
      | bottom hfunction hbase =>
          rw [hfunction, hcallee, Option.some.injEq] at hcode
          subst hcode
          rw [hbase, height, ← List.suffix_iff_eq_drop.mp h.stack] at hstack
          refine .inr ⟨hnext, hidle, _, hstack, ?_⟩
          split <;> rfl
      | inner _ habove =>
          refine .inl ⟨hnext ▸ habove, ?_⟩
          rw [hstack]
          exact (hkeeps _ (by omega)).trans (List.suffix_append _ _)

/-! ## Every run -/

/-- The machines of which events execute an instruction, as far as they come behind the last
restart, and then the machine that the events lead to. -/
def trail (m : Machine σ) (events : List Event) : List (Machine σ) :=
  m.sinceRestart [] events ++ [m.handleAll events]

/-- The next instruction of `m` is done in `y`: the activation has gone on as it leads, and on its
operands lies what the instruction leaves. -/
inductive Done (m y : Machine σ) : Prop
  | intro {frame : Frame} {callers : List Frame} {code : FunctionCode} {I : Instruction}
      {target : Nat}
      {slots : List Value} (pushed : List Value) :
      m.frames = frame :: callers → m.module.function? frame.function = some code →
      code.instructions[frame.pc]? = some I → I.takes m.module code ≤ m.height →
      I.Leads frame.pc target →
      y.frames = { frame with pc := target, slots } :: callers →
      (I.keepsSlots = true → slots = frame.slots) →
      y.stack = pushed ++ m.stack.drop (I.takes m.module code) → pushed.length = I.leaves m.module →
      Done m y

/-- The next instruction of `m` calls the host, and `y` waits for the answer. -/
inductive Awaits (m y : Machine σ) : Prop
  | intro {frame : Frame} {callers : List Frame} {code : FunctionCode} {call : PendingCall} :
      m.frames = frame :: callers → m.module.function? frame.function = some code →
      code.instructions[frame.pc]? = some (.callHost call.function) →
      (Instruction.callHost call.function).takes m.module code ≤ m.height →
      y.frames = { frame with pc := frame.pc + 1 } :: callers →
      y.stack = m.stack.drop ((Instruction.callHost call.function).takes m.module code) →
      y.pending = some call →
      Awaits m y

/-- An answer that is taken completes its call. -/
theorem Awaits.resume {y : Machine σ} (h : m.Awaits y) (hmodule : y.module = m.module) :
    m.Done y.resume := by
  obtain @⟨frame, callers, code, call, hframes, hcode, hI, htakes, hnext, hstack, hpending⟩ := h
  have hyields : m.module.yields (.host call.function) = y.awaitsValue call := by
    rw [awaitsValue, hmodule]; rfl
  rw [resume_of_pending hpending]
  refine .intro (if y.awaitsValue call then [(y.world.takeValue call.future).1] else []) hframes
    hcode hI htakes rfl hnext (fun _ => rfl) ?_ ?_
  · rw [hstack]
    dsimp only
    split <;> rfl
  · rw [Instruction.leaves, hyields]
    split <;> rfl

/-- A call that has returned is done. -/
theorem Calls.done (h : m.Calls c) {y : Machine σ} (hbehind : y.Behind c) : m.Done y := by
  obtain ⟨code, hcode, hI⟩ := h.code
  obtain ⟨result, hstack, hresult⟩ := hbehind.stack
  have htakes : (Instruction.call c.callee.index).takes m.module code = c.callee.numParameters := by
    rw [Instruction.takes, h.callee, Option.map_some, Option.getD_some]
  refine .intro result h.frames hcode hI ?_ rfl hbehind.frames (fun _ => rfl) ?_ ?_
  · rw [htakes, height, h.stack, List.length_append, List.length_reverse, h.supplied]
    exact Nat.le_add_right _ _
  · rw [htakes, h.drop_eq, hstack]
  · rw [Instruction.leaves, Module.yields, h.callee, Option.map_some, Option.getD_some, hresult]

theorem Behind.congr {m' : Machine σ} (h : m.Behind c) (hframes : m'.frames = m.frames)
    (hstack : m'.stack = m.stack) (hpending : m'.pending = m.pending) : m'.Behind c :=
  ⟨hframes.trans h.frames, hpending.trans h.pending, hstack ▸ h.stack⟩

theorem Done.congr {y y' : Machine σ} (h : m.Done y) (hframes : y'.frames = y.frames)
    (hstack : y'.stack = y.stack) :
    m.Done y' := by
  obtain ⟨pushed, hcons, hcode, hI, htakes, hleads, hnext, hslots, hrest, hcount⟩ := h
  exact .intro pushed hcons hcode hI htakes hleads (hframes.trans hnext) hslots
    (hstack.trans hrest) hcount

theorem Awaits.congr {y y' : Machine σ} (h : m.Awaits y) (hframes : y'.frames = y.frames)
    (hstack : y'.stack = y.stack) (hpending : y'.pending = y.pending) : m.Awaits y' := by
  obtain ⟨hcons, hcode, hI, htakes, hnext, hrest, hcall⟩ := h
  exact .intro hcons hcode hI htakes (hframes.trans hnext) (hstack.trans hrest)
    (hpending.trans hcall)

/-- What holds of a machine that runs a compiled program, given the machines that executed an
instruction before. -/
structure Traced (p : CheckedProgram σ) (module : Module σ) (past : List (Machine σ))
    (m : Machine σ) : Prop where
  counted : Counted p module past m
  executed : ∀ x ∈ past, x.module = module ∧ x.pending = none
  /-- Every activation but the uppermost one has made a call that goes on. -/
  called : ∀ k, 0 < k → k < m.depth →
    ∃ (before later : List (Machine σ)) (x : Machine σ) (c : UserCall),
    past = before ++ x :: later ∧ x.Calls c ∧ x.depth = k ∧ ∀ z ∈ later, k < z.depth
  /-- A call goes on as long as there are more activations than before it. -/
  kept : ∀ (before later : List (Machine σ)) (x : Machine σ) (c : UserCall),
    past = before ++ x :: later →
    x.Calls c → (∀ z ∈ later, x.depth < z.depth) → m.Within c ∨ m.Behind c
  /-- The uppermost activation has just begun, or it has come where it is by an instruction of its
  own. -/
  reached : m.pending = none → ∀ (frame : Frame) (callers : List Frame),
    m.frames = frame :: callers →
    frame.pc = 0 ∨ ∃ (before later : List (Machine σ)) (x : Machine σ),
      past = before ++ x :: later ∧ x.Done m ∧
      ∀ z ∈ later, m.depth < z.depth
  awaiting : ∀ call, m.pending = some call → ∃ (before : List (Machine σ)) (x : Machine σ),
    past = before ++ [x] ∧ x.Awaits m

variable {module : Module σ} {xs : List (Machine σ)}

/-- A machine that is about to call a function of a compiled program has the arguments among its
operands. -/
theorem Counted.calls (h : Counted p module xs m)
    (made : emitModule p.functions p.environment = .ok module) (typed : p.Typed)
    (hpending : m.pending = none) {index : Nat} (hcall : m.instruction? = some (.call index)) :
    ∃ c : UserCall, m.Calls c ∧ c.callee.index = index := by
  have compiled := emitModule_compiles made
  have hinstruction := hcall
  simp only [instruction?, Option.bind_eq_bind, Option.bind_eq_some_iff] at hinstruction
  obtain ⟨frame, hframe, code, hcode, hI⟩ := hinstruction
  obtain ⟨callers, hframes⟩ := List.head?_eq_some_iff.mp hframe
  obtain ⟨callee, hcallee⟩ : ∃ callee, m.module.function? index = some callee := by
    rw [h.module_eq] at hcode ⊢
    have hrange :=
      compiled.inRange typed hcode _
        (List.mem_of_getElem? (by rw [Array.getElem?_toList]; exact hI))
    exact ⟨_, List.getElem?_eq_getElem hrange⟩
  have hindex : callee.index = index := by
    rw [h.module_eq] at hcallee
    exact (emitModule_closed made).index hcallee
  have hsupplied : callee.numParameters ≤ m.stack.length := by
    rcases (h.disciplined compiled typed).supplied hpending frame code _ hframe hcode hI
      with htakes | ⟨-, hret, -⟩
    · rw [Instruction.takes, hcallee, Option.map_some, Option.getD_some, height] at htakes
      omega
    · cases hret
  refine ⟨⟨callee, frame, callers, m.arguments callee.numParameters,
    m.stack.drop callee.numParameters⟩, ⟨hpending, hindex ▸ hcall, hindex ▸ hcallee, hframes, ?_,
    ?_⟩, hindex⟩
  · rw [arguments, List.length_reverse, List.length_take, Nat.min_eq_left hsupplied]
  · rw [arguments, List.reverse_reverse, List.take_append_drop]

namespace Traced

theorem congr {m' : Machine σ} (h : Traced p module xs m) (hcounted : Counted p module xs m')
    (hframes : m'.frames = m.frames) (hstack : m'.stack = m.stack)
    (hpending : m'.pending = m.pending) :
    Traced p module xs m' := by
  have hdepth : m'.depth = m.depth := congrArg List.length hframes
  refine ⟨hcounted, h.executed, ?_, ?_, ?_, ?_⟩
  · rw [hdepth]
    exact h.called
  · intro before later x c heq hcalls hlater
    exact (h.kept before later x c heq hcalls hlater).imp
      (·.congr hframes (hstack ▸ List.suffix_refl _)) (·.congr hframes hstack hpending)
  · intro hidle frame callers hcons
    rcases h.reached (hpending ▸ hidle) frame callers (hframes ▸ hcons) with
      hzero | ⟨before, later, x, heq, hdone, hlater⟩
    · exact .inl hzero
    · exact .inr ⟨before, later, x, heq, hdone.congr hframes hstack, hdepth ▸ hlater⟩
  · intro call hcall
    obtain ⟨before, x, heq, hawaits⟩ := h.awaiting call (hpending ▸ hcall)
    exact ⟨before, x, heq, hawaits.congr hframes hstack hpending⟩

/-- A call that goes on at an instruction goes on or has returned behind it. -/
theorem kept_step (made : emitModule p.functions p.environment = .ok module) (typed : p.Typed)
    (h : Traced p module xs m) (hpending : m.pending = none) {before later : List (Machine σ)}
    {x : Machine σ} {c : UserCall} (heq : xs ++ [m] = before ++ x :: later) (hcalls : x.Calls c)
    (hlater : ∀ z ∈ later, x.depth < z.depth) : m.step.Within c ∨ m.step.Behind c := by
  rcases split_concat heq with ⟨-, rfl, -⟩ | ⟨between, rfl, hsplit⟩
  · exact .inl hcalls.within_step
  · rcases h.kept before between x c hsplit hcalls
        (fun z hz => hlater z (List.mem_append_left _ hz)) with
      hwithin | hbehind
    · have hx : x.module = module :=
        (h.executed x (by rw [hsplit]; exact List.mem_append_right _ List.mem_cons_self)).1
      have hcallee := hcalls.callee
      rw [hx, ← h.counted.module_eq] at hcallee
      exact hwithin.step hpending (h.counted.disciplined (emitModule_compiles made) typed) hcallee
    · have hdeeper := hlater m (List.mem_append_right _ (List.mem_singleton.mpr rfl))
      rw [hbehind.depth_eq, hcalls.depth_eq] at hdeeper
      exact absurd hdeeper (Nat.lt_irrefl _)

/-- The activations that have waited before go on waiting. -/
theorem called_concat (h : Traced p module xs m) {k : Nat} (hpos : 0 < k) (hk : k < m.depth) :
    ∃ (before later : List (Machine σ)) (x : Machine σ) (c : UserCall),
      xs ++ [m] = before ++ x :: later ∧
      x.Calls c ∧ x.depth = k ∧ ∀ z ∈ later, k < z.depth := by
  obtain ⟨before, later, x, c, rfl, hcalls, hx, hlater⟩ := h.called k hpos hk
  refine ⟨before, later ++ [m], x, c, by simp, hcalls, hx, ?_⟩
  intro z hz
  rcases List.mem_append.mp hz with hz | hz
  · exact hlater z hz
  · rwa [List.mem_singleton.mp hz]

section Step

variable (made : emitModule p.functions p.environment = .ok module) (typed : p.Typed)
    (h : Traced p module xs m) (hpending : m.pending = none) {frame : Frame}
    {callers : List Frame} (hframes : m.frames = frame :: callers) {code : FunctionCode}
    {I : Instruction} (hcode : m.module.function? frame.function = some code)
    (hI : code.instructions[frame.pc]? = some I) (hturn : Turn m frame callers code m.step I)

include made typed h hpending hframes hcode hI hturn

/-- Where no call begins, the activations that wait are among those that have waited before. -/
theorem called_step {k : Nat} (hpos : 0 < k) (hk : k < m.step.depth) :
    ∃ (before later : List (Machine σ)) (x : Machine σ) (c : UserCall),
      xs ++ [m] = before ++ x :: later ∧
      x.Calls c ∧ x.depth = k ∧ ∀ z ∈ later, k < z.depth := by
  have hdepth : m.depth = callers.length + 1 := by rw [depth, hframes, List.length_cons]
  rcases Nat.lt_or_ge k m.depth with hlt | hge
  · exact h.called_concat hpos hlt
  · cases hturn with
    | goes _ _ hnext | awaits hnext =>
        rw [depth, hnext, List.length_cons] at hk
        omega
    | leaves hnext =>
        rw [depth, hnext] at hk
        omega
    | @enters index callee hcallee hnext =>
        rw [depth, hnext, List.length_cons, List.length_cons] at hk
        have hinstruction : m.instruction? = some (.call index) := by
          simp [instruction?, hframes, hcode, hI]
        obtain ⟨c, hcalls, -⟩ := h.counted.calls made typed hpending hinstruction
        exact ⟨xs, [], m, c, rfl, hcalls, by omega, by simp⟩

/-- The caller of an activation that ends comes behind its call. -/
theorem reached_step (hsupplied : I = .ret ∨ I.takes m.module code ≤ m.height)
    (hidle : m.step.pending = none) {other : Frame} {others : List Frame}
    (hother : m.step.frames = other :: others) :
    other.pc = 0 ∨ ∃ (before later : List (Machine σ)) (x : Machine σ),
      xs ++ [m] = before ++ x :: later ∧
      x.Done m.step ∧ ∀ z ∈ later, m.step.depth < z.depth := by
  cases hturn with
  | goes pushed hleads hnext hslots hstack hcount _ =>
      refine .inr ⟨xs, [], m, rfl, .intro pushed hframes hcode hI ?_ hleads hnext hslots hstack
        hcount, by simp⟩
      exact hsupplied.resolve_left fun hret => by rw [hret] at hleads; exact hleads
  | awaits _ _ hcall =>
      rw [hidle] at hcall
      cases hcall
  | enters _ hnext =>
      rw [hnext] at hother
      cases hother
      exact .inl rfl
  | leaves hnext =>
      rw [hnext] at hother
      subst hother
      have hbelow : m.step.depth = others.length + 1 := by rw [depth, hnext, List.length_cons]
      obtain ⟨before, later, x, c, heq, hcalls, hx, hlater⟩ := h.called_concat
        (Nat.succ_pos others.length)
          (by rw [depth, hframes, List.length_cons, List.length_cons]; exact Nat.lt_succ_self _)
      refine .inr ⟨before, later, x, heq, hcalls.done ?_, hbelow ▸ hlater⟩
      refine (h.kept_step made typed hpending heq hcalls (hx ▸ hlater)).resolve_left
        fun hwithin => ?_
      have hlt := hwithin.depth_lt
      rw [hbelow, ← hcalls.depth_eq, hx] at hlt
      exact Nat.lt_irrefl _ hlt

end Step

theorem step (made : emitModule p.functions p.environment = .ok module) (typed : p.Typed)
    (h : Traced p module xs m) (hpending : m.pending = none) (hframes : m.frames ≠ []) :
    Traced p module (xs ++ [m]) m.step := by
  have compiled := emitModule_compiles made
  obtain ⟨frame, callers, hcons⟩ := List.exists_cons_of_ne_nil hframes
  obtain ⟨code, I, hcode, hI, hsupplied, hturn⟩ :=
    (h.counted.disciplined compiled typed).turn hpending hcons
  have hsupplied : I = .ret ∨ I.takes m.module code ≤ m.height :=
    hsupplied.imp_right fun h => by omega
  refine ⟨(Counted.invariant compiled typed).step h.counted hpending hframes, ?_,
    fun _ hpos hk => h.called_step made typed hpending hcons hcode hI hturn hpos hk,
    fun _ _ _ _ heq hcalls hlater => h.kept_step made typed hpending heq hcalls hlater,
    fun hidle _ _ hother => h.reached_step made typed hpending hcons hcode hI hturn hsupplied hidle
      hother, ?_⟩
  · intro x hx
    rcases List.mem_append.mp hx with hx | hx
    · exact h.executed x hx
    · rw [List.mem_singleton.mp hx]
      exact ⟨h.counted.module_eq, hpending⟩
  · intro call hcall
    cases hturn with
    | awaits hnext hstack hawaited hfunction =>
        rw [hcall, Option.some.injEq] at hawaited
        subst hawaited hfunction
        exact ⟨xs, m, rfl, .intro hcons hcode hI (hsupplied.resolve_left (by simp)) hnext
          hstack hcall⟩
    | goes _ _ _ _ _ _ hidle | enters _ _ _ hidle | leaves _ _ hidle =>
        rw [hidle] at hcall
        cases hcall

theorem resume (made : emitModule p.functions p.environment = .ok module) (typed : p.Typed)
    (h : Traced p module xs m) (hframes : m.frames ≠ []) {call : PendingCall}
    (hpending : m.pending = some call) (hdone : m.world.isCompleted call.future = true) :
    Traced p module xs m.resume := by
  have hcounted :=
    (Counted.invariant (emitModule_compiles made) typed).resume h.counted hframes hpending hdone
  have hresume := resume_of_pending hpending
  refine ⟨hcounted, h.executed, ?_, ?_, ?_, ?_⟩
  · rw [depth, m.frames_resume]
    exact h.called
  · intro before later x c heq hcalls hlater
    rcases h.kept before later x c heq hcalls hlater with hwithin | hbehind
    · refine .inl (hwithin.congr m.frames_resume ?_)
      rw [hresume]
      dsimp only
      split
      · exact List.suffix_cons _ _
      · exact List.suffix_refl _
    · rw [hbehind.pending] at hpending
      cases hpending
  · intro _ _ _ _
    obtain ⟨before, x, heq, hawaits⟩ := h.awaiting call hpending
    refine .inr ⟨before, [], x, heq, hawaits.resume ?_, by simp⟩
    rw [h.counted.module_eq]
    exact (h.executed x (by rw [heq]; exact List.mem_append_right _ List.mem_cons_self)).1.symm
  · intro other hother
    rw [hresume] at hother
    cases hother

theorem invariant (made : emitModule p.functions p.environment = .ok module) (typed : p.Typed) :
    Invariant (Traced p module) := by
  have inv := Counted.invariant (emitModule_compiles made) typed
  exact ⟨fun h hpending hframes => h.step made typed hpending hframes,
    fun h hframes hpending hdone => h.resume made typed hframes hpending hdone,
    fun h hframes => h.congr (inv.settle h.counted hframes) rfl rfl rfl,
    fun table h => h.congr (inv.breakpoints table h.counted) rfl rfl rfl⟩

theorem restart (made : emitModule p.functions p.environment = .ok module)
    (hmodule : m.module = module) {main : FunctionDecl} (hmain : p.functions[0]? = some main)
    (harrow : main.arrow = ⟨[], .nothing⟩) :
    Traced p module [] m.restart := by
  have hdepth : m.restart.depth ≤ 1 := by
    rw [depth, Machine.restart]
    cases m.module.main? <;> simp
  refine ⟨.restart hmodule (by simp) (emitModule_compiles made) hmain harrow,
    by simp, ?_, ?_, ?_, ?_⟩
  · intro k hpos hk
    omega
  · intro before later x c heq
    simp at heq
  · intro _ frame callers hframes
    refine .inl ?_
    rw [Machine.restart] at hframes
    cases hfirst : m.module.main? with
    | none => simp [hfirst] at hframes
    | some code =>
        simp only [hfirst, Option.map_some, Option.toList_some, List.cons.injEq] at hframes
        rw [← hframes.1]
        rfl
  · intro call hcall
    cases hcall

end Traced

/-- What the four changes keep holds of every machine of a trail, given those before it. -/
theorem Invariant.throughout {P : List (Machine σ) → Machine σ → Prop} (inv : Invariant P) :
    Invariant fun xs m => Throughout P (xs ++ [m]) where
  step h hpending hframes :=
    throughout_concat.mpr ⟨h, inv.step (throughout_concat.mp h).2 hpending hframes⟩
  resume h hframes hpending hdone :=
    throughout_concat.mpr
      ⟨(throughout_concat.mp h).1, inv.resume (throughout_concat.mp h).2 hframes hpending hdone⟩
  settle h hframes :=
    throughout_concat.mpr
      ⟨(throughout_concat.mp h).1, inv.settle (throughout_concat.mp h).2 hframes⟩
  breakpoints table h :=
    throughout_concat.mpr
      ⟨(throughout_concat.mp h).1, inv.breakpoints table (throughout_concat.mp h).2⟩

/-- However a compiled program is driven, what is kept holds all along the trail. -/
theorem traced_trail (made : emitModule p.functions p.environment = .ok module) (typed : p.Typed)
    {main : FunctionDecl} (hmain : p.functions[0]? = some main)
    (harrow : main.arrow = ⟨[], .nothing⟩) (limit : Nat) (world : World σ) (events : List Event) :
    Throughout (Traced p module) ((Machine.start module limit world).trail events) := by
  have hfirst {m : Machine σ} (hmodule : m.module = module) :
      Throughout (Traced p module) ([] ++ [m.restart]) :=
    throughout_concat.mpr ⟨by simp [Throughout], .restart made hmodule hmain harrow⟩
  refine (Traced.invariant made typed).throughout.sinceRestart ?_ ?_ events (hfirst rfl)
  · intro xs m future v h
    obtain ⟨hpast, hnow⟩ := throughout_concat.mp h
    exact throughout_concat.mpr ⟨hpast, hnow.congr (hnow.counted.complete future v) rfl rfl rfl⟩
  · exact fun h => hfirst (throughout_concat.mp h).2.counted.module_eq

end Machine

end Stepwise
