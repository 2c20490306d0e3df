import Stepwise.Proofs.Code.Compiled
import Stepwise.Proofs.Evaluation.Evaluator

/-!
# A machine that keeps pace with an evaluation

An evaluation with fuel either comes to a result or runs out of fuel. A machine keeps pace with it
(`Machine.Pace`) if in the first case it comes to a state that the result describes, and in the
second it still has something to do after as many instructions as there was fuel. The second half is
what makes the two agree on whether a program ends.

Keeping pace goes along with the structure of an evaluation: `Pace.bind` is its rule for one thing
after another. Beside the machine goes the list of the calls of the host that it has made, so that
both sides keep the same record of them.

A `Site` is an activation whose code runs, apart from what changes while it does; the rest of the
module says what each instruction does at a site.
-/

set_option autoImplicit false

namespace Stepwise

variable {σ : Type}

/-! ## Machines with their calls -/

namespace Machine

/-- Executes an instruction and notes the call of the host that it makes. -/
def traced (x : Machine σ × List HostCall) : Machine σ × List HostCall :=
  (x.1.step, x.2 ++ x.1.hostCall?.toList)

/-- A machine comes to a state. -/
def Goes (x y : Machine σ × List HostCall) : Prop := ∃ k, traced^[k] x = y

/-- A machine still has an activation after a number of instructions. -/
def Lasts (n : Nat) (x : Machine σ × List HostCall) : Prop := (traced^[n] x).1.frames ≠ []

/-- A machine keeps pace with an evaluation: it comes to what the result describes, or goes on for
long. -/
def Pace {α : Type} (n : Nat) (x : Machine σ × List HostCall) (result : Option α)
    (post : α → Machine σ × List HostCall → Prop) : Prop :=
  match result with
  | none => Lasts n x
  | some a => ∃ y, Goes x y ∧ post a y

variable {x y z : Machine σ × List HostCall} {n k : Nat}

theorem Goes.refl (x : Machine σ × List HostCall) : Goes x x := ⟨0, rfl⟩

theorem Goes.trans (hxy : Goes x y) (hyz : Goes y z) : Goes x z := by
  obtain ⟨i, rfl⟩ := hxy
  obtain ⟨j, rfl⟩ := hyz
  exact ⟨j + i, Function.iterate_add_apply _ _ _ _⟩

theorem Goes.of_traced (h : traced x = y) : Goes x y := ⟨1, h⟩

theorem traced_of_frames_nil (h : x.1.frames = []) : traced x = x := by
  have hinstruction : x.1.instruction? = none := by simp [instruction?, h]
  simp [traced, hostCall?, hinstruction, x.1.step_of_frames_nil h]

theorem Lasts.mono (h : Lasts k x) (hle : n ≤ k) : Lasts n x := by
  intro hended
  refine h ?_
  rw [← Nat.sub_add_cancel hle, Function.iterate_add_apply, Function.iterate_fixed
    (traced_of_frames_nil hended)]
  exact hended

theorem Lasts.of_traced (hxy : traced x = y) (h : Lasts n y) : Lasts (n + 1) x := by
  rw [Lasts, Function.iterate_succ_apply, hxy]
  exact h

theorem Goes.lasts (hxy : Goes x y) (h : Lasts n y) : Lasts n x := by
  obtain ⟨i, rfl⟩ := hxy
  have hlonger : Lasts (n + i) x := by
    rw [Lasts, Function.iterate_add_apply]
    exact h
  exact hlonger.mono (Nat.le_add_right _ _)

namespace Pace

variable {α β : Type} {result : Option α} {post post' : α → Machine σ × List HostCall → Prop}

theorem pure {a : α} (h : post a x) : Pace n x (some a) post := ⟨x, .refl x, h⟩

theorem mono (h : Pace k x result post) (hle : n ≤ k) : Pace n x result post := by
  cases result with
  | none => exact Lasts.mono h hle
  | some a => exact h

theorem imp (h : Pace n x result post)
    (himp : ∀ {a : α} {y : Machine σ × List HostCall}, post a y → post' a y) :
    Pace n x result post' := by
  cases result with
  | none => exact h
  | some a =>
      obtain ⟨y, hxy, hpost⟩ := h
      exact ⟨y, hxy, himp hpost⟩

/-- What comes before is no hindrance. -/
theorem goes (hxy : Goes x y) (h : Pace n y result post) : Pace n x result post := by
  cases result with
  | none => exact hxy.lasts h
  | some a =>
      obtain ⟨z, hyz, hpost⟩ := h
      exact ⟨z, hxy.trans hyz, hpost⟩

/-- An instruction before is one more that a long evaluation lasts. -/
theorem step (hxy : traced x = y) (h : Pace n y result post) : Pace (n + 1) x result post := by
  cases result with
  | none => exact Lasts.of_traced hxy h
  | some a =>
      obtain ⟨z, hyz, hpost⟩ := h
      exact ⟨z, (Goes.of_traced hxy).trans hyz, hpost⟩

/-- One thing after the other. -/
theorem bind {next : α → Option β} {last : β → Machine σ × List HostCall → Prop}
    (h : Pace n x result post)
    (hnext : ∀ {a : α} {y : Machine σ × List HostCall}, post a y → Pace n y (next a) last) :
    Pace n x (result >>= next) last := by
  cases result with
  | none => exact h
  | some a =>
      obtain ⟨y, hxy, hpost⟩ := h
      exact .goes hxy (hnext hpost)

/-- The machine goes on by itself. -/
theorem andGo (h : Pace n x result post)
    (hgo : ∀ {a : α} {y : Machine σ × List HostCall}, post a y → ∃ z, Goes y z ∧ post' a z) :
    Pace n x result post' := by
  cases result with
  | none => exact h
  | some a =>
      obtain ⟨y, hxy, hpost⟩ := h
      obtain ⟨z, hyz, hpost'⟩ := hgo hpost
      exact ⟨z, hxy.trans hyz, hpost'⟩

end Pace

end Machine

/-! ## Sites -/

/-- A value pushed, if it is of a type that has values. -/
def Ty.pushValue (t : Ty) (v : Value) (stack : List Value) : List Value :=
  if t = .nothing then stack else v :: stack

theorem Ty.pushValue_of_ne {t : Ty} (h : t ≠ .nothing) (v : Value) (stack : List Value) :
    t.pushValue v stack = v :: stack := if_neg h

/-- An activation whose code runs: its function, what lies below its operands, the activations that
called it, and the machine for the rest. -/
structure Site (σ : Type) where
  machine : Machine σ
  function : Nat
  base : Nat
  callers : List Frame

namespace Site

/-- The machine at a place of the code. -/
def here (A : Site σ) (pc : Nat) (slots stack : List Value) (out : Effects σ) :
    Machine σ × List HostCall :=
  ({ A.machine with frames := ⟨A.function, pc, slots, A.base⟩ :: A.callers, stack, world :=
    out.world }, out.calls)

/-- The machine when the activation has ended. -/
def back (A : Site σ) (stack : List Value) (out : Effects σ) : Machine σ × List HostCall :=
  ({ A.machine with frames := A.callers, stack, world := out.world }, out.calls)

/-- The site runs a function's code. -/
def Runs (A : Site σ) (code : FunctionCode) : Prop :=
  A.machine.module.function? A.function = some code

variable {A : Site σ} {code : FunctionCode} {pc : Nat} {slots stack : List Value} {out : Effects σ}

theorem instruction?_here (hruns : A.Runs code) {I : Instruction}
    (h : code.instructions.toList[pc]? = some I) :
    (A.here pc slots stack out).1.instruction? = some I := by
  rw [Array.getElem?_toList] at h
  rw [Runs] at hruns
  simp [Machine.instruction?, Site.here, hruns, h]

/-- What the machine does at a place. -/
theorem step_here (hruns : A.Runs code) {I : Instruction}
    (h : code.instructions.toList[pc]? = some I) :
    (A.here pc slots stack out).1.step =
      (A.here pc slots stack out).1.execute code ⟨A.function, pc + 1, slots, A.base⟩
        A.callers I := by
  rw [Array.getElem?_toList] at h
  rw [Runs] at hruns
  simp [Machine.step, Site.here, hruns, h]

/-- An instruction that calls no function of the host. -/
theorem traced_here (hruns : A.Runs code) {I : Instruction}
    (h : code.instructions.toList[pc]? = some I) (hne : ∀ index, I ≠ .callHost index) :
    Machine.traced (A.here pc slots stack out) =
      ((A.here pc slots stack out).1.execute code ⟨A.function, pc + 1, slots, A.base⟩ A.callers I,
        out.calls) := by
  have hcall : (A.here pc slots stack out).1.hostCall? = none := by
    rw [Machine.hostCall?, instruction?_here hruns h]
    cases I with
    | callHost index => exact absurd rfl (hne index)
    | _ => rfl
  rw [Machine.traced, step_here hruns h, hcall, Option.toList_none, List.append_nil]
  rfl

theorem push (hruns : A.Runs code) {c : Constant}
    (h : code.instructions.toList[pc]? = some (.push c)) :
    Machine.traced (A.here pc slots stack out) = A.here (pc + 1) slots (c.value :: stack) out :=
  traced_here hruns h nofun

theorem pop (hruns : A.Runs code) (h : code.instructions.toList[pc]? = some .pop) (v : Value) :
    Machine.traced (A.here pc slots (v :: stack) out) = A.here (pc + 1) slots stack out :=
  traced_here hruns h nofun

theorem dup (hruns : A.Runs code) (h : code.instructions.toList[pc]? = some .dup) (v : Value) :
    Machine.traced (A.here pc slots (v :: stack) out) =
      A.here (pc + 1) slots (v :: v :: stack) out :=
  traced_here hruns h nofun

theorem load (hruns : A.Runs code) {slot : Nat}
    (h : code.instructions.toList[pc]? = some (.load slot)) {v : Value}
    (hv : slots[slot]? = some v) :
    Machine.traced (A.here pc slots stack out) = A.here (pc + 1) slots (v :: stack) out := by
  rw [traced_here hruns h nofun]
  simp [Machine.execute, Frame.slot, hv, Site.here]

theorem store (hruns : A.Runs code) {slot : Nat}
    (h : code.instructions.toList[pc]? = some (.store slot)) (v : Value) :
    Machine.traced (A.here pc slots (v :: stack) out) =
      A.here (pc + 1) (slots.set slot v) stack out :=
  traced_here hruns h nofun

theorem loadField (hruns : A.Runs code) {index : Nat}
    (h : code.instructions.toList[pc]? = some (.loadField index)) (v : Value) :
    Machine.traced (A.here pc slots (v :: stack) out) =
      A.here (pc + 1) slots (out.world.fieldOf index v :: stack) out :=
  traced_here hruns h nofun

theorem storeField (hruns : A.Runs code) {index : Nat}
    (h : code.instructions.toList[pc]? = some (.storeField index)) (v x : Value) :
    Machine.traced (A.here pc slots (v :: x :: stack) out) =
      A.here (pc + 1) slots stack { out with world := out.world.withField index v x } :=
  traced_here hruns h nofun

theorem jump (hruns : A.Runs code) {target : Nat}
    (h : code.instructions.toList[pc]? = some (.jump target)) :
    Machine.traced (A.here pc slots stack out) = A.here target slots stack out :=
  traced_here hruns h nofun

theorem jumpIfFalse (hruns : A.Runs code) {target : Nat}
    (h : code.instructions.toList[pc]? = some (.jumpIfFalse target)) (v : Value) :
    Machine.traced (A.here pc slots (v :: stack) out) =
      A.here (if v.asBool then pc + 1 else target) slots stack out := by
  rw [traced_here hruns h nofun]
  cases hv : v.asBool <;> simp [Machine.execute, Machine.top, Site.here, hv]

theorem unary (hruns : A.Runs code) {op : UnaryOp}
    (h : code.instructions.toList[pc]? = some (.unary op)) (v : Value) :
    Machine.traced (A.here pc slots (v :: stack) out) =
      A.here (pc + 1) slots (op.apply v :: stack) out :=
  traced_here hruns h nofun

theorem binary (hruns : A.Runs code) (op : BinaryOp)
    (h : code.instructions.toList[pc]? = some (binaryInstruction op)) (v w : Value) :
    Machine.traced (A.here pc slots (w :: v :: stack) out) =
      A.here (pc + 1) slots (op.apply v w :: stack) out := by
  cases op <;> exact traced_here hruns h nofun

/-! ## Calls and returns -/

/-- What lies below the operands of the activation. -/
def below (A : Site σ) (stack : List Value) : List Value := stack.drop (stack.length - A.base)

theorem below_cons (A : Site σ) {stack : List Value} (h : A.base ≤ stack.length) (v : Value) :
    A.below (v :: stack) = A.below stack := by
  rw [below, below, List.length_cons, Nat.succ_sub h, List.drop_succ_cons]

theorem below_self (A : Site σ) {stack : List Value} (h : stack.length = A.base) :
    A.below stack = stack := by
  rw [below, h, Nat.sub_self, List.drop_zero]

/-- The site of a function that is called from a site, where the machine goes on at `pc`. -/
def callee (A : Site σ) (index pc : Nat) (slots stack : List Value) : Site σ :=
  ⟨A.machine, index, stack.length, ⟨A.function, pc, slots, A.base⟩ :: A.callers⟩

theorem call (hruns : A.Runs code) {index : Nat}
    (h : code.instructions.toList[pc]? = some (.call index)) {target : FunctionCode}
    (htarget : A.machine.module.function? index = some target) (hindex : target.index = index)
    {arguments : List Value} (hcount : arguments.length = target.numParameters) :
    Machine.traced (A.here pc slots (arguments.reverse ++ stack) out) =
      (A.callee index (pc + 1) slots stack).here 0 (initialSlots target.numSlots arguments) stack
        out := by
  have htarget' : (A.here pc slots (arguments.reverse ++ stack) out).1.module.function? index =
    some target := htarget
  have hlength : arguments.reverse.length = target.numParameters := by
    rw [List.length_reverse, hcount]
  rw [traced_here hruns h nofun, Machine.execute, htarget']
  simp only [Machine.enter, Machine.arguments, Frame.enter, Site.here, Site.callee, hindex,
    ← hlength, List.take_left, List.drop_left, List.reverse_reverse]

theorem callHost (hruns : A.Runs code) {index : Nat}
    (h : code.instructions.toList[pc]? = some (.callHost index)) {f : HostFunction σ}
    (hf : A.machine.module.hostFunction? index = some f) {arguments : List Value}
    (hcount : arguments.length = f.params.length) {v : Value} {world : World σ}
    (hnative : f.native arguments out.world = (.ready v, world)) :
    Machine.traced (A.here pc slots (arguments.reverse ++ stack) out) =
      A.here (pc + 1) slots (f.arrow.result.pushValue v stack)
        ⟨world, out.calls ++ [⟨index, arguments⟩]⟩ := by
  have hf' : (A.here pc slots (arguments.reverse ++ stack) out).1.module.hostFunction? index =
    some f := hf
  have hlength : arguments.reverse.length = f.params.length := by rw [List.length_reverse, hcount]
  have htaken : (A.here pc slots (arguments.reverse ++ stack) out).1.arguments f.params.length =
      arguments := by
    rw [Machine.arguments, ← hlength]
    show ((arguments.reverse ++ stack).take arguments.reverse.length).reverse = arguments
    rw [List.take_left, List.reverse_reverse]
  have hcall : (A.here pc slots (arguments.reverse ++ stack) out).1.hostCall? =
      some ⟨index, arguments⟩ := by
    rw [Machine.hostCall?, instruction?_here hruns h]
    simp only [hf', Option.map_some, htaken]
  have hreturns : (f.returnsValue = true) = (f.arrow.result ≠ .nothing) :=
    propext f.returnsValue_iff
  rw [Machine.traced, step_here hruns h, hcall, Machine.execute, hf']
  rw [Machine.arguments] at htaken
  have hworld : (A.here pc slots (arguments.reverse ++ stack) out).1.world = out.world := rfl
  simp only [Machine.callHost, Machine.arguments, htaken, hworld, hnative, hreturns, Ty.pushValue,
    ite_not]
  simp only [Site.here, ← hlength, List.drop_left, Option.toList_some]

/-- A function returns: its uppermost operand, if it has one, is pushed for the caller. -/
theorem ret (hruns : A.Runs code) (h : code.instructions.toList[pc]? = some .ret) :
    Machine.traced (A.here pc slots stack out) =
      A.back (code.returnType.pushValue (if A.base < stack.length then stack.headD .nothing else
        .nothing)
        (A.below stack)) out := by
  rw [traced_here hruns h nofun]
  by_cases hreturn : code.returnType = .nothing <;>
    simp [Machine.execute, Machine.leave, Machine.resultAbove, Machine.top,
      FunctionCode.returnsValue, Site.here, Site.back, Site.below, Ty.pushValue, hreturn]

/-- Code that ends without a return returns. -/
theorem ran_out (hruns : A.Runs code) (h : code.instructions.toList[pc]? = none) :
    Machine.traced (A.here pc slots stack out) =
      A.back (code.returnType.pushValue (if A.base < stack.length then stack.headD .nothing else
        .nothing)
        (A.below stack)) out := by
  rw [Array.getElem?_toList] at h
  rw [Runs] at hruns
  have hinstruction : (A.here pc slots stack out).1.instruction? = none := by
    simp [Machine.instruction?, Site.here, hruns, h]
  rw [Machine.traced, Machine.hostCall?, hinstruction]
  by_cases hreturn : code.returnType = .nothing <;>
    simp [Machine.step, Machine.leave, Machine.resultAbove, Machine.top, FunctionCode.returnsValue,
      Site.here, Site.back, Site.below, Ty.pushValue, hreturn, hruns, h]

theorem ret_value (hruns : A.Runs code) (h : code.instructions.toList[pc]? = some .ret) (v : Value)
    (hbase : A.base ≤ stack.length) :
    Machine.traced (A.here pc slots (v :: stack) out) =
      A.back (code.returnType.pushValue v (A.below stack)) out := by
  have habove : A.base < (v :: stack).length := Nat.lt_succ_of_le hbase
  rw [ret hruns h, A.below_cons hbase, if_pos habove]
  rfl

end Site

end Stepwise
