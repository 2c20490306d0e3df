import Stepwise.Machine.State
import Stepwise.Value.Operation

/-!
# Single instructions

The machine executes any code, sound or not: a missing operand counts as nothing, a missing slot
holds nothing and keeps nothing, a call of a missing function does nothing, and code that ends
without `return` returns.

* `Machine.execute` carries an instruction out.
* `Machine.step` fetches the next instruction of the uppermost activation and carries it out.
-/

set_option autoImplicit false

namespace Stepwise.Machine

variable {σ : Type}

/-- The uppermost operand; nothing if there is none. -/
def top (m : Machine σ) : Value := m.stack.headD .nothing

/-- The operand below the uppermost; nothing if there is none. -/
def second (m : Machine σ) : Value := m.stack.tail.headD .nothing

/-- The uppermost operands in the order in which they were pushed, fewer if there are not as
many. -/
def arguments (m : Machine σ) (count : Nat) : List Value := (m.stack.take count).reverse

/-- Begins an activation of a function, which takes its arguments from the operands. -/
def enter (m : Machine σ) (code : FunctionCode) : Machine σ :=
  let rest := m.stack.drop code.numParameters
  { m with
    frames := Frame.enter code rest.length (m.arguments code.numParameters) :: m.frames,
    stack := rest }

/-- The value that an activation returns: its uppermost operand, or nothing if it has left none. -/
def resultAbove (m : Machine σ) (base : Nat) : Value :=
  if base < m.stack.length then m.top else .nothing

/-- Ends the uppermost activation, whose function is given: its operands are dropped and its value,
if it has one, is pushed. -/
def leave (m : Machine σ) (code : FunctionCode) : Machine σ :=
  match m.frames with
  | [] => m
  | frame :: callers =>
    let rest := m.stack.drop (m.stack.length - frame.base)
    { m with
      frames := callers
      stack := if code.returnsValue then m.resultAbove frame.base :: rest else rest }

/-- Calls a function of the host, which takes its arguments from the operands. The value is pushed
if it is there at once and the function yields one. -/
def callHost (m : Machine σ) (index : Nat) (f : HostFunction σ) : Machine σ :=
  let rest := m.stack.drop f.params.length
  match f.native (m.arguments f.params.length) m.world with
  | (.ready v, world) => { m with stack := if f.returnsValue then v :: rest else rest, world }
  | (.pending future, world) => { m with stack := rest, pending := some ⟨index, future⟩, world }

/-- The field of a record; nothing if the value is no record. -/
def fieldOf (m : Machine σ) (index : Nat) (v : Value) : Value :=
  match v.record? with
  | none => .nothing
  | some id => m.world.heap.get id index

/-- The world with a field of a record set; the same world if the value is no record. -/
def worldWithField (m : Machine σ) (index : Nat) (record value : Value) : World σ :=
  match record.record? with
  | none => m.world
  | some id => { m.world with heap := m.world.heap.set id index value }

/-- Carries out an instruction of a function. The uppermost activation, already past the
instruction, is `frame`, and those below it are `callers`. -/
def execute (m : Machine σ) (code : FunctionCode) (frame : Frame) (callers : List Frame) :
    Instruction → Machine σ
  | .push c => { m with frames := frame :: callers, stack := c.value :: m.stack }
  | .pop => { m with frames := frame :: callers, stack := m.stack.tail }
  | .dup => { m with frames := frame :: callers, stack := m.top :: m.stack }
  | .load slot => { m with frames := frame :: callers, stack := frame.slot slot :: m.stack }
  | .store slot =>
    { m with frames := { frame with slots := frame.slots.set slot m.top } :: callers, stack :=
      m.stack.tail }
  | .loadField index =>
    { m with frames := frame :: callers, stack := m.fieldOf index m.top :: m.stack.tail }
  | .storeField index =>
    { m with
      frames := frame :: callers
      stack := m.stack.tail.tail
      world := m.worldWithField index m.top m.second }
  | .jump target => { m with frames := { frame with pc := target } :: callers }
  | .jumpIfTrue target =>
    { m with
      frames := (if m.top.asBool then { frame with pc := target } else frame) :: callers
      stack := m.stack.tail }
  | .jumpIfFalse target =>
    { m with
      frames := (if m.top.asBool then frame else { frame with pc := target }) :: callers
      stack := m.stack.tail }
  | .call index =>
    match m.module.function? index with
    | none => { m with frames := frame :: callers }
    | some callee => enter { m with frames := frame :: callers } callee
  | .callHost index =>
    match m.module.hostFunction? index with
    | none => { m with frames := frame :: callers }
    | some f => callHost { m with frames := frame :: callers } index f
  | .ret => leave { m with frames := frame :: callers } code
  | .binary op =>
    { m with frames := frame :: callers, stack := op.apply m.second m.top :: m.stack.tail.tail }
  | .unary op => { m with frames := frame :: callers, stack := op.apply m.top :: m.stack.tail }
  | .concat =>
    { m with frames := frame :: callers, stack := BinaryOp.concat.apply m.second m.top ::
      m.stack.tail.tail }

/-- Executes one instruction. An activation of no function ends at once. -/
def step (m : Machine σ) : Machine σ :=
  match m.frames with
  | [] => m
  | frame :: callers =>
    match m.module.function? frame.function with
    | none => { m with frames := callers }
    | some code =>
      match code.instructions[frame.pc]? with
      | none => m.leave code
      | some instruction => m.execute code { frame with pc := frame.pc + 1 } callers instruction

/-- A machine without activations does nothing. -/
theorem step_of_frames_nil (m : Machine σ) (h : m.frames = []) : m.step = m := by
  simp [step, h]

end Stepwise.Machine
