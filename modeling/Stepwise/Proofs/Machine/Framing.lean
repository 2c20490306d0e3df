import Mathlib.Data.List.Forall2
import Stepwise.Proofs.Code.Shape
import Stepwise.Proofs.Machine.Drive

/-!
# Activations that fit their code

At every moment the activations of a machine that runs a compiled program lie on top of each other
as the code wants it: each stands at an instruction of its function and has the operands of that
place, its callers lack exactly the value that they wait for, and together the operands of all
activations are the stack.

What a value of a type is, is left open. A `Reading` gives types a meaning that all instructions
keep and that the functions of the host keep too; the trivial reading only counts operands, richer
ones look at the values. The meaning may depend on an index that grows, such as the types of the
records made so far. `Standing.step` says that an instruction keeps the activations in order under
any reading.

Beside every activation goes a ledger, the slots that were filled since it began.
-/

set_option autoImplicit false

namespace Stepwise

variable {σ : Type}

/-! ## Readings of types -/

/-- A meaning of types that what a program does keeps. -/
structure Reading (p : CheckedProgram σ) where
  Index : Type
  Grows : Index → Index → Prop
  Holds : Index → Value → Ty → Prop
  /-- The world is in order. -/
  Sane : Index → World σ → Prop
  /-- The future of an outstanding call brings a value of the type of its function, if it brings
  one. -/
  Promises : Index → World σ → PendingCall → Prop
  /-- A function that is to yield a value may end without one. -/
  Lax : Prop
  grows_refl : ∀ a : Index, Grows a a
  grows_trans : ∀ {a b c : Index}, Grows a b → Grows b c → Grows a c
  holds_grows : ∀ {a b : Index} {v : Value} {t : Ty}, Grows a b → Holds a v t → Holds b v t
  boolean : ∀ (a : Index) (x : Bool), Holds a (.boolean x) .boolean
  number : ∀ (a : Index) (x : Float), Holds a (.number x) .number
  string : ∀ (a : Index) (x : String), Holds a (.string x) .string
  nothing : Lax → ∀ (a : Index) (t : Ty), Holds a .nothing t
  getField : ∀ {a : Index} {w : World σ} {v : Value} {name : String} {record : RecordType}
    {index : Nat}
    {f : RecordField}, Sane a w → Holds a v (.record name) →
    p.environment.registry.record? name = some record → record.fields[index]? = some f →
    Holds a (w.fieldOf index v) f.ty
  setField : ∀ {a : Index} {w : World σ} {v x : Value} {name : String} {record : RecordType}
    {index : Nat}
    {f : RecordField}, Sane a w → Holds a v (.record name) →
    p.environment.registry.record? name = some record → record.fields[index]? = some f →
    Holds a x f.ty →
    Sane a (w.withField index v x)
  native : ∀ {a : Index} {w : World σ} {index : Nat} {h : HostFunction σ} {arguments : List Value},
    p.environment.hostFunctions[index]? = some h → Sane a w →
    List.Forall₂ (Holds a) arguments h.arrow.params →
    ∃ b : Index, Grows a b ∧ Sane b (h.native arguments w).2 ∧
      match (h.native arguments w).1 with
      | .ready v => h.arrow.result ≠ .nothing → Holds b v h.arrow.result
      | .pending future => Promises b (h.native arguments w).2 ⟨index, future⟩
  take : ∀ {a : Index} {w : World σ} {call : PendingCall} {h : HostFunction σ},
    p.environment.hostFunctions[call.function]? = some h → Sane a w → Promises a w call →
    w.isCompleted call.future = true →
    Sane a (w.takeValue call.future).2 ∧
      (h.arrow.result ≠ .nothing → Holds a (w.takeValue call.future).1 h.arrow.result)

/-! ## Activations in order -/

variable {p : CheckedProgram σ}

/-- The slots of an activation: those in the ledger hold values of their types, the others
nothing. -/
structure SlotsHold (holds : Value → Ty → Prop) (d : FunctionDecl) (ledger : List Nat)
    (slots : List Value) :
    Prop where
  length : slots.length = d.slotTys.length
  filled : ∀ {i : Nat} {t : Ty}, i ∈ ledger → d.slotTys[i]? = some t → ∃ v, slots[i]? = some v ∧
    holds v t
  empty : ∀ {i : Nat} {v : Value}, i ∉ ledger → slots[i]? = some v → v = .nothing

/-- Activations, the uppermost first, with their ledgers and the operands of all of them. The
uppermost lacks values of the given types; each activation below lacks what the one above is to
yield, and the last one none. -/
inductive Framed (p : CheckedProgram σ) (holds : Value → Ty → Prop) :
    List Ty → List Frame → List (List Nat) → List Value → Prop
  | done : Framed p holds [] [] [] []
  | frame {lacking tys : List Ty} {frame : Frame} {callers : List Frame} {ledger : List Nat}
      {ledgers : List (List Nat)} {d : FunctionDecl} {known : List Nat}
      {operands rest : List Value} :
      p.functions[frame.function]? = some d → d.Inside frame.pc ⟨lacking ++ tys, known⟩ →
      known ⊆ ledger →
      List.Forall₂ holds operands tys → SlotsHold holds d ledger frame.slots →
      rest.length = frame.base →
      Framed p holds (d.resultTy.pushOn []) callers ledgers rest →
      Framed p holds lacking (frame :: callers) (ledger :: ledgers) (operands ++ rest)

/-- The machine stands in order: its world is sane and its activations are framed; while a call is
outstanding, the uppermost activation lacks the value of the call, which the call's future
brings. -/
structure Standing (R : Reading p) (a : R.Index) (ledgers : List (List Nat)) (m : Machine σ) :
    Prop where
  sane : R.Sane a m.world
  idle : m.pending = none → Framed p (R.Holds a) [] m.frames ledgers m.stack
  waiting : ∀ {call : PendingCall}, m.pending = some call → m.frames ≠ [] ∧
    ∃ h : HostFunction σ, p.environment.hostFunctions[call.function]? = some h ∧
      R.Promises a m.world call ∧
      Framed p (R.Holds a) (h.arrow.result.pushOn []) m.frames ledgers m.stack

section Framed

variable {R : Reading p} {a b : R.Index} {holds more : Value → Ty → Prop}

theorem SlotsHold.imp {d : FunctionDecl} {ledger : List Nat} {slots : List Value}
    (hall : ∀ {v : Value} {t : Ty}, holds v t → more v t) (h : SlotsHold holds d ledger slots) :
    SlotsHold more d ledger slots := by
  refine ⟨h.length, ?_, h.empty⟩
  intro i t hi ht
  obtain ⟨v, hv, hholds⟩ := h.filled hi ht
  exact ⟨v, hv, hall hholds⟩

theorem Framed.imp {lacking : List Ty} {frames : List Frame} {ledgers : List (List Nat)}
    {stack : List Value} (hall : ∀ {v : Value} {t : Ty}, holds v t → more v t)
    (h : Framed p holds lacking frames ledgers stack) :
    Framed p more lacking frames ledgers stack := by
  induction h with
  | done => exact .done
  | frame hd hinside hknown hoperands hslots hbase _ ih =>
      exact .frame hd hinside hknown (hoperands.imp fun _ _ => hall) (hslots.imp hall) hbase ih

theorem Ty.pushOn_append (t : Ty) (below : List Ty) : t.pushOn below = t.pushOn [] ++ below := by
  unfold Ty.pushOn
  split <;> rfl

/-- A value that an activation lacks can be put on its operands. -/
theorem Framed.push {t : Ty} {frames : List Frame} {ledgers : List (List Nat)} {stack : List Value}
    {v : Value} (h : Framed p holds [t] frames ledgers stack) (hv : holds v t) :
    Framed p holds [] frames ledgers (v :: stack) := by
  cases h with
  | @frame _ tys frame _ _ _ d known _ _ hd hinside hknown hoperands hslots hbase hbelow =>
      have hfilled : d.Inside frame.pc ⟨[] ++ t :: tys, known⟩ := hinside
      have hframed := Framed.frame hd hfilled hknown (.cons hv hoperands) hslots hbase hbelow
      exact hframed

/-- What the uppermost activation lacks is put on its operands, be it a value or nothing at all. -/
theorem Framed.deliver {t : Ty} {frames : List Frame} {ledgers : List (List Nat)}
    {stack : List Value} {v : Value} (h : Framed p holds (t.pushOn []) frames ledgers stack)
    (hv : t ≠ .nothing → holds v t) :
    Framed p holds [] frames ledgers (if t ≠ .nothing then v :: stack else stack) := by
  by_cases ht : t = .nothing
  · subst ht
    exact h
  · rw [if_pos ht]
    rw [Ty.pushOn_of_ne ht] at h
    exact h.push (hv ht)

theorem Standing.of_idle {ledgers : List (List Nat)} {m : Machine σ} (hpending : m.pending = none)
    (hsane : R.Sane a m.world) (hframed : Framed p (R.Holds a) [] m.frames ledgers m.stack) :
    Standing R a ledgers m := by
  refine ⟨hsane, fun _ => hframed, ?_⟩
  intro call hcall
  rw [hpending] at hcall
  cases hcall

end Framed

/-! ## The uppermost activation -/

/-- All that is known of the uppermost activation while no call is outstanding: its function, its
place in it with the operands of that place, and what lies below. -/
structure Activation (R : Reading p) (a : R.Index) (m : Machine σ) (d : FunctionDecl)
    (frame : Frame) (callers : List Frame) (ledger : List Nat) (ledgers : List (List Nat))
    (x : Shape) (operands rest : List Value) : Prop where
  frames : m.frames = frame :: callers
  stack : m.stack = operands ++ rest
  pending : m.pending = none
  sane : R.Sane a m.world
  function : p.functions[frame.function]? = some d
  inside : d.Inside frame.pc x
  known : x.vars ⊆ ledger
  operands : List.Forall₂ (R.Holds a) operands x.operands
  slots : SlotsHold (R.Holds a) d ledger frame.slots
  base : rest.length = frame.base
  below : Framed p (R.Holds a) (d.resultTy.pushOn []) callers ledgers rest

section Activation

variable {R : Reading p} {a b : R.Index} {m : Machine σ} {holds : Value → Ty → Prop}

theorem Standing.activation {all : List (List Nat)} (h : Standing R a all m)
    (hpending : m.pending = none) (hframes : m.frames ≠ []) :
    ∃ (d : FunctionDecl) (frame : Frame) (callers : List Frame) (ledger : List Nat)
      (ledgers : List (List Nat)) (x : Shape) (operands rest : List Value),
      all = ledger :: ledgers ∧
      Activation R a m d frame callers ledger ledgers x operands rest := by
  have hframed := h.idle hpending
  generalize hf : m.frames = frames at hframed
  generalize hs : m.stack = stack at hframed
  cases hframed with
  | done => exact absurd hf hframes
  | frame hd hinside hknown hoperands hslots hbase hbelow =>
      exact ⟨_, _, _, _, _, _, _, _, rfl, hf, hs, hpending, h.sane, hd, hinside, hknown, hoperands,
        hslots, hbase, hbelow⟩

variable {d : FunctionDecl} {frame : Frame} {callers : List Frame} {ledger : List Nat}
    {ledgers : List (List Nat)}
  {x : Shape} {operands rest : List Value}

/-- The activation goes on in its function: at another place, with the operands of that place. -/
theorem Activation.next (act : Activation R a m d frame callers ledger ledgers x operands rest)
    {pc : Nat} {tys : List Ty} {vars more : List Nat} {values slots : List Value} {world : World σ}
    (hab : R.Grows a b) (hreaches : Reaches d.Inside pc tys vars) (hvars : vars ⊆ more)
    (hvalues : List.Forall₂ (R.Holds b) values tys) (hslots : SlotsHold (R.Holds b) d more slots)
    (hsane : R.Sane b world) :
    Standing R b (more :: ledgers)
      { m with
        frames := { frame with pc, slots } :: callers
        stack := values ++ rest
        world } := by
  obtain ⟨known, hknown, hinside⟩ := hreaches
  exact .of_idle act.pending hsane (.frame act.function hinside
    (List.Subset.trans hknown hvars) hvalues hslots act.base (act.below.imp (R.holds_grows hab)))

/-- The same where neither the slots nor the world change. -/
theorem Activation.goOn (act : Activation R a m d frame callers ledger ledgers x operands rest)
    {pc : Nat} {tys : List Ty} (values : List Value) (hreaches : Reaches d.Inside pc tys x.vars)
    (hvalues : List.Forall₂ (R.Holds a) values tys) :
    Standing R a (ledger :: ledgers)
      { m with
        frames := { frame with pc } :: callers
        stack := values ++ rest } :=
  act.next (R.grows_refl a) hreaches act.known hvalues act.slots act.sane

/-- What the uppermost activation executes next. -/
theorem Activation.step_eq (act : Activation R a m d frame callers ledger ledgers x operands rest)
    {code : FunctionCode} {I : Instruction} (hcode : m.module.function? frame.function = some code)
    (hI : code.instructions[frame.pc]? = some I) :
    m.step = m.execute code { frame with pc := frame.pc + 1 } callers I := by
  simp only [Machine.step, act.frames, hcode, hI]

theorem Activation.top_eq (act : Activation R a m d frame callers ledger ledgers x operands rest)
    {v : Value} {values : List Value} (h : operands = v :: values) : m.top = v := by
  rw [Machine.top, act.stack, h]
  rfl

theorem Activation.second_eq (act : Activation R a m d frame callers ledger ledgers x operands rest)
    {v w : Value} {values : List Value} (h : operands = v :: w :: values) : m.second = w := by
  rw [Machine.second, act.stack, h]
  rfl

/-! ## Values that operators make -/

theorem Reading.constant (R : Reading p) (a : R.Index) (c : Constant) : R.Holds a c.value c.ty := by
  cases c with
  | boolean x => exact R.boolean a x
  | number x => exact R.number a x
  | string x => exact R.string a x

/-- An operator makes a value of its type, whatever it is applied to. -/
theorem Reading.unary (R : Reading p) (a : R.Index) {op : UnaryOp} {t result : Ty}
    (h : op.result? t = some result) (v : Value) : R.Holds a (op.apply v) result := by
  cases op <;> cases t <;> cases h
  · exact R.number a _
  · exact R.boolean a _

theorem Reading.binary (R : Reading p) (a : R.Index) {op : BinaryOp} {left right result : Ty}
    (h : op.result? left right = some result) (v w : Value) : R.Holds a (op.apply v w) result := by
  unfold BinaryOp.result? at h
  split at h <;> split at h <;> cases h <;>
    first | exact R.number a _ | exact R.boolean a _ | exact R.string a _

/-! ## Slots -/

theorem SlotsHold.store {d : FunctionDecl} {ledger : List Nat} {slots : List Value}
    (h : SlotsHold holds d ledger slots) {slot : Nat} {t : Ty} {v : Value}
    (ht : d.slotTys[slot]? = some t) (hv : holds v t) :
    SlotsHold holds d (slot :: ledger) (slots.set slot v) := by
  have hlt : slot < slots.length := by
    rw [h.length]
    exact (List.getElem?_eq_some_iff.mp ht).1
  refine ⟨by rw [List.length_set, h.length], ?_, ?_⟩
  · intro i s hi hs
    by_cases heq : slot = i
    · subst heq
      rw [hs, Option.some.injEq] at ht
      subst ht
      exact ⟨v, by simp [hlt], hv⟩
    · rw [List.getElem?_set_ne heq]
      rcases List.mem_cons.mp hi with hi | hi
      · exact absurd hi.symm heq
      · exact h.filled hi hs
  · intro i w hi hw
    rw [List.mem_cons, not_or] at hi
    rw [List.getElem?_set_ne (Ne.symm hi.1)] at hw
    exact h.empty hi.2 hw

/-- The slots of a new activation: the arguments, and nothing behind them. -/
theorem SlotsHold.enter {d : FunctionDecl} {arguments : List Value}
    (h : List.Forall₂ holds arguments d.paramTys) :
    SlotsHold holds d (List.range d.params.length) (initialSlots d.slotTys.length arguments) := by
  have hparams : d.paramTys.length = d.params.length := List.length_map _
  have hlength : arguments.length = d.params.length := h.length_eq.trans hparams
  have hle : d.params.length ≤ d.slotTys.length := by
    rw [FunctionDecl.slotTys, List.length_append, hparams]
    exact Nat.le_add_right _ _
  refine ⟨length_initialSlots _ _, ?_, ?_⟩
  · intro i t hi ht
    rw [List.mem_range] at hi
    have hparam : d.paramTys[i]? = some t := by
      rw [FunctionDecl.slotTys, List.getElem?_append_left (by omega)] at ht
      exact ht
    have hi' : i < arguments.length := by omega
    refine ⟨arguments[i], ?_, ?_⟩
    · rw [initialSlots, List.getElem?_take_of_lt (by omega), List.getElem?_append_left hi',
        List.getElem?_eq_getElem hi']
    · obtain ⟨hlt, rfl⟩ := List.getElem?_eq_some_iff.mp hparam
      exact h.get hi' hlt
  · intro i v hi hv
    rw [List.mem_range, Nat.not_lt, ← hlength] at hi
    rw [initialSlots, List.getElem?_take] at hv
    split at hv
    · rw [List.getElem?_append_right hi] at hv
      exact List.eq_of_mem_replicate (List.mem_of_getElem? hv)
    · cases hv

/-! ## One instruction -/

/-- The ledgers after an instruction: a stored slot is noted, a called function begins with its
parameters, and a function that returns takes its ledger with it. -/
def Module.noteIn (module : Module σ) : Option Instruction → List (List Nat) → List (List Nat)
  | some (.store slot), ledger :: ledgers => (slot :: ledger) :: ledgers
  | some (.call index), all =>
    List.range (((module.function? index).map (·.numParameters)).getD 0) :: all
  | some .ret, all => all.tail
  | _, all => all

/-- The ledgers after the next instruction of a machine. -/
def Machine.ledgersAfter (m : Machine σ) (all : List (List Nat)) : List (List Nat) :=
  m.module.noteIn m.instruction? all

/-- The call of the host that the next instruction makes, if it makes one: it has as many arguments
as the function has parameters, each of its type, and a value that is answered at once is of the
type of the result. -/
structure Machine.CallHolds (holds : Value → Ty → Prop) (m : Machine σ) : Prop where
  arguments : ∀ {index : Nat} {h : HostFunction σ}, m.instruction? = some (.callHost index) →
    m.module.hostFunction? index = some h →
    List.Forall₂ holds (m.arguments h.params.length) h.arrow.params
  answer : ∀ {index : Nat} {h : HostFunction σ} {v : Value},
    m.instruction? = some (.callHost index) →
    m.module.hostFunction? index = some h →
    (h.native (m.arguments h.params.length) m.world).1 = .ready v → h.arrow.result ≠ .nothing →
    holds v h.arrow.result

theorem Machine.CallHolds.imp {more : Value → Ty → Prop}
    (hall : ∀ {v : Value} {t : Ty}, holds v t → more v t) (h : m.CallHolds holds) :
    m.CallHolds more where
  arguments hi hf := (h.arguments hi hf).imp fun _ _ => hall
  answer hi hf hv ht := hall (h.answer hi hf hv ht)

theorem Machine.CallHolds.of_ne (h : ∀ index, m.instruction? ≠ some (.callHost index)) :
    m.CallHolds holds where
  arguments hi _ := absurd hi (h _)
  answer hi _ _ _ := absurd hi (h _)

/-- The next instruction is the closing `return` of a function that ought to yield a value. -/
def Machine.EndsWithoutValue (p : CheckedProgram σ) (m : Machine σ) : Prop :=
  ∃ (frame : Frame) (d : FunctionDecl), m.frames.head? = some frame ∧
    p.functions[frame.function]? = some d ∧
    d.ClosesAt frame.pc ∧ d.resultTy ≠ .nothing

theorem Activation.instruction?_eq
    (act : Activation R a m d frame callers ledger ledgers x operands rest) {code : FunctionCode}
    {I : Instruction} (hcode : m.module.function? frame.function = some code)
    (hI : code.instructions[frame.pc]? = some I) : m.instruction? = some I := by
  simp [Machine.instruction?, act.frames, hcode, hI]

/-- An instruction that calls no function of the host leaves what is known as it is. -/
theorem Activation.stays (act : Activation R a m d frame callers ledger ledgers x operands rest)
    {code : FunctionCode} {I : Instruction} (hcode : m.module.function? frame.function = some code)
    (hI : code.instructions[frame.pc]? = some I) (hne : ∀ index, I ≠ .callHost index)
    {all : List (List Nat)} {next : Machine σ} (h : Standing R a all next) :
    ∃ b : R.Index, R.Grows a b ∧ m.CallHolds (R.Holds b) ∧ Standing R b all next := by
  refine ⟨a, R.grows_refl a, .of_ne ?_, h⟩
  intro index
  rw [act.instruction?_eq hcode hI, Ne, Option.some.injEq]
  exact hne index

/-- The arguments of a call lie on top of the operands, the last one first. -/
theorem Activation.operands_split
    (act : Activation R a m d frame callers ledger ledgers x operands rest) {params tys : List Ty}
    (htys : x.operands = params.reverse ++ tys) :
    params.length ≤ operands.length ∧
      List.Forall₂ (R.Holds a) (operands.take params.length).reverse params ∧
      List.Forall₂ (R.Holds a) (operands.drop params.length) tys := by
  have hoperands := act.operands
  rw [htys] at hoperands
  have htake := List.forall₂_take_append _ _ _ hoperands
  have hdrop := List.forall₂_drop_append _ _ _ hoperands
  rw [List.length_reverse] at htake hdrop
  refine ⟨?_, ?_, hdrop⟩
  · rw [hoperands.length_eq, List.length_append, List.length_reverse]
    exact Nat.le_add_right _ _
  · rwa [← List.forall₂_reverse_iff, List.reverse_reverse]

/-- A function of the program is entered with its arguments. -/
theorem Activation.enter (act : Activation R a m d frame callers ledger ledgers x operands rest)
    (compiled : m.module.Compiles p) (code : FunctionCode) {index : Nat} {params tys : List Ty}
    {result : Ty} (harrow : p.arrows (.user index) = some ⟨params, result⟩)
    (htys : x.operands = params.reverse ++ tys)
    (hnext : Reaches d.Inside (frame.pc + 1) (result.pushOn tys) x.vars) :
    ∃ callee : FunctionCode, m.module.function? index = some callee ∧
      Standing R a (List.range callee.numParameters :: ledger :: ledgers)
        (m.execute code { frame with pc := frame.pc + 1 } callers (.call index)) := by
  obtain ⟨e, he, hearrow⟩ := Option.map_eq_some_iff.mp harrow
  obtain ⟨callee, hcallee, hcompiled⟩ := compiled.function he
  have hparams : e.paramTys = params := congrArg Arrow.params hearrow
  have hresult : e.resultTy = result := congrArg Arrow.result hearrow
  have hrange : e.params.length = params.length := by
    rw [← hparams, FunctionDecl.paramTys, List.length_map]
  have hcount : callee.numParameters = params.length := hcompiled.numParameters.trans hrange
  obtain ⟨hlength, htake, hdrop⟩ := act.operands_split htys
  refine ⟨callee, hcallee, ?_⟩
  simp only [Machine.execute, hcallee, Machine.enter, Machine.arguments, Frame.enter,
    act.stack, hcount, hcompiled.index, hcompiled.numSlots]
  rw [List.take_append_of_le_length hlength, List.drop_append_of_le_length hlength]
  refine .of_idle act.pending act.sane ?_
  obtain ⟨known, hknown, hinside⟩ := hnext
  rw [Ty.pushOn_append] at hinside
  have hcaller :
      Framed p (R.Holds a) (e.resultTy.pushOn []) ({ frame with pc := frame.pc + 1 } :: callers)
      (ledger :: ledgers) (operands.drop params.length ++ rest) := by
    rw [hresult]
    exact .frame act.function hinside (List.Subset.trans hknown act.known) hdrop
      act.slots act.base act.below
  obtain ⟨known', hknown', hentry⟩ := e.reaches_entry
  have hslots : SlotsHold (R.Holds a) e (List.range e.params.length)
      (initialSlots e.slotTys.length (operands.take params.length).reverse) := by
    refine .enter ?_
    rw [hparams]
    exact htake
  have hentered : Framed p (R.Holds a) []
      (⟨index, 0, initialSlots e.slotTys.length (operands.take params.length).reverse,
        (operands.drop params.length ++ rest).length⟩ :: { frame with pc :=
          frame.pc + 1 } :: callers)
      (List.range e.params.length :: ledger :: ledgers)
        ([] ++ (operands.drop params.length ++ rest)) :=
    .frame he hentry hknown' .nil hslots rfl hcaller
  rw [hrange] at hentered
  exact hentered

/-- A function of the host is called with its arguments; what it answers is pushed or awaited. -/
theorem Activation.callHost (act : Activation R a m d frame callers ledger ledgers x operands rest)
    (compiled : m.module.Compiles p) {code : FunctionCode} {index : Nat} {params tys : List Ty}
    {result : Ty} (hcode : m.module.function? frame.function = some code)
    (hI : code.instructions[frame.pc]? = some (.callHost index))
    (harrow : p.arrows (.host index) = some ⟨params, result⟩)
    (htys : x.operands = params.reverse ++ tys)
    (hnext : Reaches d.Inside (frame.pc + 1) (result.pushOn tys) x.vars) :
    ∃ b : R.Index, R.Grows a b ∧ m.CallHolds (R.Holds b) ∧ Standing R b (ledger :: ledgers)
      (m.execute code { frame with pc := frame.pc + 1 } callers (.callHost index)) := by
  obtain ⟨h, hh, hharrow⟩ := Option.map_eq_some_iff.mp harrow
  have hfunction : m.module.hostFunction? index = some h := (compiled.hostFunction? index).trans hh
  have hparams : h.arrow.params = params := congrArg Arrow.params hharrow
  have hresult : h.arrow.result = result := congrArg Arrow.result hharrow
  have hcount : h.params.length = params.length := by
    rw [← hparams, HostFunction.arrow, List.length_map]
  obtain ⟨hlength, htake, hdrop⟩ := act.operands_split htys
  have harguments : List.Forall₂ (R.Holds a) (operands.take params.length).reverse
      h.arrow.params := by
    rw [hparams]
    exact htake
  have htaken : m.arguments h.params.length = (operands.take params.length).reverse := by
    rw [Machine.arguments, act.stack, hcount, List.take_append_of_le_length hlength]
  obtain ⟨b, hab, hsane, hreply⟩ := R.native hh act.sane harguments
  refine ⟨b, hab, ?_, ?_⟩
  · have hcalled {i : Nat} {f : HostFunction σ} (hi : m.instruction? = some (.callHost i))
        (hf : m.module.hostFunction? i = some f) : f = h := by
      rw [act.instruction?_eq hcode hI, Option.some.injEq, Instruction.callHost.injEq] at hi
      rw [← hi, hfunction, Option.some.injEq] at hf
      exact hf.symm
    refine ⟨?_, ?_⟩
    · intro i f hi hf
      rw [hcalled hi hf, htaken]
      exact harguments.imp fun _ _ => R.holds_grows hab
    · intro i f v hi hf hv hne
      obtain rfl := hcalled hi hf
      rw [htaken] at hv
      rw [hv] at hreply
      exact hreply hne
  obtain ⟨known, hknown, hinside⟩ := hnext
  rw [Ty.pushOn_append] at hinside
  have hlacking :
      Framed p (R.Holds b) (h.arrow.result.pushOn []) ({ frame with pc := frame.pc + 1 } :: callers)
      (ledger :: ledgers) (operands.drop params.length ++ rest) := by
    rw [hresult]
    exact .frame act.function hinside (List.Subset.trans hknown act.known)
      (hdrop.imp fun _ _ => R.holds_grows hab) (act.slots.imp (R.holds_grows hab)) act.base
      (act.below.imp (R.holds_grows hab))
  simp only [Machine.execute, hfunction, Machine.callHost, Machine.arguments, act.stack, hcount]
  rw [List.take_append_of_le_length hlength, List.drop_append_of_le_length hlength]
  generalize hnative : h.native (operands.take params.length).reverse m.world = answer
    at hsane hreply
  obtain ⟨reply, world⟩ := answer
  cases reply with
  | ready v =>
      refine .of_idle act.pending hsane ?_
      have hdelivered := hlacking.deliver hreply
      simp only [h.returnsValue_iff]
      exact hdelivered
  | pending future =>
      refine ⟨hsane, ?_, ?_⟩
      · intro hnone
        cases hnone
      · intro call hcall
        cases hcall
        exact ⟨List.cons_ne_nil _ _, h, hh, hreply, hlacking⟩

/-- The activation ends, and what it yields is given to its caller. -/
theorem Activation.leave (act : Activation R a m d frame callers ledger ledgers x operands rest)
    {code : FunctionCode} (hreturn : code.returnType = d.resultTy)
    (hresult : d.resultTy ≠ .nothing → R.Holds a (m.resultAbove frame.base) d.resultTy) :
    Standing R a ledgers (m.execute code { frame with pc := frame.pc + 1 } callers .ret) := by
  have hdropped : (operands ++ rest).drop ((operands ++ rest).length - frame.base) = rest := by
    rw [← act.base, List.length_append, Nat.add_sub_cancel, List.drop_left]
  have hdelivered := act.below.deliver hresult
  simp only [Machine.execute, Machine.leave, Machine.resultAbove, Machine.top,
    FunctionCode.returnsValue, hreturn, act.stack, hdropped] at hdelivered ⊢
  refine .of_idle act.pending act.sane ?_
  simpa using hdelivered

/-- A `return` with a value yields the topmost operand. -/
theorem Activation.leave_value {v : Value} {values : List Value}
    (act : Activation R a m d frame callers ledger ledgers x (v :: values) rest)
    {code : FunctionCode} (hreturn : code.returnType = d.resultTy)
    (hv : R.Holds a v d.resultTy) :
    Standing R a ledgers (m.execute code { frame with pc := frame.pc + 1 } callers .ret) := by
  refine act.leave hreturn fun _ => ?_
  have habove : frame.base < m.stack.length := by
    rw [act.stack, ← act.base, List.length_append, List.length_cons]
    omega
  rw [Machine.resultAbove, if_pos habove, act.top_eq rfl]
  exact hv

/-- The `return` that closes a function finds no operand: a function that is to yield a value ends
without one there. -/
theorem Activation.leave_closing
    (act : Activation R a m d frame callers ledger ledgers x operands rest)
    {code : FunctionCode} (hreturn : code.returnType = d.resultTy) (hcloses : d.ClosesAt frame.pc)
    (hnone : x.operands = []) (hlax : m.EndsWithoutValue p → R.Lax) :
    Standing R a ledgers (m.execute code { frame with pc := frame.pc + 1 } callers .ret) := by
  refine act.leave hreturn fun hne => ?_
  have hempty : operands = [] := by
    have hlength := act.operands.length_eq
    rw [hnone] at hlength
    exact List.eq_nil_of_length_eq_zero hlength
  have habove : ¬ frame.base < m.stack.length := by
    rw [act.stack, hempty, List.nil_append, act.base]
    exact Nat.lt_irrefl _
  rw [Machine.resultAbove, if_neg habove]
  exact R.nothing
    (hlax ⟨frame, d, by rw [act.frames, List.head?_cons], act.function, hcloses, hne⟩) a _

/-- **An instruction keeps a machine in order.** Only a function that ends without the value it is
to yield needs a lax reading. -/
theorem Activation.step (act : Activation R a m d frame callers ledger ledgers x operands rest)
    (compiled : m.module.Compiles p) (typed : p.Typed) (hlax : m.EndsWithoutValue p → R.Lax) :
    ∃ b : R.Index, R.Grows a b ∧ m.CallHolds (R.Holds b) ∧
      Standing R b (m.ledgersAfter (ledger :: ledgers)) m.step := by
  obtain ⟨code, hcode, hcompiled⟩ := compiled.function act.function
  have htyped := typed.functions d (List.mem_of_getElem? act.function)
  rcases d.fits htyped act.inside with ⟨I, hI, hfits⟩ | ⟨hcloses, hnone, hI⟩
  · have hinstruction : code.instructions[frame.pc]? = some I :=
      (hcompiled.getElem? frame.pc).trans hI
    rw [act.step_eq hcode hinstruction, Machine.ledgersAfter, act.instruction?_eq hcode
      hinstruction]
    obtain ⟨tys, vars⟩ := x
    have hoperands := act.operands
    cases hfits with
    | @push c _ _ hnext =>
        refine act.stays hcode hinstruction nofun ?_
        simp only [Machine.execute, act.stack]
        exact act.goOn (c.value :: operands) hnext (.cons (R.constant a c) hoperands)
    | pop hnext =>
        cases hoperands with
        | cons _ hvalues =>
            refine act.stays hcode hinstruction nofun ?_
            simp only [Machine.execute, act.stack]
            exact act.goOn _ hnext hvalues
    | dup hnext =>
        cases hoperands with
        | @cons v _ values _ hv hvalues =>
            refine act.stays hcode hinstruction nofun ?_
            simp only [Machine.execute, act.stack, act.top_eq rfl]
            exact act.goOn (v :: v :: values) hnext (.cons hv (.cons hv hvalues))
    | @load slot _ _ _ hslot hty hnext =>
        obtain ⟨v, hv, hholds⟩ := act.slots.filled (act.known hslot) hty
        refine act.stays hcode hinstruction nofun ?_
        simp only [Machine.execute, act.stack, Frame.slot, hv, Option.getD_some]
        exact act.goOn (v :: operands) hnext (.cons hholds hoperands)
    | store hty hnext =>
        cases hoperands with
        | cons hv hvalues =>
            refine act.stays hcode hinstruction nofun ?_
            simp only [Machine.execute, act.stack, act.top_eq rfl]
            exact act.next (R.grows_refl a) hnext (List.cons_subset_cons _ act.known) hvalues
              (act.slots.store hty hv) act.sane
    | @loadField index _ _ _ _ _ hrecord hfield hnext =>
        cases hoperands with
        | @cons v _ values _ hv hvalues =>
            refine act.stays hcode hinstruction nofun ?_
            simp only [Machine.execute, act.stack, act.top_eq rfl]
            exact act.goOn (m.world.fieldOf index v :: values) hnext
              (.cons (R.getField act.sane hv hrecord hfield) hvalues)
    | storeField hrecord hfield hnext =>
        cases hoperands with
        | cons hv hoperands =>
            cases hoperands with
            | cons hw hvalues =>
                refine act.stays hcode hinstruction nofun ?_
                simp only [Machine.execute, act.stack, act.top_eq rfl, act.second_eq rfl]
                exact act.next (R.grows_refl a) hnext act.known hvalues act.slots
                  (R.setField act.sane hv hrecord hfield hw)
    | jump hnext =>
        refine act.stays hcode hinstruction nofun ?_
        simp only [Machine.execute]
        have hstanding := act.goOn _ hnext hoperands
        rw [← act.stack] at hstanding
        exact hstanding
    | jumpIfFalse htarget hnext =>
        cases hoperands with
        | @cons v _ _ _ _ hvalues =>
            refine act.stays hcode hinstruction nofun ?_
            simp only [Machine.execute, act.stack, act.top_eq rfl]
            cases v.asBool with
            | true => exact act.goOn _ hnext hvalues
            | false => exact act.goOn _ htarget hvalues
    | @call callee params result _ ops _ harrow htys hnext =>
        cases callee with
        | user index =>
            obtain ⟨callee, hcallee, hstanding⟩ := act.enter compiled code harrow htys hnext
            refine act.stays hcode hinstruction nofun ?_
            simp only [Callee.instruction, Module.noteIn, hcallee, Option.map_some,
              Option.getD_some]
            exact hstanding
        | host index => exact act.callHost compiled hcode hinstruction harrow htys hnext
    | ret hnothing =>
        refine act.stays hcode hinstruction nofun (act.leave hcompiled.returnType ?_)
        intro hne
        exact absurd hnothing hne
    | retValue hne =>
        cases hoperands with
        | cons hv hvalues =>
            exact act.stays hcode hinstruction nofun (act.leave_value hcompiled.returnType hv)
    | @unary op _ _ _ _ hop hnext =>
        cases hoperands with
        | @cons v _ values _ _ hvalues =>
            refine act.stays hcode hinstruction nofun ?_
            simp only [Machine.execute, act.stack, act.top_eq rfl]
            exact act.goOn (op.apply v :: values) hnext (.cons (R.unary a hop v) hvalues)
    | @binary op _ _ _ _ _ hop hnext =>
        cases hoperands with
        | @cons v _ _ _ _ hoperands =>
            cases hoperands with
            | @cons w _ values _ _ hvalues =>
                refine act.stays hcode hinstruction nofun ?_
                simp only [Machine.execute, act.stack, act.top_eq rfl, act.second_eq rfl]
                exact act.goOn (op.apply w v :: values) hnext (.cons (R.binary a hop w v) hvalues)
    | concat hnext =>
        cases hoperands with
        | @cons v _ _ _ _ hoperands =>
            cases hoperands with
            | @cons w _ values _ _ hvalues =>
                refine act.stays hcode hinstruction nofun ?_
                simp only [Machine.execute, act.stack, act.top_eq rfl, act.second_eq rfl]
                exact act.goOn (BinaryOp.concat.apply w v :: values) hnext
                  (.cons (R.string a _) hvalues)
  · have hinstruction : code.instructions[frame.pc]? = some .ret :=
      (hcompiled.getElem? frame.pc).trans hI
    rw [act.step_eq hcode hinstruction, Machine.ledgersAfter, act.instruction?_eq hcode
      hinstruction]
    exact act.stays hcode hinstruction nofun
      (act.leave_closing hcompiled.returnType hcloses hnone hlax)

end Activation

/-! ## What else happens to a machine -/

/-- An instruction changes neither the module nor the phase. -/
theorem Machine.step_unchanged (m : Machine σ) :
    m.step.module = m.module ∧ m.step.phase = m.phase := by
  have hleave (m : Machine σ) (code : FunctionCode) :
      (m.leave code).module = m.module ∧ (m.leave code).phase = m.phase := by
    unfold Machine.leave
    split <;> exact ⟨rfl, rfl⟩
  unfold Machine.step
  split
  · exact ⟨rfl, rfl⟩
  split
  · exact ⟨rfl, rfl⟩
  split
  · exact hleave m _
  · next I _ =>
      cases I with
      | ret => exact hleave _ _
      | call index =>
          simp only [Machine.execute]
          split <;> exact ⟨rfl, rfl⟩
      | callHost index =>
          simp only [Machine.execute]
          split
          · exact ⟨rfl, rfl⟩
          · unfold Machine.callHost
            dsimp only
            split <;> exact ⟨rfl, rfl⟩
      | _ => exact ⟨rfl, rfl⟩

namespace Standing

variable {R : Reading p} {a : R.Index} {ledgers : List (List Nat)} {m : Machine σ}

/-- An instruction keeps a machine in order, be there an activation or none. -/
theorem step (h : Standing R a ledgers m) (compiled : m.module.Compiles p) (typed : p.Typed)
    (hpending : m.pending = none) (hlax : m.EndsWithoutValue p → R.Lax) :
    ∃ b : R.Index, R.Grows a b ∧ m.CallHolds (R.Holds b) ∧
    Standing R b (m.ledgersAfter ledgers) m.step := by
  by_cases hframes : m.frames = []
  · have hinstruction : m.instruction? = none := by simp [Machine.instruction?, hframes]
    have hledgers : m.ledgersAfter ledgers = ledgers := by
      rw [Machine.ledgersAfter, hinstruction]
      rfl
    rw [hledgers, m.step_of_frames_nil hframes]
    exact ⟨a, R.grows_refl a, .of_ne (by simp [hinstruction]), h⟩
  · obtain ⟨d, frame, callers, ledger, others, x, operands, rest, rfl, act⟩ :=
      h.activation hpending hframes
    exact act.step compiled typed hlax

/-- The answer of an outstanding call is what the uppermost activation lacks. -/
theorem resume (h : Standing R a ledgers m) (compiled : m.module.Compiles p) {call : PendingCall}
    (hpending : m.pending = some call) (hdone : m.world.isCompleted call.future = true) :
    Standing R a ledgers m.resume := by
  obtain ⟨-, f, hf, hpromise, hframed⟩ := h.waiting hpending
  obtain ⟨hsane, hvalue⟩ := R.take hf h.sane hpromise hdone
  have hawaits : m.awaitsValue call = f.returnsValue := by
    rw [Machine.awaitsValue, compiled.hostFunction?, hf]
    rfl
  rw [Machine.resume_of_pending hpending, hawaits]
  refine .of_idle rfl hsane ?_
  have hdelivered := hframed.deliver hvalue
  simp only [f.returnsValue_iff]
  exact hdelivered

/-- Only activations, operands, the outstanding call and the world matter. -/
theorem congr {m' : Machine σ} (h : Standing R a ledgers m) (hframes : m'.frames = m.frames)
    (hstack : m'.stack = m.stack) (hpending : m'.pending = m.pending)
    (hworld : m'.world = m.world) :
    Standing R a ledgers m' := by
  refine ⟨hworld ▸ h.sane, ?_, ?_⟩
  · intro hnone
    rw [hframes, hstack]
    exact h.idle (hpending ▸ hnone)
  · intro call hcall
    rw [hframes, hstack, hworld]
    exact h.waiting (hpending ▸ hcall)

/-- A program that begins stands in order: its first activation takes nothing and is to yield
nothing. -/
theorem restart (compiled : m.module.Compiles p) {main : FunctionDecl}
    (hmain : p.functions[0]? = some main) (harrow : main.arrow = ⟨[], .nothing⟩)
    (hsane : R.Sane a m.world) : Standing R a [[]] m.restart := by
  obtain ⟨code, hcode, hcompiled⟩ := compiled.function hmain
  have hresult : main.resultTy = .nothing := congrArg Arrow.result harrow
  have hparams : main.paramTys = [] := congrArg Arrow.params harrow
  have hcount : main.params.length = 0 := by
    rw [← List.length_map (f := fun p : Param => p.ty.getD .nothing)]
    exact congrArg List.length hparams
  have hframes : m.restart.frames = [Frame.enter code 0 []] := by
    rw [Machine.restart, Module.main?, List.head?_eq_getElem?]
    rw [Module.function?] at hcode
    rw [hcode]
    rfl
  obtain ⟨known, hknown, hinside⟩ := main.reaches_entry
  refine .of_idle rfl hsane ?_
  rw [hframes, Frame.enter, hcompiled.index, hcompiled.numSlots]
  have hslots : SlotsHold (R.Holds a) main (List.range main.params.length)
      (initialSlots main.slotTys.length []) := by
    refine .enter ?_
    rw [hparams]
    exact .nil
  have hbelow : Framed p (R.Holds a) (main.resultTy.pushOn []) [] [] [] := by
    rw [hresult]
    exact .done
  have hframed : Framed p (R.Holds a) [] [⟨0, 0, initialSlots main.slotTys.length [], 0⟩]
      [List.range main.params.length] ([] ++ []) :=
        .frame hmain hinside hknown .nil hslots rfl hbelow
  rw [hcount] at hframed
  exact hframed

end Standing

/-! ## Many instructions -/

/-- The ledgers after the next instructions of machines in a row. -/
def Machine.ledgersOver (xs : List (Machine σ)) (all : List (List Nat)) : List (List Nat) :=
  xs.foldl (fun all x => x.ledgersAfter all) all

/-- What is kept while instructions are executed: that the machine stands in order, and the calls of
the host that were made hold, if the reading is lax or no function ended without its value. -/
structure Machine.Kept (R : Reading p) (a : R.Index) (module : Module σ) (ledgers : List (List Nat))
    (xs : List (Machine σ)) (m : Machine σ) : Prop where
  module_eq : m.module = module
  past : ∀ x ∈ xs, x.module = module
  standing : (∀ x ∈ xs, x.EndsWithoutValue p → R.Lax) →
    ∃ b : R.Index, R.Grows a b ∧ Standing R b (ledgersOver xs ledgers) m ∧ ∀ x ∈ xs,
    x.CallHolds (R.Holds b)

theorem Machine.Kept.invariant {R : Reading p} {a : R.Index} {module : Module σ}
    {ledgers : List (List Nat)} (compiled : module.Compiles p) (typed : p.Typed) :
    Machine.Invariant (Machine.Kept R a module ledgers) where
  step := by
    intro xs m h hpending _
    refine ⟨(m.step_unchanged).1.trans h.module_eq, ?_, ?_⟩
    · intro x hx
      rcases List.mem_append.mp hx with hx | hx
      · exact h.past x hx
      · rw [List.mem_singleton.mp hx]
        exact h.module_eq
    · intro hlax
      obtain ⟨b, hab, hstanding, hcalls⟩ :=
        h.standing fun x hx => hlax x (List.mem_append_left _ hx)
      obtain ⟨c, hbc, hcall, hnext⟩ := hstanding.step (h.module_eq ▸ compiled) typed hpending
        (hlax m (List.mem_append_right _ (List.mem_singleton.mpr rfl)))
      refine ⟨c, R.grows_trans hab hbc, ?_, ?_⟩
      · rw [Machine.ledgersOver, List.foldl_append]
        exact hnext
      · intro x hx
        rcases List.mem_append.mp hx with hx | hx
        · exact (hcalls x hx).imp (R.holds_grows hbc)
        · rw [List.mem_singleton.mp hx]
          exact hcall
  resume := by
    intro xs m call h _ hpending hdone
    refine ⟨?_, h.past, ?_⟩
    · rw [Machine.resume_of_pending hpending]
      exact h.module_eq
    · intro hlax
      obtain ⟨b, hab, hstanding, hcalls⟩ := h.standing hlax
      exact ⟨b, hab, hstanding.resume (h.module_eq ▸ compiled) hpending hdone, hcalls⟩
  settle := by
    intro xs m h _
    refine ⟨h.module_eq, h.past, ?_⟩
    intro hlax
    obtain ⟨b, hab, hstanding, hcalls⟩ := h.standing hlax
    exact ⟨b, hab, hstanding.congr rfl rfl rfl rfl, hcalls⟩
  breakpoints := by
    intro xs m table h
    refine ⟨h.module_eq, h.past, ?_⟩
    intro hlax
    obtain ⟨b, hab, hstanding, hcalls⟩ := h.standing hlax
    exact ⟨b, hab, hstanding.congr rfl rfl rfl rfl, hcalls⟩

/-- **An action keeps a machine in order.** -/
theorem Standing.perform {R : Reading p} {a : R.Index} {ledgers : List (List Nat)} {m : Machine σ}
    (h : Standing R a ledgers m) (compiled : m.module.Compiles p) (typed : p.Typed)
    (action : Action) :
    Machine.Kept R a m.module ledgers (m.executed action) (m.perform action) := by
  have hstart : Machine.Kept R a m.module ledgers [] m :=
    ⟨rfl, by simp, fun _ => ⟨a, R.grows_refl a, h, by simp⟩⟩
  exact (Machine.Kept.invariant compiled typed).perform hstart action

end Stepwise
