import Stepwise.Proofs.Machine.Framing

/-!
# The operands of a running program

A compiled program never takes an operand that its activation does not have, never names a slot or
function that is not there, and never runs out of its code. The one instruction that may find its
operand missing is the `return` that closes a function which ought to yield a value: it then finds
no operand at all, and the function yields nothing.

Where a statement begins there is one operand for every repetition around it, and when the program
has completed the stack is empty. `operand_discipline` states this for every machine that drives a
compiled program, whatever the host answers, whatever is delivered, and in whichever order the
machine is told to run, step, or start again.
-/

set_option autoImplicit false

namespace Stepwise

variable {σ : Type} {p : CheckedProgram σ}

/-! ## What instructions take and name -/

/-- How many operands an instruction takes. -/
def Instruction.takes (module : Module σ) (code : FunctionCode) : Instruction → Nat
  | .push _ | .load _ | .jump _ => 0
  | .pop | .dup | .store _ | .loadField _ | .jumpIfTrue _ | .jumpIfFalse _ | .unary _ => 1
  | .storeField _ | .binary _ | .concat => 2
  | .call index => ((module.function? index).map (·.numParameters)).getD 0
  | .callHost index => ((module.hostFunction? index).map (·.params.length)).getD 0
  | .ret => if code.returnsValue then 1 else 0

/-- The slot or function that an instruction names is there. -/
def Instruction.InRange (module : Module σ) (code : FunctionCode) : Instruction → Prop
  | .load slot | .store slot => slot < code.numSlots
  | .call index => index < module.functions.length
  | .callHost index => index < module.hostFunctions.length
  | _ => True

/-- The order that a machine keeps while it runs a compiled program. -/
structure Machine.Disciplined (p : CheckedProgram σ) (m : Machine σ) : Prop where
  /-- Every activation stands at an instruction of its function and has all its slots. -/
  located : ∀ frame ∈ m.frames, ∃ (code : FunctionCode) (I : Instruction),
    m.module.function? frame.function = some code ∧ code.instructions[frame.pc]? = some I ∧
      frame.slots.length = code.numSlots
  /-- The next instruction finds its operands above those of the callers, or else it is the closing
  `return` of a function that ought to yield a value and finds none. -/
  supplied : m.pending = none → ∀ (frame : Frame) (code : FunctionCode) (I : Instruction),
    m.frames.head? = some frame → m.module.function? frame.function = some code →
    code.instructions[frame.pc]? = some I →
    frame.base + I.takes m.module code ≤ m.height ∨
      (m.EndsWithoutValue p ∧ I = .ret ∧ m.height = frame.base ∧ m.resultAbove frame.base =
        .nothing)
  /-- Where a statement begins, the activation has one operand for every repetition around it. -/
  level : m.pending = none → ∀ (frame : Frame) (d : FunctionDecl) (k : Nat),
    m.frames.head? = some frame →
    p.functions[frame.function]? = some d → d.StartsAt frame.pc k → m.height = frame.base + k
  completed : m.phase = .completed → m.stack = []

/-! ## Everything named is there -/

/-- The slot or function that an instruction names has a type. -/
def Instruction.Named (C : BodyTyping) : Instruction → Prop
  | .load slot | .store slot => slot < C.slotTys.length
  | .call index => (C.arrows (.user index)).isSome = true
  | .callHost index => (C.arrows (.host index)).isSome = true
  | _ => True

section Named

variable {C : BodyTyping} {vars : List Nat}

theorem Callee.named {callee : Callee} {arrow : Arrow} (h : C.arrows callee = some arrow) :
    callee.instruction.Named C := by
  cases callee <;> exact Option.isSome_iff_exists.mpr ⟨_, h⟩

theorem named_append {first second : List Instruction} (hfirst : ∀ I ∈ first, I.Named C)
    (hsecond : ∀ I ∈ second, I.Named C) : ∀ I ∈ first ++ second, I.Named C := by
  intro I hI
  rcases List.mem_append.mp hI with hI | hI
  · exact hfirst I hI
  · exact hsecond I hI

theorem named_singleton {I : Instruction} (h : I.Named C) : ∀ J ∈ [I], J.Named C := by
  intro J hJ
  rwa [List.mem_singleton.mp hJ]

theorem slot_lt_of_getElem? {slot : Nat} {t : Ty} (h : C.slotTys[slot]? = some t) :
    slot < C.slotTys.length :=
  (List.getElem?_eq_some_iff.mp h).1

mutual

theorem ExprTyped.named : ∀ (e : Expr) {t : Ty}, ExprTyped C vars e t → ∀ I ∈ e.code C.registry,
    I.Named C
  | .number .., _, _ => named_singleton trivial
  | .boolean .., _, _ => named_singleton trivial
  | .string .., _, _ => named_singleton trivial
  | .reference .., _, .reference _ hty _ => named_singleton (slot_lt_of_getElem? hty)
  | .call _ _ arguments _, _, .call htyped harrow _ _ =>
      named_append (ExprsTyped.named arguments htyped) (named_singleton (Callee.named harrow))
  | .field _ inner _, _, .field htyped _ _ _ _ =>
    named_append (ExprTyped.named inner htyped) (named_singleton trivial)
  | .unary _ _ inner, _, .unary htyped _ =>
    named_append (ExprTyped.named inner htyped) (named_singleton trivial)
  | .binary _ op first second, _, .binary hfirst hsecond _ =>
      named_append (named_append (ExprTyped.named first hfirst) (ExprTyped.named second hsecond))
        (named_singleton (by cases op <;> trivial))

theorem ExprsTyped.named : ∀ (es : List Expr) {ts : List Ty}, ExprsTyped C vars es ts →
    ∀ I ∈ Expr.codes C.registry es, I.Named C
  | [], _, _ => by simp [Expr.codes]
  | e :: es, _, .cons he hes => named_append (ExprTyped.named e he) (ExprsTyped.named es hes)

end

theorem named_targetCode {target : Expr} {t : Ty} (h : ExprTyped C vars target t) :
    ∀ I ∈ target.targetCode C.registry, I.Named C := by
  cases h with
  | reference _ hty _ => exact named_singleton (slot_lt_of_getElem? hty)
  | field htyped _ _ _ _ => exact named_append (ExprTyped.named _ htyped) (named_singleton trivial)
  | _ => exact named_singleton trivial

theorem named_dropCode (e : Expr) : ∀ I ∈ e.dropCode, I.Named C := by
  unfold Expr.dropCode
  split
  · simp
  · exact named_singleton trivial

mutual

theorem StmtTyped.named : ∀ (s : Stmt) {inLoop : Bool} {vars : List Nat} {loop : Option LoopTargets}
    {pc : Nat},
    StmtTyped C inLoop vars s → ∀ I ∈ s.code C.registry loop pc, I.Named C
  | .comment .., _, _, _, _, _ => by simp [Stmt.code]
  | .expr e, _, _, _, _, .expr htyped => named_append (ExprTyped.named e htyped) (named_dropCode e)
  | .var decl, _, _, _, _, .var htyped _ _ hslot hat => by
      refine named_append (ExprTyped.named _ htyped) (named_singleton ?_)
      rw [hslot]
      exact slot_lt_of_getElem? hat
  | .assign target value _, _, _, _, _, .assign hvalue htarget _ =>
      named_append (ExprTyped.named value hvalue) (named_targetCode htarget)
  | .cond condition thenBlock elseBlock _, _, _, _, _, .cond hcondition hthen helse =>
      named_append (named_append (named_append (named_append (ExprTyped.named condition hcondition)
        (named_singleton trivial)) (StmtsTyped.named thenBlock hthen)) (named_singleton trivial))
        (StmtsTyped.named elseBlock helse)
  | .whileLoop condition body _, _, _, _, _, .whileLoop hcondition hbody =>
      named_append
        (named_append (named_append (ExprTyped.named condition hcondition)
          (named_singleton trivial)) (StmtsTyped.named body hbody))
        (named_singleton trivial)
  | .repeatLoop count body _, _, _, _, _, .repeatLoop hcount hbody =>
      named_append (named_append (named_append (ExprTyped.named count hcount)
        (by simp [repeatTest, Instruction.Named])) (StmtsTyped.named body hbody))
        (by simp [repeatBack, Instruction.Named])
  | .ret (some value) _, _, _, _, _, .retValue hvalue _ =>
      named_append (ExprTyped.named value hvalue) (named_singleton trivial)
  | .ret none _, _, _, _, _, _ => named_singleton trivial
  | .breakLoop _, _, _, _, _, _ => named_singleton trivial
  | .continueLoop _, _, _, _, _, _ => named_singleton trivial

theorem StmtsTyped.named : ∀ (ss : List Stmt) {inLoop : Bool} {vars : List Nat}
    {loop : Option LoopTargets} {pc : Nat}, StmtsTyped C inLoop vars ss →
    ∀ I ∈ Stmt.codes C.registry loop pc ss, I.Named C
  | [], _, _, _, _, _ => by simp [Stmt.codes]
  | s :: rest, _, _, _, _, .cons hs hrest =>
    named_append (StmtTyped.named s hs) (StmtsTyped.named rest hrest)

end

end Named

theorem FunctionTyped.named {r : Registry} {arrows : Callee → Option Arrow} {d : FunctionDecl}
    (typed : FunctionTyped r arrows d) : ∀ I ∈ d.code r, I.Named (d.typing r arrows) := by
  refine named_append (StmtsTyped.named d.body typed.body) ?_
  unfold FunctionDecl.closing
  split
  · simp
  · exact named_singleton trivial

/-- **Every slot and function that the code of a compiled program names is there.** -/
theorem Module.Compiles.inRange {module : Module σ} (compiled : module.Compiles p) (typed : p.Typed)
    {index : Nat} {code : FunctionCode} (hcode : module.function? index = some code) :
    ∀ I ∈ code.instructions.toList, I.InRange module code := by
  obtain ⟨d, hd, hcompiled⟩ := compiled.declared hcode
  have htyped := typed.functions d (List.mem_of_getElem? hd)
  intro I hI
  rw [hcompiled.instructions] at hI
  have hnamed := htyped.named I hI
  cases I with
  | load slot =>
      show slot < code.numSlots
      rw [hcompiled.numSlots]
      exact hnamed
  | store slot =>
      show slot < code.numSlots
      rw [hcompiled.numSlots]
      exact hnamed
  | call index =>
      obtain ⟨arrow, harrow⟩ := Option.isSome_iff_exists.mp hnamed
      obtain ⟨e, he, -⟩ := Option.map_eq_some_iff.mp harrow
      show index < module.functions.length
      rw [compiled.length]
      exact (List.getElem?_eq_some_iff.mp he).1
  | callHost index =>
      obtain ⟨arrow, harrow⟩ := Option.isSome_iff_exists.mp hnamed
      obtain ⟨h, hh, -⟩ := Option.map_eq_some_iff.mp harrow
      show index < module.hostFunctions.length
      rw [compiled.hosts]
      exact (List.getElem?_eq_some_iff.mp hh).1
  | _ => trivial

/-! ## Counting operands -/

/-- The reading that only counts operands: every value is of every type. -/
def Reading.counting (p : CheckedProgram σ) : Reading p where
  Index := Unit
  Grows _ _ := True
  Holds _ _ _ := True
  Sane _ _ := True
  Promises _ _ _ := True
  Lax := True
  grows_refl _ := trivial
  grows_trans _ _ := trivial
  holds_grows _ _ := trivial
  boolean _ _ := trivial
  number _ _ := trivial
  string _ _ := trivial
  nothing _ _ _ := trivial
  getField _ _ _ _ := trivial
  setField _ _ _ _ _ := trivial
  native := by
    intro a w index h arguments _ _ _
    refine ⟨a, trivial, trivial, ?_⟩
    split
    · exact fun _ => trivial
    · trivial
  take _ _ _ _ := ⟨trivial, fun _ => trivial⟩

section Counting

variable {R : Reading p} {a : R.Index} {m : Machine σ}

/-- Every framed activation stands at an instruction of its function. -/
theorem Framed.located {module : Module σ} (compiled : module.Compiles p) (typed : p.Typed)
    {lacking : List Ty} {frames : List Frame} {ledgers : List (List Nat)} {stack : List Value}
    (h : Framed p (R.Holds a) lacking frames ledgers stack) :
    ∀ frame ∈ frames, ∃ (code : FunctionCode) (I : Instruction),
      module.function? frame.function = some code ∧
      code.instructions[frame.pc]? = some I ∧ frame.slots.length = code.numSlots := by
  induction h with
  | done => simp
  | @frame _ _ frame callers _ _ d _ _ _ hd hinside _ _ hslots _ _ ih =>
      intro other hother
      rcases List.mem_cons.mp hother with rfl | hother
      · obtain ⟨code, hcode, hcompiled⟩ := compiled.function hd
        have htyped := typed.functions d (List.mem_of_getElem? hd)
        have hlength : other.slots.length = code.numSlots :=
          hslots.length.trans hcompiled.numSlots.symm
        rcases d.fits htyped hinside with ⟨I, hI, -⟩ | ⟨-, -, hI⟩
        · exact ⟨code, I, hcode, (hcompiled.getElem? _).trans hI, hlength⟩
        · exact ⟨code, .ret, hcode, (hcompiled.getElem? _).trans hI, hlength⟩
      · exact ih other hother

variable {d : FunctionDecl} {frame : Frame} {callers : List Frame} {ledger : List Nat}
    {ledgers : List (List Nat)}
  {x : Shape} {operands rest : List Value}

theorem Activation.height_eq
    (act : Activation R a m d frame callers ledger ledgers x operands rest) :
    m.height = frame.base + x.operands.length := by
  rw [Machine.height, act.stack, List.length_append, act.base, act.operands.length_eq, Nat.add_comm]

/-- A call takes an operand for each parameter. -/
theorem Module.Compiles.takes_call {module : Module σ} (compiled : module.Compiles p)
    (code : FunctionCode) {callee : Callee} {arrow : Arrow} (h : p.arrows callee = some arrow) :
    callee.instruction.takes module code = arrow.params.length := by
  cases callee with
  | user index =>
      obtain ⟨e, he, rfl⟩ := Option.map_eq_some_iff.mp h
      obtain ⟨called, hcalled, hcompiled⟩ := compiled.function he
      have hcount : called.numParameters = e.arrow.params.length := by
        rw [hcompiled.numParameters]
        exact (List.length_map _).symm
      simp only [Callee.instruction, Instruction.takes, hcalled, Option.map_some,
        Option.getD_some, hcount]
  | host index =>
      obtain ⟨f, hf, rfl⟩ := Option.map_eq_some_iff.mp h
      have hcount : f.params.length = f.arrow.params.length := by
        rw [HostFunction.arrow, List.length_map]
      simp only [Callee.instruction, Instruction.takes, compiled.hostFunction?, hf, Option.map_some,
        Option.getD_some, hcount]

/-- An instruction that fits takes no more operands than there are. -/
theorem Fits.takes_le {module : Module σ} (compiled : module.Compiles p) {code : FunctionCode}
    (hreturn : code.returnType = d.resultTy) {next : Nat → List Ty → List Nat → Prop} {here : Nat}
    {I : Instruction} {tys : List Ty} {vars : List Nat}
    (h : Fits (d.typing p.environment.registry p.arrows) next here I tys vars) :
    I.takes module code ≤ tys.length := by
  cases h with
  | call harrow htys _ =>
      rw [htys, List.length_append, List.length_reverse, compiled.takes_call code harrow]
      exact Nat.le_add_right _ _
  | ret hnothing =>
      have hnone : code.returnsValue = false := by
        rw [FunctionCode.returnsValue, hreturn, show d.resultTy = .nothing from hnothing]
        rfl
      simp [Instruction.takes, hnone]
  | retValue hne =>
      simp only [Instruction.takes, List.length_cons]
      split <;> omega
  | _ => simp [Instruction.takes]

theorem Activation.supplied (act : Activation R a m d frame callers ledger ledgers x operands rest)
    (compiled : m.module.Compiles p) (typed : p.Typed) {code : FunctionCode} {I : Instruction}
    (hcode : m.module.function? frame.function = some code)
    (hI : code.instructions[frame.pc]? = some I) :
    frame.base + I.takes m.module code ≤ m.height ∨
      (m.EndsWithoutValue p ∧ I = .ret ∧ m.height = frame.base ∧ m.resultAbove frame.base =
        .nothing) := by
  obtain ⟨d', hd', hcompiled⟩ := compiled.declared hcode
  rw [act.function, Option.some.injEq] at hd'
  subst hd'
  have htyped := typed.functions d (List.mem_of_getElem? act.function)
  rw [hcompiled.getElem?] at hI
  rcases d.fits htyped act.inside with ⟨J, hJ, hfits⟩ | ⟨hcloses, hnone, hJ⟩
  · rw [hI, Option.some.injEq] at hJ
    subst hJ
    rw [act.height_eq]
    exact .inl (Nat.add_le_add_left (hfits.takes_le compiled hcompiled.returnType) _)
  · rw [hI, Option.some.injEq] at hJ
    subst hJ
    have hheight : m.height = frame.base := by
      rw [act.height_eq, hnone, List.length_nil, Nat.add_zero]
    have habove : m.resultAbove frame.base = .nothing := by
      rw [Machine.resultAbove, if_neg]
      exact Nat.not_lt.mpr (Nat.le_of_eq hheight)
    by_cases hresult : d.resultTy = .nothing
    · have hnovalue : code.returnsValue = false := by
        rw [FunctionCode.returnsValue, hcompiled.returnType, hresult]
        rfl
      refine .inl ?_
      rw [hheight]
      simp [Instruction.takes, hnovalue]
    · exact .inr ⟨⟨frame, d, by rw [act.frames, List.head?_cons], act.function, hcloses, hresult⟩,
        rfl, hheight, habove⟩

/-- A machine that stands in order is disciplined. -/
theorem Standing.disciplined {all : List (List Nat)} (h : Standing R a all m)
    (compiled : m.module.Compiles p) (typed : p.Typed)
    (hphase : m.phase = .completed → m.frames = []) (hwaiting : m.frames = [] → m.pending = none) :
    m.Disciplined p where
  located := by
    cases hpending : m.pending with
    | none => exact (h.idle hpending).located compiled typed
    | some call =>
        obtain ⟨-, f, -, -, hframed⟩ := h.waiting hpending
        exact hframed.located compiled typed
  supplied := by
    intro hpending frame code I hframe hcode hI
    have hframes : m.frames ≠ [] := by
      rintro hnil
      rw [hnil] at hframe
      cases hframe
    obtain ⟨d, frame', callers, ledger, others, x, operands, rest, -, act⟩ :=
      h.activation hpending hframes
    rw [act.frames, List.head?_cons, Option.some.injEq] at hframe
    subst hframe
    exact act.supplied compiled typed hcode hI
  level := by
    intro hpending frame d k hframe hd hstart
    have hframes : m.frames ≠ [] := by
      rintro hnil
      rw [hnil] at hframe
      cases hframe
    obtain ⟨d', frame', callers, ledger, others, x, operands, rest, -, act⟩ :=
      h.activation hpending hframes
    rw [act.frames, List.head?_cons, Option.some.injEq] at hframe
    subst hframe
    have hsame := act.function.symm.trans hd
    rw [Option.some.injEq] at hsame
    subst hsame
    rw [act.height_eq, hstart.height act.inside]
  completed := by
    intro hcompleted
    have hframes := hphase hcompleted
    have hframed := h.idle (hwaiting hframes)
    rw [hframes] at hframed
    generalize m.stack = stack at hframed ⊢
    cases hframed
    rfl

end Counting

/-! ## Every run -/

/-- What runs of a compiled program keep: the machines that executed an instruction were
disciplined, and the present one stands in order. -/
structure Machine.Counted (p : CheckedProgram σ) (module : Module σ) (xs : List (Machine σ))
    (m : Machine σ) :
    Prop where
  module_eq : m.module = module
  ended : m.phase = .completed → m.frames = []
  standing : ∃ ledgers : List (List Nat), Standing (Reading.counting p) () ledgers m
  past : ∀ x ∈ xs, x.Disciplined p

namespace Machine.Counted

variable {module : Module σ} {xs : List (Machine σ)} {m : Machine σ}

theorem disciplined (h : Counted p module xs m) (compiled : module.Compiles p) (typed : p.Typed) :
    m.Disciplined p := by
  obtain ⟨ledgers, hstanding⟩ := h.standing
  refine hstanding.disciplined (h.module_eq ▸ compiled) typed h.ended ?_
  intro hframes
  cases hpending : m.pending with
  | none => rfl
  | some call => exact absurd hframes (hstanding.waiting hpending).1

theorem invariant (compiled : module.Compiles p) (typed : p.Typed) :
    Invariant (Counted p module) where
  step := by
    intro xs m h hpending hframes
    obtain ⟨ledgers, hstanding⟩ := h.standing
    obtain ⟨b, -, -, hnext⟩ :=
      hstanding.step (h.module_eq ▸ compiled) typed hpending (fun _ => trivial)
    obtain ⟨hmodule, hphase⟩ := m.step_unchanged
    refine ⟨hmodule.trans h.module_eq, ?_, ⟨_, hnext⟩, ?_⟩
    · intro hcompleted
      exact absurd (h.ended (hphase ▸ hcompleted)) hframes
    · intro x hx
      rcases List.mem_append.mp hx with hx | hx
      · exact h.past x hx
      · rw [List.mem_singleton.mp hx]
        exact h.disciplined compiled typed
  resume := by
    intro xs m call h hframes hpending hdone
    obtain ⟨ledgers, hstanding⟩ := h.standing
    have hnext := hstanding.resume (h.module_eq ▸ compiled) hpending hdone
    have hresume := resume_of_pending hpending
    refine ⟨?_, ?_, ⟨ledgers, hnext⟩, h.past⟩
    · rw [hresume]
      exact h.module_eq
    · intro hcompleted
      rw [hresume] at hcompleted
      exact absurd (h.ended hcompleted) hframes
  settle := by
    intro xs m h hframes
    obtain ⟨ledgers, hstanding⟩ := h.standing
    exact ⟨h.module_eq, fun _ => hframes, ⟨ledgers, hstanding.congr rfl rfl rfl rfl⟩, h.past⟩
  breakpoints := by
    intro xs m table h
    obtain ⟨ledgers, hstanding⟩ := h.standing
    exact ⟨h.module_eq, h.ended, ⟨ledgers, hstanding.congr rfl rfl rfl rfl⟩, h.past⟩

theorem complete (h : Counted p module xs m) (future : Nat) (v : Value) :
    Counted p module xs (m.complete future v) := by
  obtain ⟨ledgers, hstanding⟩ := h.standing
  refine ⟨h.module_eq, h.ended, ⟨ledgers, trivial, hstanding.idle, ?_⟩, h.past⟩
  intro call hcall
  obtain ⟨hframes, f, hf, -, hframed⟩ := hstanding.waiting hcall
  exact ⟨hframes, f, hf, trivial, hframed⟩

theorem restart (h : m.module = module) (hpast : ∀ x ∈ xs, x.Disciplined p)
    (compiled : module.Compiles p) {main : FunctionDecl} (hmain : p.functions[0]? = some main)
    (harrow : main.arrow = ⟨[], .nothing⟩) :
    Counted p module xs m.restart := by
  refine ⟨h, ?_, ⟨[[]], .restart (h ▸ compiled) hmain harrow trivial⟩, hpast⟩
  intro hcompleted
  cases hcompleted

end Machine.Counted

/-- **Operand discipline.** In a compiled program every slot and every function that an instruction
names is there. However the program is driven, and whatever its host answers and is delivered, the
machine is disciplined: between any two events, and whenever an instruction is executed. -/
theorem operand_discipline {source : String} {host : HostTable σ} {module : Module σ}
    {p : CheckedProgram σ} (hcompile : compile source host = .ok module)
    (hcheck : checkSource source host = .ok p) (limit : Nat) (world : World σ)
    (events : List Event) :
    (∀ (index : Nat) (code : FunctionCode), module.function? index = some code →
      ∀ I ∈ code.instructions.toList, I.InRange module code) ∧
    (∀ x ∈ (Machine.start module limit world).history events, x.Disciplined p) ∧
    ((Machine.start module limit world).handleAll events).Disciplined p := by
  obtain ⟨p', hcheck', hemit⟩ := compile_eq_ok.mp hcompile
  rw [hcheck, Except.ok.injEq] at hcheck'
  subst hcheck'
  have compiled := emitModule_compiles hemit
  obtain ⟨typed, -, main, others, hfunctions, harrow⟩ := checkSource_typed hcheck
  have hmain : p.functions[0]? = some main := by rw [hfunctions, List.getElem?_cons_zero]
  have hstart : Machine.Counted p module [] (Machine.start module limit world) :=
    .restart rfl (by simp) compiled hmain harrow
  have hall := (Machine.Counted.invariant compiled typed).handleAll
    (fun future v h => h.complete future v)
      (fun h => .restart h.module_eq h.past compiled hmain harrow) events hstart
  rw [List.nil_append] at hall
  exact ⟨fun index code hcode => compiled.inRange typed hcode, hall.past,
    hall.disciplined compiled typed⟩

/-- A host with one function, whose answer is awaited. -/
def waitingHost : HostTable Unit :=
  [⟨"wait", [], "number", true, "", none, fun _ w =>
    let (future, w) := w.newFuture .waiting
    (.pending future, w)⟩]

/-- A program that waits in nested repetitions, breaks out of one and calls a function that yields
no value. -/
def waitingSource : String :=
  "fun late(x: number): number\n  wait()\nend\n" ++
    "repeat wait() times\n  repeat wait() times\n" ++
    "    if late(wait()) == wait() then break end\n  end\nend\n"

theorem operand_discipline_waiting : ∃ (module : Module Unit) (p : CheckedProgram Unit),
    compile waitingSource waitingHost = .ok module ∧ checkSource waitingSource waitingHost = .ok p ∧
    (∀ (index : Nat) (code : FunctionCode), module.function? index = some code →
      ∀ I ∈ code.instructions.toList, I.InRange module code) ∧
    ∀ events : List Event,
      (∀ x ∈ (Machine.start module 10 (.initial ())).history events, x.Disciplined p) ∧
      ((Machine.start module 10 (.initial ())).handleAll events).Disciplined p := by
  have hcompile : (compile waitingSource waitingHost).isOk = true := by decide +kernel
  obtain ⟨module, hmodule⟩ := Diagnosed.isOk_iff.mp hcompile
  obtain ⟨p, hcheck, -⟩ := compile_eq_ok.mp hmodule
  refine ⟨module, p, hmodule, hcheck,
    (operand_discipline hmodule hcheck 10 (.initial ()) []).1, ?_⟩
  intro events
  exact (operand_discipline hmodule hcheck 10 (.initial ()) events).2

end Stepwise
