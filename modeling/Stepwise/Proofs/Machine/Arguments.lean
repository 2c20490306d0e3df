import Stepwise.Proofs.Code.CallSites
import Stepwise.Proofs.Machine.CallFrames

/-!
# Calls disturb nothing of their callers

A call finds its arguments among the operands of its caller, and it has gathered them in their
order. The code of an expression is gone through from its first instruction on and takes no operand
from before it (`Stretch.goesOn`). So whoever stands among the arguments of a call has come there
from where the first of them starts, and the values of those that are complete lie where they were
left, though the others may call functions that run long and wait for the host
(`Machine.exists_start`, `Machine.Calls.gathered`).

The activation that a call begins has the arguments in its slots and nothing in the others. While it
runs, the caller and all activations below stay as they are, and so do the operands below the
arguments. When it has ended, only its value has been put on top of these, if it yields one
(`calls_disturb_nothing`).
-/

set_option autoImplicit false

namespace Stepwise

variable {σ : Type}

/-! ## Expressions that are gone through -/

/-- The code of expressions in a row, each with a value, starts at `start`, and from there on
control comes to an instruction only from the one before. -/
structure Stretch (C : BodyTyping) (code : List Instruction) (es : List Expr) (start : Nat) :
    Prop where
  typed : ∃ (vars : List Nat) (ts : List Ty), ExprsTyped C vars es ts ∧ ∀ t ∈ ts, t ≠ .nothing
  placed : CodeAt code start (Expr.codes C.registry es)
  entered : ∀ {here target : Nat}, Flows code 0 here target → start < target →
    target ≤ start + Expr.sizes es →
    start ≤ here ∧ target = here + 1

/-- So many operands has an instruction among expressions that start at `start`, or the one behind
them. -/
inductive Partway (es : List Expr) (start : Nat) : Nat → Nat → Prop
  | inside {here : Nat} {operands : List Ty} : ExprsInside es start [] here operands →
      Partway es start here operands.length
  | behind : Partway es start (start + Expr.sizes es) es.length

theorem Partway.first (es : List Expr) (start : Nat) : Partway es start start 0 := by
  cases es with
  | nil => exact .behind
  | cons e es => exact .inside (.head (.first e start []))

theorem Partway.eq_length {es : List Expr} {start here count : Nat}
    (h : Partway es start here count) (hhere : here = start + Expr.sizes es) :
    count = es.length := by
  cases h with
  | inside h =>
      have := ExprsInside.bounds es h
      omega
  | behind => rfl

variable {C : BodyTyping} {code : List Instruction} {es : List Expr} {start : Nat}

theorem CallSite.stretch {callee : Callee} (h : CallSite C callee es start code 0) :
    Stretch C code es start := by
  obtain ⟨vars, ts, result, htyped, hstorable, -⟩ := h.typed
  refine ⟨⟨vars, ts, htyped, fun t ht => (hstorable t ht).1⟩, ?_, h.entered⟩
  intro i I hi
  obtain ⟨j, hj, hI⟩ := h.placed (placed_append.mpr (.inl ⟨i, rfl, hi⟩))
  rwa [hj, Nat.zero_add]

theorem Stretch.tail {e : Expr} (h : Stretch C code (e :: es) start) :
    Stretch C code es (start + e.size) := by
  obtain ⟨vars, ts, htyped, hne⟩ := h.typed
  have hsizes : Expr.sizes (e :: es) = e.size + Expr.sizes es := rfl
  refine ⟨?_, ?_, ?_⟩
  · cases htyped with
    | cons _ htyped => exact ⟨vars, _, htyped, fun t ht => hne t (List.mem_cons_of_mem _ ht)⟩
  · have hplaced := h.placed.append.2
    rwa [Expr.length_code] at hplaced
  · intro here target hflows hlow hhigh
    have := h.entered hflows (by omega) (by omega)
    omega

theorem Stretch.drop : ∀ (k : Nat) {es : List Expr} {start : Nat}, Stretch C code es start →
    Stretch C code (es.drop k) (start + Expr.sizes (es.take k))
  | 0, _, _, h => h
  | _ + 1, [], _, h => h
  | k + 1, e :: es, start, h => by
      rw [List.take_succ_cons, Expr.sizes, ← Nat.add_assoc]
      exact Stretch.drop k h.tail

theorem Expr.sizes_take_add_drop (k : Nat) (es : List Expr) :
    Expr.sizes (es.take k) + Expr.sizes (es.drop k) = Expr.sizes es := by
  induction es generalizing k with
  | nil => simp [Expr.sizes]
  | cons e es ih =>
      cases k with
      | zero => simp [Expr.sizes]
      | succ k =>
          rw [List.take_succ_cons, List.drop_succ_cons, Expr.sizes, Expr.sizes, Nat.add_assoc, ih]

/-! ## Operands of instructions -/

variable {p : CheckedProgram σ} {module : Module σ} {d : FunctionDecl}

theorem Callee.leaves_instruction (callee : Callee) :
    callee.instruction.leaves module = if module.yields callee then 1 else 0 := by
  cases callee <;> rfl

/-- A call leaves a value if and only if its type is that of one. -/
theorem Module.Compiles.yields_iff (compiled : module.Compiles p) {callee : Callee} {arrow : Arrow}
    (h : p.arrows callee = some arrow) : module.yields callee = true ↔ arrow.result ≠ .nothing := by
  cases callee with
  | user index =>
      obtain ⟨e, he, rfl⟩ := Option.map_eq_some_iff.mp h
      obtain ⟨code, hcode, hcompiled⟩ := compiled.function he
      rw [Module.yields, hcode, Option.map_some, Option.getD_some, FunctionCode.returnsValue,
        hcompiled.returnType, bne_iff_ne]
      rfl
  | host index =>
      obtain ⟨f, hf, rfl⟩ := Option.map_eq_some_iff.mp h
      rw [Module.yields, compiled.hostFunction?, hf, Option.map_some, Option.getD_some,
        f.returnsValue_iff]

/-- An instruction without jumps that fits goes on with the operands that it does not take and those
that it leaves. -/
theorem Fits.next_of_isStraight (compiled : module.Compiles p) (fc : FunctionCode)
    {next : Nat → List Ty → List Nat → Prop} {here : Nat} {I : Instruction} {operands : List Ty}
    {vars : List Nat}
    (h : Fits (d.typing p.environment.registry p.arrows) next here I operands vars)
    (hI : I.isStraight = true) :
    ∃ (left : List Ty) (known : List Nat), next (here + 1) left known ∧
      left.length + I.takes module fc = operands.length + I.leaves module := by
  cases h with
  | jump | jumpIfFalse | ret | retValue => cases hI
  | @call callee params result _ ops _ harrow htys hnext =>
      have hleaves : callee.instruction.leaves module = if result ≠ .nothing then 1 else 0 := by
        rw [callee.leaves_instruction]
        exact if_congr (compiled.yields_iff harrow) rfl rfl
      refine ⟨_, _, hnext, ?_⟩
      rw [compiled.takes_call fc harrow, hleaves, htys, List.length_append, List.length_reverse]
      by_cases hresult : result = .nothing
      · rw [if_neg (not_not_intro hresult), hresult, Ty.pushOn, if_pos rfl]
        exact Nat.add_comm _ _
      · rw [if_pos hresult, Ty.pushOn_of_ne hresult, List.length_cons]
        dsimp only
        omega
  | push hnext | pop hnext | dup hnext => exact ⟨_, _, hnext, rfl⟩
  | load _ _ hnext => exact ⟨_, _, hnext, rfl⟩
  | store _ hnext => exact ⟨_, _, hnext, rfl⟩
  | loadField _ _ hnext | storeField _ _ hnext => exact ⟨_, _, hnext, rfl⟩
  | unary _ hnext | binary _ hnext => exact ⟨_, _, hnext, rfl⟩
  | concat hnext => exact ⟨_, _, hnext, rfl⟩

/-- **In a stretch of expressions every instruction takes operands of the stretch only**, keeps the
slots, and goes on to the next one. -/
theorem Stretch.goesOn (compiled : module.Compiles p) {fc : FunctionCode}
    (hreturn : fc.returnType = d.resultTy)
    (h : Stretch (d.typing p.environment.registry p.arrows) code es start) {here count : Nat}
    (hpart : Partway es start here count) (hhere : here < start + Expr.sizes es) {I : Instruction}
    (hI : code[here]? = some I) :
    I.keepsSlots = true ∧ I.takes module fc ≤ count ∧
      Partway es start (here + 1) (count - I.takes module fc + I.leaves module) := by
  cases hpart with
  | behind => exact absurd hhere (Nat.lt_irrefl _)
  | @inside _ operands hinside =>
      obtain ⟨vars, ts, htyped, hne⟩ := h.typed
      have hbounds := ExprsInside.bounds es hinside
      -- The instruction is one of the expressions, which neither jump nor set slots.
      have hlt : here - start < (Expr.codes p.environment.registry es).length := by
        rw [Expr.length_codes]
        omega
      have hfound := h.placed _ _ (List.getElem?_eq_getElem hlt)
      rw [Nat.add_sub_of_le hbounds.1, hI, Option.some.injEq] at hfound
      have hmem : I ∈ Expr.codes p.environment.registry es := hfound ▸ List.getElem_mem hlt
      have hstraight := List.all_eq_true.mp (Expr.straight_codes _ es) I hmem
      have hkeeps := List.all_eq_true.mp (Expr.keepsSlots_codes _ es) I hmem
      have hbehind : Partway es start (start + Expr.sizes es) (ts.reverse ++ []).length := by
        rw [List.append_nil, List.length_reverse, ← htyped.map_ty, List.length_map]
        exact .behind
      obtain ⟨J, hJ, hfits⟩ := @Expr.fitsAll _ _ vars
        (fun here operands _ => Partway es start here operands.length) es ts start [] htyped hne
          h.placed (fun h => .inside h) hbehind here operands hinside
      rw [hI, Option.some.injEq] at hJ
      subst hJ
      obtain ⟨left, known, hnext, hlength⟩ := hfits.next_of_isStraight compiled fc hstraight
      have htakes := hfits.takes_le compiled hreturn
      refine ⟨hkeeps, htakes, ?_⟩
      dsimp only at hlength htakes
      rwa [show operands.length - I.takes module fc + I.leaves module = left.length by omega]

/-! ## Arguments are gathered in order -/

namespace Machine

/-- **An activation that is among expressions has come there from where they start**, and keeps the
operands that it had there. -/
theorem exists_start (made : emitModule p.functions p.environment = .ok module)
    {trail : List (Machine σ)} (htraced : Throughout (Traced p module) trail) {d : FunctionDecl}
    {es : List Expr} {start : Nat}
    (hstretch : Stretch (d.typing p.environment.registry p.arrows) (d.code p.environment.registry)
      es start) :
    ∀ (count : Nat) {before after : List (Machine σ)} {m : Machine σ} {frame : Frame}
      {callers : List Frame},
      before.length = count → trail = before ++ m :: after → m.pending = none →
      m.frames = frame :: callers →
      p.functions[frame.function]? = some d → start ≤ frame.pc → frame.pc ≤ start + Expr.sizes es →
      ∃ (earlier later : List (Machine σ)) (x : Machine σ) (operands : List Value),
        before ++ [m] = earlier ++ x :: later ∧ x.frames = { frame with pc := start } :: callers ∧
          m.stack = operands ++ x.stack ∧ Partway es start frame.pc operands.length ∧
          ∀ z ∈ later, m.depth ≤ z.depth := by
  intro count
  induction count using Nat.strong_induction_on with
  | _ count ih =>
      intro before after m frame callers hcount htrail hpending hframes hd hlow hhigh
      rcases Nat.eq_or_lt_of_le hlow with hstart | hlow
      · refine ⟨before, [], m, [], rfl, ?_, rfl, hstart ▸ .first es start, nofun⟩
        rw [hframes, hstart]
      have compiled := emitModule_compiles made
      have htracedM := htraced before m after htrail
      rcases htracedM.reached hpending frame callers hframes with
        hzero | ⟨before', later', w, rfl, hdone, hlater'⟩
      · omega
      obtain @⟨wframe, wcallers, code, I, target, slots, pushed, hwframes, hcode, hI, htakes,
        hleads, hnext, hslots, hstack, hleaves⟩ := hdone
      rw [hframes] at hnext
      cases hnext
      -- The instruction before is one of the expressions, too.
      obtain ⟨hwmodule, hwpending⟩ :=
        htracedM.executed w (List.mem_append_right _ List.mem_cons_self)
      rw [List.append_assoc, List.cons_append] at htrail
      rw [hwmodule] at hcode htakes hstack hleaves
      obtain ⟨d', hd', hcompiled⟩ := compiled.declared hcode
      rw [hd, Option.some.injEq] at hd'
      subst hd'
      rw [hcompiled.getElem?] at hI
      have hflows : Flows (d.code p.environment.registry) 0 wframe.pc target :=
        ⟨I, ⟨wframe.pc, (Nat.zero_add _).symm, hI⟩, hleads⟩
      obtain ⟨hwlow, rfl⟩ := hstretch.entered hflows hlow hhigh
      dsimp only at hhigh
      obtain ⟨earlier, later, x, operands, hsplit, hx, hwstack, hpart, hdepths⟩ :=
        ih before'.length (by rw [← hcount]; simp) rfl htrail hwpending hwframes hd hwlow (by omega)
      obtain ⟨hkeeps, hwtakes, hmore⟩ :=
        hstretch.goesOn compiled hcompiled.returnType hpart (by omega) hI
      have hsame : w.depth = m.depth := by simp [depth, hwframes, hframes]
      refine ⟨earlier, later ++ later' ++ [m], x, pushed ++ operands.drop (I.takes module code), ?_,
        ?_, ?_, ?_, ?_⟩
      · have hcons : before' ++ w :: later' ++ [m] = before' ++ [w] ++ (later' ++ [m]) := by simp
        rw [hcons, hsplit]
        simp
      · rw [hx, hslots hkeeps]
      · rw [hstack, hwstack, List.drop_append_of_le_length hwtakes, List.append_assoc]
      · rw [List.length_append, hleaves, List.length_drop, Nat.add_comm (I.leaves module)]
        exact hmore
      · intro z hz
        rw [List.append_assoc, List.mem_append, List.mem_append, List.mem_singleton] at hz
        rcases hz with hz | hz | rfl
        · exact hsame ▸ hdepths z hz
        · exact Nat.le_of_lt (hlater' z hz)
        · exact Nat.le_refl _

end Machine

/-- The arguments of a call are the values of expressions in their order. The caller has been where
the code of each of them starts, with the values of those before on its operands, and it is where
the code of the last one ends. -/
structure UserCall.Gathered (c : UserCall) (es : List Expr) (start : Nat)
    (past : List (Machine σ)) : Prop where
  length : c.arguments.length = es.length
  stop : c.caller.pc = start + Expr.sizes es
  passed : ∀ k ≤ es.length, ∃ (earlier later : List (Machine σ)) (x : Machine σ),
    past = earlier ++ x :: later ∧
    x.frames = { c.caller with pc := start + Expr.sizes (es.take k) } :: c.callers ∧
    x.stack = (c.arguments.take k).reverse ++ c.rest ∧ ∀ z ∈ later, x.depth ≤ z.depth

namespace Machine

/-- **A call takes the values of the expressions that are its arguments in the source, in their
order.** -/
theorem Calls.gathered (made : emitModule p.functions p.environment = .ok module) (typed : p.Typed)
    {before after : List (Machine σ)} {m : Machine σ} {c : UserCall}
    (htraced : Throughout (Traced p module) (before ++ m :: after)) (h : m.Calls c) :
    ∃ (d : FunctionDecl) (es : List Expr) (start : Nat), p.functions[c.caller.function]? = some d ∧
      d.Calls (.user c.callee.index) es ∧
      CodeAt (d.code p.environment.registry) start
        (Expr.codes p.environment.registry es ++ [.call c.callee.index]) ∧
      c.Gathered es start (before ++ [m]) := by
  have compiled := emitModule_compiles made
  obtain ⟨code, hcode, hI⟩ := h.code
  have hmodule := (htraced before m after rfl).counted.module_eq
  have hcallee := h.callee
  rw [hmodule] at hcode hcallee
  obtain ⟨d, hd, hcompiled⟩ := compiled.declared hcode
  rw [hcompiled.getElem?] at hI
  have hplace : (d.code p.environment.registry)[c.caller.pc]? =
    some (Callee.user c.callee.index).instruction := hI
  obtain ⟨es, start, hpc, hsource, hsite⟩ :=
    FunctionDecl.call_site (typed.functions d (List.mem_of_getElem? hd)) hplace
  have hcount : c.arguments.length = es.length := by
    obtain ⟨vars, ts, result, htyped, -, harrow⟩ := hsite.typed
    have hdeclared : p.arrows (.user c.callee.index) = some ⟨ts, result⟩ := harrow
    have htakes := compiled.takes_call code hdeclared
    rw [Callee.instruction, Instruction.takes, hcallee, Option.map_some, Option.getD_some] at htakes
    rw [h.supplied, htakes, ← htyped.map_ty, List.length_map]
  refine ⟨d, es, start, hd, hsource, ?_, hcount, hpc, ?_⟩
  · intro i I hi
    obtain ⟨j, hj, hfound⟩ := hsite.placed ⟨i, rfl, hi⟩
    rwa [hj, Nat.zero_add]
  · intro k hk
    have hsizes := Expr.sizes_take_add_drop k es
    obtain ⟨earlier, later, x, operands, hsplit, hx, hstack, hpart, hdepths⟩ :=
      exists_start made htraced (hsite.stretch.drop k) before.length rfl rfl h.pending h.frames hd
        (by omega) (by omega)
    refine ⟨earlier, later, x, hsplit, hx, ?_, ?_⟩
    · have hoperands : operands.length = (c.arguments.drop k).reverse.length := by
        rw [hpart.eq_length (by omega), List.length_reverse, List.length_drop,
          List.length_drop, hcount]
      have harguments : c.arguments.reverse = (c.arguments.drop k).reverse ++
          (c.arguments.take k).reverse := by
        rw [← List.reverse_append, List.take_append_drop]
      rw [h.stack, harguments, List.append_assoc] at hstack
      exact (List.append_inj hstack hoperands.symm).2.symm
    · rwa [depth, hx, List.length_cons, ← h.depth_eq]

end Machine

/-- The slots of an activation that is entered: the arguments, and nothing behind them. -/
theorem UserCall.slots_entered {c : UserCall} (hcount : c.arguments.length ≤ c.callee.numSlots) :
    c.entered.slots = c.arguments ++ List.replicate (c.callee.numSlots - c.arguments.length)
      .nothing := by
  rw [entered, Frame.enter, initialSlots, List.take_append, List.take_of_length_le hcount,
    List.take_replicate, Nat.min_eq_left (Nat.sub_le _ _)]

/-! ## Calls in a run -/

/-- A call that a machine of a run makes, after some machines and before others, disturbs nothing of
its caller. -/
structure UserCall.Undisturbing (c : UserCall) (p : CheckedProgram σ) (before : List (Machine σ))
    (m : Machine σ) (after : List (Machine σ)) : Prop where
  calls : m.Calls c
  /-- The arguments are the values of those in the source. -/
  gathered : ∃ (d : FunctionDecl) (es : List Expr) (start : Nat),
    p.functions[c.caller.function]? = some d ∧
    d.Calls (.user c.callee.index) es ∧
    CodeAt (d.code p.environment.registry) start
      (Expr.codes p.environment.registry es ++ [.call c.callee.index]) ∧
    c.Gathered es start (before ++ [m])
  /-- The call begins an activation with the arguments in its slots. -/
  entered : m.step.frames = c.entered :: c.behind :: c.callers ∧ m.step.stack = c.rest ∧
    c.entered.slots = c.arguments ++ List.replicate (c.callee.numSlots - c.callee.numParameters)
      .nothing
  /-- As long as there are more activations than at the call, the caller and those below stay as
  they are, and so do the operands below the arguments. -/
  kept : ∀ (inside later : List (Machine σ)) (y : Machine σ), after = inside ++ y :: later →
    (∀ z ∈ inside, m.depth < z.depth) → c.behind :: c.callers <:+ y.frames ∧ c.rest <:+ y.stack
  /-- When there are no more, the call has returned, and has put its value on the operands if it
  yields one. -/
  returned : ∀ (inside later : List (Machine σ)) (y : Machine σ), after = inside ++ y :: later →
    (∀ z ∈ inside, m.depth < z.depth) → y.depth ≤ m.depth → y.Behind c

/-- **Calls disturb nothing of their callers.** However a compiled program is driven behind a
restart, a machine that is about to make a call has the arguments among its operands, as they are in
the source. They come into the slots of the activation that the call begins, and from then on
nothing of its caller changes, until there are as few activations as before. Then the caller stands
behind the call, and its operands are those from below the arguments with the value of the call on
top, if it yields one. -/
theorem calls_disturb_nothing {source : String} {host : HostTable σ} {module : Module σ}
    {p : CheckedProgram σ} (hcompile : compile source host = .ok module)
    (hcheck : checkSource source host = .ok p) (limit : Nat) (world : World σ) (events : List Event)
    {before after : List (Machine σ)} {m : Machine σ}
    (htrail : (Machine.start module limit world).trail events = before ++ m :: after)
    (hpending : m.pending = none) {index : Nat} (hcall : m.instruction? = some (.call index)) :
    ∃ c : UserCall, c.callee.index = index ∧ c.Undisturbing p before m after := by
  obtain ⟨p', hcheck', made⟩ := compile_eq_ok.mp hcompile
  rw [hcheck, Except.ok.injEq] at hcheck'
  subst hcheck'
  have compiled := emitModule_compiles made
  obtain ⟨typed, -, main, others, hfunctions, harrow⟩ := checkSource_typed hcheck
  have hmain : p.functions[0]? = some main := by rw [hfunctions, List.getElem?_cons_zero]
  have htraced := Machine.traced_trail made typed hmain harrow limit world events
  rw [htrail] at htraced
  have hcounted := (htraced before m after rfl).counted
  obtain ⟨c, hcalls, hindex⟩ := hcounted.calls made typed hpending hcall
  have hgoes {inside later : List (Machine σ)} {y : Machine σ} (heq : after = inside ++ y :: later)
      (hinside : ∀ z ∈ inside, m.depth < z.depth) : y.Within c ∨ y.Behind c :=
    (htraced (before ++ m :: inside) y later (by simp [heq])).kept before inside m c rfl
      hcalls hinside
  refine ⟨c, hindex, hcalls, hcalls.gathered made typed htraced, ?_, ?_, ?_⟩
  · have hslots : c.arguments.length ≤ c.callee.numSlots := by
      have hcallee := hcalls.callee
      rw [hcounted.module_eq] at hcallee
      obtain ⟨d, -, hcompiled⟩ := compiled.declared hcallee
      rw [hcalls.supplied, hcompiled.numParameters, hcompiled.numSlots, FunctionDecl.slotTys,
        List.length_append, FunctionDecl.paramTys, List.length_map]
      exact Nat.le_add_right _ _
    obtain ⟨hframes, hstack, -⟩ := hcalls.step
    exact ⟨hframes, hstack, hcalls.supplied ▸ c.slots_entered hslots⟩
  · intro inside later y heq hinside
    rcases hgoes heq hinside with hwithin | hbehind
    · exact ⟨hwithin.frames.suffix, hwithin.stack⟩
    · obtain ⟨result, hstack, -⟩ := hbehind.stack
      exact ⟨hbehind.frames ▸ List.suffix_refl _, hstack ▸ List.suffix_append _ _⟩
  · intro inside later y heq hinside hback
    refine (hgoes heq hinside).resolve_left fun hwithin => ?_
    have hdeeper := hwithin.depth_lt
    rw [← hcalls.depth_eq] at hdeeper
    exact Nat.lt_irrefl _ (Nat.lt_of_lt_of_le hdeeper hback)

/-- A program with a function that waits for the host and returns out of a loop. -/
def returningSource : String :=
  "fun pick(x: boolean, y: boolean): boolean\n  wait()\n" ++
    "  while x do\n    return y\n  end\n  return x\nend\n" ++
    "var a = pick(true, false)\n"

/-- The host answers the call, and the program runs to its end. -/
def returningEvents : List Event := [.act (.run 100), .complete 0 .nothing, .act (.run 100)]

/-- The call waits, and returns out of the loop; its caller is as it was. -/
theorem calls_disturb_nothing_returning : ∃ (module : Module Unit) (p : CheckedProgram Unit)
    (before inside later : List (Machine Unit)) (m y : Machine Unit) (c : UserCall),
    compile returningSource pausingHost = .ok module ∧
    checkSource returningSource pausingHost = .ok p ∧
    (Machine.start module 1000 (.initial ())).trail returningEvents = before ++
      m :: (inside ++ y :: later) ∧
    m.pending = none ∧ m.instruction? = some (.call 1) ∧ inside.length = 5 ∧
    (∀ z ∈ inside, m.depth < z.depth) ∧
    y.depth = m.depth ∧ c.Undisturbing p before m (inside ++ y :: later) := by
  have hrun : ((compile returningSource pausingHost).map fun module =>
      ((Machine.start module 1000 (.initial ())).trail returningEvents).map fun m =>
        (m.depth, m.instruction?.bind fun
          | .call index => some index
          | _ => none, m.pending.isNone)) =
      .ok ([(1, none, true), (1, none, true)] ++ (1, some 1, true) ::
        ([(2, none, true), (2, none, true), (2, none, true), (2, none, true), (2, none, true)] ++
          (1, none, true) ::
          [(1, none, true), (0, none, true)])) := by decide +kernel
  obtain ⟨module, hmodule, hrun⟩ := Diagnosed.map_eq_ok.mp hrun
  obtain ⟨before, behind, htrail, -, hbehind⟩ := List.map_eq_append_iff.mp hrun
  obtain ⟨m, after, rfl, hm, hafter⟩ := List.map_eq_cons_iff.mp hbehind
  obtain ⟨inside, back, rfl, hinside, hback⟩ := List.map_eq_append_iff.mp hafter
  obtain ⟨y, later, rfl, hy, -⟩ := List.map_eq_cons_iff.mp hback
  simp only [Prod.mk.injEq, Option.isNone_iff_eq_none, Option.bind_eq_some_iff] at hm hy
  obtain ⟨hdepth, ⟨I, hI, hcall⟩, hpending⟩ := hm
  have hinstruction : m.instruction? = some (.call 1) := by
    cases I <;> cases hcall
    exact hI
  have hdeeper : ∀ z ∈ inside, m.depth < z.depth := by
    intro z hz
    have hdepths : inside.map (·.depth) = [2, 2, 2, 2, 2] := by
      have hfirsts := congrArg (List.map Prod.fst) hinside
      rwa [List.map_map] at hfirsts
    have hmem : z.depth ∈ inside.map (·.depth) := List.mem_map_of_mem hz
    rw [hdepths] at hmem
    simp only [List.mem_cons, List.not_mem_nil, or_self, or_false] at hmem
    omega
  obtain ⟨p, hcheck, -⟩ := compile_eq_ok.mp hmodule
  obtain ⟨c, -, hc⟩ := calls_disturb_nothing hmodule hcheck 1000 (.initial ()) returningEvents
    htrail hpending hinstruction
  refine ⟨module, p, before, inside, later, m, y, c, hmodule, hcheck, htrail, hpending,
    hinstruction, ?_, hdeeper, hy.1.trans hdepth.symm, hc⟩
  simpa using congrArg List.length hinside

end Stepwise
