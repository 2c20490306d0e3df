import Stepwise.Proofs.Evaluation.Driving
import Stepwise.Proofs.Evaluation.Statements

/-!
# Functions keep pace

A function is evaluated as it was read and executed as it was checked, so this module first says how
the two go along with each other (`FunctionDecl.Becomes`, `CheckedProgram.Reads`): finding
signatures and checking bodies leave the names of parameters and the statements of the text where
they were.

The code of a function keeps pace with carrying out its body (`FunctionDecl.pace`). With the fuel
for one call more, calls are answered by carrying out bodies that are answered with the fuel that is
left; so answers keep pace by induction on the fuel (`Setting.answer_paced`). A call takes an
instruction, which is what pays for the fuel.
-/

set_option autoImplicit false

namespace Stepwise

open Machine

variable {σ : Type}

/-! ## Functions as they were read and as they were checked -/

/-- A function as it was read becomes another by having its signature found and then its body
checked. -/
def FunctionDecl.Becomes (r : Registry) (raw checked : FunctionDecl) : Prop :=
  ∃ found : FunctionDecl, found.body = raw.body ∧
    found.params.map (·.name) = raw.params.map (·.name) ∧
    checkFunction r found = .ok checked

/-- Every function of a checked program was read. -/
def CheckedProgram.Reads (p : CheckedProgram σ) (functions : List FunctionDecl) : Prop :=
  ∀ {index : Nat} {d : FunctionDecl}, p.functions[index]? = some d →
    ∃ raw, functions[index]? = some raw ∧ raw.Becomes p.environment.registry d

theorem checkProgram_reads {records : List RecordDecl} {functions : List FunctionDecl}
    {host : HostTable σ} {p : CheckedProgram σ} (h : checkProgram records functions host = .ok p) :
    p.Reads functions := by
  obtain ⟨named, withFields, withHost, resolved, passes⟩ := checkProgram_eq_ok.mp h
  intro index d hd
  obtain ⟨found, hfound, hchecked⟩ :=
    exists_of_getElem?_forall₂_right (checkFunctions_eq_ok.mp passes.bodies) hd
  obtain ⟨raw, hraw, hresolved⟩ :=
    exists_of_getElem?_forall₂_right (resolved_of_declareUsers passes.signatures) hfound
  exact ⟨raw, hraw, found, hresolved.body_eq, hresolved.names_eq, hchecked⟩

/-! ## Parameters -/

/-- Arguments are held in the slots of their parameters. -/
theorem checkParams_held {params : List Param} :
    ∀ {scopes after : Scopes} {checked : List Param} {xs : List TypedValue} {slots : List Value}
      {vars : Variables},
      checkParams scopes params = .ok (checked, after) → scopes.Orderly →
      Held slots scopes.visible vars →
      xs.map (·.ty) = (params.map fun p => p.ty.getD .nothing) →
      (∀ (j : Nat) (x : TypedValue), xs[j]? = some x → slots[scopes.nextSlot + j]? = some x.value) →
      after.Orderly ∧
        Held slots after.visible
          ((List.zipWith (fun (p : Param) x => ⟨p.name.name, x⟩) params xs).reverse ++ vars) := by
  induction params with
  | nil =>
      intro scopes after checked xs slots vars h horderly hheld hxs hslots
      cases h
      exact ⟨horderly, hheld⟩
  | cons p rest ih =>
      intro scopes after checked xs slots vars h horderly hheld hxs hslots
      obtain ⟨slot, next, others, hdeclare, hothers, rfl⟩ := checkParams_cons_eq_ok.mp h
      cases xs with
      | nil => cases hxs
      | cons x xs =>
          obtain ⟨hty, htys⟩ := List.cons.inj hxs
          have horderly' := (Scopes.widens_declare hdeclare).orderly horderly
          obtain ⟨-, rfl⟩ := declareVariable_eq hdeclare
          have hheld' :
              Held slots
                (⟨p.name.name, p.ty.getD .nothing, scopes.nextSlot, p.name.span⟩ :: scopes.visible)
              (⟨p.name.name, x⟩ :: vars) := .cons ⟨rfl, hty.symm, hslots 0 x rfl⟩ hheld
          obtain ⟨hlast, hall⟩ := ih hothers horderly' hheld' htys (by
            intro j y hy
            show slots[scopes.nextSlot + 1 + j]? = some y.value
            rw [Nat.add_assoc, Nat.add_comm 1]
            exact hslots (j + 1) y hy)
          refine ⟨hlast, ?_⟩
          simpa using hall

/-! ## Bodies -/

section Pacing

variable {r : Registry} {arrows : Callee → Option Arrow} {raw d : FunctionDecl}
    {code : FunctionCode} {A : Site σ}
  {s : Setting σ} {answer : Answering σ} {n index : Nat}

/-- The parameters of a function are known by their names. -/
theorem FunctionDecl.bind_eq {found : FunctionDecl}
    (hnames : found.params.map (·.name) = raw.params.map (·.name)) (xs : List TypedValue) :
    raw.bind xs =
      (List.zipWith (fun (p : Param) x => ⟨p.name.name, x⟩) found.params xs).reverse := by
  have hnamed (params : List Param) :
      List.zipWith (fun (p : Param) x => (⟨p.name.name, x⟩ : Variable)) params xs =
      List.zipWith (fun (name : Ident) x => ⟨name.name, x⟩) (params.map (·.name)) xs := by
    rw [List.zipWith_map_left]
  rw [FunctionDecl.bind, hnamed, hnamed, hnames]

theorem getElem?_initialSlots {size : Nat} {arguments : List Value} (hle : arguments.length ≤ size)
    {j : Nat} {v : Value}
    (hj : arguments[j]? = some v) : (initialSlots size arguments)[j]? = some v := by
  have hlt := (List.getElem?_eq_some_iff.mp hj).1
  rw [initialSlots, List.getElem?_take_of_lt (Nat.lt_of_lt_of_le hlt hle), List.getElem?_append_left
    hlt, hj]

/-- At the beginning of a body the scopes name the parameters, and the slots hold the arguments. -/
theorem FunctionDecl.entered {C : BodyTyping} {found : FunctionDecl} {params : List Param}
    {scopes : Scopes} {declared : List Ty}
    (hparams : checkParams .initial found.params = .ok (params, scopes))
    (hslotTys : C.slotTys = (params.map fun p => p.ty.getD .nothing) ++ declared)
    (hstorable : ∀ p ∈ params, (p.ty.getD .nothing).Storable)
    (hnames : found.params.map (·.name) = raw.params.map (·.name)) {xs : List TypedValue}
    (hxs : xs.map (·.ty) = params.map fun p => p.ty.getD .nothing) :
    scopes.Ready C ∧
      C.Holds scopes.visible (initialSlots C.slotTys.length (xs.map (·.value))) (raw.bind xs) ∧
      Assigns C.slotTys scopes.nextSlot declared := by
  have htys := checkParams_tys hparams
  have hstorable' : ∀ p ∈ found.params, (p.ty.getD .nothing).Storable := by
    intro p hp
    have hmem : p.ty.getD .nothing ∈ params.map fun p => p.ty.getD .nothing :=
      htys ▸ List.mem_map_of_mem hp
    obtain ⟨q, hq, heq⟩ := List.mem_map.mp hmem
    exact heq ▸ hstorable q hq
  obtain ⟨hfits, hslots⟩ := checkParams_initial (htys ▸ hslotTys) hstorable' hparams
  have hfew : (xs.map (·.value)).length ≤ C.slotTys.length := by
    have hcount := congrArg List.length hxs
    rw [List.length_map] at hcount ⊢
    rw [hslotTys, List.length_append, hcount]
    exact Nat.le_add_right _ _
  have hempty : Scopes.initial.Orderly := ⟨nofun, .nil⟩
  obtain ⟨horderly, hheld⟩ : scopes.Orderly ∧
      Held (initialSlots C.slotTys.length (xs.map (·.value))) _ _ :=
    checkParams_held hparams hempty .nil (hxs.trans htys) (by
      intro j x hj
      show (initialSlots C.slotTys.length (xs.map (·.value)))[0 + j]? = some x.value
      rw [Nat.zero_add]
      exact getElem?_initialSlots hfew (by rw [List.getElem?_map, hj, Option.map_some]))
  rw [List.append_nil, ← bind_eq hnames] at hheld
  exact ⟨⟨⟨_, hfits⟩, horderly⟩, ⟨hheld, length_initialSlots _ _⟩, hslots⟩

/-- Behind its body a function returns, by the closing return or because the code ends; there is no
value then. -/
theorem FunctionCompiled.returns (compiled : FunctionCompiled r index d code) (hruns : A.Runs code)
    {slots stack : List Value} (hbase : stack.length = A.base) (out : Effects σ) :
    traced (A.here (Stmt.sizes d.body) slots stack out) =
      A.back (d.resultTy.pushValue .nothing stack) out := by
  have hnone : (if A.base < stack.length then stack.headD .nothing else .nothing) = Value.nothing :=
    if_neg (Nat.not_lt_of_ge hbase.le)
  cases hends : endsWithReturn d.body with
  | false =>
      have hret : code.instructions.toList[Stmt.sizes d.body]? = some .ret := by
        rw [compiled.instructions]
        exact d.code_closing r hends
      rw [Site.ret hruns hret, hnone, A.below_self hbase, compiled.returnType]
  | true =>
      have hend : code.instructions.toList[Stmt.sizes d.body]? = none := by
        rw [compiled.instructions, List.getElem?_eq_none_iff, FunctionDecl.length_code,
          FunctionDecl.size, hends]
        exact Nat.le_refl _
      rw [Site.ran_out hruns hend, hnone, A.below_self hbase, compiled.returnType]

/-- **The code of a function keeps pace with carrying out its body**, and leaves the value that the
body ends with. -/
theorem FunctionDecl.pace (typed : FunctionTyped r arrows d) (sound : r.Sound arrows)
    (becomes : raw.Becomes r d) (htargets : Stmt.AllTargetsAssignable raw.body)
    (compiled : FunctionCompiled r index d code) (hruns : A.Runs code) (hs : s.registry = r)
    (paced : answer.Paced arrows A.machine.module n) {xs : List TypedValue}
    (hxs : xs.map (·.ty) = d.paramTys) {stack : List Value} (hbase : stack.length = A.base)
    {out : Effects σ} :
    Pace n (A.here 0 (initialSlots code.numSlots (xs.map (·.value))) stack out)
      (Stmt.carryOutAll s answer n raw.body (raw.bind xs) out) fun l y =>
        y = A.back (d.resultTy.pushValue l.signal.result stack) l.effects := by
  obtain ⟨found, hbody, hnames, hcheck⟩ := becomes
  obtain ⟨params, scopes, body, last, hparams, hstmts, rfl⟩ := checkFunction_eq_ok.mp hcheck
  have hstorable : ∀ p ∈ params, (p.ty.getD .nothing).Storable :=
    fun p hp => typed.params _ (List.mem_map_of_mem hp)
  let C : BodyTyping := FunctionDecl.typing { found with params, body } r arrows
  obtain ⟨ready, holds, hslots⟩ := entered (C := C) hparams rfl hstorable hnames hxs
  have executes : A.Executes code C s answer n := ⟨hruns, compiled.returnType, hs, sound, paced⟩
  have hcode : CodeAt code.instructions.toList 0 (Stmt.codes r none 0 body) := by
    rw [compiled.instructions]
    exact FunctionDecl.codeAt_body r _
  have hctx : BodyContext.registry ⟨r, found.name.name, found.resultTy, found.isMain⟩ =
    C.registry := rfl
  have hresult : BodyContext.resultTy ⟨r, found.name.name, found.resultTy, found.isMain⟩ =
    C.result := rfl
  have hnoLoop : false = true → ∃ targets : LoopTargets, none = some targets := nofun
  rw [compiled.numSlots, ← hbody]
  rw [← hbody] at htargets
  refine (Stmt.paceAll executes hctx hresult found.body htargets hnoLoop ready holds hbase.ge
    hstmts hslots hcode).andGo ?_
  intro l y hlanded
  cases hlanded with
  | next =>
      rw [Nat.zero_add]
      exact ⟨_, .of_traced (compiled.returns hruns hbase _), rfl⟩
  | breakLoop new hloop => cases hloop
  | continueLoop new hloop => cases hloop
  | returned =>
      rw [A.below_self hbase]
      exact ⟨_, .refl _, rfl⟩

end Pacing

/-! ## Calls -/

/-- A program is evaluated as it was read, against a host that answers at once. -/
structure Setting.Evaluates (s : Setting σ) (p : CheckedProgram σ) : Prop where
  registry : s.registry = p.environment.registry
  hosts : s.hostFunctions = p.environment.hostFunctions
  reads : p.Reads s.functions
  targets : ∀ d ∈ s.functions, Stmt.AllTargetsAssignable d.body
  prompt : ∀ f ∈ s.hostFunctions, f.native.Prompt

section Calls

variable {s : Setting σ} {p : CheckedProgram σ} {module : Module σ}

/-- The machine keeps pace with a call of the host, with whatever fuel. -/
theorem Setting.pace_callHost (compiles : module.Compiles p) (evaluates : s.Evaluates p)
    {A : Site σ} {code : FunctionCode} {index pc n : Nat} {xs : List TypedValue} {result : Ty}
    {slots stack : List Value} {out : Effects σ} (hmodule : A.machine.module = module)
    (hruns : A.Runs code) (hcode : code.instructions.toList[pc]? = some (.callHost index))
    (harrow : p.arrows (.host index) = some ⟨xs.map (·.ty), result⟩) :
    Pace n (A.here pc slots ((xs.map (·.value)).reverse ++ stack) out) (s.callHost index xs out)
      fun r y =>
      y = A.here (pc + 1) slots (result.pushValue r.1 stack) r.2 := by
  obtain ⟨f, hf, harrow⟩ := Option.map_eq_some_iff.mp harrow
  obtain ⟨hparams, rfl⟩ := Arrow.mk.inj harrow
  rw [← evaluates.hosts] at hf
  obtain ⟨v, world, hnative⟩ :=
    evaluates.prompt f (List.mem_of_getElem? hf) (xs.map (·.value)) out.world
  have hfound : A.machine.module.hostFunction? index = some f := by
    rw [hmodule, compiles.hostFunction?, ← evaluates.hosts, hf]
  have hcount : (xs.map (·.value)).length = f.params.length := by
    have hlength := congrArg List.length hparams
    simpa [HostFunction.arrow] using hlength.symm
  have hanswer :
      s.callHost index xs out = some (v, ⟨world, out.calls ++ [⟨index, xs.map (·.value)⟩]⟩) := by
    simp only [Setting.callHost, hf, hnative, Option.bind_eq_bind, Option.bind_some,
      Option.pure_def]
  rw [hanswer]
  exact .goes (.of_traced (Site.callHost hruns hcode hfound hcount hnative)) (.pure rfl)

/-- The machine keeps pace with a call of a function, if it does so with the calls that the function
makes. -/
theorem Setting.pace_call (typed : p.Typed) (compiles : module.Compiles p)
    (evaluates : s.Evaluates p) {n : Nat} (paced : (s.answer n).Paced p.arrows module n)
    {A : Site σ} {code : FunctionCode} {index pc : Nat} {xs : List TypedValue} {result : Ty}
    {slots stack : List Value} {out : Effects σ} (hmodule : A.machine.module = module)
    (hruns : A.Runs code) (hcode : code.instructions.toList[pc]? = some (.call index))
    (harrow : p.arrows (.user index) = some ⟨xs.map (·.ty), result⟩) :
    Pace (n + 1) (A.here pc slots ((xs.map (·.value)).reverse ++ stack) out)
      (s.answer (n + 1) (.user index) xs out)
      fun r y => y = A.here (pc + 1) slots (result.pushValue r.1 stack) r.2 := by
  subst hmodule
  obtain ⟨d, hd, harrow⟩ := Option.map_eq_some_iff.mp harrow
  obtain ⟨hparams, rfl⟩ := Arrow.mk.inj harrow
  obtain ⟨target, htarget, compiled⟩ := compiles.function hd
  obtain ⟨raw, hraw, becomes⟩ := evaluates.reads hd
  have hcount : (xs.map (·.value)).length = target.numParameters := by
    have hlength := congrArg List.length hparams
    rw [compiled.numParameters]
    simpa [FunctionDecl.paramTys] using hlength.symm
  refine .step (Site.call hruns hcode htarget compiled.index hcount) ?_
  rw [Setting.answer, hraw, Option.bind_eq_bind, Option.bind_some]
  have hinside : (A.callee index (pc + 1) slots stack).Runs target := htarget
  refine .bind
    (FunctionDecl.pace (typed.functions d (List.mem_of_getElem? hd)) typed.registry becomes
      (evaluates.targets raw (List.mem_of_getElem? hraw)) compiled hinside evaluates.registry paced
        hparams.symm rfl) ?_
  rintro l y rfl
  exact .pure rfl

/-- **The machine keeps pace with the answers to calls.** -/
theorem Setting.answer_paced (typed : p.Typed) (compiles : module.Compiles p)
    (evaluates : s.Evaluates p) :
    ∀ n, (s.answer n).Paced p.arrows module n := by
  intro n
  induction n with
  | zero =>
      intro A code callee xs result pc slots stack out hmodule hruns hcode harrow
      cases callee with
      | user index => exact A.lasts_here _ _ _ _
      | host index => exact pace_callHost compiles evaluates hmodule hruns hcode harrow
  | succ n ih =>
      intro A code callee xs result pc slots stack out hmodule hruns hcode harrow
      cases callee with
      | user index => exact pace_call typed compiles evaluates ih hmodule hruns hcode harrow
      | host index => exact pace_callHost compiles evaluates hmodule hruns hcode harrow

end Calls

end Stepwise
