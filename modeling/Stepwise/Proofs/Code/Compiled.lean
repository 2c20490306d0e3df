import Stepwise.Proofs.Code.Patching

/-!
# Compiled functions and modules

What patching comes to is taken apart like code that is made outright (`emitFunction_eq_ok`). A
function is made under its number, and so the functions of a module are those of its program one by
one (`emitFunctions_getElem?`), each with the code of its tree (`emitFunction_compiled`,
`emitModule_compiles`).
-/

set_option autoImplicit false

namespace Stepwise

open Diagnosed

/-! ## Parts -/

section Parts

variable {r : Registry}

theorem emitFunction_eq_ok {index : Nat} {d : FunctionDecl} {code : FunctionCode} :
    emitFunction r index d = .ok code ↔
      ∃ params scopes body, emitParams .initial (d.size - 1) d.params = .ok (params, scopes) ∧
        emitStmts r none (d.size - 1) 0 ⟨scopes, 0, ⟨0, d.span.line⟩⟩ d.body = .ok body ∧
        code = ⟨index, d.name.name, signature d.name.name d.paramTys d.resultTy, d.params.length,
          d.resultTy, params ++ body.locals,
          ((body.code ++ closingReturn d body).map (·.instruction)).toArray,
          ((body.code ++ closingReturn d body).map (·.info)).toArray,
          Array.replicate (body.code ++ closingReturn d body).length none⟩ := by
  rw [emitFunction_eq_outright]
  constructor
  · intro h
    obtain ⟨⟨params, scopes⟩, hparams, h⟩ := bind_eq_ok.mp h
    obtain ⟨body, hbody, h⟩ := bind_eq_ok.mp h
    cases h
    exact ⟨params, scopes, body, hparams, hbody, rfl⟩
  · rintro ⟨params, scopes, body, hparams, hbody, rfl⟩
    exact bind_eq_ok.mpr ⟨_, hparams, bind_eq_ok.mpr ⟨body, hbody, rfl⟩⟩

theorem emitFunctions_cons_eq_ok {index : Nat} {d : FunctionDecl} {rest : List FunctionDecl}
    {codes : List FunctionCode} :
    emitFunctions r index (d :: rest) = .ok codes ↔
      ∃ first others, emitFunction r index d = .ok first ∧
        emitFunctions r (index + 1) rest = .ok others ∧
        codes = first :: others := by
  simp only [emitFunctions, bind_eq_ok, pure_eq_ok, exists_and_left, @eq_comm _ codes]

/-- Functions are made one by one, each under its number. -/
theorem emitFunctions_getElem? {decls : List FunctionDecl} :
    ∀ {start : Nat} {codes : List FunctionCode}, emitFunctions r start decls = .ok codes →
      codes.length = decls.length ∧ ∀ {j : Nat} {d : FunctionDecl} {code : FunctionCode},
        decls[j]? = some d →
        codes[j]? = some code → emitFunction r (start + j) d = .ok code := by
  induction decls with
  | nil =>
      intro start codes h
      cases h
      exact ⟨rfl, nofun⟩
  | cons decl rest ih =>
      intro start codes h
      obtain ⟨first, others, hfirst, hothers, rfl⟩ := emitFunctions_cons_eq_ok.mp h
      obtain ⟨hlength, hall⟩ := ih hothers
      refine ⟨by rw [List.length_cons, List.length_cons, hlength], ?_⟩
      intro j d code hd hcode
      cases j with
      | zero =>
          cases hd
          cases hcode
          exact hfirst
      | succ j =>
          have hmade := hall hd hcode
          rwa [Nat.add_assoc, Nat.add_comm 1] at hmade

theorem emitModule_eq_ok {σ : Type} {functions : List FunctionDecl} {environment : Environment σ}
    {module : Module σ} :
    emitModule functions environment = .ok module ↔
      emitFunctions environment.registry 0 functions = .ok module.functions ∧
        module.registry = environment.registry ∧
        module.hostFunctions = environment.hostFunctions := by
  obtain ⟨codes, registry, hosts⟩ := module
  constructor
  · intro h
    obtain ⟨codes, hcodes, h⟩ := bind_eq_ok.mp h
    cases h
    exact ⟨hcodes, rfl, rfl⟩
  · rintro ⟨hcodes, rfl, rfl⟩
    exact bind_eq_ok.mpr ⟨codes, hcodes, rfl⟩

end Parts

/-! ## The code of the tree -/

/-- The code of a function of a program under its number. -/
structure FunctionCompiled (r : Registry) (index : Nat) (d : FunctionDecl) (code : FunctionCode) :
    Prop where
  index : code.index = index
  numParameters : code.numParameters = d.params.length
  returnType : code.returnType = d.resultTy
  locals : code.locals.map (·.ty) = d.slotTys
  instructions : code.instructions.toList = d.code r

theorem emitParams_tys {params : List Param} {last : Nat} :
    ∀ {scopes after : Scopes} {locals : List LocalInfo},
      emitParams scopes last params = .ok (locals, after) →
      locals.map (·.ty) = params.map fun p => p.ty.getD .nothing := by
  induction params with
  | nil =>
      intro scopes after locals h
      cases h
      rfl
  | cons p rest ih =>
      intro scopes after locals h
      obtain ⟨slot, next, others, -, hothers, rfl⟩ := emitParams_cons_eq_ok.mp h
      rw [List.map_cons, List.map_cons, ih hothers]

theorem map_instruction_closingReturn (d : FunctionDecl) (body : Emitted) :
    (closingReturn d body).map (·.instruction) = d.closing := by
  unfold closingReturn FunctionDecl.closing
  split
  · rfl
  · split <;> simp

/-- **Making the code of a function makes the code of its tree.** -/
theorem emitFunction_compiled {r : Registry} {index : Nat} {d : FunctionDecl} {code : FunctionCode}
    (h : emitFunction r index d = .ok code) : FunctionCompiled r index d code := by
  obtain ⟨params, scopes, body, hparams, hbody, rfl⟩ := emitFunction_eq_ok.mp h
  obtain ⟨hcode, hlocals⟩ := emitStmts_eq d.body hbody
  refine ⟨rfl, rfl, rfl, ?_, ?_⟩
  · rw [List.map_append, emitParams_tys hparams, hlocals]
    rfl
  · rw [List.toList_toArray, List.map_append, hcode, map_instruction_closingReturn]
    rfl

theorem FunctionCompiled.numSlots {r : Registry} {index : Nat} {d : FunctionDecl}
    {code : FunctionCode} (h : FunctionCompiled r index d code) :
    code.numSlots = d.slotTys.length := by
  rw [FunctionCode.numSlots, ← h.locals, List.length_map]

/-- The instruction at a place of a compiled function. -/
theorem FunctionCompiled.getElem? {r : Registry} {index : Nat} {d : FunctionDecl}
    {code : FunctionCode} (h : FunctionCompiled r index d code) (pc : Nat) :
    code.instructions[pc]? = (d.code r)[pc]? := by
  rw [← h.instructions, Array.getElem?_toList]

/-- A compiled function is as long as its tree says. -/
theorem FunctionCompiled.size {r : Registry} {index : Nat} {d : FunctionDecl} {code : FunctionCode}
    (h : FunctionCompiled r index d code) : code.instructions.size = d.size := by
  rw [← Array.length_toList, h.instructions, FunctionDecl.length_code]

/-- A module made from a program: function by function, with the program's registry and host
functions. -/
structure Module.Compiles {σ : Type} (module : Module σ) (p : CheckedProgram σ) : Prop where
  function : ∀ {index : Nat} {d : FunctionDecl}, p.functions[index]? = some d →
    ∃ code : FunctionCode, module.function? index = some code ∧
      FunctionCompiled p.environment.registry index d code
  hosts : module.hostFunctions = p.environment.hostFunctions
  length : module.functions.length = p.functions.length

theorem emitModule_compiles {σ : Type} {p : CheckedProgram σ} {module : Module σ}
    (h : emitModule p.functions p.environment = .ok module) : module.Compiles p := by
  obtain ⟨hcodes, -, hhosts⟩ := emitModule_eq_ok.mp h
  obtain ⟨hlength, hmade⟩ := emitFunctions_getElem? hcodes
  refine ⟨?_, hhosts, hlength⟩
  intro index d hd
  have hindex : index < module.functions.length := hlength ▸ (List.getElem?_eq_some_iff.mp hd).1
  have hcode := List.getElem?_eq_getElem hindex
  have hcompiled := emitFunction_compiled (hmade hd hcode)
  rw [Nat.zero_add] at hcompiled
  exact ⟨_, hcode, hcompiled⟩

namespace Module.Compiles

variable {σ : Type} {module : Module σ} {p : CheckedProgram σ}

/-- Every function of a compiled module is the code of a function of the program. -/
theorem declared (h : module.Compiles p) {index : Nat} {code : FunctionCode}
    (hcode : module.function? index = some code) :
    ∃ d : FunctionDecl, p.functions[index]? = some d ∧
    FunctionCompiled p.environment.registry index d code := by
  have hlt : index < p.functions.length := h.length ▸ (List.getElem?_eq_some_iff.mp hcode).1
  obtain ⟨code', hcode', hcompiled⟩ := h.function (List.getElem?_eq_getElem hlt)
  rw [hcode, Option.some.injEq] at hcode'
  subst hcode'
  exact ⟨_, List.getElem?_eq_getElem hlt, hcompiled⟩

theorem hostFunction? (h : module.Compiles p) (index : Nat) :
    module.hostFunction? index = p.environment.hostFunctions[index]? := by
  rw [Module.hostFunction?, h.hosts]

end Module.Compiles

end Stepwise
