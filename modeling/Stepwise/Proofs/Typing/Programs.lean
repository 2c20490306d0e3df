import Stepwise.Proofs.Typing.Judgement

/-!
# Typed programs

Checking a source text against a host leaves a typed program: a sound registry, every record listed
in it, and the body of every function typed against the types of its own slots, parameters first.
The statements outside of functions come first among the functions; they take nothing and yield
nothing.
-/

set_option autoImplicit false

namespace Stepwise

open Diagnosed

variable {σ : Type}

/-- The checked program of a source text, against the functions of a host. -/
def checkSource (source : String) (host : HostTable σ) : Diagnosed (CheckedProgram σ) := do
  let program ← Program.ofSource source
  checkProgram program.records program.allFunctions host

/-- Compilation is checking and then making code. -/
theorem compile_eq_ok {source : String} {host : HostTable σ} {module : Module σ} :
    compile source host = .ok module ↔
      ∃ p : CheckedProgram σ, checkSource source host = .ok p ∧
      emitModule p.functions p.environment = .ok module := by
  unfold compile checkSource
  simp only [bind_eq_ok]
  constructor
  · rintro ⟨program, hprogram, p, hp, hmodule⟩
    exact ⟨p, ⟨program, hprogram, hp⟩, hmodule⟩
  · rintro ⟨p, ⟨program, hprogram, hp⟩, hmodule⟩
    exact ⟨program, hprogram, p, hp, hmodule⟩

/-! ## Functions -/

/-- The types of the slots of a function: the parameters and then the variables in the order of
declaration. -/
def FunctionDecl.slotTys (d : FunctionDecl) : List Ty := d.paramTys ++ Stmt.declaredIn d.body

/-- What the annotations in a function of a program refer to. -/
def FunctionDecl.typing (d : FunctionDecl) (registry : Registry) (arrows : Callee → Option Arrow) :
    BodyTyping :=
  ⟨registry, arrows, d.slotTys, d.resultTy⟩

/-- An annotated function: its parameters fill the first slots, and its body is typed. -/
structure FunctionTyped (registry : Registry) (arrows : Callee → Option Arrow) (d : FunctionDecl) :
    Prop where
  params : ∀ t ∈ d.paramTys, t.Storable
  result : d.resultTy.Nameable
  body : StmtsTyped (d.typing registry arrows) false (List.range d.params.length) d.body

/-- Parameters fill the slots in order. -/
theorem checkParams_follows {C : BodyTyping} {params : List Param} :
    ∀ {vars : List Nat} {scopes after : Scopes} {checked : List Param}, scopes.Fits C vars →
      Assigns C.slotTys scopes.nextSlot (params.map fun p => p.ty.getD .nothing) →
      (∀ p ∈ params, (p.ty.getD .nothing).Storable) →
      checkParams scopes params = .ok (checked, after) →
      after.Fits C ((List.range' scopes.nextSlot params.length).reverse ++ vars) ∧
        after.nextSlot = scopes.nextSlot + params.length := by
  induction params with
  | nil =>
      intro vars scopes after checked fits hslots hstorable h
      cases h
      exact ⟨by simpa using fits, rfl⟩
  | cons p rest ih =>
      intro vars scopes after checked fits hslots hstorable h
      obtain ⟨slot, next, others, hdeclare, hothers, rfl⟩ := checkParams_cons_eq_ok.mp h
      obtain ⟨hfirst, hrest⟩ := Assigns.of_append [p.ty.getD .nothing] hslots
      obtain ⟨rfl, hnext, -, hfits⟩ :=
        fits.declare (hstorable p List.mem_cons_self) (hfirst 0 _ rfl) hdeclare
      obtain ⟨hfits', hlast⟩ := ih hfits (by rw [hnext]; exact hrest)
        (fun q hq => hstorable q (List.mem_cons_of_mem _ hq)) hothers
      refine ⟨?_, ?_⟩
      · simpa [List.range'_succ, hnext] using hfits'
      · rw [hlast, hnext, List.length_cons, Nat.add_assoc, Nat.add_comm 1]

/-- Slots that hold a value may be listed in any order, and more than once. -/
theorem Scopes.Fits.mono {scopes : Scopes} {C : BodyTyping} {vars more : List Nat}
    (fits : scopes.Fits C vars) (h : ∀ slot ∈ vars, slot ∈ more) : scopes.Fits C more := by
  intro symbol hsymbol
  obtain ⟨hslot, hrest⟩ := fits symbol hsymbol
  exact ⟨h _ hslot, hrest⟩

/-- At the beginning of a body the parameters are visible and the variables of the body are to
come. -/
theorem checkParams_initial {C : BodyTyping} {params checked : List Param} {scopes : Scopes}
    {declared : List Ty}
    (hslotTys : C.slotTys = (params.map fun p => p.ty.getD .nothing) ++ declared)
    (hstorable : ∀ p ∈ params, (p.ty.getD .nothing).Storable)
    (h : checkParams .initial params = .ok (checked, scopes)) :
    scopes.Fits C (List.range params.length) ∧ Assigns C.slotTys scopes.nextSlot declared := by
  have hempty : Scopes.initial.Fits C [] := by
    intro symbol hsymbol
    cases hsymbol
  have hassigns : Assigns C.slotTys 0 ((params.map fun p => p.ty.getD .nothing) ++ declared) := by
    intro j t hj
    rw [Nat.zero_add, hslotTys]
    exact hj
  obtain ⟨hslots, hslots'⟩ := hassigns.of_append _
  obtain ⟨hfits, hnext⟩ := checkParams_follows hempty hslots hstorable h
  refine ⟨hfits.mono ?_, ?_⟩
  · intro slot hslot
    simpa [Scopes.initial, List.range_eq_range'] using hslot
  · rw [hnext]
    simpa [Scopes.initial] using hslots'

/-- Checking a function leaves its signature alone. -/
theorem checkFunction_arrow {r : Registry} {decl checked : FunctionDecl}
    (h : checkFunction r decl = .ok checked) :
    checked.arrow = decl.arrow := by
  obtain ⟨params, scopes, body, last, hparams, -, rfl⟩ := checkFunction_eq_ok.mp h
  have htys : FunctionDecl.paramTys { decl with params, body } = decl.paramTys :=
    checkParams_tys hparams
  rw [FunctionDecl.arrow, htys]
  rfl

theorem checkFunctions_arrow {r : Registry} {decls checked : List FunctionDecl}
    (h : checkFunctions r decls = .ok checked) :
    checked.map FunctionDecl.arrow = decls.map FunctionDecl.arrow :=
  map_eq_of_forall₂ (checkFunctions_eq_ok.mp h) fun _ _ => checkFunction_arrow

theorem checkFunction_typed {r : Registry} {arrows : Callee → Option Arrow} (sound : r.Sound arrows)
    {decl checked : FunctionDecl} (resolved : Registry.SignatureResolved decl)
    (htargets : Stmt.AllTargetsAssignable decl.body) (h : checkFunction r decl = .ok checked) :
    FunctionTyped r arrows checked := by
  obtain ⟨params, scopes, body, last, hparams, hbody, rfl⟩ := checkFunction_eq_ok.mp h
  have hstorable : ∀ p ∈ decl.params, (p.ty.getD .nothing).Storable := by
    intro p hp
    obtain ⟨t, hty, hstorable⟩ := resolved.params p hp
    rwa [hty, Option.getD_some]
  -- The types of the slots are those of the declarations, which checking leaves alone.
  let C : BodyTyping := ⟨r, arrows, decl.paramTys ++ Stmt.declaredIn body, decl.resultTy⟩
  obtain ⟨hfits, hslots⟩ := checkParams_initial (C := C) rfl hstorable hparams
  have htys := checkParams_tys hparams
  have hlength : params.length = decl.params.length := by
    simpa using congrArg List.length htys
  have hparamTys : FunctionDecl.paramTys { decl with params, body } = decl.paramTys := htys
  let ctx : BodyContext := ⟨r, decl.name.name, decl.resultTy, decl.isMain⟩
  have hregistry : ctx.registry = C.registry := rfl
  have hresult : ctx.resultTy = C.result := rfl
  obtain ⟨htyped, -⟩ :=
    checkStmts_typed sound hregistry hresult decl.body htargets hfits hbody hslots
  refine ⟨?_, ?_, ?_⟩
  · intro t ht
    rw [hparamTys] at ht
    obtain ⟨p, hp, rfl⟩ := List.mem_map.mp ht
    exact hstorable p hp
  · obtain ⟨t, hty, hname⟩ := resolved.result
    simpa [FunctionDecl.resultTy, hty] using hname
  · show StmtsTyped
      ⟨r, arrows, FunctionDecl.paramTys { decl with params, body } ++ Stmt.declaredIn body,
        decl.resultTy⟩ false (List.range params.length) body
    rw [hparamTys, hlength]
    exact htyped

theorem checkFunctions_typed {r : Registry} {arrows : Callee → Option Arrow}
    (sound : r.Sound arrows) {decls checked : List FunctionDecl}
    (resolved : ∀ d ∈ decls, Registry.SignatureResolved d)
    (htargets : ∀ d ∈ decls, Stmt.AllTargetsAssignable d.body)
    (h : checkFunctions r decls = .ok checked) :
    ∀ d ∈ checked, FunctionTyped r arrows d := by
  intro d' hd'
  obtain ⟨d, hd, hchecked⟩ := exists_of_mem_forall₂_right (checkFunctions_eq_ok.mp h) hd'
  exact checkFunction_typed sound (resolved d hd) (htargets d hd) hchecked

/-! ## Programs -/

/-- The types behind the numbers of the functions of a program and its host. -/
def CheckedProgram.arrows (p : CheckedProgram σ) : Callee → Option Arrow :=
  arrowOf p.functions p.environment.hostFunctions

/-- A typed program. -/
structure CheckedProgram.Typed (p : CheckedProgram σ) : Prop where
  registry : p.environment.registry.Sound p.arrows
  records : ∀ d ∈ p.records, p.environment.registry.RecordListed d
  functions : ∀ d ∈ p.functions, FunctionTyped p.environment.registry p.arrows d

/-- The numbers of functions stand for what they stood for before the bodies were checked. -/
theorem arrowOf_congr {first second : List FunctionDecl} (hosts : HostTable σ)
    (h : first.map FunctionDecl.arrow = second.map FunctionDecl.arrow) :
    arrowOf first hosts = arrowOf second hosts := by
  funext callee
  cases callee with
  | user index =>
      simp only [arrowOf, ← List.getElem?_map]
      rw [h]
  | host index => rfl

theorem Registry.RecordListed.congr {r r' : Registry} {d : RecordDecl} (listed : r.RecordListed d)
    (htypes : r'.types = r.types) (hrecords : r'.records = r.records) : r'.RecordListed d := by
  have hresolve (name : String) : r'.resolve? name = r.resolve? name := by
    rw [Registry.resolve?, htypes, ← Registry.resolve?]
  refine ⟨(hresolve _).trans listed.resolve, ?_, ?_⟩
  · rw [Registry.record?, hrecords]
    exact listed.record
  · intro f hf
    obtain ⟨t, hty, hstorable, hfound⟩ := listed.fields f hf
    exact ⟨t, hty, hstorable, (hresolve _).trans hfound⟩

/-- A constructor takes the types of the fields of its record, in order, and yields the record. -/
theorem recordConstructor_arrow {p : CheckedProgram σ} (typed : p.Typed) {d : RecordDecl}
    (hd : d ∈ p.records) :
    (recordConstructor d : HostFunction σ).arrow =
      ⟨(recordFields d.fields).map (·.ty), .record d.name.name⟩ := by
  have listed := typed.records d hd
  rw [HostFunction.arrow, Arrow.mk.injEq]
  refine ⟨?_, (typed.registry.resolve?_eq_ofName listed.resolve).symm⟩
  simp only [recordConstructor, recordFields, List.map_map]
  refine List.map_congr_left ?_
  intro f hf
  obtain ⟨t, ht, -, hfound⟩ := listed.fields f hf
  simp [ht, typed.registry.resolve?_eq_ofName hfound]

/-- **Checking makes typed programs.** The functions of the host come first in the program's table,
and behind them a constructor for every record. -/
theorem checkProgram_typed {records : List RecordDecl} {functions : List FunctionDecl}
    {host : HostTable σ} {p : CheckedProgram σ} (hwords : ∀ d ∈ records, IsWord d.name.name)
    (htargets : ∀ d ∈ functions, Stmt.AllTargetsAssignable d.body)
    (h : checkProgram records functions host = .ok p) :
    p.Typed ∧ p.environment.hostFunctions = host ++ p.records.map recordConstructor := by
  obtain ⟨named, withFields, withHost, resolved, passes⟩ := checkProgram_eq_ok.mp h
  -- The types of the functions are known before their bodies are checked.
  have harrows : p.arrows = arrowOf resolved (host ++ p.records.map recordConstructor) := by
    rw [CheckedProgram.arrows, passes.hostFunctions]
    exact arrowOf_congr _ (checkFunctions_arrow passes.bodies)
  have soundFields : withFields.Sound p.arrows :=
    (Registry.Sound.initial.declareRecords hwords passes.names).resolveRecords passes.fields
  obtain ⟨soundHost, htypes, hrecords⟩ := soundFields.declareHosts (fun j other hj => by
    rw [harrows, Nat.zero_add, arrowOf, hj, Option.map_some]) passes.hosts
  obtain ⟨sound, htypes', hrecords', hsignatures⟩ := soundHost.declareUsers (fun j d hj => by
    rw [harrows, Nat.zero_add, arrowOf, hj, Option.map_some]) passes.signatures
  have htargets' := forall_body_of_declareUsers passes.signatures htargets
  refine ⟨⟨sound, ?_, checkFunctions_typed sound hsignatures htargets' passes.bodies⟩,
    passes.hostFunctions⟩
  intro d hd
  exact (Registry.recordListed hwords passes.names passes.fields d hd).congr (htypes'.trans htypes)
    (hrecords'.trans hrecords)

/-- **Checking a source text makes a typed program whose first function takes nothing and yields
nothing.** -/
theorem checkSource_typed {source : String} {host : HostTable σ} {p : CheckedProgram σ}
    (h : checkSource source host = .ok p) :
    p.Typed ∧ p.environment.hostFunctions = host ++ p.records.map recordConstructor ∧
      ∃ main others, p.functions = main :: others ∧ main.arrow = ⟨[], .nothing⟩ := by
  obtain ⟨program, hprogram, h⟩ := bind_eq_ok.mp h
  obtain ⟨htyped, hhosts⟩ := checkProgram_typed (Program.isWord_of_ofSource hprogram)
    (Program.targetsAssignable_of_ofSource hprogram) h
  refine ⟨htyped, hhosts, ?_⟩
  obtain ⟨named, withFields, withHost, resolved, passes⟩ := checkProgram_eq_ok.mp h
  obtain ⟨first, next, others, hfirst, -, -, rfl⟩ := declareUsers_cons_eq_ok.mp passes.signatures
  obtain ⟨main, checkedOthers, hmain, -, hfunctions⟩ :=
    List.forall₂_cons_left_iff.mp (checkFunctions_eq_ok.mp passes.bodies)
  refine ⟨main, checkedOthers, hfunctions, ?_⟩
  rw [checkFunction_arrow hmain]
  obtain ⟨-, params, t, hparams, ht, rfl⟩ := resolveSignature_eq_ok.mp hfirst
  cases hparams
  cases ht
  rfl

end Stepwise
