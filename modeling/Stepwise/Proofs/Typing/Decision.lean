import Stepwise.Proofs.Typing.Declared
import Stepwise.Proofs.Typing.Programs

/-!
# Checking decides the rules

Checking a program that was read succeeds exactly if its declarations together with the host are
well-formed, and then at every expression stands the only type that the rules give it:
`checkProgram_decides`. The phases of declaring leave a registry that knows what is declared, or
stop where the declarations are not consistent (`consistent_of_declared`, `declared_of_consistent`);
against such a registry each body is checked by the rules (`checkFunction_keeps`).
-/

set_option autoImplicit false

namespace Stepwise

open Diagnosed Declarations

variable {σ : Type} {D : Declarations σ} {r : Registry}

/-! ## Functions -/

theorem Scopes.Shows.of_lookup {scopes : Scopes} {Γ Γ' : Context} (shows : scopes.Shows Γ)
    (h : ∀ name : String, Γ'.lookup name = Γ.lookup name) : scopes.Shows Γ' := by
  refine ⟨fun name => (shows.types name).trans (h name).symm, ?_⟩
  intro name t ht
  rw [h] at ht
  exact shows.storable ht

/-- The names and types of parameters with known types. -/
def Param.binding (p : Param) : String × Ty := (p.name.name, p.ty.getD .nothing)

/-- Parameters that differ in name are visible at the beginning of the body. -/
theorem Scopes.Shows.checkParams {params : List Param} :
    ∀ {scopes : Scopes} {Γ : Context}, scopes.Shows Γ → (params.map (·.name.name)).Nodup →
      (∀ p ∈ params, Γ.lookup p.name.name = none) → (∀ p ∈ params, (p.ty.getD .nothing).Storable) →
      ∃ checked after, Stepwise.checkParams scopes params = .ok (checked, after) ∧
        after.Shows (params.map Param.binding ++ Γ) := by
  induction params with
  | nil => exact fun shows _ _ _ => ⟨[], _, rfl, shows⟩
  | cons p rest ih =>
      intro scopes Γ shows hnodup hfree hstorable
      rw [List.map_cons, List.nodup_cons] at hnodup
      obtain ⟨next, hdeclare, hnext⟩ :=
        shows.declare (hfree p List.mem_cons_self) (hstorable p List.mem_cons_self)
      have hfirst : ∀ q ∈ rest, (q.name.name == p.name.name) = false := by
        intro q hq
        rw [beq_eq_false_iff_ne]
        intro heq
        exact hnodup.1 (heq ▸ List.mem_map_of_mem hq)
      obtain ⟨others, after, hothers, hafter⟩ := ih hnext hnodup.2 (by
        intro q hq
        rw [List.lookup_cons, hfirst q hq]
        exact hfree q (List.mem_cons_of_mem _ hq)) fun q hq =>
          hstorable q (List.mem_cons_of_mem _ hq)
      refine ⟨_, after, checkParams_cons_eq_ok.mpr ⟨_, next, others, hdeclare, hothers, rfl⟩,
        hafter.of_lookup ?_⟩
      intro name
      rw [List.map_cons, List.cons_append, Param.binding, List.lookup_cons, List.lookup_append,
        List.lookup_append, List.lookup_cons]
      cases hname : name == p.name.name with
      | false => rfl
      | true =>
          -- No later parameter hides the first one.
          have hnone : (rest.map Param.binding).lookup name = none := by
            rw [List.lookup_eq_none_iff]
            intro x hx
            obtain ⟨q, hq, rfl⟩ := List.mem_map.mp hx
            rw [beq_iff_eq.mp hname, bne, Bool.not_eq_true', BEq.comm]
            exact hfirst q hq
          rw [hnone]
          rfl

/-- Parameters have their names and types in one way. -/
theorem Declarations.Parameters.unique (named : D.Named) {params : List Param} {Γ Γ' : Context}
    (h : D.Parameters params Γ) (h' : D.Parameters params Γ') : Γ = Γ' := by
  refine List.right_unique_forall₂' ?_ h h'
  rintro p ⟨name, t⟩ ⟨name', t'⟩ ⟨hname, ht⟩ ⟨hname', ht'⟩
  rw [Prod.mk.injEq]
  exact ⟨hname.trans hname'.symm, named.denotes_unique ht.1 ht'.1⟩

/-- The parameters of a function with known types. -/
theorem parameters_withTypes {d : FunctionDecl} {ts : List Ty} {t : Ty}
    (h : D.Types d.heading ts t) :
    D.Parameters d.params ((d.withTypes ts t).params.map Param.binding) := by
  have hparams : List.Forall₂ (fun p t => D.Stores p.typeName.name t) d.params ts :=
    List.forall₂_map_left_iff.mp h.1
  clear h
  show List.Forall₂ _ d.params
    ((List.zipWith (fun p t => ({ p with ty := some t } : Param)) d.params ts).map Param.binding)
  generalize d.params = params at hparams ⊢
  induction hparams with
  | nil => exact .nil
  | cons hfirst _ ih => exact .cons ⟨rfl, hfirst⟩ ih

theorem paramNames_withTypes {d : FunctionDecl} {ts : List Ty} {t : Ty}
    (h : D.Types d.heading ts t) :
    (d.withTypes ts t).params.map (·.name.name) = d.params.map (·.name.name) := by
  have hparams := parameters_withTypes h
  generalize (d.withTypes ts t).params = params at hparams
  generalize d.params = written at hparams
  induction params generalizing written with
  | nil => rw [List.forall₂_nil_right_iff.mp hparams]
  | cons p rest ih =>
      obtain ⟨q, others, hfirst, hrest, rfl⟩ := List.forall₂_cons_right_iff.mp hparams
      rw [List.map_cons, List.map_cons, ih others hrest, ← hfirst.1]
      rfl

/-- **Checking a function succeeds exactly if its body keeps the rules, and annotates it by
them.** -/
theorem checkFunction_keeps (knows : r.Knows D) {d : FunctionDecl} {ts : List Ty} {t : Ty}
    (htypes : D.Types d.heading ts t) (hnames : (d.params.map (·.name.name)).Nodup)
    (htargets : Stmt.AllTargetsAssignable d.body) :
    ((∃ checked, checkFunction r (d.withTypes ts t) = .ok checked) ↔ D.BodyKeeps d) ∧
      ∀ checked, checkFunction r (d.withTypes ts t) = .ok checked →
      D.FunctionAnnotated d checked := by
  have hparameters := parameters_withTypes htypes
  have htys : (d.withTypes ts t).paramTys = ts := FunctionDecl.paramTys_withTypes htypes.length_eq
  have hstorable : ∀ p ∈ (d.withTypes ts t).params, (p.ty.getD .nothing).Storable := by
    intro p hp
    refine knows.named.types_storable htypes _ ?_
    rw [← htys]
    exact List.mem_map_of_mem hp
  have hinitial : Scopes.initial.Shows [] := ⟨fun _ => rfl, nofun⟩
  obtain ⟨params, scopes, hparams, hshows⟩ :=
    hinitial.checkParams (by rw [paramNames_withTypes htypes]; exact hnames) (fun _ _ => rfl)
      hstorable
  rw [List.append_nil] at hshows
  let ctx : BodyContext := ⟨r, d.name.name, t, d.isMain⟩
  have hctx : ctx.registry.Knows D := knows
  -- The parts of checking the function, seen from its result.
  have hparts {checked : FunctionDecl} (h : checkFunction r (d.withTypes ts t) = .ok checked) :
      ∃ body after, checkStmts ctx false scopes d.body = .ok (body, after) ∧
        checked = { d.withTypes ts t with params, body } := by
    obtain ⟨params', scopes', body, after, hparams', hbody, rfl⟩ := checkFunction_eq_ok.mp h
    rw [hparams] at hparams'
    cases hparams'
    exact ⟨body, after, hbody, rfl⟩
  refine ⟨⟨?_, ?_⟩, ?_⟩
  · rintro ⟨checked, h⟩
    obtain ⟨body, after, hbody, -⟩ := hparts h
    obtain ⟨Γ', hkeeps, -, -⟩ := hctx.keepAll_of_checkStmts d.body htargets hshows hbody
    exact ⟨_, Γ', t, hparameters, htypes.2, hkeeps⟩
  · rintro ⟨Γ, Γ', result, hΓ, hresult, hkeeps⟩
    obtain rfl := hΓ.unique knows.named hparameters
    obtain rfl := knows.named.denotes_unique hresult htypes.2
    obtain ⟨body, after, hbody, -⟩ := hctx.checkStmts_of_keepAll d.body hshows hkeeps
    exact ⟨_, checkFunction_eq_ok.mpr ⟨params, scopes, body, after, hparams, hbody, rfl⟩⟩
  · intro checked h
    obtain ⟨body, after, hbody, rfl⟩ := hparts h
    obtain ⟨Γ', -, hannotated, -⟩ := hctx.keepAll_of_checkStmts d.body htargets hshows hbody
    refine ⟨rfl, _, Γ', hparameters, ?_, htypes.2, hannotated⟩
    rw [List.map_map]
    exact checkParams_tys hparams

theorem checkFunctions_keep (knows : r.Knows D) {decls typed : List FunctionDecl}
    (h : List.Forall₂ D.SignatureTyped decls typed)
    (hnames : ∀ d ∈ decls, (d.params.map (·.name.name)).Nodup)
    (htargets : ∀ d ∈ decls, Stmt.AllTargetsAssignable d.body) :
    ((∃ checked, checkFunctions r typed = .ok checked) ↔ ∀ d ∈ decls, D.BodyKeeps d) ∧
      ∀ checked, checkFunctions r typed = .ok checked →
      List.Forall₂ D.FunctionAnnotated decls checked := by
  -- What is known of one function before and behind finding its types.
  have hkeeps {d d' : FunctionDecl} (hd : d ∈ decls) (htyped : D.SignatureTyped d d') :
      ((∃ checked, checkFunction r d' = .ok checked) ↔ D.BodyKeeps d) ∧
        ∀ checked, checkFunction r d' = .ok checked → D.FunctionAnnotated d checked := by
    obtain ⟨ts, t, htypes, rfl⟩ := htyped
    exact checkFunction_keeps knows htypes (hnames d hd) (htargets d hd)
  simp only [checkFunctions_eq_ok, exists_forall₂_iff]
  refine ⟨⟨?_, ?_⟩, ?_⟩
  · intro hchecked d hd
    obtain ⟨d', hd', htyped⟩ := exists_of_mem_forall₂ h hd
    exact (hkeeps hd htyped).1.mp (hchecked d' hd')
  · intro hbodies d' hd'
    obtain ⟨d, hd, htyped⟩ := exists_of_mem_forall₂_right h hd'
    exact (hkeeps hd htyped).1.mpr (hbodies d hd)
  · intro checked hchecked
    have htyped := (List.forall₂_and_left _ _).mpr ⟨fun d hd => hd, h⟩
    exact forall₂_trans htyped hchecked fun d d' checked ⟨hd, htyped⟩ =>
      (hkeeps hd htyped).2 checked

/-! ## Declaring -/

theorem hostHeadings_eq :
    (D.hosts ++ D.records.map recordConstructor).map HostFunction.heading = D.hostHeadings := by
  have hheading (d : RecordDecl) : (recordConstructor d : HostFunction σ).heading = d.heading := by
    simp [HostFunction.heading, recordConstructor, RecordDecl.heading]
  rw [List.map_append, List.map_map, hostHeadings, Function.comp_def]
  simp only [hheading]

/-- What has been declared in order, up to the bodies of the functions. -/
def Declared (D : Declarations σ) (registry : Registry) (records : List RecordDecl)
    (functions : List FunctionDecl) :
    Prop :=
  ∃ named withFields withHost, declareRecords .initial D.records = .ok named ∧
    resolveRecords named D.records = .ok (records, withFields) ∧
    declareHosts withFields 0 (D.hosts ++ records.map recordConstructor) = .ok withHost ∧
    declareUsers withHost 0 D.functions = .ok (functions, registry)

/-- A program is checked by declaring what it declares and then checking the bodies. -/
theorem checkProgram_iff_declared {p : CheckedProgram σ} :
    checkProgram D.records D.functions D.hosts = .ok p ↔
      ∃ registry records functions checked, Declared D registry records functions ∧
        checkFunctions registry functions = .ok checked ∧
        p = ⟨records, checked, ⟨registry, D.hosts ++ records.map recordConstructor⟩⟩ := by
  rw [checkProgram_eq_ok]
  constructor
  · rintro ⟨named, withFields, withHost, functions, passes⟩
    have hdeclared : Declared D p.environment.registry p.records functions :=
      ⟨named, withFields, withHost, passes.names, passes.fields, passes.hosts, passes.signatures⟩
    exact ⟨_, _, functions, _, hdeclared, passes.bodies, by rw [← passes.hostFunctions]⟩
  · rintro ⟨registry, records, functions, checked, ⟨named, withFields, withHost, hnamed, hfields,
      hhost, hfunctions⟩, hchecked, rfl⟩
    exact ⟨named, withFields, withHost, functions, hnamed, hfields, hhost, hfunctions,
      hchecked, rfl⟩

/-- Before functions are declared there are none. -/
theorem noFunctions_of_resolveRecords {named withFields : Registry} {records : List RecordDecl}
    (hnamed : declareRecords .initial D.records = .ok named)
    (hfields : resolveRecords named D.records = .ok (records, withFields)) :
    D.Tabled withFields.userFunctions [] ∧ D.Tabled withFields.hostFunctions [] := by
  have hextends := declareRecords_extends hnamed
  obtain ⟨-, -, -, husers, hhosts⟩ := resolveRecords_typed (means_of_declareRecords hnamed) hfields
  rw [husers, hhosts, hextends.userFunctions, hextends.hostFunctions]
  exact ⟨.empty, .empty⟩

/-- What the registry knows before the functions of the program are declared. -/
structure Registry.KnowsHosts (r : Registry) (D : Declarations σ) : Prop where
  means : r.Means D
  users : D.Tabled r.userFunctions []
  hosts : D.Tabled r.hostFunctions D.hostHeadings

theorem knowsHosts_of_declareHosts (hD : D.Named) {named withFields withHost : Registry}
    {records : List RecordDecl} (hnamed : declareRecords .initial D.records = .ok named)
    (hfields : resolveRecords named D.records = .ok (records, withFields))
    (hhost : declareHosts withFields 0 (D.hosts ++ records.map recordConstructor) = .ok withHost) :
    withHost.KnowsHosts D ∧ withHost.records = withFields.records := by
  obtain ⟨-, htyped, means, -⟩ := resolveRecords_typed (means_of_declareRecords hnamed) hfields
  obtain ⟨noUsers, noHosts⟩ := noFunctions_of_resolveRecords hnamed hfields
  rw [constructors_typed htyped] at hhost
  obtain ⟨hosts, htypes, hrecords, husers⟩ := declareHosts_tabled hD means noHosts hhost
  rw [List.nil_append, hostHeadings_eq] at hosts
  refine ⟨⟨?_, husers ▸ noUsers, hosts⟩, hrecords⟩
  intro name t
  rw [Registry.resolve?, htypes]
  exact means name t

/-- **What has been declared in order is consistent, and the registry that is left knows it.** -/
theorem consistent_of_declared (hwords : ∀ d ∈ D.records, IsWord d.name.name)
    {records : List RecordDecl} {functions : List FunctionDecl}
    (h : Declared D r records functions) :
    D.Consistent ∧ r.Knows D ∧ List.Forall₂ D.SignatureTyped D.functions functions := by
  obtain ⟨named, withFields, withHost, hnamed, hfields, hhost, hfunctions⟩ := h
  have hbuiltIn : ∀ d ∈ D.records, ∀ t ∈ Ty.builtIn, t.name ≠ d.name.name := by
    intro d hd t ht heq
    have hfound := Registry.resolve?_initial.mpr ⟨ht, heq⟩
    rw [(declareRecords_extends hnamed).fresh d hd] at hfound
    cases hfound
  have hD : D.Named := fun d hd => ⟨hwords d hd, hbuiltIn d hd⟩
  obtain ⟨hfieldNames, htyped, -⟩ := resolveRecords_typed (means_of_declareRecords hnamed) hfields
  obtain ⟨knowsHosts, hrecords⟩ := knowsHosts_of_declareHosts hD hnamed hfields hhost
  obtain ⟨users, hall, hsignatures, htypes, hrecords', hhosts⟩ :=
    declareUsers_tabled hD knowsHosts.means knowsHosts.users knowsHosts.hosts hfunctions
  rw [List.nil_append] at users
  have hosts := knowsHosts.hosts
  have happart : (D.userHeadings.map Heading.call).Disjoint (D.hostHeadings.map Heading.call) := by
    intro call huser hhost
    obtain ⟨h, hh, rfl⟩ := List.mem_map.mp huser
    obtain ⟨d, hd, rfl⟩ := List.mem_map.mp hh
    exact (hall d hd).2 hhost
  have consistent : D.Consistent := by
    refine ⟨(Registry.declareRecords_declares hnamed).2.1, hbuiltIn, hfieldNames, ?_, hosts.types,
      hosts.distinct, users.types, users.distinct, happart, fun d hd => (hall d hd).1⟩
    intro d hd f hf
    obtain ⟨d', -, fields, hfields, -⟩ := exists_of_mem_forall₂ htyped hd
    obtain ⟨f', -, t, ht, -⟩ := exists_of_mem_forall₂ hfields hf
    exact ⟨t, ht⟩
  have knows : r.Knows D := by
    refine ⟨hD, ?_, ?_, ?_⟩
    · intro name t
      rw [Registry.resolve?, htypes]
      exact knowsHosts.means name t
    · intro record field t
      rw [Registry.record?, hrecords', hrecords]
      exact hasField_of_resolveRecords hD hnamed hfields
    · intro name ts t hts
      exact resolveCall?_eq_some hD users (hhosts ▸ hosts) happart hts
  exact ⟨consistent, knows, hsignatures⟩

/-- **What is consistent can be declared in order.** -/
theorem declared_of_consistent (hwords : ∀ d ∈ D.records, IsWord d.name.name)
    (consistent : D.Consistent) :
    ∃ registry records functions, Declared D registry records functions := by
  have hD : D.Named := fun d hd => ⟨hwords d hd, consistent.recordsNotBuiltIn d hd⟩
  have hfree : ∀ d ∈ D.records, Registry.initial.resolve? d.name.name = none := by
    intro d hd
    rw [Option.eq_none_iff_forall_ne_some]
    intro t ht
    obtain ⟨hbuiltIn, hname⟩ := Registry.resolve?_initial.mp ht
    exact consistent.recordsNotBuiltIn d hd t hbuiltIn hname
  obtain ⟨named, hnamed⟩ := declareRecords_isOk consistent.recordNames fun d hd => ⟨rfl, hfree d hd⟩
  have meansNamed := means_of_declareRecords hnamed
  obtain ⟨⟨records, withFields⟩, hfields⟩ :=
    resolveRecords_isOk meansNamed consistent.fieldNames consistent.fieldTypes
  obtain ⟨-, htyped, meansFields, -⟩ := resolveRecords_typed meansNamed hfields
  obtain ⟨-, noHosts⟩ := noFunctions_of_resolveRecords hnamed hfields
  have hheadings := hostHeadings_eq (D := D)
  obtain ⟨withHost, hhost⟩ := declareHosts_isOk hD (D.hosts ++ D.records.map recordConstructor) 0
    meansFields noHosts (fun h hh => consistent.hostTypes _ (hheadings ▸ List.mem_map_of_mem hh))
    (by rw [List.nil_append, hheadings]; exact consistent.hostCalls)
  rw [← constructors_typed htyped] at hhost
  obtain ⟨knowsHosts, -⟩ := knowsHosts_of_declareHosts hD hnamed hfields hhost
  obtain ⟨⟨functions, registry⟩, hfunctions⟩ := declareUsers_isOk hD 0 knowsHosts.means
    knowsHosts.users knowsHosts.hosts consistent.paramNames
      (fun d hd => consistent.userTypes _ (List.mem_map_of_mem hd))
    (by rw [List.nil_append]; exact consistent.userCalls)
    (fun d hd hmem => consistent.apart (List.mem_map_of_mem (List.mem_map_of_mem hd)) hmem)
  exact ⟨registry, records, functions, named, withFields, withHost, hnamed, hfields, hhost,
    hfunctions⟩

/-! ## Programs -/

/-- **Checking decides the rules.** A program that was read is checked against a host exactly if the
program and the host are well-formed, and then every expression bears the only type that the rules
give it. -/
theorem checkProgram_decides {source : String} {program : Program}
    (hread : Program.ofSource source = .ok program) (host : HostTable σ) :
    ((∃ p, checkProgram program.records program.allFunctions host = .ok p) ↔
      (program.declarations host).WellFormed) ∧
    ∀ p, checkProgram program.records program.allFunctions host = .ok p →
      List.Forall₂ (program.declarations host).FunctionAnnotated program.allFunctions
        p.functions := by
  let D := program.declarations host
  have hwords : ∀ d ∈ D.records, IsWord d.name.name := Program.isWord_of_ofSource hread
  have htargets : ∀ d ∈ D.functions, Stmt.AllTargetsAssignable d.body :=
    Program.targetsAssignable_of_ofSource hread
  refine ⟨⟨?_, ?_⟩, ?_⟩
  · rintro ⟨p, h⟩
    obtain ⟨registry, records, functions, checked, hdeclared, hchecked, -⟩ :=
      (checkProgram_iff_declared (D := D)).mp h
    obtain ⟨consistent, knows, hsignatures⟩ := consistent_of_declared hwords hdeclared
    have hbodies :=
      (checkFunctions_keep knows hsignatures consistent.paramNames htargets).1.mp
        ⟨checked, hchecked⟩
    exact ⟨consistent, hbodies⟩
  · rintro ⟨consistent, hbodies⟩
    obtain ⟨registry, records, functions, hdeclared⟩ := declared_of_consistent hwords consistent
    obtain ⟨-, knows, hsignatures⟩ := consistent_of_declared hwords hdeclared
    obtain ⟨checked, hchecked⟩ :=
      (checkFunctions_keep knows hsignatures consistent.paramNames htargets).1.mpr hbodies
    exact ⟨_, (checkProgram_iff_declared (D := D)).mpr ⟨_, _, _, _, hdeclared, hchecked, rfl⟩⟩
  · intro p h
    obtain ⟨registry, records, functions, checked, hdeclared, hchecked, rfl⟩ :=
      (checkProgram_iff_declared (D := D)).mp h
    obtain ⟨consistent, knows, hsignatures⟩ := consistent_of_declared hwords hdeclared
    exact (checkFunctions_keep knows hsignatures consistent.paramNames htargets).2 checked hchecked

/-- A program that compares records by a function of its own. -/
def comparingSource : String :=
  "record Cell\n  on: boolean\nend\n" ++
    "fun equals(a: Cell, b: Cell): boolean\n  return a.on == b.on\nend\n" ++
    "Cell(true) != Cell(false)\n"

/-- A program that declares a visible name again in an inner block. -/
def shadowingSource : String := "var x = true\nif x then\n  var x = false\nend\n"

theorem comparingSource_checks :
    (checkSource comparingSource ([] : HostTable Unit)).isOk = true := by
  decide +kernel

theorem shadowingSource_reads : (Program.ofSource shadowingSource).isOk = true := by
  decide +kernel

theorem shadowingSource_stops :
    (checkSource shadowingSource ([] : HostTable Unit)).isOk = false := by
  decide +kernel

theorem checkProgram_decides_comparing :
    (∃ program p, Program.ofSource comparingSource = .ok program ∧
      checkProgram program.records program.allFunctions ([] : HostTable Unit) = .ok p ∧
      (program.declarations ([] : HostTable Unit)).WellFormed ∧
      List.Forall₂ (program.declarations ([] : HostTable Unit)).FunctionAnnotated
        program.allFunctions p.functions) ∧
    ∃ program, Program.ofSource shadowingSource = .ok program ∧
      ¬ (program.declarations ([] : HostTable Unit)).WellFormed := by
  constructor
  · obtain ⟨p, hchecked⟩ := isOk_iff.mp comparingSource_checks
    obtain ⟨program, hprogram, hp⟩ := bind_eq_ok.mp hchecked
    obtain ⟨hdecides, hannotated⟩ := checkProgram_decides hprogram ([] : HostTable Unit)
    exact ⟨program, p, hprogram, hp, hdecides.mp ⟨p, hp⟩, hannotated p hp⟩
  · obtain ⟨program, hprogram⟩ := isOk_iff.mp shadowingSource_reads
    refine ⟨program, hprogram, fun hwellFormed => ?_⟩
    obtain ⟨p, hp⟩ := (checkProgram_decides hprogram _).1.mpr hwellFormed
    have hchecked : checkSource shadowingSource ([] : HostTable Unit) = .ok p :=
      bind_eq_ok.mpr ⟨program, hprogram, hp⟩
    have hstops := shadowingSource_stops
    rw [hchecked] at hstops
    cases hstops

end Stepwise
