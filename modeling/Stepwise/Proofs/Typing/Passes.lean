import Mathlib.Data.List.Forall2
import Stepwise.Proofs.Diagnosed
import Stepwise.Typing.Program

/-!
# The passes over declarations

Checking goes over the fields, parameters, records and functions of a program in rows. A pass that
succeeds does to each member of a row what it would do to the member alone, so it is a relation
between what goes in and what comes out, member by member (`List.Forall₂`). What holds of members
then holds of rows, and no row is gone through again. Where a pass hands something on from one
member to the next there is a lemma for its step.

`checkProgram_eq_ok` puts the passes behind one another.
-/

set_option autoImplicit false

namespace Stepwise

open Diagnosed

/-! ## Rows that are related member by member -/

section Rows

variable {α β γ : Type} {R : α → β → Prop} {as : List α} {bs : List β}

theorem exists_of_mem_forall₂ (h : List.Forall₂ R as bs) {a : α} (ha : a ∈ as) :
    ∃ b ∈ bs, R a b := by
  induction h with
  | nil => cases ha
  | cons hfirst _ ih =>
      rcases List.mem_cons.mp ha with rfl | ha
      · exact ⟨_, List.mem_cons_self, hfirst⟩
      · obtain ⟨b, hb, hab⟩ := ih ha
        exact ⟨b, List.mem_cons_of_mem _ hb, hab⟩

theorem exists_of_mem_forall₂_right (h : List.Forall₂ R as bs) {b : β} (hb : b ∈ bs) :
    ∃ a ∈ as, R a b :=
  exists_of_mem_forall₂ (R := flip R) h.flip hb

theorem exists_of_getElem?_forall₂_right (h : List.Forall₂ R as bs) {j : Nat} {b : β}
    (hb : bs[j]? = some b) :
    ∃ a, as[j]? = some a ∧ R a b := by
  obtain ⟨hj, rfl⟩ := List.getElem?_eq_some_iff.mp hb
  have hj' : j < as.length := h.length_eq ▸ hj
  exact ⟨as[j], List.getElem?_eq_getElem hj', h.get hj' hj⟩

theorem forall₂_trans {S : β → γ → Prop} {T : α → γ → Prop} {cs : List γ} (h : List.Forall₂ R as bs)
    (h' : List.Forall₂ S bs cs) (htrans : ∀ a b c, R a b → S b c → T a c) :
    List.Forall₂ T as cs := by
  induction h generalizing cs with
  | nil =>
      cases h'
      exact .nil
  | cons hfirst _ ih =>
      obtain ⟨c, rest, hc, hrest, rfl⟩ := List.forall₂_cons_left_iff.mp h'
      exact .cons (htrans _ _ _ hfirst hc) (ih hrest)

theorem exists_forall₂_iff : (∃ bs, List.Forall₂ R as bs) ↔ ∀ a ∈ as, ∃ b, R a b := by
  constructor
  · rintro ⟨bs, h⟩ a ha
    obtain ⟨b, -, hb⟩ := exists_of_mem_forall₂ h ha
    exact ⟨b, hb⟩
  · intro h
    induction as with
    | nil => exact ⟨[], .nil⟩
    | cons a rest ih =>
        obtain ⟨⟨b, hb⟩, hrest⟩ := List.forall_mem_cons.mp h
        obtain ⟨bs, hbs⟩ := ih hrest
        exact ⟨b :: bs, .cons hb hbs⟩

theorem map_eq_of_forall₂ (h : List.Forall₂ R as bs) {f : α → γ} {g : β → γ}
    (hfg : ∀ a b, R a b → g b = f a) :
    bs.map g = as.map f := by
  induction h with
  | nil => rfl
  | cons hfirst _ ih => rw [List.map_cons, List.map_cons, hfg _ _ hfirst, ih]

/-- Names differ and are none of those that were seen: the first one is not, and then it is seen for
the others. -/
theorem distinct_cons {name : α → String} {a : α} {seen : List String} :
    (((a :: as).map name).Nodup ∧ ∀ b ∈ a :: as, name b ∉ seen) ↔
      name a ∉ seen ∧ (as.map name).Nodup ∧ ∀ b ∈ as, name b ∉ name a :: seen := by
  simp only [List.map_cons, List.nodup_cons, List.mem_map, List.mem_cons, not_or]
  grind

end Rows

/-! ## Records -/

/-- A field before and behind finding its type. -/
def FieldDecl.ResolvedIn (r : Registry) (f f' : FieldDecl) : Prop :=
  ∃ t, resolveStorable r f.typeName (.fieldOfNothing f.name.name) = .ok t ∧
  f' = { f with ty := some t }

/-- A record before and behind finding the types of its fields. -/
def RecordDecl.ResolvedIn (r : Registry) (d d' : RecordDecl) : Prop :=
  (d.fields.map (·.name.name)).Nodup ∧
    ∃ fields, List.Forall₂ (FieldDecl.ResolvedIn r) d.fields fields ∧ d' = { d with fields }

section Records

variable {r r' : Registry}

theorem resolveFields_eq_ok {record : String} {decls : List FieldDecl} :
    ∀ {seen : List String} {fields : List FieldDecl},
      resolveFields r record seen decls = .ok fields ↔
      ((decls.map (·.name.name)).Nodup ∧ ∀ f ∈ decls, f.name.name ∉ seen) ∧
        List.Forall₂ (FieldDecl.ResolvedIn r) decls fields := by
  induction decls with
  | nil =>
      intro seen fields
      simp [resolveFields, eq_comm]
  | cons f rest ih =>
      intro seen fields
      rw [resolveFields, distinct_cons, List.forall₂_cons_left_iff]
      split
      · next hseen => simp [hseen]
      · next hnew =>
          constructor
          · intro h
            obtain ⟨t, ht, h⟩ := bind_eq_ok.mp h
            obtain ⟨others, hothers, h⟩ := bind_eq_ok.mp h
            cases h
            obtain ⟨hdistinct, hall⟩ := ih.mp hothers
            exact ⟨⟨hnew, hdistinct⟩, _, others, ⟨t, ht, rfl⟩, hall, rfl⟩
          · rintro ⟨⟨-, hdistinct⟩, _, others, ⟨t, ht, rfl⟩, hall, rfl⟩
            exact bind_eq_ok.mpr ⟨t, ht, bind_eq_ok.mpr ⟨others, ih.mpr ⟨hdistinct, hall⟩, rfl⟩⟩

/-- The fields of a record are set before those of the next record are found. -/
theorem resolveRecords_cons_eq_ok {decl : RecordDecl} {rest records : List RecordDecl} :
    resolveRecords r (decl :: rest) = .ok (records, r') ↔
      ∃ fields others, resolveFields r decl.name.name [] decl.fields = .ok fields ∧
        resolveRecords (r.setFields decl.name.name (recordFields fields)) rest = .ok (others, r') ∧
        records = { decl with fields } :: others := by
  constructor
  · intro h
    obtain ⟨fields, hfields, h⟩ := bind_eq_ok.mp h
    obtain ⟨⟨others, last⟩, hothers, h⟩ := bind_eq_ok.mp h
    cases h
    exact ⟨fields, others, hfields, hothers, rfl⟩
  · rintro ⟨fields, others, hfields, hothers, rfl⟩
    exact bind_eq_ok.mpr ⟨fields, hfields, bind_eq_ok.mpr ⟨_, hothers, rfl⟩⟩

/-- All types of fields are those that were known at first: setting fields declares no name. -/
theorem resolved_of_resolveRecords {decls : List RecordDecl} :
    ∀ {r r' : Registry} {records : List RecordDecl}, resolveRecords r decls = .ok (records, r') →
      List.Forall₂ (RecordDecl.ResolvedIn r) decls records := by
  induction decls with
  | nil =>
      intro r r' records h
      cases h
      exact .nil
  | cons decl rest ih =>
      intro r r' records h
      obtain ⟨fields, others, hfields, hothers, rfl⟩ := resolveRecords_cons_eq_ok.mp h
      obtain ⟨⟨hnames, -⟩, hall⟩ := resolveFields_eq_ok.mp hfields
      have hrest := ih hothers
      exact .cons ⟨hnames, fields, hall, rfl⟩ hrest

/-- Finding fields changes nothing but records. -/
theorem resolveRecords_frame {decls : List RecordDecl} :
    ∀ {r r' : Registry} {records : List RecordDecl}, resolveRecords r decls = .ok (records, r') →
      r'.types = r.types ∧ r'.userFunctions = r.userFunctions ∧
      r'.hostFunctions = r.hostFunctions := by
  induction decls with
  | nil =>
      intro r r' records h
      cases h
      exact ⟨rfl, rfl, rfl⟩
  | cons decl rest ih =>
      intro r r' records h
      obtain ⟨fields, others, -, hothers, rfl⟩ := resolveRecords_cons_eq_ok.mp h
      obtain ⟨htypes, husers, hhosts⟩ := ih hothers
      exact ⟨htypes, husers, hhosts⟩

end Records

/-! ## Signatures -/

/-- A parameter before and behind finding its type in a registry. -/
def Param.ResolvedIn (r : Registry) (p p' : Param) : Prop :=
  ∃ t, resolveStorable r p.typeName (.parameterOfNothing p.name.name) = .ok t ∧
  p' = { p with ty := some t }

/-- A parameter before and behind finding its type. -/
def Param.Resolved (p p' : Param) : Prop := ∃ t, p' = { p with ty := some t }

/-- A function before and behind finding its types. -/
def FunctionDecl.Resolved (d d' : FunctionDecl) : Prop :=
  ∃ params t, List.Forall₂ Param.Resolved d.params params ∧
  d' = { d with params, returnType := some t }

theorem Param.ResolvedIn.resolved {r : Registry} {p p' : Param} (h : p.ResolvedIn r p') :
    p.Resolved p' := by
  obtain ⟨t, -, rfl⟩ := h
  exact ⟨t, rfl⟩

/-- Finding types leaves the body alone. -/
theorem FunctionDecl.Resolved.body_eq {d d' : FunctionDecl} (h : d.Resolved d') :
    d'.body = d.body := by
  obtain ⟨params, t, -, rfl⟩ := h
  rfl

/-- Finding types leaves the names of parameters alone. -/
theorem FunctionDecl.Resolved.names_eq {d d' : FunctionDecl} (h : d.Resolved d') :
    d'.params.map (·.name) = d.params.map (·.name) := by
  obtain ⟨params, t, hparams, rfl⟩ := h
  refine map_eq_of_forall₂ hparams ?_
  rintro p _ ⟨s, rfl⟩
  rfl

section Signatures

variable {r r' : Registry} {index : Nat}

theorem checkParamNames_eq_ok {params : List Param} :
    ∀ {seen : List String}, checkParamNames seen params = .ok () ↔
      (params.map (·.name.name)).Nodup ∧ ∀ p ∈ params, p.name.name ∉ seen := by
  induction params with
  | nil => simp [checkParamNames]
  | cons p rest ih =>
      intro seen
      rw [checkParamNames, distinct_cons]
      split
      · next hseen => simp [hseen]
      · next hnew => rw [ih, and_iff_right hnew]

theorem resolveParams_eq_ok {params : List Param} :
    ∀ {resolved : List Param}, resolveParams r params = .ok resolved ↔
      List.Forall₂ (Param.ResolvedIn r) params resolved := by
  induction params with
  | nil =>
      intro resolved
      simp [resolveParams, eq_comm]
  | cons p rest ih =>
      intro resolved
      rw [List.forall₂_cons_left_iff]
      constructor
      · intro h
        obtain ⟨t, ht, h⟩ := bind_eq_ok.mp h
        obtain ⟨others, hothers, h⟩ := bind_eq_ok.mp h
        cases h
        exact ⟨_, others, ⟨t, ht, rfl⟩, ih.mp hothers, rfl⟩
      · rintro ⟨_, others, ⟨t, ht, rfl⟩, hothers, rfl⟩
        exact bind_eq_ok.mpr ⟨t, ht, bind_eq_ok.mpr ⟨others, ih.mpr hothers, rfl⟩⟩

theorem resolveSignature_eq_ok {decl resolved : FunctionDecl} :
    resolveSignature r decl = .ok resolved ↔
      (decl.params.map (·.name.name)).Nodup ∧
        ∃ params t, List.Forall₂ (Param.ResolvedIn r) decl.params params ∧
          resolveResult r decl.returnTypeName = .ok t ∧
          resolved = { decl with params, returnType := some t } := by
  constructor
  · intro h
    obtain ⟨⟨⟩, hnames, h⟩ := bind_eq_ok.mp h
    obtain ⟨params, hparams, h⟩ := bind_eq_ok.mp h
    obtain ⟨t, ht, h⟩ := bind_eq_ok.mp h
    cases h
    exact ⟨(checkParamNames_eq_ok.mp hnames).1, params, t, resolveParams_eq_ok.mp hparams, ht, rfl⟩
  · rintro ⟨hnames, params, t, hparams, ht, rfl⟩
    exact bind_eq_ok.mpr ⟨(), checkParamNames_eq_ok.mpr ⟨hnames, fun _ _ => List.not_mem_nil⟩,
      bind_eq_ok.mpr ⟨params, resolveParams_eq_ok.mpr hparams, bind_eq_ok.mpr ⟨t, ht, rfl⟩⟩⟩

theorem resolved_of_resolveSignature {decl resolved : FunctionDecl}
    (h : resolveSignature r decl = .ok resolved) :
    decl.Resolved resolved := by
  obtain ⟨-, params, t, hparams, -, rfl⟩ := resolveSignature_eq_ok.mp h
  exact ⟨params, t, hparams.imp fun _ _ => Param.ResolvedIn.resolved, rfl⟩

/-- A function is declared before the types of the next one are found. -/
theorem declareUsers_cons_eq_ok {decl : FunctionDecl} {rest resolved : List FunctionDecl} :
    declareUsers r index (decl :: rest) = .ok (resolved, r') ↔
      ∃ first next others, resolveSignature r decl = .ok first ∧
        declareUser r index first = .ok next ∧
        declareUsers next (index + 1) rest = .ok (others, r') ∧ resolved = first :: others := by
  constructor
  · intro h
    obtain ⟨first, hfirst, h⟩ := bind_eq_ok.mp h
    obtain ⟨next, hnext, h⟩ := bind_eq_ok.mp h
    obtain ⟨⟨others, last⟩, hothers, h⟩ := bind_eq_ok.mp h
    cases h
    exact ⟨first, next, others, hfirst, hnext, hothers, rfl⟩
  · rintro ⟨first, next, others, hfirst, hnext, hothers, rfl⟩
    exact bind_eq_ok.mpr
      ⟨first, hfirst, bind_eq_ok.mpr ⟨next, hnext, bind_eq_ok.mpr ⟨_, hothers, rfl⟩⟩⟩

theorem resolved_of_declareUsers {decls : List FunctionDecl} :
    ∀ {r r' : Registry} {index : Nat} {resolved : List FunctionDecl},
      declareUsers r index decls = .ok (resolved, r') →
      List.Forall₂ FunctionDecl.Resolved decls resolved := by
  induction decls with
  | nil =>
      intro r r' index resolved h
      cases h
      exact .nil
  | cons decl rest ih =>
      intro r r' index resolved h
      obtain ⟨first, next, others, hfirst, -, hothers, rfl⟩ := declareUsers_cons_eq_ok.mp h
      exact .cons (resolved_of_resolveSignature hfirst) (ih hothers)

/-- What holds of all bodies still does when the functions are declared. -/
theorem forall_body_of_declareUsers {P : List Stmt → Prop} {decls resolved : List FunctionDecl}
    (h : declareUsers r index decls = .ok (resolved, r')) (hP : ∀ d ∈ decls, P d.body) :
    ∀ d ∈ resolved, P d.body := by
  intro d' hd'
  obtain ⟨d, hd, hresolved⟩ := exists_of_mem_forall₂_right (resolved_of_declareUsers h) hd'
  rw [hresolved.body_eq]
  exact hP d hd

end Signatures

/-! ## Bodies -/

/-- A parameter before and behind getting its slot. -/
def Param.Placed (p p' : Param) : Prop := ∃ slot, p' = { p with slot := some slot }

section Bodies

variable {r : Registry}

theorem checkParams_cons_eq_ok {scopes after : Scopes} {p : Param} {rest checked : List Param} :
    checkParams scopes (p :: rest) = .ok (checked, after) ↔
      ∃ slot next others, declareVariable scopes p.name (p.ty.getD .nothing) = .ok (slot, next) ∧
        checkParams next rest = .ok (others, after) ∧
        checked = { p with slot := some slot } :: others := by
  constructor
  · intro h
    obtain ⟨⟨slot, next⟩, hslot, h⟩ := bind_eq_ok.mp h
    obtain ⟨⟨others, last⟩, hothers, h⟩ := bind_eq_ok.mp h
    cases h
    exact ⟨slot, next, others, hslot, hothers, rfl⟩
  · rintro ⟨slot, next, others, hslot, hothers, rfl⟩
    exact bind_eq_ok.mpr ⟨_, hslot, bind_eq_ok.mpr ⟨_, hothers, rfl⟩⟩

theorem placed_of_checkParams {params : List Param} :
    ∀ {scopes after : Scopes} {checked : List Param},
      checkParams scopes params = .ok (checked, after) →
      List.Forall₂ Param.Placed params checked := by
  induction params with
  | nil =>
      intro scopes after checked h
      cases h
      exact .nil
  | cons p rest ih =>
      intro scopes after checked h
      obtain ⟨slot, next, others, -, hothers, rfl⟩ := checkParams_cons_eq_ok.mp h
      exact .cons ⟨slot, rfl⟩ (ih hothers)

/-- Checking parameters leaves their types alone. -/
theorem checkParams_tys {params checked : List Param} {scopes after : Scopes}
    (h : checkParams scopes params = .ok (checked, after)) :
    (checked.map fun p => p.ty.getD .nothing) = params.map fun p => p.ty.getD .nothing := by
  refine map_eq_of_forall₂ (placed_of_checkParams h) ?_
  rintro p _ ⟨slot, rfl⟩
  rfl

theorem checkFunction_eq_ok {decl checked : FunctionDecl} :
    checkFunction r decl = .ok checked ↔
      ∃ params scopes body after, checkParams .initial decl.params = .ok (params, scopes) ∧
        checkStmts ⟨r, decl.name.name, decl.resultTy, decl.isMain⟩ false scopes decl.body =
          .ok (body, after) ∧
        checked = { decl with params, body } := by
  constructor
  · intro h
    obtain ⟨⟨params, scopes⟩, hparams, h⟩ := bind_eq_ok.mp h
    obtain ⟨⟨body, after⟩, hbody, h⟩ := bind_eq_ok.mp h
    cases h
    exact ⟨params, scopes, body, after, hparams, hbody, rfl⟩
  · rintro ⟨params, scopes, body, after, hparams, hbody, rfl⟩
    exact bind_eq_ok.mpr ⟨_, hparams, bind_eq_ok.mpr ⟨_, hbody, rfl⟩⟩

theorem checkFunctions_eq_ok {decls : List FunctionDecl} :
    ∀ {checked : List FunctionDecl}, checkFunctions r decls = .ok checked ↔
      List.Forall₂ (fun d d' => checkFunction r d = .ok d') decls checked := by
  induction decls with
  | nil =>
      intro checked
      simp [checkFunctions, eq_comm]
  | cons decl rest ih =>
      intro checked
      rw [List.forall₂_cons_left_iff]
      constructor
      · intro h
        obtain ⟨first, hfirst, h⟩ := bind_eq_ok.mp h
        obtain ⟨others, hothers, h⟩ := bind_eq_ok.mp h
        cases h
        exact ⟨first, others, hfirst, ih.mp hothers, rfl⟩
      · rintro ⟨first, others, hfirst, hothers, rfl⟩
        exact bind_eq_ok.mpr ⟨first, hfirst, bind_eq_ok.mpr ⟨others, ih.mpr hothers, rfl⟩⟩

end Bodies

/-! ## Programs -/

/-- The passes of checking a program, each with the registry that it leaves for the next. -/
structure CheckedProgram.Passes {σ : Type} (p : CheckedProgram σ) (records : List RecordDecl)
    (functions : List FunctionDecl) (host : HostTable σ) (named withFields withHost : Registry)
    (resolved : List FunctionDecl) : Prop where
  names : declareRecords .initial records = .ok named
  fields : resolveRecords named records = .ok (p.records, withFields)
  hosts : declareHosts withFields 0 (host ++ p.records.map recordConstructor) = .ok withHost
  signatures : declareUsers withHost 0 functions = .ok (resolved, p.environment.registry)
  bodies : checkFunctions p.environment.registry resolved = .ok p.functions
  hostFunctions : p.environment.hostFunctions = host ++ p.records.map recordConstructor

/-- A program is checked in its passes. -/
theorem checkProgram_eq_ok {σ : Type} {records : List RecordDecl} {functions : List FunctionDecl}
    {host : HostTable σ} {p : CheckedProgram σ} :
    checkProgram records functions host = .ok p ↔
      ∃ named withFields withHost resolved,
      p.Passes records functions host named withFields withHost resolved := by
  constructor
  · intro h
    obtain ⟨named, hnames, h⟩ := bind_eq_ok.mp h
    obtain ⟨⟨checkedRecords, withFields⟩, hfields, h⟩ := bind_eq_ok.mp h
    obtain ⟨withHost, hhosts, h⟩ := bind_eq_ok.mp h
    obtain ⟨⟨resolved, registry⟩, hsignatures, h⟩ := bind_eq_ok.mp h
    obtain ⟨checked, hbodies, h⟩ := bind_eq_ok.mp h
    cases h
    exact ⟨named, withFields, withHost, resolved, hnames, hfields, hhosts, hsignatures,
      hbodies, rfl⟩
  · rintro ⟨named, withFields, withHost, resolved, passes⟩
    refine bind_eq_ok.mpr
      ⟨named, passes.names,
        bind_eq_ok.mpr
          ⟨_, passes.fields, bind_eq_ok.mpr ⟨withHost, passes.hosts,
            bind_eq_ok.mpr ⟨_, passes.signatures, bind_eq_ok.mpr ⟨_, passes.bodies, ?_⟩⟩⟩⟩⟩
    rw [← passes.hostFunctions]
    rfl

end Stepwise
