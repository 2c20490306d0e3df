import Stepwise.Proofs.Typing.Bodies

/-!
# Declaring by the rules

Each phase of declaring succeeds exactly if what it declares keeps the rules, and leaves a registry
that knows what was declared: names mean types (`Registry.Means`), records have their fields, and
each table of functions lists the headings that were declared (`Declarations.Tabled`). A table has
no two functions that are called in one way, since a function is only entered under a call signature
that is free; call signatures are texts, but for functions with known types they tell apart what the
names of functions and types tell apart (`Declarations.Lists.callSignature_eq_iff`).
-/

set_option autoImplicit false

namespace Stepwise

open Diagnosed

variable {σ : Type} {D : Declarations σ}

/-! ## Names of records -/

namespace Registry

theorem resolve?_initial {name : String} {t : Ty} :
    initial.resolve? name = some t ↔ t ∈ Ty.builtIn ∧ t.name = name := by
  constructor
  · intro h
    have htable :
      initial.types = ⟨[("nothing", .nothing), ("boolean", .boolean), ("number", .number),
      ("string", .string)]⟩ := by decide
    simp only [resolve?, htable, OrderedTable.find?, OrderedTable.lookup] at h
    grind [Ty.builtIn, Ty.name]
  · rintro ⟨ht, rfl⟩
    have sound : initial.Sound fun _ => none := Sound.initial
    exact sound.builtIn t ht

end Registry

/-- New names that differ are declared. -/
theorem declareRecords_isOk {decls : List RecordDecl} :
    ∀ {r : Registry}, (decls.map (·.name.name)).Nodup →
      (∀ d ∈ decls, r.record? d.name.name = none ∧ r.resolve? d.name.name = none) →
      ∃ r', declareRecords r decls = .ok r' := by
  induction decls with
  | nil => exact fun _ _ => ⟨_, rfl⟩
  | cons decl rest ih =>
      intro r hnodup hfree
      rw [List.map_cons, List.nodup_cons] at hnodup
      have hfirst := hfree decl List.mem_cons_self
      obtain ⟨r', hr'⟩ := ih (r := r.declareRecord decl.name.name decl.span) hnodup.2 (by
        intro d hd
        have hne : d.name.name ≠ decl.name.name := by
          intro heq
          exact hnodup.1 (heq ▸ List.mem_map_of_mem hd)
        rw [r.record?_declareRecord, r.resolve?_declareRecord, if_neg hne, if_neg hne]
        exact hfree d (List.mem_cons_of_mem _ hd))
      exact ⟨r', bind_eq_ok.mpr ⟨_, declareRecord_eq_ok.mpr ⟨hfirst.1, hfirst.2, rfl⟩, hr'⟩⟩

/-- What is known once the names of records are declared. -/
structure Registry.Extends (r r' : Registry) (decls : List RecordDecl) : Prop where
  fresh : ∀ d ∈ decls, r.resolve? d.name.name = none
  resolve : ∀ {name : String} {t : Ty},
    r'.resolve? name = some t ↔ r.resolve? name = some t ∨ name ∈ decls.map (·.name.name) ∧
    t = .record name
  records : ∀ name : String, (r'.record? name).isSome = true →
    (r.record? name).isSome = true ∨ name ∈ decls.map (·.name.name)
  userFunctions : r'.userFunctions = r.userFunctions
  hostFunctions : r'.hostFunctions = r.hostFunctions

theorem declareRecords_extends {decls : List RecordDecl} :
    ∀ {r r' : Registry}, declareRecords r decls = .ok r' → r.Extends r' decls := by
  induction decls with
  | nil =>
      intro r r' h
      cases h
      exact ⟨by simp, by simp, by simp, rfl, rfl⟩
  | cons decl rest ih =>
      intro r r' h
      obtain ⟨next, hnext, h⟩ := bind_eq_ok.mp h
      obtain ⟨-, hfree, rfl⟩ := declareRecord_eq_ok.mp hnext
      obtain ⟨hfresh, hresolve, hrecords, husers, hhosts⟩ := ih h
      refine ⟨?_, ?_, ?_, husers, hhosts⟩
      · intro d hd
        rcases List.mem_cons.mp hd with rfl | hd
        · exact hfree
        · have hnone := hfresh d hd
          rw [r.resolve?_declareRecord] at hnone
          split at hnone
          · cases hnone
          · exact hnone
      · intro name t
        rw [hresolve, r.resolve?_declareRecord, List.map_cons, List.mem_cons]
        by_cases hname : name = decl.name.name
        · subst hname
          simp [hfree, eq_comm]
        · simp [hname]
      · intro name hname
        rw [List.map_cons, List.mem_cons]
        rcases hrecords name hname with hold | hmem
        · rw [r.record?_declareRecord] at hold
          split at hold
          · next heq => exact .inr (.inl heq)
          · exact .inl hold
        · exact .inr (.inr hmem)

/-- Once the names of records are declared, names mean what the rules say. -/
theorem means_of_declareRecords {r : Registry} (h : declareRecords .initial D.records = .ok r) :
    r.Means D := by
  intro name t
  rw [(declareRecords_extends h).resolve, Registry.resolve?_initial, List.mem_map]
  constructor
  · rintro (⟨ht, rfl⟩ | ⟨⟨d, hd, rfl⟩, rfl⟩)
    · exact .builtIn ht
    · exact .record hd
  · rintro (ht | hd)
    · exact .inl ⟨ht, rfl⟩
    · exact .inr ⟨⟨_, hd, rfl⟩, rfl⟩

/-! ## Fields of records -/

section Types

variable {r : Registry}

theorem Registry.Means.resolveStorable_iff (means : r.Means D) {name : Ident} {cause : Cause}
    {t : Ty} :
    resolveStorable r name cause = .ok t ↔ D.Stores name.name t := by
  rw [resolveStorable_eq_ok, means, Declarations.Stores]

/-- A field before and behind finding its type. -/
def Declarations.FieldTyped (D : Declarations σ) (f f' : FieldDecl) : Prop :=
  ∃ t, D.Stores f.typeName.name t ∧ f' = { f with ty := some t }

theorem Registry.Means.resolvedIn_iff (means : r.Means D) {f f' : FieldDecl} :
    f.ResolvedIn r f' ↔ D.FieldTyped f f' := by
  simp only [FieldDecl.ResolvedIn, Declarations.FieldTyped, means.resolveStorable_iff]

/-- A record before and behind finding the types of its fields. -/
def Declarations.RecordTyped (D : Declarations σ) (d d' : RecordDecl) : Prop :=
  ∃ fields, List.Forall₂ D.FieldTyped d.fields fields ∧ d' = { d with fields }

theorem resolveRecords_isOk {decls : List RecordDecl} :
    ∀ {r : Registry}, r.Means D → (∀ d ∈ decls, (d.fields.map (·.name.name)).Nodup) →
      (∀ d ∈ decls, ∀ f ∈ d.fields, ∃ t, D.Stores f.typeName.name t) →
      ∃ out, resolveRecords r decls = .ok out := by
  induction decls with
  | nil => exact fun _ _ _ => ⟨_, rfl⟩
  | cons decl rest ih =>
      intro r means hnodup hstores
      rw [List.forall_mem_cons] at hnodup hstores
      obtain ⟨fields, hfields⟩ :
          ∃ fields, List.Forall₂ (FieldDecl.ResolvedIn r) decl.fields fields := by
        refine exists_forall₂_iff.mpr fun f hf => ?_
        obtain ⟨t, ht⟩ := hstores.1 f hf
        exact ⟨_, means.resolvedIn_iff.mpr ⟨t, ht, rfl⟩⟩
      obtain ⟨⟨others, last⟩, hothers⟩ :=
        ih (r := r.setFields decl.name.name (recordFields fields)) means hnodup.2 hstores.2
      have hfound : resolveFields r decl.name.name [] decl.fields = .ok fields :=
        resolveFields_eq_ok.mpr ⟨⟨hnodup.1, fun _ _ => List.not_mem_nil⟩, hfields⟩
      exact ⟨_, resolveRecords_cons_eq_ok.mpr ⟨fields, others, hfound, hothers, rfl⟩⟩

theorem resolveRecords_typed {r' : Registry} {decls records : List RecordDecl} (means : r.Means D)
    (h : resolveRecords r decls = .ok (records, r')) :
    (∀ d ∈ decls, (d.fields.map (·.name.name)).Nodup) ∧ List.Forall₂ D.RecordTyped decls records ∧
      r'.Means D ∧ r'.userFunctions = r.userFunctions ∧ r'.hostFunctions = r.hostFunctions := by
  have hall := resolved_of_resolveRecords h
  obtain ⟨htypes, husers, hhosts⟩ := resolveRecords_frame h
  refine ⟨?_, hall.imp ?_, ?_, husers, hhosts⟩
  · intro d hd
    obtain ⟨d', -, hnodup, -⟩ := exists_of_mem_forall₂ hall hd
    exact hnodup
  · rintro d _ ⟨-, fields, hfields, rfl⟩
    exact ⟨fields, hfields.imp fun _ _ => means.resolvedIn_iff.mp, rfl⟩
  · intro name t
    rw [Registry.resolve?, htypes]
    exact means name t

theorem fieldNames_typed {fields fields' : List FieldDecl}
    (h : List.Forall₂ D.FieldTyped fields fields') :
    fields'.map (·.name.name) = fields.map (·.name.name) := by
  refine map_eq_of_forall₂ h ?_
  rintro f _ ⟨t, -, rfl⟩
  rfl

/-- The types that were found for fields are those that the fields are declared with. -/
theorem exists_field_typed (named : D.Named) {fields fields' : List FieldDecl} {name : String}
    {t : Ty} (h : List.Forall₂ D.FieldTyped fields fields') :
    (∃ f ∈ fields', f.name.name = name ∧ f.ty.getD .nothing = t) ↔
      ∃ f ∈ fields, f.name.name = name ∧ D.Stores f.typeName.name t := by
  induction h with
  | nil => simp
  | @cons f f' rest rest' hfirst _ ih =>
      obtain ⟨s, hs, rfl⟩ := hfirst
      have hsame : s = t ↔ D.Stores f.typeName.name t := by
        constructor
        · rintro rfl
          exact hs
        · intro ht
          exact named.denotes_unique hs.1 ht.1
      simp only [List.exists_mem_cons_iff, Option.getD_some, ih, hsame]

/-- Fields that differ in name are found by their names. -/
theorem find?_recordFields {fields : List FieldDecl} {name : String} {t : Ty}
    (hnodup : (fields.map (·.name.name)).Nodup) :
    (∃ f, (recordFields fields).find? (·.name == name) = some f ∧ f.ty = t) ↔
      ∃ f ∈ fields, f.name.name = name ∧ f.ty.getD .nothing = t := by
  induction fields with
  | nil => simp [recordFields]
  | cons f rest ih =>
      rw [List.map_cons, List.nodup_cons] at hnodup
      rw [recordFields, List.map_cons, List.find?_cons, List.exists_mem_cons_iff]
      by_cases hname : f.name.name = name
      · have hrest : ¬ ∃ g ∈ rest, g.name.name = name ∧ g.ty.getD .nothing = t := by
          rintro ⟨g, hg, heq, -⟩
          exact hnodup.1 (hname.trans heq.symm ▸ List.mem_map_of_mem hg)
        simp [hname, hrest]
      · rw [show (f.name.name == name) = false from beq_eq_false_iff_ne.mpr hname]
        simpa [hname, recordFields] using ih hnodup.2

/-- Once the fields of records are found, records have the fields that they are declared with. -/
theorem hasField_of_resolveRecords (named : D.Named) {records : List RecordDecl} {r' : Registry}
    (hdeclare : declareRecords .initial D.records = .ok r)
    (hresolve : resolveRecords r D.records = .ok (records, r')) {record field : String} {t : Ty} :
    (∃ f, (r'.record? record).bind (·.field? field) = some f ∧ f.ty = t) ↔
    D.HasField record field t := by
  obtain ⟨hnodup, htyped, -⟩ := resolveRecords_typed (means_of_declareRecords hdeclare) hresolve
  obtain ⟨-, hdistinct, hdeclared⟩ := Registry.declareRecords_declares hdeclare
  obtain ⟨-, hkeep, hlists⟩ := Registry.resolveRecords_lists hresolve
  -- The entry of a declared record holds the fields of the declaration.
  have hentry {d : RecordDecl} (hd : d ∈ D.records) :
      (∃ f, (r'.record? d.name.name).bind (·.field? field) = some f ∧ f.ty = t) ↔
        ∃ f ∈ d.fields, f.name.name = field ∧ D.Stores f.typeName.name t := by
    obtain ⟨d', hd', fields, hfields, rfl⟩ := exists_of_mem_forall₂ htyped hd
    obtain ⟨entry, hentry, hentryFields⟩ := hlists hdistinct (fun e he => (hdeclared e he).1) _ hd'
    have hnames := fieldNames_typed hfields
    rw [hentry, Option.bind_some, RecordType.field?, hentryFields,
      find?_recordFields (hnames ▸ hnodup d hd), exists_field_typed named hfields]
  constructor
  · rintro ⟨f, hf, hty⟩
    have hmem : record ∈ D.records.map (·.name.name) := by
      by_contra hnone
      obtain ⟨entry, hentry, -⟩ := Option.bind_eq_some_iff.mp hf
      rw [hkeep record hnone] at hentry
      rcases (declareRecords_extends hdeclare).records record (by rw [hentry]; rfl) with hold | hnew
      · cases hold
      · exact hnone hnew
    obtain ⟨d, hd, rfl⟩ := List.mem_map.mp hmem
    exact ⟨d, hd, rfl, (hentry hd).mp ⟨f, hf, hty⟩⟩
  · rintro ⟨d, hd, rfl, hfield⟩
    exact (hentry hd).mpr hfield

/-- Constructors do not depend on the types that were found. -/
theorem constructors_typed {decls records : List RecordDecl}
    (h : List.Forall₂ D.RecordTyped decls records) :
    (records.map recordConstructor : HostTable σ) = decls.map recordConstructor := by
  refine map_eq_of_forall₂ h ?_
  rintro d _ ⟨fields, hfields, rfl⟩
  have hparams : (fields.map fun f => (⟨f.name.name, f.typeName.name⟩ : HostParameter)) =
      d.fields.map fun f => ⟨f.name.name, f.typeName.name⟩ := by
    refine map_eq_of_forall₂ hfields ?_
    rintro f _ ⟨t, -, rfl⟩
    rfl
  rw [recordConstructor, recordConstructor, hparams]

end Types

/-! ## Tables of functions -/

namespace Declarations

/-- An entry for a function of a heading, with the types that the heading names. -/
def Lists (D : Declarations σ) (h : Heading) (f : FunctionType) : Prop :=
  f.name = h.name ∧ D.Types h f.params f.result

theorem Lists.call_eq {h : Heading} {f : FunctionType} (lists : D.Lists h f) :
    h.call = (f.name, f.params.map Ty.name) := by
  rw [Heading.call, lists.1, lists.2.params_eq]

/-- For functions with known types, call signatures are the same exactly if the headings are called
in one way. -/
theorem Lists.callSignature_eq_iff (named : D.Named) {h h' : Heading} {f f' : FunctionType}
    (lists : D.Lists h f) (lists' : D.Lists h' f') :
    f.callSignature = f'.callSignature ↔ h.call = h'.call := by
  rw [lists.call_eq, lists'.call_eq, Prod.mk.injEq]
  constructor
  · intro hsame
    obtain ⟨hname, hparams⟩ := callSignature_injective
      (fun t ht => (named.types_storable lists.2 t ht).2)
        (fun t ht => (named.types_storable lists'.2 t ht).2) hsame
    exact ⟨hname, by rw [hparams]⟩
  · rintro ⟨hname, hparams⟩
    rw [FunctionType.callSignature, FunctionType.callSignature, callSignature, callSignature, hname,
      hparams]

/-- A table of functions that lists headings and nothing else, each called in a way of its own. -/
structure Tabled (D : Declarations σ) (table : OrderedTable FunctionType) (hs : List Heading) :
    Prop where
  entry : ∀ {key : String} {f : FunctionType}, table.find? key = some f →
    f.callSignature = key ∧ ∃ h ∈ hs, D.Lists h f
  listed : ∀ h ∈ hs, ∃ f, D.Lists h f ∧ table.find? f.callSignature = some f
  distinct : (hs.map Heading.call).Nodup

theorem Tabled.empty : D.Tabled .empty [] := ⟨nofun, nofun, .nil⟩

variable {table : OrderedTable FunctionType} {hs : List Heading} {h : Heading} {f : FunctionType}

theorem Tabled.types (tabled : D.Tabled table hs) :
    ∀ h ∈ hs, ∃ params result, D.Types h params result := by
  intro h hh
  obtain ⟨f, lists, -⟩ := tabled.listed h hh
  exact ⟨_, _, lists.2⟩

/-- A call signature is free in a table exactly if no heading of the table is called in this way. -/
theorem Tabled.find?_eq_none (tabled : D.Tabled table hs) (named : D.Named) (lists : D.Lists h f) :
    table.find? f.callSignature = none ↔ h.call ∉ hs.map Heading.call := by
  constructor
  · rintro hnone hmem
    obtain ⟨h', hh', heq⟩ := List.mem_map.mp hmem
    obtain ⟨f', lists', hfound⟩ := tabled.listed h' hh'
    rw [(lists'.callSignature_eq_iff named lists).mpr heq, hnone] at hfound
    cases hfound
  -- Here the text of the call signature has to be read back into the heading.
  · intro hfree
    rw [Option.eq_none_iff_forall_ne_some]
    intro f' hfound
    obtain ⟨hkey, h', hh', lists'⟩ := tabled.entry hfound
    exact hfree (List.mem_map.mpr ⟨h', hh', (lists'.callSignature_eq_iff named lists).mp hkey⟩)

/-- Entering a function under a call signature that is free. -/
theorem Tabled.insert (tabled : D.Tabled table hs) (named : D.Named) (lists : D.Lists h f)
    (hfree : table.find? f.callSignature = none) :
    D.Tabled (table.insert f.callSignature f) (hs ++ [h]) := by
  refine ⟨?_, ?_, ?_⟩
  · intro key f' hfound
    rw [OrderedTable.find?_insert] at hfound
    split at hfound
    · next hkey =>
        cases hfound
        exact ⟨hkey.symm, h, by simp, lists⟩
    · obtain ⟨hkey, h', hh', lists'⟩ := tabled.entry hfound
      exact ⟨hkey, h', List.mem_append_left _ hh', lists'⟩
  · intro h' hh'
    rcases List.mem_append.mp hh' with hold | hnew
    · obtain ⟨f', lists', hfound⟩ := tabled.listed h' hold
      refine ⟨f', lists', ?_⟩
      have hne : f'.callSignature ≠ f.callSignature := by
        intro heq
        rw [heq, hfree] at hfound
        cases hfound
      rw [OrderedTable.find?_insert, if_neg hne, hfound]
    · rw [List.mem_singleton.mp hnew]
      exact ⟨f, lists, OrderedTable.find?_insert_self _ _ _⟩
  · have hnew := (tabled.find?_eq_none named lists).mp hfree
    rw [List.map_append, List.map_singleton, List.nodup_append]
    refine ⟨tabled.distinct, by simp, ?_⟩
    intro call hcall other hother
    rw [List.mem_singleton.mp hother]
    rintro rfl
    exact hnew hcall

end Declarations

/-! ## Functions of the host -/

section Hosts

variable {r : Registry}

theorem Registry.Means.resolveHostType_iff (means : r.Means D) {host : HostFunction σ}
    {name : String} {t : Ty} :
    resolveHostType r host name = .ok t ↔ D.Denotes name t := by
  rw [resolveHostType_eq_ok, means]

theorem resolveHostParams_eq_ok (means : r.Means D) {host : HostFunction σ}
    {params : List HostParameter} :
    ∀ {ts : List Ty}, resolveHostParams r host params = .ok ts ↔
      List.Forall₂ D.Stores (params.map (·.typeName)) ts := by
  induction params with
  | nil =>
      intro ts
      simp [resolveHostParams, eq_comm]
  | cons p rest ih =>
      intro ts
      rw [resolveHostParams, bind_eq_ok, List.map_cons, List.forall₂_cons_left_iff]
      constructor
      · rintro ⟨t, ht, h⟩
        split at h
        · simp at h
        · next hne =>
            obtain ⟨others, hothers, h⟩ := bind_eq_ok.mp h
            cases h
            exact ⟨t, others, ⟨means.resolveHostType_iff.mp ht, hne⟩, ih.mp hothers, rfl⟩
      · rintro ⟨t, others, ⟨ht, hne⟩, hothers, rfl⟩
        refine ⟨t, means.resolveHostType_iff.mpr ht, ?_⟩
        rw [if_neg hne]
        exact bind_eq_ok.mpr ⟨others, ih.mpr hothers, rfl⟩

/-- A host function is declared exactly if its types are known and its call signature is free. -/
theorem declareHost_eq_ok (means : r.Means D) {r' : Registry} {index : Nat}
    {host : HostFunction σ} :
    declareHost r index host = .ok r' ↔ ∃ f, D.Lists host.heading f ∧ f.callee = .host index ∧
      f.span = host.place ∧
      r.hostFunctions.find? f.callSignature = none ∧ r' = r.insertHost f := by
  constructor
  · intro h
    obtain ⟨params, hparams, h⟩ := bind_eq_ok.mp h
    obtain ⟨result, hresult, h⟩ := bind_eq_ok.mp h
    dsimp only at h
    split at h
    · next hfree =>
        cases h
        exact ⟨_, ⟨rfl, (resolveHostParams_eq_ok means).mp hparams, means.resolveHostType_iff.mp
          hresult⟩, rfl, rfl, hfree, rfl⟩
    · split at h <;> simp at h
  · rintro ⟨⟨name, params, result, callee, span⟩, ⟨hname, hparams, hresult⟩, rfl, rfl, hfree, rfl⟩
    obtain rfl : name = host.name := hname
    refine bind_eq_ok.mpr ⟨params, (resolveHostParams_eq_ok means).mpr hparams,
      bind_eq_ok.mpr ⟨result, means.resolveHostType_iff.mpr hresult, ?_⟩⟩
    dsimp only
    rw [hfree]
    rfl

theorem declareHosts_isOk (named : D.Named) (hosts : HostTable σ) :
    ∀ {r : Registry} (index : Nat) {hs : List Heading}, r.Means D → D.Tabled r.hostFunctions hs →
      (∀ h ∈ hosts, ∃ params result, D.Types h.heading params result) →
      ((hs ++ hosts.map HostFunction.heading).map Heading.call).Nodup →
      ∃ r', declareHosts r index hosts = .ok r' := by
  induction hosts with
  | nil => exact fun {r} _ _ _ _ _ _ => ⟨r, rfl⟩
  | cons host rest ih =>
      intro r index hs means tabled htypes hnodup
      obtain ⟨params, result, hfirst⟩ := htypes host List.mem_cons_self
      let f : FunctionType := ⟨host.name, params, result, .host index, host.place⟩
      have lists : D.Lists host.heading f := ⟨rfl, hfirst⟩
      -- The call signature is free, since no heading before this one is called in the same way.
      have hfree : r.hostFunctions.find? f.callSignature = none := by
        rw [tabled.find?_eq_none named lists]
        intro hmem
        rw [List.map_append, List.map_cons, List.map_cons] at hnodup
        exact (List.nodup_append.mp hnodup).2.2 _ hmem _ List.mem_cons_self rfl
      obtain ⟨r', hr'⟩ := ih (r := r.insertHost f) (index + 1) means
        (tabled.insert named lists hfree) (fun h hh => htypes h (List.mem_cons_of_mem _ hh))
          (by simpa using hnodup)
      exact ⟨r', bind_eq_ok.mpr ⟨_, (declareHost_eq_ok means).mpr ⟨f, lists, rfl, rfl, hfree, rfl⟩,
        hr'⟩⟩

theorem declareHosts_tabled (named : D.Named) {hosts : HostTable σ} :
    ∀ {r r' : Registry} {index : Nat} {hs : List Heading}, r.Means D → D.Tabled r.hostFunctions hs →
      declareHosts r index hosts = .ok r' →
      D.Tabled r'.hostFunctions (hs ++ hosts.map HostFunction.heading) ∧
        r'.types = r.types ∧ r'.records = r.records ∧ r'.userFunctions = r.userFunctions := by
  induction hosts with
  | nil =>
      intro r r' index hs means tabled h
      cases h
      exact ⟨by simpa using tabled, rfl, rfl, rfl⟩
  | cons host rest ih =>
      intro r r' index hs means tabled h
      obtain ⟨next, hnext, h⟩ := bind_eq_ok.mp h
      obtain ⟨f, lists, -, -, hfree, rfl⟩ := (declareHost_eq_ok means).mp hnext
      obtain ⟨hlast, hframe⟩ := ih (r := r.insertHost f) means (tabled.insert named lists hfree) h
      exact ⟨by simpa using hlast, hframe⟩

end Hosts

/-! ## Functions of the program -/

/-- The function with the types of its parameters and of its result. -/
def FunctionDecl.withTypes (d : FunctionDecl) (params : List Ty) (result : Ty) : FunctionDecl :=
  { d with
    params := List.zipWith (fun p t => { p with ty := some t }) d.params params
    returnType := some result }

theorem FunctionDecl.paramTys_withTypes {d : FunctionDecl} {ts : List Ty} {t : Ty}
    (h : d.params.length = ts.length) : (d.withTypes ts t).paramTys = ts := by
  show (List.zipWith (fun p t => { p with ty := some t }) d.params ts).map
    (fun p => p.ty.getD .nothing) = ts
  generalize d.params = params at h
  induction params generalizing ts with
  | nil => exact (List.length_eq_zero_iff.mp h.symm).symm
  | cons p rest ih =>
      cases ts with
      | nil => cases h
      | cons t ts =>
        rw [List.zipWith_cons_cons, List.map_cons, ih (Nat.succ.inj h), Option.getD_some]

theorem Declarations.Types.length_eq {d : FunctionDecl} {ts : List Ty} {t : Ty}
    (h : D.Types d.heading ts t) :
    d.params.length = ts.length := by
  have hlength := h.1.length_eq
  rwa [FunctionDecl.heading, List.length_map] at hlength

section Users

variable {r : Registry}

/-- The types of parameters, seen apart from the parameters. -/
theorem Registry.Means.resolvedParams_iff (means : r.Means D) {params : List Param} :
    ∀ {resolved : List Param}, List.Forall₂ (Param.ResolvedIn r) params resolved ↔
      ∃ ts, List.Forall₂ D.Stores (params.map (·.typeName.name)) ts ∧
        resolved = List.zipWith (fun p t => { p with ty := some t }) params ts := by
  induction params with
  | nil => simp
  | cons p rest ih =>
      intro resolved
      simp only [List.forall₂_cons_left_iff, List.map_cons]
      constructor
      · rintro ⟨_, others, ⟨t, ht, rfl⟩, hothers, rfl⟩
        obtain ⟨ts, hts, rfl⟩ := ih.mp hothers
        exact ⟨t :: ts, ⟨t, ts, means.resolveStorable_iff.mp ht, hts, rfl⟩, rfl⟩
      · rintro ⟨_, ⟨t, ts, ht, hts, rfl⟩, rfl⟩
        exact ⟨_, _, ⟨t, means.resolveStorable_iff.mpr ht, rfl⟩, ih.mpr ⟨ts, hts, rfl⟩, rfl⟩

theorem resolveResult_eq_ok (means : r.Means D) (named : D.Named) {written : Option Ident}
    {t : Ty} :
    resolveResult r written = .ok t ↔
    D.Denotes ((written.map (·.name)).getD Ty.nothing.name) t := by
  cases written with
  | some name => exact resolveType_eq_ok.trans (means _ _)
  | none =>
      have hnothing : D.Denotes Ty.nothing.name .nothing := .builtIn List.mem_cons_self
      constructor
      · intro h
        cases h
        exact hnothing
      · intro h
        rw [named.denotes_unique h hnothing]
        rfl

/-- The signature of a function is found exactly if its parameters differ in name and its types are
known. -/
theorem resolveSignature_typed (means : r.Means D) (named : D.Named)
    {decl resolved : FunctionDecl} :
    resolveSignature r decl = .ok resolved ↔ (decl.params.map (·.name.name)).Nodup ∧
      ∃ ts t, D.Types decl.heading ts t ∧ resolved = decl.withTypes ts t := by
  simp only [resolveSignature_eq_ok, means.resolvedParams_iff, resolveResult_eq_ok means named]
  constructor
  · rintro ⟨hnodup, _, t, ⟨ts, hts, rfl⟩, ht, rfl⟩
    exact ⟨hnodup, ts, t, ⟨hts, ht⟩, rfl⟩
  · rintro ⟨hnodup, ts, t, ⟨hts, ht⟩, rfl⟩
    exact ⟨hnodup, _, t, ⟨ts, hts, rfl⟩, ht, rfl⟩

/-- What a table holds for a function of the program with known types. -/
def FunctionDecl.tableEntry (d : FunctionDecl) (index : Nat) (params : List Ty) (result : Ty) :
    FunctionType :=
  ⟨d.name.name, params, result, .user index, d.name.span⟩

/-- A function with known types is declared exactly if its call signature is free among the
functions of the program and of the host. -/
theorem declareUser_eq_ok {r' : Registry} {index : Nat} {decl : FunctionDecl} {ts : List Ty}
    {t : Ty} (h : D.Types decl.heading ts t) :
    declareUser r index (decl.withTypes ts t) = .ok r' ↔
      r.userFunctions.find? (decl.tableEntry index ts t).callSignature = none ∧
        r.hostFunctions.find? (decl.tableEntry index ts t).callSignature = none ∧
        r' = r.insertUser (decl.tableEntry index ts t) := by
  have hentry :
      (⟨(decl.withTypes ts t).name.name, (decl.withTypes ts t).paramTys,
        (decl.withTypes ts t).resultTy, .user index, (decl.withTypes ts t).name.span⟩ :
        FunctionType) = decl.tableEntry index ts t := by
    rw [FunctionDecl.paramTys_withTypes h.length_eq]
    rfl
  unfold declareUser
  rw [hentry]
  dsimp only
  cases r.userFunctions.find? (decl.tableEntry index ts t).callSignature with
  | some existing => simp
  | none =>
      cases hhost : r.hostFunctions.find? (decl.tableEntry index ts t).callSignature with
      | some existing => simp [OrderedTable.has, hhost]
      | none => simp [OrderedTable.has, hhost, eq_comm]

theorem declareUsers_isOk (named : D.Named) {hs : List Heading} {decls : List FunctionDecl} :
    ∀ {r : Registry} (index : Nat) {us : List Heading}, r.Means D → D.Tabled r.userFunctions us →
      D.Tabled r.hostFunctions hs → (∀ d ∈ decls, (d.params.map (·.name.name)).Nodup) →
      (∀ d ∈ decls, ∃ ts t, D.Types d.heading ts t) →
      ((us ++ decls.map FunctionDecl.heading).map Heading.call).Nodup →
      (∀ d ∈ decls, d.heading.call ∉ hs.map Heading.call) →
      ∃ out, declareUsers r index decls = .ok out := by
  induction decls with
  | nil => exact fun {r} _ _ _ _ _ _ _ _ _ => ⟨([], r), rfl⟩
  | cons decl rest ih =>
      intro r index us means users hosts hnames htypes hnodup hapart
      obtain ⟨ts, t, hfirst⟩ := htypes decl List.mem_cons_self
      have lists : D.Lists decl.heading (decl.tableEntry index ts t) := ⟨rfl, hfirst⟩
      have hfree : r.userFunctions.find? (decl.tableEntry index ts t).callSignature = none := by
        rw [users.find?_eq_none named lists]
        intro hmem
        rw [List.map_append, List.map_cons, List.map_cons] at hnodup
        exact (List.nodup_append.mp hnodup).2.2 _ hmem _ List.mem_cons_self rfl
      have hfree' : r.hostFunctions.find? (decl.tableEntry index ts t).callSignature = none :=
        (hosts.find?_eq_none named lists).mpr (hapart decl List.mem_cons_self)
      obtain ⟨⟨others, last⟩, hothers⟩ := ih (r := r.insertUser (decl.tableEntry index ts t))
        (index + 1) means (users.insert named lists hfree) hosts
          (fun d hd => hnames d (List.mem_cons_of_mem _ hd))
        (fun d hd => htypes d (List.mem_cons_of_mem _ hd)) (by simpa using hnodup)
        fun d hd => hapart d (List.mem_cons_of_mem _ hd)
      exact ⟨_, declareUsers_cons_eq_ok.mpr ⟨_, _, others,
        (resolveSignature_typed means named).mpr ⟨hnames decl List.mem_cons_self, ts, t,
          hfirst, rfl⟩,
        (declareUser_eq_ok hfirst).mpr ⟨hfree, hfree', rfl⟩, hothers, rfl⟩⟩

/-- A function before and behind finding its types. -/
def Declarations.SignatureTyped (D : Declarations σ) (d d' : FunctionDecl) : Prop :=
  ∃ ts t, D.Types d.heading ts t ∧ d' = d.withTypes ts t

theorem declareUsers_tabled (named : D.Named) {hs : List Heading} {decls : List FunctionDecl} :
    ∀ {r r' : Registry} {index : Nat} {us : List Heading} {resolved : List FunctionDecl},
      r.Means D →
      D.Tabled r.userFunctions us → D.Tabled r.hostFunctions hs →
      declareUsers r index decls = .ok (resolved, r') →
      D.Tabled r'.userFunctions (us ++ decls.map FunctionDecl.heading) ∧
        (∀ d ∈ decls, (d.params.map (·.name.name)).Nodup ∧ d.heading.call ∉ hs.map Heading.call) ∧
        List.Forall₂ D.SignatureTyped decls resolved ∧
        r'.types = r.types ∧ r'.records = r.records ∧ r'.hostFunctions = r.hostFunctions := by
  induction decls with
  | nil =>
      intro r r' index us resolved means users hosts h
      cases h
      exact ⟨by simpa using users, by simp, .nil, rfl, rfl, rfl⟩
  | cons decl rest ih =>
      intro r r' index us resolved means users hosts h
      obtain ⟨first, next, others, hfirst, hnext, hothers, rfl⟩ := declareUsers_cons_eq_ok.mp h
      obtain ⟨hnames, ts, t, htypes, rfl⟩ := (resolveSignature_typed means named).mp hfirst
      obtain ⟨hfree, hfree', rfl⟩ := (declareUser_eq_ok htypes).mp hnext
      have lists : D.Lists decl.heading (decl.tableEntry index ts t) := ⟨rfl, htypes⟩
      obtain ⟨hlast, hall, hrest, hframe⟩ := ih
        (r := r.insertUser (decl.tableEntry index ts t)) means (users.insert named lists hfree)
          hosts hothers
      refine ⟨by simpa using hlast, List.forall_mem_cons.mpr ⟨⟨hnames, ?_⟩, hall⟩,
        .cons ⟨ts, t, htypes, rfl⟩ hrest, hframe⟩
      exact (hosts.find?_eq_none named lists).mp hfree'

/-! ## The registry that is left -/

/-- Calls find the functions that are declared: the functions of the program first, but no function
of the host is called in the way of one of these. -/
theorem resolveCall?_eq_some (named : D.Named) (users : D.Tabled r.userFunctions D.userHeadings)
    (hosts : D.Tabled r.hostFunctions D.hostHeadings)
    (apart : (D.userHeadings.map Heading.call).Disjoint (D.hostHeadings.map Heading.call))
    {name : String} {ts : List Ty} {t : Ty} (hts : ∀ s ∈ ts, s.Nameable) :
    (∃ f, r.resolveCall? name ts = some f ∧ f.result = t) ↔ D.Declares name ts t := by
  have of_entry {hs : List Heading} {table : OrderedTable FunctionType} (tabled : D.Tabled table hs)
      {f : FunctionType} (hfound : table.find? (callSignature name ts) = some f) :
      ∃ h ∈ hs, h.name = name ∧ D.Types h ts f.result := by
    obtain ⟨hkey, h, hh, lists⟩ := tabled.entry hfound
    obtain ⟨hname, hparams⟩ :=
      callSignature_injective (fun s hs => (named.types_storable lists.2 s hs).2) hts hkey
    exact ⟨h, hh, lists.1.symm.trans hname, hparams ▸ lists.2⟩
  constructor
  · rintro ⟨f, hf, rfl⟩
    have hcases : r.userFunctions.find? (callSignature name ts) = some f ∨
        r.userFunctions.find? (callSignature name ts) = none ∧
          r.hostFunctions.find? (callSignature name ts) = some f := by
      simpa [Registry.resolveCall?] using hf
    rcases hcases with huser | ⟨-, hhost⟩
    · obtain ⟨h, hh, hdeclared⟩ := of_entry users huser
      exact ⟨h, List.mem_append_left _ hh, hdeclared⟩
    · obtain ⟨h, hh, hdeclared⟩ := of_entry hosts hhost
      exact ⟨h, List.mem_append_right _ hh, hdeclared⟩
  · rintro ⟨h, hh, rfl, htypes⟩
    have to_entry {hs : List Heading} {table : OrderedTable FunctionType}
        (tabled : D.Tabled table hs) (hh : h ∈ hs) :
        ∃ f, D.Lists h f ∧ table.find? (callSignature h.name ts) = some f ∧ f.result = t := by
      obtain ⟨f, lists, hfound⟩ := tabled.listed h hh
      obtain ⟨hparams, hresult⟩ := named.types_unique lists.2 htypes
      rw [FunctionType.callSignature, lists.1, hparams] at hfound
      exact ⟨f, lists, hfound, hresult⟩
    rcases List.mem_append.mp hh with huser | hhost
    · obtain ⟨f, -, hfound, hresult⟩ := to_entry users huser
      exact ⟨f, by rw [Registry.resolveCall?, hfound]; rfl, hresult⟩
    · obtain ⟨f, lists, hfound, hresult⟩ := to_entry hosts hhost
      have hfree : r.userFunctions.find? f.callSignature = none := by
        rw [users.find?_eq_none named lists]
        exact fun hmem => apart hmem (List.mem_map_of_mem hhost)
      rw [(hosts.entry hfound).1] at hfree
      exact ⟨f, by rw [Registry.resolveCall?, hfree, hfound]; rfl, hresult⟩

end Users

end Stepwise
