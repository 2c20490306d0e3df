import Stepwise.Proofs.Types.Signature
import Stepwise.Proofs.Typing.Passes

/-!
# What the registry knows

Declaring a program leaves a registry in which every type is listed under its own name, every
function under its own call signature, and nothing that is stored or passed has the type nothing.
`Registry.Sound` is this property. It is stated against the signatures that the numbers of functions
stand for, so that a resolved call can be compared with the function that the number refers to:
`Registry.Sound.resolveCall?` says that a call with these types goes to a function that takes
exactly these types.
-/

set_option autoImplicit false

namespace Stepwise

open Diagnosed

/-! ## Entries of tables -/

theorem OrderedTable.find?_insert {α : Type} (t : OrderedTable α) (key other : String) (value : α) :
    (t.insert key value).find? other = if other = key then some value else t.find? other := by
  split
  · next h => rw [h, t.find?_insert_self]
  · next h => exact t.find?_insert_of_ne value h

theorem OrderedTable.find?_adjust {α : Type} (t : OrderedTable α) (key other : String) (f : α → α) :
    (t.adjust key f).find? other = if other = key then (t.find? other).map f else
      t.find? other := by
  unfold adjust
  split
  · next hnone =>
      split
      · next h => rw [h, hnone, Option.map_none]
      · rfl
  · next v hv =>
      rw [find?_insert]
      split
      · next h => rw [h, hv, Option.map_some]
      · rfl

/-! ## Steps of declaring -/

theorem resolveType_eq_ok {r : Registry} {name : Ident} {t : Ty} :
    resolveType r name = .ok t ↔ r.resolve? name.name = some t := by
  unfold resolveType
  cases r.resolve? name.name <;> simp

theorem resolveStorable_eq_ok {r : Registry} {name : Ident} {cause : Cause} {t : Ty} :
    resolveStorable r name cause = .ok t ↔ r.resolve? name.name = some t ∧ t ≠ .nothing := by
  rw [resolveStorable, bind_eq_ok, ← resolveType_eq_ok]
  constructor
  · rintro ⟨ty, hty, h⟩
    split at h
    · simp at h
    · next hne =>
        cases h
        exact ⟨hty, hne⟩
  · rintro ⟨hty, hne⟩
    exact ⟨t, hty, by rw [if_neg hne]; rfl⟩

theorem resolveHostType_eq_ok {σ : Type} {r : Registry} {host : HostFunction σ} {name : String}
    {t : Ty} :
    resolveHostType r host name = .ok t ↔ r.resolve? name = some t := by
  unfold resolveHostType
  cases r.resolve? name <;> simp

/-- A record is declared exactly if its name is that of no record and of no type. -/
theorem declareRecord_eq_ok {r r' : Registry} {decl : RecordDecl} :
    declareRecord r decl = .ok r' ↔ r.record? decl.name.name = none ∧
      r.resolve? decl.name.name = none ∧
      r' = r.declareRecord decl.name.name decl.span := by
  unfold declareRecord
  cases hrecord : r.record? decl.name.name with
  | some existing => simp
  | none =>
      cases hresolve : r.resolve? decl.name.name with
      | some t =>
          have hdeclared : r.isDeclared decl.name.name = true := by
            rw [Registry.isDeclared, OrderedTable.has, ← Registry.resolve?, hresolve,
              Option.isSome_some]
          simp [hdeclared]
      | none =>
          have hfree : r.isDeclared decl.name.name = false := by
            rw [Registry.isDeclared, OrderedTable.has, ← Registry.resolve?, hresolve,
              Option.isSome_none]
          simp [hfree, eq_comm]

theorem Registry.resolve?_declareRecord (r : Registry) (name other : String) (span : Span) :
    (r.declareRecord name span).resolve? other = if other = name then some (.record name) else
      r.resolve? other := by
  simp [Registry.resolve?, Registry.declareRecord, OrderedTable.find?_insert]

theorem Registry.record?_declareRecord (r : Registry) (name other : String) (span : Span) :
    (r.declareRecord name span).record? other = if other = name then some ⟨name, [], span⟩ else
      r.record? other := by
  simp [Registry.record?, Registry.declareRecord, OrderedTable.find?_insert]

/-! ## Signatures behind numbers -/

/-- The types of the parameters and of the result of a function. -/
structure Arrow where
  params : List Ty
  result : Ty
  deriving Repr, DecidableEq

/-- The types that a host function takes and yields. -/
def HostFunction.arrow {σ : Type} (h : HostFunction σ) : Arrow :=
  ⟨h.params.map fun p => Ty.ofName p.typeName, Ty.ofName h.resultName⟩

theorem Ty.ofName_eq_nothing {name : String} :
    Ty.ofName name = .nothing ↔ name = Ty.nothing.name := by
  constructor
  · intro h
    unfold Ty.ofName at h
    cases hfind : Ty.builtIn.find? (·.name == name) with
    | none =>
        rw [hfind] at h
        cases h
    | some t =>
        rw [hfind, Option.getD_some] at h
        subst h
        have hname := List.find?_some hfind
        exact (beq_iff_eq.mp hname).symm
  · rintro rfl
    decide

/-- A type that can be named is the type that its name means. -/
theorem Ty.Nameable.ofName_name {t : Ty} (h : t.Nameable) : Ty.ofName t.name = t := by
  rcases t.mem_builtIn_or_record with ht | ⟨name, rfl⟩
  · simp only [Ty.builtIn, List.mem_cons, List.not_mem_nil, or_false] at ht
    rcases ht with rfl | rfl | rfl | rfl <;> decide
  · have hnone : Ty.builtIn.find? (fun s => s.name == name) = none := by
      rw [List.find?_eq_none]
      intro s hs
      simpa using h.2 s hs
    show (Ty.builtIn.find? (fun s => s.name == name)).getD (.record name) = Ty.record name
    rw [hnone, Option.getD_none]

/-- A call leaves a value exactly if the type of the result is not nothing. -/
theorem HostFunction.returnsValue_iff {σ : Type} (h : HostFunction σ) :
    h.returnsValue = true ↔ h.arrow.result ≠ .nothing := by
  rw [HostFunction.returnsValue, bne_iff_ne, HostFunction.arrow, Ne, Ne, Ty.ofName_eq_nothing]

/-- The types that a function of a program takes and yields. -/
def FunctionDecl.arrow (d : FunctionDecl) : Arrow := ⟨d.paramTys, d.resultTy⟩

/-- The types behind the number of a function. -/
def arrowOf {σ : Type} (functions : List FunctionDecl) (hosts : HostTable σ) : Callee → Option Arrow
  | .user index => (functions[index]?).map FunctionDecl.arrow
  | .host index => (hosts[index]?).map HostFunction.arrow

/-- A type that can be stored and passed. -/
def Ty.Storable (t : Ty) : Prop := t ≠ .nothing ∧ t.Nameable

namespace Registry

/-- A listed function: under its own call signature, with storable parameters, and in agreement with
the function that its number refers to. -/
structure Lists (arrows : Callee → Option Arrow) (key : String) (f : FunctionType) : Prop where
  key_eq : f.callSignature = key
  params : ∀ t ∈ f.params, t.Storable
  result : f.result.Nameable
  callee : arrows f.callee = some ⟨f.params, f.result⟩

/-- A registry whose entries are what they are listed as. -/
structure Sound (r : Registry) (arrows : Callee → Option Arrow) : Prop where
  builtIn : ∀ t ∈ Ty.builtIn, r.resolve? t.name = some t
  named : ∀ {key : String} {t : Ty}, r.resolve? key = some t → t.name = key ∧ t.Nameable
  fields : ∀ {name : String} {record : RecordType}, r.record? name = some record →
    ∀ f ∈ record.fields, f.ty.Storable
  users : ∀ {key : String} {f : FunctionType}, r.userFunctions.find? key = some f →
    Lists arrows key f
  hosts : ∀ {key : String} {f : FunctionType}, r.hostFunctions.find? key = some f →
    Lists arrows key f

variable {r : Registry} {arrows : Callee → Option Arrow}

theorem Sound.initial : Registry.initial.Sound arrows where
  builtIn := by decide
  named := by
    intro key t h
    have hcases : (key = "nothing" ∧ t = .nothing) ∨ (key = "boolean" ∧ t = .boolean) ∨
        (key = "number" ∧ t = .number) ∨ (key = "string" ∧ t = .string) := by
      have htable : Registry.initial.types =
        ⟨[("nothing", .nothing), ("boolean", .boolean), ("number", .number),
          ("string", .string)]⟩ := by decide
      simp only [resolve?, htable, OrderedTable.find?, OrderedTable.lookup] at h
      grind
    rcases hcases with ⟨rfl, rfl⟩ | ⟨rfl, rfl⟩ | ⟨rfl, rfl⟩ | ⟨rfl, rfl⟩ <;> exact ⟨rfl, trivial⟩
  fields := by
    intro name record h
    cases h
  users := by
    intro key f h
    cases h
  hosts := by
    intro key f h
    cases h

/-- A type that is found is the type that its name means. -/
theorem Sound.resolve?_eq_ofName (sound : r.Sound arrows) {key : String} {t : Ty}
    (h : r.resolve? key = some t) :
    t = Ty.ofName key := by
  obtain ⟨rfl, hname⟩ := sound.named h
  exact hname.ofName_name.symm

/-- A function that a call goes to is listed under the call signature of the call. -/
theorem Sound.listed (sound : r.Sound arrows) {name : String} {tys : List Ty} {f : FunctionType}
    (h : r.resolveCall? name tys = some f) : Lists arrows (Stepwise.callSignature name tys) f := by
  unfold Registry.resolveCall? at h
  dsimp only at h
  cases hu : r.userFunctions.find? (Stepwise.callSignature name tys) with
  | none =>
      rw [hu] at h
      exact sound.hosts h
  | some g =>
      rw [hu] at h
      obtain rfl : g = f := Option.some.inj h
      exact sound.users hu

/-- **A call goes to a function that takes the types of its arguments.** -/
theorem Sound.resolveCall? (sound : r.Sound arrows) {name : String} {tys : List Ty}
    {f : FunctionType} (hnames : ∀ t ∈ tys, t.Nameable) (h : r.resolveCall? name tys = some f) :
    arrows f.callee = some ⟨tys, f.result⟩ ∧ (∀ t ∈ tys, t.Storable) ∧ f.result.Nameable := by
  have hlisted := sound.listed h
  have hparams : f.params = tys :=
    (callSignature_injective (fun t ht => (hlisted.params t ht).2) hnames hlisted.key_eq).2
  refine ⟨?_, ?_, hlisted.result⟩
  · rw [← hparams]
    exact hlisted.callee
  · rw [← hparams]
    exact hlisted.params

/-! ## Records -/

theorem Sound.declareRecord (sound : r.Sound arrows) {decl : RecordDecl} {r' : Registry}
    (hword : IsWord decl.name.name) (h : Stepwise.declareRecord r decl = .ok r') :
    r'.Sound arrows := by
  obtain ⟨-, hfree, rfl⟩ := declareRecord_eq_ok.mp h
  have hfresh : ∀ t ∈ Ty.builtIn, t.name ≠ decl.name.name := by
    intro t ht heq
    have hfound := sound.builtIn t ht
    rw [heq, hfree] at hfound
    cases hfound
  refine ⟨?_, ?_, ?_, sound.users, sound.hosts⟩
  · intro t ht
    rw [r.resolve?_declareRecord, if_neg (hfresh t ht)]
    exact sound.builtIn t ht
  · intro key t ht
    rw [r.resolve?_declareRecord] at ht
    split at ht
    · next hkey =>
        cases ht
        exact ⟨hkey.symm, hword, hfresh⟩
    · exact sound.named ht
  · intro name record hrecord
    rw [r.record?_declareRecord] at hrecord
    split at hrecord
    · cases hrecord
      simp
    · exact sound.fields hrecord

theorem Sound.declareRecords {decls : List RecordDecl} (hwords : ∀ d ∈ decls, IsWord d.name.name) :
    ∀ {r r' : Registry}, r.Sound arrows → Stepwise.declareRecords r decls = .ok r' →
    r'.Sound arrows := by
  induction decls with
  | nil =>
      intro r r' sound h
      cases h
      exact sound
  | cons decl rest ih =>
      intro r r' sound h
      obtain ⟨next, hnext, h⟩ := bind_eq_ok.mp h
      exact ih (fun d hd => hwords d (List.mem_cons_of_mem _ hd))
        (sound.declareRecord (hwords decl List.mem_cons_self) hnext) h

/-- A resolved name that may be stored has a storable type. -/
theorem Sound.resolveStorable (sound : r.Sound arrows) {name : Ident} {cause : Cause} {t : Ty}
    (h : Stepwise.resolveStorable r name cause = .ok t) :
    t.Storable ∧ r.resolve? name.name = some t := by
  obtain ⟨hfound, hne⟩ := resolveStorable_eq_ok.mp h
  exact ⟨⟨hne, (sound.named hfound).2⟩, hfound⟩

/-- A field declaration whose written type has been found. -/
def FieldResolved (r : Registry) (f : FieldDecl) : Prop :=
  ∃ t : Ty, f.ty = some t ∧ t.Storable ∧ r.resolve? f.typeName.name = some t

theorem Sound.fieldResolved (sound : r.Sound arrows) {f f' : FieldDecl} (h : f.ResolvedIn r f') :
    r.FieldResolved f' := by
  obtain ⟨t, ht, rfl⟩ := h
  obtain ⟨hstorable, hfound⟩ := sound.resolveStorable ht
  exact ⟨t, rfl, hstorable, hfound⟩

theorem Sound.resolveFields (sound : r.Sound arrows) {record : String} {seen : List String}
    {decls fields : List FieldDecl} (h : Stepwise.resolveFields r record seen decls = .ok fields) :
    ∀ f ∈ fields, r.FieldResolved f := by
  intro f hf
  obtain ⟨-, hall⟩ := resolveFields_eq_ok.mp h
  obtain ⟨g, -, hresolved⟩ := exists_of_mem_forall₂_right hall hf
  exact sound.fieldResolved hresolved

theorem Sound.setFields (sound : r.Sound arrows) (name : String) {fields : List FieldDecl}
    (hfields : ∀ f ∈ fields, r.FieldResolved f) :
    (r.setFields name (recordFields fields)).Sound arrows := by
  refine ⟨sound.builtIn, sound.named, ?_, sound.users, sound.hosts⟩
  intro other record h
  simp only [record?, Registry.setFields, OrderedTable.find?_adjust] at h
  split at h
  · obtain ⟨old, -, rfl⟩ := Option.map_eq_some_iff.mp h
    intro f hf
    obtain ⟨decl, hdecl, rfl⟩ := List.mem_map.mp hf
    obtain ⟨t, ht, hstorable, -⟩ := hfields decl hdecl
    simpa [ht] using hstorable
  · exact sound.fields h

theorem Sound.resolveRecords {decls : List RecordDecl} :
    ∀ {r r' : Registry} {records : List RecordDecl}, r.Sound arrows →
      Stepwise.resolveRecords r decls = .ok (records, r') → r'.Sound arrows := by
  induction decls with
  | nil =>
      intro r r' records sound h
      cases h
      exact sound
  | cons decl rest ih =>
      intro r r' records sound h
      obtain ⟨fields, others, hfields, hothers, rfl⟩ := resolveRecords_cons_eq_ok.mp h
      exact ih (sound.setFields decl.name.name (sound.resolveFields hfields)) hothers

/-- A record declaration whose fields have been found and stand in the registry. -/
structure RecordListed (r : Registry) (d : RecordDecl) : Prop where
  resolve : r.resolve? d.name.name = some (.record d.name.name)
  record : ∃ record : RecordType, r.record? d.name.name = some record ∧
    record.fields = recordFields d.fields
  fields : ∀ f ∈ d.fields, r.FieldResolved f

/-- Declared names are new, so they differ, and each stands for a record from then on. -/
theorem declareRecords_declares {decls : List RecordDecl} :
    ∀ {r r' : Registry}, Stepwise.declareRecords r decls = .ok r' →
      (∀ name : String, (r.record? name).isSome = true → (r'.record? name).isSome = true ∧
        r'.resolve? name = r.resolve? name ∧ ∀ d ∈ decls, d.name.name ≠ name) ∧
      (decls.map (·.name.name)).Nodup ∧
      ∀ d ∈ decls, (r'.record? d.name.name).isSome = true ∧
        r'.resolve? d.name.name = some (.record d.name.name) := by
  induction decls with
  | nil =>
      intro r r' h
      cases h
      exact ⟨fun name hname => ⟨hname, rfl, by simp⟩, by simp, by simp⟩
  | cons decl rest ih =>
      intro r r' h
      obtain ⟨next, hnext, h⟩ := bind_eq_ok.mp h
      obtain ⟨hkeep, hnodup, hall⟩ := ih h
      obtain ⟨hfree, -, rfl⟩ := declareRecord_eq_ok.mp hnext
      have hself := hkeep decl.name.name (by rw [r.record?_declareRecord, if_pos rfl]; rfl)
      refine ⟨?_, ?_, ?_⟩
      · intro name hname
        have hne : name ≠ decl.name.name := by
          rintro rfl
          rw [hfree] at hname
          cases hname
        obtain ⟨hsome, hresolve, hothers⟩ :=
          hkeep name (by rwa [r.record?_declareRecord, if_neg hne])
        refine ⟨hsome, ?_, ?_⟩
        · rw [hresolve, r.resolve?_declareRecord, if_neg hne]
        · intro d hd
          rcases List.mem_cons.mp hd with rfl | hd
          · exact Ne.symm hne
          · exact hothers d hd
      · rw [List.map_cons, List.nodup_cons]
        refine ⟨?_, hnodup⟩
        intro hmem
        obtain ⟨d, hd, heq⟩ := List.mem_map.mp hmem
        exact hself.2.2 d hd heq
      · intro d hd
        rcases List.mem_cons.mp hd with rfl | hd
        · refine ⟨hself.1, ?_⟩
          rw [hself.2.1, r.resolve?_declareRecord, if_pos rfl]
        · exact hall d hd

/-- The fields that are set for a record stay, since no other record has its name. -/
theorem resolveRecords_lists {decls : List RecordDecl} :
    ∀ {r r' : Registry} {records : List RecordDecl},
      Stepwise.resolveRecords r decls = .ok (records, r') →
      records.map (·.name.name) = decls.map (·.name.name) ∧
      (∀ name : String, name ∉ decls.map (·.name.name) → r'.record? name = r.record? name) ∧
      ((decls.map (·.name.name)).Nodup → (∀ d ∈ decls, (r.record? d.name.name).isSome = true) →
        ∀ d ∈ records, ∃ record : RecordType,
          r'.record? d.name.name = some record ∧ record.fields = recordFields d.fields) := by
  induction decls with
  | nil =>
      intro r r' records h
      cases h
      exact ⟨rfl, fun _ _ => rfl, by simp⟩
  | cons decl rest ih =>
      intro r r' records h
      obtain ⟨fields, others, hfields, hothers, rfl⟩ := resolveRecords_cons_eq_ok.mp h
      obtain ⟨hnames, hkeep, hall⟩ := ih hothers
      have hset (name : String) : (r.setFields decl.name.name (recordFields fields)).record? name =
          if name = decl.name.name then (r.record? name).map fun rec =>
            { rec with fields := recordFields fields }
          else r.record? name := by
        simp [record?, Registry.setFields, OrderedTable.find?_adjust]
      refine ⟨by simp [hnames], ?_, ?_⟩
      · intro name hname
        rw [List.map_cons, List.mem_cons, not_or] at hname
        rw [hkeep name hname.2, hset, if_neg hname.1]
      · intro hnodup hdeclared
        rw [List.map_cons, List.nodup_cons] at hnodup
        intro d hd
        rcases List.mem_cons.mp hd with rfl | hd
        · obtain ⟨old, hold⟩ := Option.isSome_iff_exists.mp (hdeclared decl List.mem_cons_self)
          refine ⟨{ old with fields := recordFields fields }, ?_, rfl⟩
          rw [hkeep _ hnodup.1, hset, if_pos rfl, hold, Option.map_some]
        · refine hall hnodup.2 ?_ d hd
          intro e he
          have hne : e.name.name ≠ decl.name.name := by
            intro heq
            exact hnodup.1 (heq ▸ List.mem_map_of_mem he)
          rw [hset, if_neg hne]
          exact hdeclared e (List.mem_cons_of_mem _ he)

theorem resolveRecords_fields {r r' : Registry} {decls records : List RecordDecl}
    (sound : r.Sound arrows) (h : Stepwise.resolveRecords r decls = .ok (records, r')) :
    ∀ d ∈ records, ∀ f ∈ d.fields, r.FieldResolved f := by
  intro d hd f hf
  obtain ⟨e, -, -, fields, hfields, rfl⟩ :=
    exists_of_mem_forall₂_right (resolved_of_resolveRecords h) hd
  obtain ⟨g, -, hresolved⟩ := exists_of_mem_forall₂_right hfields hf
  exact sound.fieldResolved hresolved

/-- **Every record of a program stands in the registry with the fields that its declaration gives
it.** -/
theorem recordListed {decls records : List RecordDecl} {r r' : Registry}
    (hwords : ∀ d ∈ decls, IsWord d.name.name)
    (hdeclare : Stepwise.declareRecords .initial decls = .ok r)
    (hresolve : Stepwise.resolveRecords r decls = .ok (records, r')) :
    ∀ d ∈ records, r'.RecordListed d := by
  have sound : r.Sound fun _ => none := Sound.initial.declareRecords hwords hdeclare
  obtain ⟨-, hnodup, hdeclared⟩ := declareRecords_declares hdeclare
  obtain ⟨hnames, -, hlists⟩ := resolveRecords_lists hresolve
  obtain ⟨htypes, -, -⟩ := resolveRecords_frame hresolve
  intro d hd
  have hmem : d.name.name ∈ decls.map (·.name.name) := hnames ▸ List.mem_map_of_mem hd
  obtain ⟨e, he, heq⟩ := List.mem_map.mp hmem
  refine ⟨?_, hlists hnodup (fun e he => (hdeclared e he).1) d hd, ?_⟩
  · rw [resolve?, htypes, ← resolve?, ← heq]
    exact (hdeclared e he).2
  · intro f hf
    obtain ⟨t, hty, hstorable, hfound⟩ := resolveRecords_fields sound hresolve d hd f hf
    exact ⟨t, hty, hstorable, by rw [resolve?, htypes]; exact hfound⟩

/-! ## Functions of the host -/

section Hosts

variable {σ : Type}

theorem Sound.resolveHostType (sound : r.Sound arrows) {host : HostFunction σ} {name : String}
    {t : Ty} (h : Stepwise.resolveHostType r host name = .ok t) :
    t = Ty.ofName name ∧ t.Nameable := by
  have hfound := resolveHostType_eq_ok.mp h
  exact ⟨sound.resolve?_eq_ofName hfound, (sound.named hfound).2⟩

theorem Sound.resolveHostParams (sound : r.Sound arrows) {host : HostFunction σ}
    {params : List HostParameter} :
    ∀ {tys : List Ty}, Stepwise.resolveHostParams r host params = .ok tys →
      tys = params.map (fun p => Ty.ofName p.typeName) ∧ ∀ t ∈ tys, t.Storable := by
  induction params with
  | nil =>
      intro tys h
      cases h
      simp
  | cons p rest ih =>
      intro tys h
      obtain ⟨ty, hty, h⟩ := bind_eq_ok.mp h
      split at h
      · simp at h
      · next hne =>
          obtain ⟨others, hothers, h⟩ := bind_eq_ok.mp h
          cases h
          obtain ⟨rfl, hstorable⟩ := ih hothers
          obtain ⟨rfl, hname⟩ := sound.resolveHostType hty
          refine ⟨rfl, ?_⟩
          intro t ht
          rcases List.mem_cons.mp ht with rfl | ht
          · exact ⟨hne, hname⟩
          · exact hstorable t ht

theorem Sound.declareHost (sound : r.Sound arrows) {index : Nat} {host : HostFunction σ}
    {r' : Registry} (harrow : arrows (.host index) = some host.arrow)
    (h : Stepwise.declareHost r index host = .ok r') :
    r'.Sound arrows ∧ r'.types = r.types ∧ r'.records = r.records := by
  obtain ⟨params, hparams, h⟩ := bind_eq_ok.mp h
  obtain ⟨result, hresult, h⟩ := bind_eq_ok.mp h
  obtain ⟨hp, hstorable⟩ := sound.resolveHostParams hparams
  obtain ⟨hr, hname⟩ := sound.resolveHostType hresult
  dsimp only at h
  split at h
  · cases h
    refine ⟨⟨sound.builtIn, sound.named, sound.fields, sound.users, ?_⟩, rfl, rfl⟩
    intro key f hf
    simp only [Registry.insertHost, OrderedTable.find?_insert] at hf
    split at hf
    · next hkey =>
        cases hf
        refine ⟨hkey.symm, hstorable, hname, ?_⟩
        rw [harrow, HostFunction.arrow, ← hp, ← hr]
    · exact sound.hosts hf
  · split at h <;> simp at h

theorem Sound.declareHosts {hosts : HostTable σ} :
    ∀ {r r' : Registry} {index : Nat}, r.Sound arrows →
      (∀ (j : Nat) (host : HostFunction σ), hosts[j]? = some host → arrows (.host (index + j)) =
        some host.arrow) →
      Stepwise.declareHosts r index hosts = .ok r' →
      r'.Sound arrows ∧ r'.types = r.types ∧ r'.records = r.records := by
  induction hosts with
  | nil =>
      intro r r' index sound harrows h
      cases h
      exact ⟨sound, rfl, rfl⟩
  | cons host rest ih =>
      intro r r' index sound harrows h
      obtain ⟨next, hnext, h⟩ := bind_eq_ok.mp h
      obtain ⟨hsound, htypes, hrecords⟩ := sound.declareHost (harrows 0 host rfl) hnext
      obtain ⟨hlast, htypes', hrecords'⟩ := ih hsound (fun j other hj => by
        have := harrows (j + 1) other hj
        rwa [← Nat.add_assoc, Nat.add_right_comm] at this) h
      exact ⟨hlast, htypes'.trans htypes, hrecords'.trans hrecords⟩

end Hosts

/-! ## Functions of the program -/

/-- A function declaration whose written types have been found. -/
structure SignatureResolved (d : FunctionDecl) : Prop where
  params : ∀ p ∈ d.params, ∃ t : Ty, p.ty = some t ∧ t.Storable
  result : ∃ t : Ty, d.returnType = some t ∧ t.Nameable

theorem Sound.resolveSignature (sound : r.Sound arrows) {decl resolved : FunctionDecl}
    (h : Stepwise.resolveSignature r decl = .ok resolved) : SignatureResolved resolved := by
  obtain ⟨-, params, result, hparams, hresult, rfl⟩ := resolveSignature_eq_ok.mp h
  refine ⟨?_, result, rfl, ?_⟩
  · intro p hp
    obtain ⟨q, -, t, ht, rfl⟩ := exists_of_mem_forall₂_right hparams hp
    exact ⟨t, rfl, (sound.resolveStorable ht).1⟩
  · unfold resolveResult at hresult
    split at hresult
    · exact (sound.named (resolveType_eq_ok.mp hresult)).2
    · cases hresult
      trivial

theorem Sound.declareUser (sound : r.Sound arrows) {index : Nat} {decl : FunctionDecl}
    {r' : Registry} (harrow : arrows (.user index) = some decl.arrow)
    (resolved : SignatureResolved decl) (h : Stepwise.declareUser r index decl = .ok r') :
    r'.Sound arrows ∧ r'.types = r.types ∧ r'.records = r.records := by
  unfold Stepwise.declareUser at h
  dsimp only at h
  split at h
  · simp at h
  · split at h
    · simp at h
    · cases h
      refine ⟨⟨sound.builtIn, sound.named, sound.fields, ?_, sound.hosts⟩, rfl, rfl⟩
      intro key f hf
      simp only [Registry.insertUser, OrderedTable.find?_insert] at hf
      split at hf
      · next hkey =>
          cases hf
          refine ⟨hkey.symm, ?_, ?_, harrow⟩
          · intro t ht
            obtain ⟨p, hp, rfl⟩ := List.mem_map.mp ht
            obtain ⟨t, hty, hstorable⟩ := resolved.params p hp
            simpa [hty] using hstorable
          · obtain ⟨t, hty, hname⟩ := resolved.result
            simpa [FunctionDecl.resultTy, hty] using hname
      · exact sound.users hf

theorem Sound.declareUsers {decls : List FunctionDecl} :
    ∀ {r r' : Registry} {index : Nat} {resolved : List FunctionDecl}, r.Sound arrows →
      (∀ (j : Nat) (d : FunctionDecl), resolved[j]? = some d → arrows (.user (index + j)) =
        some d.arrow) →
      Stepwise.declareUsers r index decls = .ok (resolved, r') →
      r'.Sound arrows ∧ r'.types = r.types ∧ r'.records = r.records ∧ ∀ d ∈ resolved,
      SignatureResolved d := by
  induction decls with
  | nil =>
      intro r r' index resolved sound harrows h
      cases h
      exact ⟨sound, rfl, rfl, by simp⟩
  | cons decl rest ih =>
      intro r r' index resolved sound harrows h
      obtain ⟨first, next, others, hfirst, hnext, hothers, rfl⟩ := declareUsers_cons_eq_ok.mp h
      have hresolved := sound.resolveSignature hfirst
      obtain ⟨hsound, htypes, hrecords⟩ := sound.declareUser (harrows 0 first rfl) hresolved hnext
      obtain ⟨hlast, htypes', hrecords', hall⟩ := ih hsound (fun j d hj => by
        have := harrows (j + 1) d hj
        rwa [← Nat.add_assoc, Nat.add_right_comm] at this) hothers
      refine ⟨hlast, htypes'.trans htypes, hrecords'.trans hrecords, ?_⟩
      intro d hd
      rcases List.mem_cons.mp hd with rfl | hd
      · exact hresolved
      · exact hall d hd

end Registry

end Stepwise
