import Mathlib.Data.List.Nodup
import Stepwise.Proofs.Typing.Decision

/-!
# Calls and the functions they go to

A call is resolved by a text, its call signature, in two tables: the functions of the program, and
those of the host with the constructors. Declaring enters a function only where its call signature
is free, so that each table holds the functions in their order, each once and under its own number
(`OrderedTable.Gains`), and no call signature is in both. The texts tell names and types apart
(`callSignature_injective`), and so a call goes to a function exactly if the function has the name
of the call and takes the types of the arguments: `calls_resolve_unambiguously`.
-/

set_option autoImplicit false

namespace Stepwise

open Diagnosed Declarations

variable {σ : Type}

/-! ## Tables whose names differ -/

namespace OrderedTable

variable {α : Type} {t : OrderedTable α} {key : String}

theorem find?_eq_none : t.find? key = none ↔ key ∉ t.keys := by
  obtain ⟨entries⟩ := t
  simp only [find?, keys]
  induction entries with
  | nil => simp [lookup]
  | cons e rest ih =>
      obtain ⟨k, v⟩ := e
      rw [lookup, List.map_cons, List.mem_cons, not_or]
      split
      · next hk => simp [hk]
      · next hk => rw [ih, and_iff_right (Ne.symm hk)]

/-- Under a name that is free an entry goes to the end. -/
theorem entries_insert (h : t.find? key = none) (value : α) :
    (t.insert key value).entries = t.entries ++ [(key, value)] := by
  obtain ⟨entries⟩ := t
  simp only [find?, insert] at h ⊢
  induction entries with
  | nil => rfl
  | cons e rest ih =>
      obtain ⟨k, v⟩ := e
      rw [lookup] at h
      split at h
      · cases h
      · next hk => rw [put, if_neg hk, ih h, List.cons_append]

/-- Where no name comes twice, the entries are those that are found. -/
theorem find?_eq_some_iff (hkeys : t.keys.Nodup) {value : α} :
    t.find? key = some value ↔ (key, value) ∈ t.entries := by
  obtain ⟨entries⟩ := t
  simp only [find?, keys] at hkeys ⊢
  induction entries with
  | nil => simp [lookup]
  | cons e rest ih =>
      obtain ⟨k, v⟩ := e
      rw [List.map_cons, List.nodup_cons] at hkeys
      rw [lookup, List.mem_cons, Prod.mk.injEq]
      split
      · next hk =>
          have hrest : (key, value) ∉ rest := by
            intro hmem
            exact hkeys.1 (List.mem_map.mpr ⟨_, hmem, hk.symm⟩)
          simp [hk, hrest, eq_comm]
      · next hk => simp [ih hkeys.2, Ne.symm hk]

/-- A table to which functions were added in order, each under its own call signature, which was
free. -/
structure Gains (t t' : OrderedTable FunctionType) (fs : List FunctionType) : Prop where
  entries : t'.entries = t.entries ++ fs.map fun f => (f.callSignature, f)
  distinct : t.keys.Nodup → t'.keys.Nodup

namespace Gains

variable {t t' t'' : OrderedTable FunctionType} {f : FunctionType} {fs : List FunctionType}

theorem refl (t : OrderedTable FunctionType) : t.Gains t [] := ⟨by simp, id⟩

theorem cons (hfree : t.find? f.callSignature = none)
    (h : (t.insert f.callSignature f).Gains t' fs) :
    t.Gains t' (f :: fs) := by
  have hnew : f.callSignature ∉ t.keys := find?_eq_none.mp hfree
  refine ⟨by rw [h.entries, entries_insert hfree]; simp, fun hkeys => h.distinct ?_⟩
  rw [keys, entries_insert hfree, List.map_append, ← keys]
  simpa using hkeys.concat hnew

end Gains

end OrderedTable

/-! ## Entries -/

/-- What the registry holds for a function of the program. -/
def FunctionDecl.listedAs (d : FunctionDecl) (index : Nat) : FunctionType :=
  d.tableEntry index d.paramTys d.resultTy

/-- What the registry holds for a function of the host. -/
def HostFunction.listedAs (h : HostFunction σ) (index : Nat) : FunctionType :=
  ⟨h.name, h.arrow.params, h.arrow.result, .host index, h.place⟩

section Declaring

variable {D : Declarations σ}

/-- The type that a name denotes is the one that is called by it. -/
theorem Declarations.Named.eq_ofName (named : D.Named) {name : String} {t : Ty}
    (h : D.Denotes name t) :
    t = Ty.ofName name := by
  rw [← h.name_eq, (named.nameable h).ofName_name]

/-- The types of a host function are those that its names are read as. -/
theorem Declarations.Named.eq_arrow (named : D.Named) {h : HostFunction σ} {params : List Ty}
    {result : Ty} (types : D.Types h.heading params result) : h.arrow = ⟨params, result⟩ := by
  obtain ⟨hparams, hresult⟩ := types
  rw [HostFunction.arrow, Arrow.mk.injEq]
  refine ⟨?_, (named.eq_ofName hresult).symm⟩
  rw [HostFunction.heading] at hparams
  generalize h.params = written at hparams
  induction written generalizing params with
  | nil => rw [List.forall₂_nil_left_iff.mp hparams, List.map_nil]
  | cons q rest ih =>
      rw [List.map_cons, List.forall₂_cons_left_iff] at hparams
      obtain ⟨t, ts, ht, hts, rfl⟩ := hparams
      rw [List.map_cons, ih hts, ← named.eq_ofName ht.1]

/-- Functions of the host enter their table in order. -/
theorem declareHosts_gains (named : D.Named) {hosts : HostTable σ} :
    ∀ {r r' : Registry} {index : Nat}, r.Means D → declareHosts r index hosts = .ok r' →
      r.hostFunctions.Gains r'.hostFunctions (hosts.mapIdx fun j h => h.listedAs (index + j)) ∧
        r'.userFunctions = r.userFunctions := by
  induction hosts with
  | nil =>
      intro r r' index means h
      cases h
      exact ⟨.refl _, rfl⟩
  | cons host rest ih =>
      intro r r' index means h
      obtain ⟨next, hnext, h⟩ := bind_eq_ok.mp h
      obtain ⟨⟨name, params, result, callee, span⟩, ⟨hname, types⟩, hcallee, hspan, hfree, rfl⟩ :=
        (declareHost_eq_ok means).mp hnext
      dsimp only at hname types hcallee hspan
      subst hname hcallee hspan
      have hentry : (⟨host.name, params, result, .host index, host.place⟩ : FunctionType) =
          host.listedAs index := by
        rw [HostFunction.listedAs, named.eq_arrow types]
      obtain ⟨hgains, husers⟩ :=
        @ih (r.insertHost (host.listedAs index)) r' (index + 1) means (hentry ▸ h)
      rw [List.mapIdx_cons]
      simp only [Nat.add_assoc, Nat.add_comm 1] at hgains
      exact ⟨.cons (hentry ▸ hfree) hgains, husers⟩

theorem declareUser_inserts {r r' : Registry} {index : Nat} {decl : FunctionDecl}
    (h : declareUser r index decl = .ok r') :
    r.userFunctions.find? (decl.listedAs index).callSignature = none ∧
      r.hostFunctions.find? (decl.listedAs index).callSignature = none ∧
      r' = r.insertUser (decl.listedAs index) := by
  unfold declareUser at h
  dsimp only at h
  split at h
  · simp at h
  · next hfree =>
      split at h
      · simp at h
      · next hfree' =>
          cases h
          refine ⟨hfree, ?_, rfl⟩
          simpa [OrderedTable.has, FunctionDecl.listedAs, FunctionDecl.tableEntry] using hfree'

/-- Functions of the program enter their table in order, each under a call signature that no
function of the host has. -/
theorem declareUsers_gains {decls : List FunctionDecl} :
    ∀ {r r' : Registry} {index : Nat} {resolved : List FunctionDecl},
      declareUsers r index decls = .ok (resolved, r') →
      r.userFunctions.Gains r'.userFunctions (resolved.mapIdx fun i d => d.listedAs (index + i)) ∧
        r'.hostFunctions = r.hostFunctions ∧
        ∀ f : FunctionType, f ∈ resolved.mapIdx (fun i d => d.listedAs (index + i)) →
          f.callSignature ∉ r.hostFunctions.keys := by
  induction decls with
  | nil =>
      intro r r' index resolved h
      cases h
      exact ⟨.refl _, rfl, by simp⟩
  | cons decl rest ih =>
      intro r r' index resolved h
      obtain ⟨first, next, others, -, hnext, hothers, rfl⟩ := declareUsers_cons_eq_ok.mp h
      obtain ⟨hfree, hfree', rfl⟩ := declareUser_inserts hnext
      obtain ⟨hgains, hhosts, happart⟩ := ih hothers
      simp only [Nat.add_assoc, Nat.add_comm 1] at hgains happart
      rw [List.mapIdx_cons, List.forall_mem_cons]
      exact ⟨.cons hfree hgains, hhosts, OrderedTable.find?_eq_none.mp hfree', happart⟩

/-- Checking a body leaves the entry of its function alone. -/
theorem checkFunction_listedAs {r : Registry} {decl checked : FunctionDecl}
    (h : checkFunction r decl = .ok checked) :
    checked.listedAs = decl.listedAs := by
  obtain ⟨params, scopes, body, last, hparams, -, rfl⟩ := checkFunction_eq_ok.mp h
  funext index
  show FunctionType.mk _ (params.map fun p => p.ty.getD .nothing) _ _ _ = _
  rw [checkParams_tys hparams]
  rfl

theorem checkFunctions_listedAs {r : Registry} {decls checked : List FunctionDecl}
    (h : checkFunctions r decls = .ok checked) :
    checked.map FunctionDecl.listedAs = decls.map FunctionDecl.listedAs :=
  map_eq_of_forall₂ (checkFunctions_eq_ok.mp h) fun _ _ => checkFunction_listedAs

end Declaring

/-! ## The two tables -/

theorem filter_eq_singleton {α β : Type} [DecidableEq β] {g : α → β} {l : List α}
    (h : (l.map g).Nodup) {a : α} (ha : a ∈ l) : l.filter (fun x => g x = g a) = [a] := by
  induction l with
  | nil => cases ha
  | cons b rest ih =>
      rw [List.map_cons, List.nodup_cons] at h
      rcases List.mem_cons.mp ha with rfl | ha
      · have hrest : rest.filter (fun x => g x = g a) = [] := by
          rw [List.filter_eq_nil_iff]
          intro x hx
          simpa using fun heq : g x = g a => h.1 (heq ▸ List.mem_map_of_mem hx)
        rw [List.filter_cons_of_pos (by simp), hrest]
      · have hne : ¬ g b = g a := fun heq => h.1 (heq ▸ List.mem_map_of_mem ha)
        rw [List.filter_cons_of_neg (by simpa using hne), ih h.2 ha]

/-- All functions that a registry holds. -/
def Registry.functions (r : Registry) : List FunctionType :=
  r.userFunctions.values ++ r.hostFunctions.values

/-- What the registry holds for the function of a number. -/
def CheckedProgram.listedAs? (p : CheckedProgram σ) : Callee → Option FunctionType
  | .user index => (p.functions[index]?).map (·.listedAs index)
  | .host index => (p.environment.hostFunctions[index]?).map (·.listedAs index)

/-- A registry whose tables hold the functions of a program in order, each under its own call
signature, and no call signature twice. -/
structure CheckedProgram.ListsInOrder (p : CheckedProgram σ) : Prop where
  users : p.environment.registry.userFunctions.entries =
    (p.functions.mapIdx fun i d => d.listedAs i).map fun f => (f.callSignature, f)
  hosts : p.environment.registry.hostFunctions.entries =
    (p.environment.hostFunctions.mapIdx fun j h => h.listedAs j).map fun f => (f.callSignature, f)
  distinct :
    (p.environment.registry.userFunctions.keys ++ p.environment.registry.hostFunctions.keys).Nodup

namespace CheckedProgram.ListsInOrder

variable {p : CheckedProgram σ}

theorem functions_eq (lists : p.ListsInOrder) : p.environment.registry.functions =
    (p.functions.mapIdx fun i d => d.listedAs i) ++ p.environment.hostFunctions.mapIdx fun j h =>
    h.listedAs j := by
  rw [Registry.functions, OrderedTable.values, OrderedTable.values, lists.users, lists.hosts]
  simp [Function.comp_def]

/-- The functions of a registry are those that the numbers stand for. -/
theorem mem_functions (lists : p.ListsInOrder) {f : FunctionType} :
    f ∈ p.environment.registry.functions ↔ p.listedAs? f.callee = some f := by
  rw [lists.functions_eq, List.mem_append, List.mem_mapIdx, List.mem_mapIdx]
  constructor
  · rintro (⟨i, hi, rfl⟩ | ⟨j, hj, rfl⟩)
    · show (p.functions[i]?).map _ = _
      rw [List.getElem?_eq_getElem hi, Option.map_some]
    · show (p.environment.hostFunctions[j]?).map _ = _
      rw [List.getElem?_eq_getElem hj, Option.map_some]
  · intro h
    unfold CheckedProgram.listedAs? at h
    split at h
    · obtain ⟨d, hd, hf⟩ := Option.map_eq_some_iff.mp h
      obtain ⟨hi, rfl⟩ := List.getElem?_eq_some_iff.mp hd
      exact .inl ⟨_, hi, hf⟩
    · obtain ⟨g, hg, hf⟩ := Option.map_eq_some_iff.mp h
      obtain ⟨hj, rfl⟩ := List.getElem?_eq_some_iff.mp hg
      exact .inr ⟨_, hj, hf⟩

/-- No two functions of a registry go to one callee. -/
theorem callees_nodup (lists : p.ListsInOrder) :
    (p.environment.registry.functions.map (·.callee)).Nodup := by
  have hcallees {α : Type} (l : List α) (e : Nat → α → FunctionType) (c : Nat → Callee)
      (h : ∀ i a, (e i a).callee = c i) :
        (l.mapIdx e).map (·.callee) = (List.range' 0 l.length).map c := by
    rw [List.mapIdx_eq_zipIdx_map, ← List.zipIdx_map_snd 0 l, List.map_map, List.map_map]
    exact List.map_congr_left fun x _ => h _ _
  rw [lists.functions_eq, List.map_append, hcallees _ _ Callee.user fun _ _ => rfl,
    hcallees _ _ Callee.host fun _ _ => rfl]
  refine List.nodup_append.mpr ⟨List.Nodup.map (fun i j h => Callee.user.inj h) List.nodup_range',
    List.Nodup.map (fun i j h => Callee.host.inj h) List.nodup_range', ?_⟩
  intro a ha b hb
  obtain ⟨i, -, rfl⟩ := List.mem_map.mp ha
  obtain ⟨j, -, rfl⟩ := List.mem_map.mp hb
  exact nofun

/-- **Every number is the callee of one entry**, which is that of its function. -/
theorem filter_callee (lists : p.ListsInOrder) {callee : Callee} {f : FunctionType}
    (h : p.listedAs? callee = some f) :
    p.environment.registry.functions.filter (·.callee = callee) = [f] := by
  have hcallee : f.callee = callee := by
    unfold CheckedProgram.listedAs? at h
    split at h <;> obtain ⟨d, -, rfl⟩ := Option.map_eq_some_iff.mp h <;> rfl
  subst hcallee
  exact filter_eq_singleton lists.callees_nodup (lists.mem_functions.mpr h)

/-- A call signature finds an entry exactly if it is that of the entry. -/
theorem find?_iff (lists : p.ListsInOrder) {key : String} {f : FunctionType} :
    (p.environment.registry.userFunctions.find? key <|> p.environment.registry.hostFunctions.find?
      key) = some f ↔
      f ∈ p.environment.registry.functions ∧ f.callSignature = key := by
  obtain ⟨husers, hhosts, happart⟩ := List.nodup_append.mp lists.distinct
  have hmem {fs : List FunctionType} :
      (key, f) ∈ fs.map (fun g => (g.callSignature, g)) ↔ f ∈ fs ∧ f.callSignature = key := by
    rw [List.mem_map]
    constructor
    · rintro ⟨g, hg, h⟩
      cases h
      exact ⟨hg, rfl⟩
    · rintro ⟨hf, rfl⟩
      exact ⟨f, hf, rfl⟩
  have huser : p.environment.registry.userFunctions.find? key = some f ↔ _ :=
    OrderedTable.find?_eq_some_iff husers
  have hhost : p.environment.registry.hostFunctions.find? key = some f ↔ _ :=
    OrderedTable.find?_eq_some_iff hhosts
  rw [lists.users, hmem] at huser
  rw [lists.hosts, hmem] at hhost
  rw [lists.functions_eq, List.mem_append, or_and_right, ← huser, ← hhost]
  cases hfound : p.environment.registry.userFunctions.find? key with
  | none => simp
  | some g =>
      -- A call signature of the program is none of the host.
      have hnone : p.environment.registry.hostFunctions.find? key = none := by
        rw [OrderedTable.find?_eq_none]
        intro hkey
        have hkey' : key ∈ p.environment.registry.userFunctions.keys := by
          by_contra hfree
          rw [OrderedTable.find?_eq_none.mpr hfree] at hfound
          cases hfound
        exact happart key hkey' key hkey rfl
      simp [hnone]

end CheckedProgram.ListsInOrder

/-- Declaring lists the functions of a program in order. -/
theorem listsInOrder_of_declared {D : Declarations σ} (named : D.Named) {registry : Registry}
    {records : List RecordDecl} {functions checked : List FunctionDecl}
    (hdeclared : Declared D registry records functions)
    (hchecked : checkFunctions registry functions = .ok checked) :
    CheckedProgram.ListsInOrder
      ⟨records, checked, ⟨registry, D.hosts ++ records.map recordConstructor⟩⟩ := by
  obtain ⟨r, withFields, withHost, hnamed, hfields, hhost, hfunctions⟩ := hdeclared
  obtain ⟨-, -, means, husers, hhosts⟩ :=
    resolveRecords_typed (means_of_declareRecords hnamed) hfields
  have hextends := declareRecords_extends hnamed
  obtain ⟨hgainsHosts, hsameUsers⟩ := declareHosts_gains named means hhost
  obtain ⟨hgainsUsers, hsameHosts, happart⟩ := declareUsers_gains hfunctions
  -- Neither table has an entry before functions are declared.
  rw [hhosts, hextends.hostFunctions, ← hsameHosts] at hgainsHosts
  rw [hsameUsers, husers, hextends.userFunctions] at hgainsUsers
  simp only [Nat.zero_add] at hgainsHosts hgainsUsers happart
  have hsame : (checked.mapIdx fun i d => d.listedAs i) = functions.mapIdx fun i d =>
      d.listedAs i := by
    have hmapped (decls : List FunctionDecl) :
        (decls.mapIdx fun i d => d.listedAs i) =
          (decls.map FunctionDecl.listedAs).mapIdx fun i listing => listing i := by
      simp only [List.mapIdx_eq_zipIdx_map, List.zipIdx_map, List.map_map, Function.comp_def,
        Prod.map_fst, Prod.map_snd, id_eq]
    rw [hmapped, hmapped, checkFunctions_listedAs hchecked]
  have husersEq := hgainsUsers.entries
  have hhostsEq := hgainsHosts.entries
  refine ⟨?_, hhostsEq, ?_⟩
  · rw [hsame]
    exact husersEq
  · refine List.nodup_append.mpr ⟨hgainsUsers.distinct .nil, hgainsHosts.distinct .nil, ?_⟩
    intro key hkey key' hkey'
    obtain ⟨e, he, rfl⟩ := List.mem_map.mp hkey
    rw [husersEq] at he
    obtain ⟨f, hf, rfl⟩ := List.mem_map.mp he
    rintro rfl
    exact happart f hf (hsameHosts ▸ hkey')

/-! ## Programs -/

theorem forall₂_map_mapIdx {α β γ δ : Type} {R : α → β → Prop} {S : γ → δ → Prop} {f : α → γ}
    {g : β → Nat → δ} (himp : ∀ a b i, R a b → S (f a) (g b i)) {as : List α} {bs : List β}
    (h : List.Forall₂ R as bs) :
    ∀ k : Nat, List.Forall₂ S (as.map f) (bs.mapIdx fun i b => g b (k + i)) := by
  induction h with
  | nil => exact fun _ => .nil
  | cons hfirst _ ih =>
      intro k
      rw [List.map_cons, List.mapIdx_cons]
      refine .cons (himp _ _ _ hfirst) ?_
      simpa only [Nat.add_assoc, Nat.add_comm 1] using ih (k + 1)

/-- An annotated function is listed as it is declared. -/
theorem Declarations.FunctionAnnotated.lists {D : Declarations σ} {d d' : FunctionDecl}
    (h : D.FunctionAnnotated d d') (index : Nat) : D.Lists d.heading (d'.listedAs index) := by
  obtain ⟨hname, Γ, -, hparameters, hparams, hresult, -⟩ := h
  refine ⟨congrArg Ident.name hname, ?_, hresult⟩
  show List.Forall₂ D.Stores (d.params.map (·.typeName.name)) d'.paramTys
  rw [hparams, List.forall₂_map_left_iff, List.forall₂_map_right_iff]
  exact hparameters.imp fun _ _ h => h.2

/-- A function of the host is listed as it is declared. -/
theorem Declarations.Named.lists {D : Declarations σ} (named : D.Named) {h : HostFunction σ}
    (types : ∃ params result, D.Types h.heading params result) (index : Nat) :
    D.Lists h.heading (h.listedAs index) := by
  obtain ⟨params, result, types⟩ := types
  refine ⟨rfl, ?_⟩
  show D.Types h.heading h.arrow.params h.arrow.result
  rwa [named.eq_arrow types]

/-- How the calls of a checked program are resolved. -/
structure CheckedProgram.ResolvesCalls (p : CheckedProgram σ) (D : Declarations σ) : Prop
    extends p.ListsInOrder where
  /-- The functions of the host come first in its table, and behind them a constructor for every
  record. -/
  constructors : p.environment.hostFunctions = D.hosts ++ p.records.map recordConstructor
  records : p.records.map (·.name.name) = D.records.map (·.name.name)
  /-- A constructor takes the types of the fields of its record, in order, and yields the record. -/
  constructs : ∀ d ∈ p.records, ∃ record : RecordType,
    p.environment.registry.record? d.name.name = some record ∧
    (recordConstructor d : HostFunction σ).arrow = ⟨record.fields.map (·.ty), .record d.name.name⟩
  /-- The entries have the names of the declared functions and the types that these are declared
  with. -/
  userHeadings : List.Forall₂ D.Lists D.userHeadings p.environment.registry.userFunctions.values
  hostHeadings : List.Forall₂ D.Lists D.hostHeadings p.environment.registry.hostFunctions.values
  /-- Every entry stands under its own call signature. -/
  keys : ∀ e ∈ p.environment.registry.userFunctions.entries ++
    p.environment.registry.hostFunctions.entries,
    e.1 = e.2.callSignature
  /-- Every number of a function is the callee of one entry, that of its function. -/
  once : ∀ {callee : Callee} {f : FunctionType}, p.listedAs? callee = some f →
    p.environment.registry.functions.filter (·.callee = callee) = [f]
  /-- There are no other entries. -/
  only : ∀ f ∈ p.environment.registry.functions, p.listedAs? f.callee = some f
  /-- A call with arguments of declared types goes to a function exactly if it is the one of this
  name that takes these types. -/
  resolves : ∀ {name : String} {ts : List Ty} {f : FunctionType},
    (∀ t ∈ ts, p.environment.registry.resolve? t.name = some t) →
    (p.environment.registry.resolveCall? name ts = some f ↔
      p.listedAs? f.callee = some f ∧ f.name = name ∧ f.params = ts)

/-- **Calls resolve unambiguously.** Let a program that was read be checked against any host. Then
its two tables hold the functions of the program, and those of the host with the constructors, each
once, under its own number and under its own call signature, and no call signature is in both. So a
call with arguments of declared types goes to the function that has the name of the call and takes
exactly these types, if there is one. -/
theorem calls_resolve_unambiguously {source : String} {program : Program}
    (hread : Program.ofSource source = .ok program) {host : HostTable σ} {p : CheckedProgram σ}
    (hcheck : checkProgram program.records program.allFunctions host = .ok p) :
    p.ResolvesCalls (program.declarations host) := by
  let D := program.declarations host
  have hwords : ∀ d ∈ D.records, IsWord d.name.name := Program.isWord_of_ofSource hread
  have hannotated := (checkProgram_decides hread host).2 p hcheck
  obtain ⟨typed, hhosts⟩ :=
    checkProgram_typed hwords (Program.targetsAssignable_of_ofSource hread) hcheck
  obtain ⟨registry, records, functions, checked, hdeclared, hchecked, rfl⟩ :=
    (checkProgram_iff_declared (D := D)).mp hcheck
  obtain ⟨consistent, knows, -⟩ := consistent_of_declared hwords hdeclared
  have lists := listsInOrder_of_declared knows.named hdeclared hchecked
  obtain ⟨named, withFields, -, hnamed, hfields, -⟩ := hdeclared
  obtain ⟨-, htyped, -⟩ := resolveRecords_typed (means_of_declareRecords hnamed) hfields
  have hvalues {table : OrderedTable FunctionType} {fs : List FunctionType}
      (h : table.entries = fs.map fun f => (f.callSignature, f)) : table.values = fs := by
    simp [OrderedTable.values, h, Function.comp_def]
  refine ⟨lists, rfl, (Registry.resolveRecords_lists hfields).1, ?_, ?_, ?_, ?_,
    lists.filter_callee, fun f hf => lists.mem_functions.mp hf, ?_⟩
  · intro d hd
    obtain ⟨record, hrecord, hfields⟩ := (typed.records d hd).record
    exact ⟨record, hrecord, by rw [recordConstructor_arrow typed hd, hfields]⟩
  · rw [hvalues lists.users]
    have hlisted :=
      forall₂_map_mapIdx (g := FunctionDecl.listedAs) (fun d d' i h => h.lists i) hannotated 0
    simp only [Nat.zero_add] at hlisted
    exact hlisted
  · rw [hvalues lists.hosts, ← hostHeadings_eq, constructors_typed htyped]
    have htypes : ∀ h ∈ D.hosts ++ D.records.map recordConstructor, h = h ∧
        ∃ params result, D.Types h.heading params result := by
      intro h hh
      exact ⟨rfl, consistent.hostTypes _ (hostHeadings_eq (D := D) ▸ List.mem_map_of_mem hh)⟩
    have hlisted := forall₂_map_mapIdx (f := HostFunction.heading) (g := HostFunction.listedAs)
      (R := fun h h' => h = h' ∧ ∃ params result, D.Types h.heading params result) (S := D.Lists)
      (by rintro h _ i ⟨rfl, types⟩; exact knows.named.lists types i)
        (List.forall₂_same.mpr htypes) 0
    simp only [Nat.zero_add] at hlisted
    exact hlisted
  · intro e he
    rw [lists.users, lists.hosts, ← List.map_append] at he
    obtain ⟨f, -, rfl⟩ := List.mem_map.mp he
    rfl
  · intro name ts f hts
    have hnames : ∀ t ∈ ts, t.Nameable := fun t ht => (typed.registry.named (hts t ht)).2
    rw [Registry.resolveCall?, lists.find?_iff, lists.mem_functions]
    refine and_congr_right fun hlisting => ?_
    constructor
    · intro hkey
      have hself : registry.resolveCall? f.name f.params = some f :=
        lists.find?_iff.mpr ⟨lists.mem_functions.mpr hlisting, rfl⟩
      exact callSignature_injective (fun t ht => ((typed.registry.listed hself).params t ht).2)
        hnames hkey
    · rintro ⟨rfl, rfl⟩
      rfl

/-- A program with two functions of one name. -/
def overloadingSource : String :=
  "record Cell\n  on: boolean\nend\nfun show(a: Cell): boolean\n  return a.on\nend\n" ++
    "fun show(a: boolean): boolean\n  return a\nend\nshow(Cell(show(true)))\n"

/-- A host with a function whose name reads like a call. -/
def misleadingHost : HostTable Unit :=
  [⟨"show(Cell)", [], "boolean", false, "", none, .ofFunction fun _ => .boolean true⟩]

theorem calls_resolve_unambiguously_overloading : ∃ (program : Program) (p : CheckedProgram Unit),
    Program.ofSource overloadingSource = .ok program ∧
    checkProgram program.records program.allFunctions misleadingHost = .ok p ∧
    p.ResolvesCalls (program.declarations misleadingHost) ∧
    [("show", [Ty.record "Cell"]), ("show", [.boolean]), ("show(Cell)", []), ("Cell", [.boolean]),
      ("show", [])].map
      (fun call => (p.environment.registry.resolveCall? call.1 call.2).map (·.callee)) =
        [some (.user 1), some (.user 2), some (.host 0), some (.host 1), none] := by
  have heval : ((checkSource overloadingSource misleadingHost).map fun p =>
      [("show", [Ty.record "Cell"]), ("show", [.boolean]), ("show(Cell)", []), ("Cell", [.boolean]),
        ("show", [])].map
        fun call => (p.environment.registry.resolveCall? call.1 call.2).map (·.callee)) =
      .ok [some (.user 1), some (.user 2), some (.host 0), some (.host 1), none] := by
    decide +kernel
  obtain ⟨p, hchecked, heval⟩ := map_eq_ok.mp heval
  obtain ⟨program, hprogram, hp⟩ := bind_eq_ok.mp hchecked
  exact ⟨program, p, hprogram, hp, calls_resolve_unambiguously hprogram hp, heval⟩

end Stepwise
