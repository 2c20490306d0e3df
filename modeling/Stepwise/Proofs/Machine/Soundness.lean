import Mathlib.Logic.Function.Basic
import Stepwise.Proofs.Machine.Framing

/-!
# Values keep to their types

The machine never looks at the type of a value, and need not: as long as the host answers with
values of the types it declares and keeps the fields of records typed, every operand, every filled
slot and every field of a record has a value of its static type. Only a function that ends without
the value it ought to yield yields nothing in its place, and from then on nothing may stand
anywhere.

A record does not know its type, so a `RecordTyping` lists the types that records were made with;
records refer to each other in circles, and the typing is what makes sense of that. It grows while
the program runs. What a host knows of its own state, such as the records it has seen, is its
account, which is any property that the host keeps (`HostTable.Keeps`). Deliveries are judged at the
moment at which they happen (`Machine.Delivers`).

`type_soundness` states this for every machine that drives a compiled program.
-/

set_option autoImplicit false

namespace Stepwise

variable {σ : Type}

/-! ## Typed records -/

/-- The types of records, by number. -/
abbrev RecordTyping := Nat → Option String

namespace RecordTyping

variable {Θ Θ' : RecordTyping} {lax : Bool}

/-- Typed records stay typed as they are. -/
def Extends (Θ Θ' : RecordTyping) : Prop := ∀ {id : Nat} {name : String}, Θ id = some name →
    Θ' id = some name

/-- A value has exactly the type. -/
def Tags (Θ : RecordTyping) : Value → Ty → Prop
  | .boolean _, .boolean => True
  | .number _, .number => True
  | .string _, .string => True
  | .record id, .record name => Θ id = some name
  | _, _ => False

/-- A value has the type or, if that is allowed, is nothing. -/
def Holds (Θ : RecordTyping) (lax : Bool) (v : Value) (t : Ty) : Prop :=
  Θ.Tags v t ∨ (lax = true ∧ v = .nothing)

/-- Every typed record is there, its type is a record of the program, and it has exactly the fields
of that record, each with a value of its type. -/
def Types (Θ : RecordTyping) (registry : Registry) (lax : Bool) (heap : Heap) : Prop :=
  ∀ {id : Nat} {name : String}, Θ id = some name → id < heap.records.size ∧
    ∃ record : RecordType, registry.record? name = some record ∧
      List.Forall₂ (fun v (f : RecordField) => Θ.Holds lax v f.ty) (heap.fields id) record.fields

theorem Tags.grows {v : Value} {t : Ty} (h : Θ.Extends Θ') (htags : Θ.Tags v t) : Θ'.Tags v t := by
  cases v <;> cases t <;> first | exact htags | exact h htags

theorem Holds.grows {v : Value} {t : Ty} (h : Θ.Extends Θ') (hholds : Θ.Holds lax v t) :
    Θ'.Holds lax v t :=
  hholds.imp (Tags.grows h) id

theorem Holds.record {id : Nat} {name : String} (h : Θ.Holds lax (.record id) (.record name)) :
    Θ id = some name := by
  rcases h with h | ⟨-, h⟩
  · exact h
  · cases h

/-- A value of a record type refers to a record of that type, unless it is nothing. -/
theorem Holds.cases_record {v : Value} {name : String} (h : Θ.Holds lax v (.record name)) :
    (∃ id, v = .record id ∧ Θ id = some name) ∨ (lax = true ∧ v = .nothing) := by
  rcases h with h | h
  · cases v with
    | record id => exact .inl ⟨id, rfl, h⟩
    | _ => cases h
  · exact .inr h

variable {registry : Registry} {heap : Heap}

/-- The field of a typed record has a value of the field's type. -/
theorem Types.get (h : Θ.Types registry lax heap) {id : Nat} {name : String}
    (hid : Θ id = some name) {record : RecordType} (hrecord : registry.record? name = some record)
    {index : Nat} {f : RecordField} (hf : record.fields[index]? = some f) :
    Θ.Holds lax (heap.get id index) f.ty := by
  obtain ⟨-, other, hother, hfields⟩ := h hid
  rw [hrecord, Option.some.injEq] at hother
  subst hother
  obtain ⟨hlt, rfl⟩ := List.getElem?_eq_some_iff.mp hf
  have hlt' : index < (heap.fields id).length := by rwa [hfields.length_eq]
  rw [Heap.get_eq_getD_fields, List.getElem?_eq_getElem hlt', Option.getD_some]
  exact hfields.get hlt' hlt

/-- Setting a field to a value of the field's type leaves all records typed. -/
theorem Types.set (h : Θ.Types registry lax heap) {id : Nat} {name : String}
    (hid : Θ id = some name) {record : RecordType} (hrecord : registry.record? name = some record)
    {index : Nat} {f : RecordField} (hf : record.fields[index]? = some f) {v : Value}
    (hv : Θ.Holds lax v f.ty) :
    Θ.Types registry lax (heap.set id index v) := by
  intro other otherName hother
  obtain ⟨hlt, found, hfound, hfields⟩ := h hother
  refine ⟨by rwa [Heap.size_set], found, hfound, ?_⟩
  rw [Heap.fields_set]
  split
  · next heq =>
      subst heq
      rw [hid, Option.some.injEq] at hother
      subst hother
      rw [hrecord, Option.some.injEq] at hfound
      subst hfound
      refine List.forall₂_iff_get.mpr ⟨by rw [List.length_set, hfields.length_eq], ?_⟩
      intro i hi hi'
      rw [List.length_set] at hi
      simp only [List.get_eq_getElem, List.getElem_set]
      split
      · next heq =>
          subst heq
          obtain ⟨_, hget⟩ := List.getElem?_eq_some_iff.mp hf
          rw [hget]
          exact hv
      · exact hfields.get hi hi'
  · exact hfields

/-- A new record with fields of the right types leaves all records typed. -/
theorem Types.allocate (h : Θ.Types registry lax heap) {name : String} {record : RecordType}
    (hrecord : registry.record? name = some record) {values : List Value}
    (hvalues : List.Forall₂ (fun v (f : RecordField) => Θ.Holds lax v f.ty) values record.fields) :
    Θ.Extends (Function.update Θ heap.records.size (some name)) ∧
      RecordTyping.Types (Function.update Θ heap.records.size (some name)) registry lax
        (heap.allocate values).2 := by
  have hgrows : Θ.Extends (Function.update Θ heap.records.size (some name)) := by
    intro id other hid
    rw [Function.update_of_ne (Nat.ne_of_lt (h hid).1)]
    exact hid
  refine ⟨hgrows, ?_⟩
  have hsize : (heap.allocate values).2.records.size = heap.records.size + 1 := Array.size_push _
  intro id other hid
  by_cases heq : id = heap.records.size
  · subst heq
    rw [Function.update_self, Option.some.injEq] at hid
    subst hid
    refine ⟨by omega, record, hrecord, ?_⟩
    rw [← heap.allocate_fst values, Heap.fields_allocate_self]
    exact hvalues.imp fun _ _ => Holds.grows hgrows
  · rw [Function.update_of_ne heq] at hid
    obtain ⟨hlt, found, hfound, hfields⟩ := h hid
    refine ⟨by omega, found, hfound, ?_⟩
    rw [Heap.fields_allocate_of_ne _ _ heq]
    exact hfields.imp fun _ _ => Holds.grows hgrows

end RecordTyping

/-! ## What is asked of a host -/

/-- The functions of a host keep to their types: given arguments of the types of their parameters in
a world whose records are typed, they leave the records typed, perhaps make new ones, and answer
with a value of their type, be it at once or by a future that already has its value. Where nothing
may stand in place of a value, they may answer nothing as well. The account is what the host keeps
of its own state. -/
structure HostTable.Keeps (host : HostTable σ) (registry : Registry)
    (account : RecordTyping → Array Future → σ → Prop) : Prop where
  grows : ∀ {Θ Θ' : RecordTyping} {futures : Array Future} {env : σ}, Θ.Extends Θ' →
    account Θ futures env →
    account Θ' futures env
  taken : ∀ {Θ : RecordTyping} {w : World σ} (future : Nat), account Θ w.futures w.env →
    account Θ (w.takeValue future).2.futures w.env
  answers : ∀ {Θ : RecordTyping} {lax : Bool} {w : World σ} {h : HostFunction σ}
    {arguments : List Value}, h ∈ host →
    Θ.Types registry lax w.heap → account Θ w.futures w.env →
    List.Forall₂ (Θ.Holds lax) arguments h.arrow.params →
    ∃ Θ' : RecordTyping, Θ.Extends Θ' ∧ Θ'.Types registry lax (h.native arguments w).2.heap ∧
      account Θ' (h.native arguments w).2.futures (h.native arguments w).2.env ∧
      match (h.native arguments w).1 with
      | .ready v => h.arrow.result ≠ .nothing → Θ'.Holds lax v h.arrow.result
      | .pending future =>
        (h.native arguments w).2.isCompleted future = true → h.arrow.result ≠ .nothing →
          Θ'.Holds lax ((h.native arguments w).2.takeValue future).1 h.arrow.result

/-- Every delivery suits the host's account, and brings a value of the type of the function whose
call waits for it, if one does. -/
def Machine.Delivers (host : HostTable σ) (account : RecordTyping → Array Future → σ → Prop) :
    Machine σ → List Event → Prop
  | _, [] => True
  | m, .complete future v :: rest =>
      (∀ Θ : RecordTyping, account Θ m.world.futures m.world.env →
        account Θ (m.complete future v).world.futures m.world.env ∧
        ∀ {call : PendingCall} {h : HostFunction σ}, m.pending = some call → call.future = future →
          host[call.function]? = some h → h.arrow.result ≠ .nothing → Θ.Tags v h.arrow.result) ∧
      (m.complete future v).Delivers host account rest
  | m, .act action :: rest => (m.perform action).Delivers host account rest
  | m, .restart :: rest => m.restart.Delivers host account rest

/-! ## The reading by types -/

section Typing

variable {p : CheckedProgram σ} {host : HostTable σ}
    {account : RecordTyping → Array Future → σ → Prop}

/-- A constructor makes a record of its type. -/
theorem RecordTyping.Types.construct {Θ : RecordTyping} {lax : Bool} {w : World σ} (typed : p.Typed)
    (h : Θ.Types p.environment.registry lax w.heap) {d : RecordDecl} (hd : d ∈ p.records)
    {arguments : List Value}
    (harguments : List.Forall₂ (Θ.Holds lax) arguments (recordConstructor d :
      HostFunction σ).arrow.params) :
    Θ.Extends (Function.update Θ w.heap.records.size (some d.name.name)) ∧
      RecordTyping.Types (Function.update Θ w.heap.records.size (some d.name.name))
        p.environment.registry lax
        (w.allocate arguments).2.heap := by
  obtain ⟨record, hrecord, hfields⟩ := (typed.records d hd).record
  refine h.allocate hrecord ?_
  rw [recordConstructor_arrow typed hd, List.forall₂_map_right_iff] at harguments
  rw [hfields]
  exact harguments

/-- The reading that looks at values: each has its type, in the typing of the records made so
far. -/
def Reading.typing (keeps : host.Keeps p.environment.registry account) (typed : p.Typed)
    (hhosts : p.environment.hostFunctions = host ++ p.records.map recordConstructor) (lax : Bool) :
    Reading p where
  Index := RecordTyping
  Grows := RecordTyping.Extends
  Holds Θ := Θ.Holds lax
  Sane Θ w := Θ.Types p.environment.registry lax w.heap ∧ account Θ w.futures w.env
  Promises Θ w call := ∃ h : HostFunction σ, host[call.function]? = some h ∧
    (w.isCompleted call.future = true → h.arrow.result ≠ .nothing →
      Θ.Holds lax (w.takeValue call.future).1 h.arrow.result)
  Lax := lax = true
  grows_refl _ := id
  grows_trans hab hbc := fun h => hbc (hab h)
  holds_grows := RecordTyping.Holds.grows
  boolean _ _ := .inl trivial
  number _ _ := .inl trivial
  string _ _ := .inl trivial
  nothing hlax _ _ := .inr ⟨hlax, rfl⟩
  getField := by
    rintro Θ w v name record index f ⟨htypes, -⟩ hv hrecord hf
    rcases hv.cases_record with ⟨id, rfl, hid⟩ | ⟨hlax, rfl⟩
    · exact htypes.get hid hrecord hf
    · exact .inr ⟨hlax, rfl⟩
  setField := by
    rintro Θ w v x name record index f ⟨htypes, haccount⟩ hv hrecord hf hx
    rcases hv.cases_record with ⟨id, rfl, hid⟩ | ⟨-, rfl⟩
    · exact ⟨htypes.set hid hrecord hf hx, haccount⟩
    · exact ⟨htypes, haccount⟩
  native := by
    rintro Θ w index h arguments hh ⟨htypes, haccount⟩ harguments
    rw [hhosts] at hh
    by_cases hindex : index < host.length
    · rw [List.getElem?_append_left hindex] at hh
      obtain ⟨Θ', hgrows, htypes', haccount', hreply⟩ :=
        keeps.answers (List.mem_of_getElem? hh) htypes haccount harguments
      refine ⟨Θ', hgrows, ⟨htypes', haccount'⟩, ?_⟩
      cases hanswer : (h.native arguments w).1 with
      | ready v =>
          rw [hanswer] at hreply
          exact hreply
      | pending future =>
          rw [hanswer] at hreply
          exact ⟨h, hh, hreply⟩
    · rw [List.getElem?_append_right (Nat.not_lt.mp hindex), List.getElem?_map] at hh
      obtain ⟨d, hd, rfl⟩ := Option.map_eq_some_iff.mp hh
      have hmem := List.mem_of_getElem? hd
      obtain ⟨hgrows, htypes'⟩ := htypes.construct typed hmem harguments
      refine ⟨_, hgrows, ⟨htypes', keeps.grows hgrows haccount⟩, ?_⟩
      intro _
      rw [recordConstructor_arrow typed hmem]
      exact .inl (Function.update_self _ _ _)
  take := by
    rintro Θ w call h hh ⟨htypes, haccount⟩ ⟨f, hf, hvalue⟩ hdone
    have hsame : f = h := by
      rw [hhosts, List.getElem?_append_left (List.getElem?_eq_some_iff.mp hf).1, hf,
        Option.some.injEq] at hh
      exact hh
    subst hsame
    exact ⟨⟨htypes, keeps.taken _ haccount⟩, hvalue hdone⟩

/-! ## Deliveries -/

theorem World.isCompleted_complete_of_ne (w : World σ) {future other : Nat} (v : Value)
    (h : future ≠ other) :
    (w.complete future v).isCompleted other = w.isCompleted other := by
  simp [World.complete, World.isCompleted, Array.getElem?_modify, h]

theorem World.takeValue_complete_of_ne (w : World σ) {future other : Nat} (v : Value)
    (h : future ≠ other) :
    ((w.complete future v).takeValue other).1 = (w.takeValue other).1 := by
  simp [World.complete, World.takeValue, Array.getElem?_modify, h]

/-- What is delivered to a future is what is taken from it. -/
theorem World.takeValue_complete_self (w : World σ) {future : Nat} {v : Value}
    (h : (w.complete future v).isCompleted future = true) :
    ((w.complete future v).takeValue future).1 = v := by
  cases hf : w.futures[future]? with
  | none => simp [World.complete, World.isCompleted, Array.getElem?_modify, hf] at h
  | some f => simp [World.complete, World.takeValue, Array.getElem?_modify, hf, Future.complete]

/-- A delivery that suits the host leaves a machine in order. -/
theorem Standing.complete {keeps : host.Keeps p.environment.registry account} {typed : p.Typed}
    {hhosts : p.environment.hostFunctions = host ++ p.records.map recordConstructor} {lax : Bool}
    {Θ : RecordTyping} {ledgers : List (List Nat)} {m : Machine σ}
    (h : Standing (Reading.typing keeps typed hhosts lax) Θ ledgers m) {future : Nat} {v : Value}
    (haccount : account Θ (m.complete future v).world.futures m.world.env)
    (hvalue : ∀ {call : PendingCall} {f : HostFunction σ}, m.pending = some call →
      call.future = future →
      host[call.function]? = some f → f.arrow.result ≠ .nothing → Θ.Tags v f.arrow.result) :
    Standing (Reading.typing keeps typed hhosts lax) Θ ledgers (m.complete future v) := by
  obtain ⟨⟨htypes, -⟩, hidle, hwaiting⟩ := h
  refine ⟨⟨htypes, haccount⟩, hidle, ?_⟩
  intro call hcall
  obtain ⟨hframes, g, hg, ⟨f, hf, hpromise⟩, hframed⟩ := hwaiting hcall
  refine ⟨hframes, g, hg, ⟨f, hf, ?_⟩, hframed⟩
  intro hdone hne
  by_cases hfuture : call.future = future
  · subst hfuture
    have htaken := m.world.takeValue_complete_self hdone
    rw [show (m.complete call.future v).world = m.world.complete call.future v from rfl, htaken]
    exact .inl (hvalue hcall rfl hf hne)
  · have hother := m.world.takeValue_complete_of_ne v (Ne.symm hfuture)
    rw [show (m.complete future v).world = m.world.complete future v from rfl] at hdone ⊢
    rw [m.world.isCompleted_complete_of_ne v (Ne.symm hfuture)] at hdone
    rw [hother]
    exact hpromise hdone hne

/-! ## Runs -/

/-- The ledgers after events: noted is what the executed instructions fill, and a restart begins
anew. -/
def Machine.ledgersAlong : Machine σ → List Event → List (List Nat) → List (List Nat)
  | _, [], all => all
  | m, .act action :: rest, all =>
    (m.perform action).ledgersAlong rest (ledgersOver (m.executed action) all)
  | m, .complete future v :: rest, all => (m.complete future v).ledgersAlong rest all
  | m, .restart :: rest, _ => m.restart.ledgersAlong rest [[]]

/-- What the uppermost activation waits for: the value of the outstanding call, if there is one and
it yields one. -/
def Machine.lacking (m : Machine σ) : List Ty :=
  match m.pendingFunction? with
  | none => []
  | some h => h.arrow.result.pushOn []

/-- A machine whose values keep to their types, after a run in which the machines `xs` executed an
instruction and the slots in the ledgers were filled. -/
structure Machine.Typed (p : CheckedProgram σ) (host : HostTable σ) (Θ : RecordTyping) (lax : Bool)
    (ledgers : List (List Nat)) (xs : List (Machine σ)) (m : Machine σ) : Prop where
  /-- Each activation has operands and slots of the types of its place, but for the value it waits
  for. -/
  framed : Framed p (Θ.Holds lax) m.lacking m.frames ledgers m.stack
  records : Θ.Types p.environment.registry lax m.world.heap
  /-- A constructor has made the record whose number was next, and it is typed by the
  constructor. -/
  made : ∀ x ∈ xs, ∀ (i : Nat) (d : RecordDecl), p.records[i]? = some d →
    x.instruction? = some (.callHost (host.length + i)) →
    Θ x.world.heap.records.size = some d.name.name
  calls : ∀ x ∈ xs, x.CallHolds (Θ.Holds lax)

variable {keeps : host.Keeps p.environment.registry account} {typed : p.Typed}
    {hhosts : p.environment.hostFunctions = host ++ p.records.map recordConstructor} {lax : Bool}
    {module : Module σ}

/-- Events keep a machine in order, as far as no function ends without its value or nothing may
stand anywhere. -/
theorem Standing.handleAll (compiled : module.Compiles p) {main : FunctionDecl}
    (hmain : p.functions[0]? = some main) (harrow : main.arrow = ⟨[], .nothing⟩)
    (events : List Event) :
    ∀ {Θ : RecordTyping} {ledgers : List (List Nat)} {m : Machine σ},
      Standing (Reading.typing keeps typed hhosts lax) Θ ledgers m → m.module = module →
      m.Delivers host account events → (∀ x ∈ m.history events, x.EndsWithoutValue p → lax = true) →
      ∃ Θ' : RecordTyping, Θ.Extends Θ' ∧ (m.handleAll events).module = module ∧
        Standing (Reading.typing keeps typed hhosts lax) Θ' (m.ledgersAlong events ledgers)
          (m.handleAll events) ∧
        ∀ x ∈ m.history events, x.module = module ∧ x.CallHolds (Θ'.Holds lax) := by
  induction events with
  | nil =>
      intro Θ ledgers m h hmodule _ _
      refine ⟨Θ, id, hmodule, h, ?_⟩
      intro x hx
      cases hx
  | cons e rest ih =>
      intro Θ ledgers m h hmodule hdelivers hlax
      cases e with
      | act action =>
          have hkept := h.perform (hmodule ▸ compiled) typed action
          obtain ⟨Θ₁, hgrows, hstanding, hcalls⟩ :=
            hkept.standing fun x hx => hlax x (List.mem_append_left _ hx)
          obtain ⟨Θ₂, hgrows', hlast, hstanding', hcalls'⟩ := ih hstanding
            (hkept.module_eq.trans hmodule) hdelivers fun x hx =>
            hlax x (List.mem_append_right _ hx)
          refine ⟨Θ₂, fun hid => hgrows' (hgrows hid), hlast, hstanding', ?_⟩
          intro x hx
          rcases List.mem_append.mp hx with hx | hx
          · exact ⟨(hkept.past x hx).trans hmodule,
              (hcalls x hx).imp (RecordTyping.Holds.grows hgrows')⟩
          · exact hcalls' x hx
      | complete future v =>
          obtain ⟨hhere, hrest⟩ := hdelivers
          obtain ⟨haccount, hvalue⟩ := hhere Θ h.sane.2
          exact ih (h.complete haccount hvalue) hmodule hrest hlax
      | restart =>
          have hbegin := Standing.restart (hmodule ▸ compiled) hmain harrow h.sane
          exact ih hbegin hmodule hdelivers hlax

/-- What stands in order by types keeps to its types. -/
theorem Standing.keepsTypes {Θ : RecordTyping} {ledgers : List (List Nat)} {m : Machine σ}
    (h : Standing (Reading.typing keeps typed hhosts lax) Θ ledgers m)
    (compiled : module.Compiles p) (hmodule : m.module = module) {xs : List (Machine σ)}
    (hxs : ∀ x ∈ xs, x.module = module ∧ x.CallHolds (Θ.Holds lax)) :
    m.Typed p host Θ lax ledgers xs where
  framed := by
    cases hpending : m.pending with
    | none =>
        have hlacking : m.lacking = [] := by
          rw [Machine.lacking, Machine.pendingFunction?, hpending]; rfl
        rw [hlacking]
        exact h.idle hpending
    | some call =>
        obtain ⟨-, f, hf, -, hframed⟩ := h.waiting hpending
        have hlacking : m.lacking = f.arrow.result.pushOn [] := by
          have hfunction : m.pendingFunction? = some f := by
            rw [Machine.pendingFunction?, hpending, Option.bind_some, hmodule,
              compiled.hostFunction?, hf]
          rw [Machine.lacking, hfunction]
        rw [hlacking]
        exact hframed
  records := h.sane.1
  made := by
    intro x hx i d hd hinstruction
    obtain ⟨hxmodule, hcall⟩ := hxs x hx
    have hfunction : x.module.hostFunction? (host.length + i) = some (recordConstructor d) := by
      rw [hxmodule, compiled.hostFunction?, hhosts, List.getElem?_append_right
        (Nat.le_add_right _ _), Nat.add_sub_cancel_left, List.getElem?_map, hd]
      rfl
    have harrow := recordConstructor_arrow (σ := σ) typed (List.mem_of_getElem? hd)
    have hanswer := hcall.answer hinstruction hfunction rfl (by rw [harrow]; nofun)
    rw [harrow] at hanswer
    exact hanswer.record
  calls x hx := (hxs x hx).2

end Typing

/-- **Type soundness.** Let the host keep to its types and what is delivered be of the right type.
However a compiled program is driven, every operand, every filled slot, every field of a typed
record and every argument of a call of the host then has its type or is nothing; and it has its type
as long as no function has ended without the value it ought to yield. -/
theorem type_soundness {source : String} {host : HostTable σ} {module : Module σ}
    {p : CheckedProgram σ} (hcompile : compile source host = .ok module)
    (hcheck : checkSource source host = .ok p) {account : RecordTyping → Array Future → σ → Prop}
    (keeps : host.Keeps p.environment.registry account) (env : σ)
    (hinitial : account (fun _ => none) #[] env) (limit : Nat) (events : List Event)
    (hdelivers : (Machine.start module limit (.initial env)).Delivers host account events) :
    let first := Machine.start module limit (.initial env)
    (∃ Θ : RecordTyping, (first.handleAll events).Typed p host Θ true
      (first.ledgersAlong events [[]])
      (first.history events)) ∧
    ((∀ x ∈ first.history events, ¬ x.EndsWithoutValue p) → ∃ Θ : RecordTyping,
      (first.handleAll events).Typed p host Θ false (first.ledgersAlong events [[]])
        (first.history events)) := by
  intro first
  obtain ⟨p', hcheck', hemit⟩ := compile_eq_ok.mp hcompile
  rw [hcheck, Except.ok.injEq] at hcheck'
  subst hcheck'
  have compiled := emitModule_compiles hemit
  obtain ⟨typed, hhosts, main, others, hfunctions, harrow⟩ := checkSource_typed hcheck
  have hmain : p.functions[0]? = some main := by rw [hfunctions, List.getElem?_cons_zero]
  have hall (lax : Bool) (hlax : ∀ x ∈ first.history events, x.EndsWithoutValue p → lax = true) :
      ∃ Θ : RecordTyping,
        (first.handleAll events).Typed p host Θ lax (first.ledgersAlong events [[]])
        (first.history events) := by
    have hsane :
        (Reading.typing keeps typed hhosts lax).Sane (fun _ => none) (World.initial env) := by
      refine ⟨?_, hinitial⟩
      intro id name hid
      cases hid
    have hbegin : Standing (Reading.typing keeps typed hhosts lax) (fun _ => none) [[]] first :=
      .restart compiled hmain harrow hsane
    obtain ⟨Θ, -, hlast, hstanding, hxs⟩ :=
      hbegin.handleAll compiled hmain harrow events rfl hdelivers hlax
    exact ⟨Θ, hstanding.keepsTypes compiled hlast hxs⟩
  refine ⟨hall true fun _ _ _ => rfl, ?_⟩
  intro hends
  exact hall false fun x hx hend => absurd hend (hends x hx)

/-- A host that measures something, which takes a while. -/
def measuringHost : HostTable Unit :=
  [⟨"measure", [], "number", true, "", none, fun _ w =>
    let (future, w) := w.newFuture .waiting
    (.pending future, w)⟩]

theorem measuringHost_keeps (registry : Registry) :
    measuringHost.Keeps registry fun _ _ _ => True where
  grows _ _ := trivial
  taken _ _ := trivial
  answers := by
    intro Θ lax w h arguments hh htypes _ _
    rw [List.mem_singleton.mp hh]
    refine ⟨Θ, id, htypes, trivial, ?_⟩
    intro hdone
    simp [World.newFuture, World.isCompleted, Future.waiting] at hdone

/-- A program that makes a record and renews it as long as it grows. -/
def measuringSource : String :=
  "record Probe\n  last: number\nend\nvar p = Probe(measure())\n" ++
    "while p.last < measure() do\n  p.last = measure()\nend\n"

theorem type_soundness_measuring : ∃ (module : Module Unit) (p : CheckedProgram Unit),
    compile measuringSource measuringHost = .ok module ∧
    checkSource measuringSource measuringHost = .ok p ∧
    let first := Machine.start module 10 (.initial ())
    let events : List Event :=
      [.act (.run 20), .complete 0 (.number 7), .act .stepInto, .complete 1 (.number 8),
        .act (.stepOver none)]
    (∃ Θ : RecordTyping, (first.handleAll events).Typed p measuringHost Θ true
      (first.ledgersAlong events [[]])
      (first.history events)) ∧
    ((∀ x ∈ first.history events, ¬ x.EndsWithoutValue p) → ∃ Θ : RecordTyping,
      (first.handleAll events).Typed p measuringHost Θ false (first.ledgersAlong events [[]])
        (first.history events)) := by
  have hcompile : (compile measuringSource measuringHost).isOk = true := by decide +kernel
  obtain ⟨module, hmodule⟩ := Diagnosed.isOk_iff.mp hcompile
  obtain ⟨p, hcheck, -⟩ := compile_eq_ok.mp hmodule
  have hnumber {Θ : RecordTyping} {x : Float} {i : Nat} {h : HostFunction Unit}
      (hh : measuringHost[i]? = some h) : Θ.Tags (.number x) h.arrow.result := by
    have hresult : h.arrow.result = .number := by
      rw [List.mem_singleton.mp (List.mem_of_getElem? hh)]
      decide
    rw [hresult]
    trivial
  refine ⟨module, p, hmodule, hcheck,
    type_soundness hmodule hcheck (measuringHost_keeps _) () trivial 10 _ ?_⟩
  exact ⟨fun Θ _ => ⟨trivial, fun _ _ hh _ => hnumber hh⟩, fun Θ _ =>
    ⟨trivial, fun _ _ hh _ => hnumber hh⟩, trivial⟩

end Stepwise
