import Stepwise.Proofs.Code.WellFormed
import Stepwise.Proofs.Machine.Discipline

/-!
# Values that locals were given

A debugger lists the locals whose ranges contain the next instruction of an activation. Beside every
activation goes what it has been given: its arguments, and what its `store`s have put into slots
(`Gift`). In a compiled program each local that is listed was given its first value in this very
activation, and what is shown is what its slot was given last; the same holds of what the program
reads (`locals_in_scope_given`). So nobody ever sees a slot that was not filled yet, or that another
activation has filled.

Control comes into the range of a variable by the `store` of its first value only, so while an
activation goes on, what its locals begin with is among its gifts (`Frame.Received.goes`,
`Frame.Received.stores`). A new activation is in the ranges of its parameters only, and finds an
argument for each (`Frame.Received.enters`).
-/

set_option autoImplicit false

namespace Stepwise

variable {σ : Type}

/-! ## Gifts -/

/-- A value that an activation was given: as an argument, or by the `store` at a place. -/
structure Gift where
  storedAt : Option Nat
  slot : Nat
  value : Value
  deriving Repr

namespace Gift

/-- The gift is the one that a local begins with. -/
def Begins (g : Gift) (l : LocalInfo) : Prop :=
  g.slot = l.slot ∧
    match g.storedAt with
    | none => l.isParameter = true
    | some pc => l.isParameter = false ∧ l.live.start = pc + 1

/-- The value that a slot was given last. -/
def latest (gifts : List Gift) (slot : Nat) : Option Value :=
  (gifts.find? (·.slot == slot)).map (·.value)

/-- The arguments of a call, which fill the slots from the one of number `first`. -/
def ofArguments (first : Nat) : List Value → List Gift
  | [] => []
  | v :: vs => ⟨none, first, v⟩ :: ofArguments (first + 1) vs

variable {gifts : List Gift} {slot : Nat}

theorem latest_cons_self (storedAt : Option Nat) (v : Value) :
    latest (⟨storedAt, slot, v⟩ :: gifts) slot = some v := by
  simp [latest]

theorem latest_cons_of_ne {g : Gift} (h : g.slot ≠ slot) :
    latest (g :: gifts) slot = latest gifts slot := by
  simp [latest, h]

theorem exists_latest {g : Gift} (h : g ∈ gifts) : ∃ v, latest gifts g.slot = some v := by
  cases hfound : gifts.find? (·.slot == g.slot) with
  | none => exact absurd (List.find?_eq_none.mp hfound g h) (by simp)
  | some first => exact ⟨first.value, by rw [latest, hfound, Option.map_some]⟩

theorem latest_ofArguments (arguments : List Value) : ∀ first i : Nat,
    latest (ofArguments first arguments) (first + i) = arguments[i]? := by
  induction arguments with
  | nil => exact fun _ _ => rfl
  | cons v vs ih =>
      intro first i
      cases i with
      | zero => exact latest_cons_self none v
      | succ i =>
          rw [ofArguments, latest_cons_of_ne (by dsimp only; omega), List.getElem?_cons_succ,
            ← ih (first + 1) i]
          congr 1
          omega

theorem mem_ofArguments {arguments : List Value} {v : Value} :
    ∀ {first i : Nat}, arguments[i]? = some v →
    ⟨none, first + i, v⟩ ∈ ofArguments first arguments := by
  induction arguments with
  | nil => simp
  | cons w ws ih =>
      intro first i h
      cases i with
      | zero =>
          cases h
          exact List.mem_cons_self
      | succ i =>
          have hmem := @ih (first + 1) i h
          rw [Nat.add_assoc, Nat.add_comm 1] at hmem
          exact List.mem_cons_of_mem _ hmem

end Gift

namespace Machine

/-- What the activations have been given after the next instruction, if they have been given `all`
before. -/
def giftsAfter (m : Machine σ) (all : List (List Gift)) : List (List Gift) :=
  match m.instruction? with
  | some (.store slot) =>
    match all with
    | [] => []
    | gifts :: below => (⟨m.frames.head?.map (·.pc), slot, m.top⟩ :: gifts) :: below
  | some (.call index) =>
    match m.module.function? index with
    | none => all
    | some callee => Gift.ofArguments 0 (m.arguments callee.numParameters) :: all
  | some .ret | none => all.tail
  | some _ => all

/-- What the activations have been given after the next instructions of machines in a row. -/
def giftsOver (xs : List (Machine σ)) (all : List (List Gift)) : List (List Gift) :=
  xs.foldl (fun all x => x.giftsAfter all) all

/-- Machines in a row, each with what its activations have been given by then. -/
def accounts : List (Machine σ) → List (List Gift) → List (Machine σ × List (List Gift))
  | [], _ => []
  | x :: xs, all => (x, all) :: accounts xs (x.giftsAfter all)

theorem accounts_concat (xs : List (Machine σ)) (m : Machine σ) : ∀ all : List (List Gift),
    accounts (xs ++ [m]) all = accounts xs all ++ [(m, giftsOver xs all)] := by
  induction xs with
  | nil => exact fun _ => rfl
  | cons x xs ih =>
      intro all
      rw [List.cons_append, accounts, ih, accounts, List.cons_append]
      rfl

/-- The machines of which events in a row execute an instruction, as far as they come behind the
last restart. -/
def sinceRestart (m : Machine σ) (xs : List (Machine σ)) : List Event → List (Machine σ)
  | [] => xs
  | .act a :: rest => (m.perform a).sinceRestart (xs ++ m.executed a) rest
  | .complete future v :: rest => (m.complete future v).sinceRestart xs rest
  | .restart :: rest => m.restart.sinceRestart [] rest

/-- What the four changes and deliveries keep, and what holds at the beginning, holds after every
sequence of events, counting from the last restart. -/
theorem Invariant.sinceRestart {P : List (Machine σ) → Machine σ → Prop} (inv : Invariant P)
    (complete : ∀ {xs : List (Machine σ)} {m : Machine σ} (future : Nat) (v : Value), P xs m →
      P xs (m.complete future v))
    (restart : ∀ {xs : List (Machine σ)} {m : Machine σ}, P xs m → P [] m.restart)
    (events : List Event) :
    ∀ {xs : List (Machine σ)} {m : Machine σ}, P xs m →
    P (m.sinceRestart xs events) (m.handleAll events) := by
  induction events with
  | nil => exact fun h => h
  | cons e rest ih =>
      intro xs m h
      cases e with
      | act a => exact ih (inv.perform h a)
      | complete future v => exact ih (complete future v h)
      | restart => exact ih (restart h)

/-! ## One instruction -/

/-- What an instruction does to the activations and to what they have been given. -/
inductive Hands (m : Machine σ) (frame : Frame) (callers : List Frame) (gifts : List Gift)
    (below : List (List Gift)) :
    List Frame → List (List Gift) → Prop
  | leaves : Hands m frame callers gifts below callers below
  | goes {code : FunctionCode} {I : Instruction} {target : Nat} :
      m.module.function? frame.function = some code → code.instructions[frame.pc]? = some I →
      (∀ slot, I ≠ .store slot) → I.Leads frame.pc target →
      Hands m frame callers gifts below ({ frame with pc := target } :: callers) (gifts :: below)
  | stores {code : FunctionCode} {slot : Nat} :
      m.module.function? frame.function = some code →
      code.instructions[frame.pc]? = some (.store slot) →
      Hands m frame callers gifts below
        ({ frame with pc := frame.pc + 1, slots := frame.slots.set slot m.top } :: callers)
        ((⟨some frame.pc, slot, m.top⟩ :: gifts) :: below)
  | enters {code callee : FunctionCode} {index base : Nat} :
      m.module.function? frame.function = some code →
      code.instructions[frame.pc]? = some (.call index) →
      m.module.function? index = some callee →
      Hands m frame callers gifts below
        (Frame.enter callee base (m.arguments callee.numParameters) :: { frame with pc :=
          frame.pc + 1 } :: callers)
        (Gift.ofArguments 0 (m.arguments callee.numParameters) :: gifts :: below)

variable {m : Machine σ} {frame : Frame} {callers : List Frame}

theorem step_hands (gifts : List Gift) (below : List (List Gift))
    (h : m.frames = frame :: callers) :
    Hands m frame callers gifts below m.step.frames (m.giftsAfter (gifts :: below)) := by
  cases hcode : m.module.function? frame.function with
  | none =>
      have hnext : m.instruction? = none := by simp [instruction?, h, hcode]
      simp only [step, h, hcode, giftsAfter, hnext]
      exact .leaves
  | some code =>
      cases hI : code.instructions[frame.pc]? with
      | none =>
          have hnext : m.instruction? = none := by simp [instruction?, h, hcode, hI]
          simp only [step, h, hcode, hI, giftsAfter, hnext, leave]
          exact .leaves
      | some I =>
          have hnext : m.instruction? = some I := by simp [instruction?, h, hcode, hI]
          simp only [step, h, hcode, hI, giftsAfter, hnext]
          cases I with
          | store slot => exact .stores hcode hI
          | call index =>
              cases hcallee : m.module.function? index with
              | none =>
                  simp only [execute, hcallee]
                  exact .goes hcode hI (by simp) rfl
              | some callee =>
                  simp only [execute, hcallee]
                  exact .enters hcode hI hcallee
          | callHost index =>
              simp only [execute]
              split
              · exact .goes hcode hI (by simp) rfl
              · unfold callHost
                dsimp only
                split <;> exact .goes hcode hI (by simp) rfl
          | jump goal => exact .goes hcode hI (by simp) rfl
          | jumpIfTrue goal =>
              simp only [execute]
              split
              · exact .goes hcode hI (by simp) (.inl rfl)
              · exact .goes hcode hI (by simp) (.inr rfl)
          | jumpIfFalse goal =>
              simp only [execute]
              split
              · exact .goes hcode hI (by simp) (.inr rfl)
              · exact .goes hcode hI (by simp) (.inl rfl)
          | ret => exact .leaves
          | _ => exact .goes hcode hI (by simp) rfl

end Machine

/-! ## Activations and their gifts -/

/-- The activation of a function has been given what its locals hold: every local that is listed has
been given its first value, and a slot holds what it was given last. -/
structure Frame.Received (code : FunctionCode) (frame : Frame) (gifts : List Gift) : Prop where
  length : frame.slots.length = code.numSlots
  begun : ∀ l ∈ code.localsAt frame.pc, ∃ g ∈ gifts, g.Begins l
  held : ∀ (i : Nat) (v : Value), frame.slots[i]? = some v → v = (Gift.latest gifts i).getD .nothing

namespace Frame.Received

variable {r : Registry} {d : FunctionDecl} {code : FunctionCode} {index : Nat} {frame : Frame}
    {gifts : List Gift}

/-- While the activation goes on and stores nothing, it comes into no range. -/
theorem goes (made : emitFunction r index d = .ok code) (h : frame.Received code gifts)
    {I : Instruction} {target : Nat} (hI : code.instructions[frame.pc]? = some I)
    (hkeeps : ∀ slot, I ≠ .store slot) (hleads : I.Leads frame.pc target) :
    ({ frame with pc := target } : Frame).Received code gifts := by
  refine ⟨h.length, ?_, h.held⟩
  intro l hl
  rcases emitFunction_entered made hI hleads hl with hhere | ⟨-, -, hstore⟩
  · exact h.begun l hhere
  · exact absurd hstore (hkeeps _)

/-- A `store` gives a slot its value, and comes into the range that it begins. -/
theorem stores (made : emitFunction r index d = .ok code) (h : frame.Received code gifts)
    {slot : Nat} (v : Value) (hI : code.instructions[frame.pc]? = some (.store slot)) :
    ({ frame with pc := frame.pc + 1, slots := frame.slots.set slot v } : Frame).Received code
      (⟨some frame.pc, slot, v⟩ :: gifts) := by
  refine ⟨?_, ?_, ?_⟩
  · rw [List.length_set]
    exact h.length
  · intro l hl
    rcases emitFunction_entered made hI rfl hl with hhere | ⟨hvariable, hstart, hstore⟩
    · obtain ⟨g, hg, hbegins⟩ := h.begun l hhere
      exact ⟨g, List.mem_cons_of_mem _ hg, hbegins⟩
    · cases hstore
      exact ⟨_, List.mem_cons_self, rfl, hvariable, hstart⟩
  · intro i w hw
    by_cases hslot : slot = i
    · subst hslot
      rw [Gift.latest_cons_self, Option.getD_some]
      rw [List.getElem?_set_self'] at hw
      obtain ⟨_, -, hvalue⟩ := Option.map_eq_some_iff.mp hw
      exact hvalue.symm
    · rw [List.getElem?_set_ne hslot] at hw
      rw [Gift.latest_cons_of_ne hslot]
      exact h.held i w hw

/-- A new activation is in the ranges of its parameters only, and each has its argument. -/
theorem enters (made : emitFunction r index d = .ok code) {base : Nat} {arguments : List Value}
    (hcount : arguments.length = code.numParameters) :
    (Frame.enter code base arguments).Received code (Gift.ofArguments 0 arguments) := by
  have wellFormed := emitFunction_wellFormed made
  refine ⟨length_initialSlots _ _, ?_, ?_⟩
  · intro l hl
    obtain ⟨hmem, hat⟩ := FunctionCode.mem_localsAt.mp hl
    have hstart : l.live.start ≤ 0 := (LiveRange.contains_iff.mp hat).1
    have hparameter : l.isParameter = true := by
      cases hkind : l.isParameter with
      | true => rfl
      | false =>
          have := (wellFormed.variableLive l hmem hkind).1
          omega
    obtain ⟨k, hk⟩ := List.getElem?_of_mem hmem
    have hlt := (wellFormed.parameters k l hk).mp hparameter
    rw [← hcount] at hlt
    refine ⟨_, Gift.mem_ofArguments (List.getElem?_eq_getElem hlt), ?_, hparameter⟩
    rw [wellFormed.numbered k l hk, Nat.zero_add]
  · intro i v hv
    have hlatest := Gift.latest_ofArguments arguments 0 i
    rw [Nat.zero_add] at hlatest
    rw [hlatest]
    simp only [Frame.enter, initialSlots, List.getElem?_take] at hv
    split at hv
    · rcases Nat.lt_or_ge i arguments.length with hlt | hge
      · rw [List.getElem?_append_left hlt] at hv
        rw [hv, Option.getD_some]
      · rw [List.getElem?_append_right hge] at hv
        rw [List.getElem?_eq_none hge, Option.getD_none]
        exact List.eq_of_mem_replicate (List.mem_of_getElem? hv)
    · cases hv

/-- A slot that was filled holds what it was given last. -/
theorem slot_eq (h : frame.Received code gifts) {g : Gift} (hg : g ∈ gifts)
    (hslot : g.slot < code.numSlots) :
    Gift.latest gifts g.slot = some (frame.slot g.slot) := by
  obtain ⟨v, hv⟩ := Gift.exists_latest hg
  have hlt : g.slot < frame.slots.length := h.length ▸ hslot
  have hheld := h.held g.slot _ (List.getElem?_eq_getElem hlt)
  rw [hv, Option.getD_some] at hheld
  rw [hv, Frame.slot, List.getElem?_eq_getElem hlt, Option.getD_some, hheld]

/-- What is listed was given, and is shown as it was given last. -/
theorem shown (made : emitFunction r index d = .ok code) (h : frame.Received code gifts)
    {l : LocalInfo} (hl : l ∈ code.localsAt frame.pc) :
    (∃ g ∈ gifts, g.Begins l) ∧ Gift.latest gifts l.slot = some (frame.slot l.slot) := by
  obtain ⟨g, hg, hbegins⟩ := h.begun l hl
  have hmem := (FunctionCode.mem_localsAt.mp hl).1
  obtain ⟨k, hk⟩ := List.getElem?_of_mem hmem
  have hslot : l.slot < code.numSlots := by
    rw [(emitFunction_wellFormed made).numbered k l hk]
    exact (List.getElem?_eq_some_iff.mp hk).1
  refine ⟨⟨g, hg, hbegins⟩, ?_⟩
  rw [← hbegins.1] at hslot ⊢
  exact h.slot_eq hg hslot

end Frame.Received

/-! ## Every run -/

/-- Every activation of a function of a module has been given what its locals hold. -/
def Module.Received (module : Module σ) (frame : Frame) (gifts : List Gift) : Prop :=
  ∃ code, module.function? frame.function = some code ∧ frame.Received code gifts

namespace Machine

/-- What a machine lists and what it reads was given: each local that it lists was given its first
value in the activation that it is listed for, and its value is what its slot was given last there;
what the next instruction loads is what the slot was given last in the uppermost activation. -/
structure Accounted (m : Machine σ) (given : List (List Gift)) : Prop where
  locals : ∀ (k : Nat) (l : LocalInfo) (v : Value), (l, v) ∈ m.localsInScope k →
    ∃ gifts, given.reverse[k]? = some gifts ∧ (∃ g ∈ gifts, g.Begins l) ∧
    Gift.latest gifts l.slot = some v
  load : ∀ slot : Nat, m.instruction? = some (.load slot) →
    ∃ gifts, given.head? = some gifts ∧ Gift.latest gifts slot = some m.step.top

variable {p : CheckedProgram σ} {module : Module σ}

theorem accounted_of_received (made : emitModule p.functions p.environment = .ok module)
    {m : Machine σ} (hmodule : m.module = module) {given : List (List Gift)}
    (h : List.Forall₂ module.Received m.frames given) :
    m.Accounted given := by
  refine ⟨?_, ?_⟩
  · intro k l v hlisted
    unfold localsInScope at hlisted
    split at hlisted
    · cases hlisted
    · next frame hframe =>
        have hreceived := List.forall₂_reverse_iff.mpr h
        have hk : k < given.reverse.length := by
          rw [← hreceived.length_eq]
          exact (List.getElem?_eq_some_iff.mp hframe).1
        obtain ⟨hlt, hat⟩ := List.getElem?_eq_some_iff.mp hframe
        have hone := hreceived.get hlt hk
        simp only [List.get_eq_getElem, hat] at hone
        obtain ⟨code, hcode, hframed⟩ := hone
        rw [hmodule, hcode] at hlisted
        obtain ⟨l', hl', heq⟩ := List.mem_map.mp hlisted
        cases heq
        obtain ⟨d, -, hmade⟩ := emitModule_made made hcode
        obtain ⟨hbegun, hlatest⟩ := hframed.shown hmade hl'
        exact ⟨_, List.getElem?_eq_getElem hk, hbegun, hlatest⟩
  · intro slot hload
    cases hframes : m.frames with
    | nil => simp [instruction?, hframes] at hload
    | cons frame callers =>
        rw [hframes] at h
        cases h with
        | @cons _ gifts _ below hreceived _ =>
            obtain ⟨code, hcode, hframed⟩ := hreceived
            have hI : code.instructions[frame.pc]? = some (.load slot) := by
              simpa [instruction?, hframes, hmodule, hcode] using hload
            obtain ⟨d, -, hmade⟩ := emitModule_made made hcode
            obtain ⟨l, hl, rfl⟩ := (emitFunction_scopedBy hmade).load _ _ hI
            refine ⟨gifts, rfl, ?_⟩
            rw [(hframed.shown hmade hl).2]
            simp only [step, hframes, hmodule, hcode, hI, execute]
            rfl

/-- What runs of a compiled program keep, counting from the last restart. -/
structure Provided (p : CheckedProgram σ) (module : Module σ) (xs : List (Machine σ))
    (m : Machine σ) : Prop where
  counted : Counted p module xs m
  received : List.Forall₂ module.Received m.frames (giftsOver xs [[]])
  past : ∀ account ∈ accounts xs [[]], account.1.Accounted account.2

namespace Provided

variable {xs : List (Machine σ)} {m : Machine σ}

/-- **An instruction gives activations what they are to have.** -/
theorem step (made : emitModule p.functions p.environment = .ok module) (typed : p.Typed)
    (h : Provided p module xs m) (hpending : m.pending = none) (hframes : m.frames ≠ []) :
    Provided p module (xs ++ [m]) m.step := by
  have compiled := emitModule_compiles made
  refine ⟨(Counted.invariant compiled typed).step h.counted hpending hframes, ?_, ?_⟩
  · rw [giftsOver, List.foldl_append]
    show List.Forall₂ module.Received m.step.frames (m.giftsAfter (giftsOver xs [[]]))
    have hdisciplined := h.counted.disciplined compiled typed
    have hreceived := h.received
    generalize giftsOver xs [[]] = given at hreceived ⊢
    cases hcons : m.frames with
    | nil => exact absurd hcons hframes
    | cons frame callers =>
        rw [hcons] at hreceived
        cases hreceived with
        | @cons _ gifts _ below htop hbelow =>
            obtain ⟨code', hcode', hframed⟩ := htop
            obtain ⟨d, -, hmade⟩ := emitModule_made made hcode'
            have hsame {code : FunctionCode}
                (hcode : m.module.function? frame.function = some code) :
                code = code' := by
              rw [h.counted.module_eq, hcode', Option.some.injEq] at hcode
              exact hcode.symm
            have hhands := step_hands gifts below hcons
            generalize m.step.frames = frames, m.giftsAfter (gifts :: below) = after at hhands ⊢
            cases hhands with
            | leaves => exact hbelow
            | goes hcode hI hkeeps hleads =>
                cases hsame hcode
                exact .cons ⟨code', hcode', hframed.goes hmade hI hkeeps hleads⟩ hbelow
            | stores hcode hI =>
                cases hsame hcode
                exact .cons ⟨code', hcode', hframed.stores hmade _ hI⟩ hbelow
            | @enters _ callee index base hcode hI hcallee =>
                cases hsame hcode
                -- There is an operand for each parameter.
                have hsupplied :=
                  hdisciplined.supplied hpending frame code' _ (by rw [hcons]; rfl) hcode hI
                have hcount : (m.arguments callee.numParameters).length = callee.numParameters := by
                  rw [arguments, List.length_reverse, List.length_take]
                  refine Nat.min_eq_left ?_
                  rcases hsupplied with htakes | ⟨-, hret, -⟩
                  · rw [Instruction.takes, hcallee, Option.map_some, Option.getD_some, height]
                      at htakes
                    omega
                  · cases hret
                rw [h.counted.module_eq] at hcallee
                obtain ⟨e, -, hcalleeMade⟩ := emitModule_made made hcallee
                refine .cons ⟨callee, ?_, .enters hcalleeMade hcount⟩
                  (.cons ⟨code', hcode', ?_⟩ hbelow)
                · rw [Frame.enter, (emitFunction_wellFormed hcalleeMade).index]
                  exact hcallee
                · exact hframed.goes hmade hI (by simp) rfl
  · rw [accounts_concat]
    intro account haccount
    rcases List.mem_append.mp haccount with hbefore | hlast
    · exact h.past account hbefore
    · cases List.mem_singleton.mp hlast
      exact accounted_of_received made h.counted.module_eq h.received

theorem invariant (made : emitModule p.functions p.environment = .ok module) (typed : p.Typed) :
    Invariant (Provided p module) := by
  have inv := Counted.invariant (emitModule_compiles made) typed
  refine ⟨fun h hpending hframes => h.step made typed hpending hframes, ?_, ?_, ?_⟩
  · intro xs m call h hframes hpending hdone
    refine ⟨inv.resume h.counted hframes hpending hdone, ?_, h.past⟩
    rw [resume_of_pending hpending]
    exact h.received
  · exact fun h hframes => ⟨inv.settle h.counted hframes, h.received, h.past⟩
  · exact fun table h => ⟨inv.breakpoints table h.counted, h.received, h.past⟩

theorem restart (made : emitModule p.functions p.environment = .ok module)
    (hmodule : m.module = module) {main : FunctionDecl} (hmain : p.functions[0]? = some main)
    (harrow : main.arrow = ⟨[], .nothing⟩) :
    Provided p module [] m.restart := by
  have compiled := emitModule_compiles made
  refine ⟨.restart hmodule (by simp) compiled hmain harrow, ?_, by simp [accounts]⟩
  obtain ⟨code, hcode, hcompiled⟩ := compiled.function hmain
  obtain ⟨d, -, hmade⟩ := emitModule_made made hcode
  have hparams : main.params.length = 0 := by
    rw [← List.length_map (f := fun p : Param => p.ty.getD .nothing)]
    exact congrArg (fun arrow : Arrow => arrow.params.length) harrow
  have hfirst : m.restart.frames = [Frame.enter code 0 []] := by
    rw [Module.function?] at hcode
    rw [Machine.restart, hmodule, Module.main?, List.head?_eq_getElem?, hcode]
    rfl
  rw [hfirst]
  refine .cons ⟨code, ?_, ?_⟩ .nil
  · rw [Frame.enter, hcompiled.index]
    exact hcode
  · exact .enters hmade (by rw [hcompiled.numParameters, hparams, List.length_nil])

end Provided

end Machine

/-- **Locals that are listed were given their values.** In a compiled program the locals that an
instruction lists have names of their own, and what it reads or assigns to is among them. However
the program is driven, whatever it lists and whatever it reads was given to the same activation, as
an argument or by the `store` that the local begins with: between any two events, and whenever an
instruction is executed. -/
theorem locals_in_scope_given {source : String} {host : HostTable σ} {module : Module σ}
    {p : CheckedProgram σ} (hcompile : compile source host = .ok module)
    (hcheck : checkSource source host = .ok p) (limit : Nat) (world : World σ)
    (events : List Event) :
    (∀ (index : Nat) (code : FunctionCode), module.function? index = some code →
      ∃ d, p.functions[index]? = some d ∧ code.ScopedBy d) ∧
    let executed := (Machine.start module limit world).sinceRestart [] events
    (∀ account ∈ Machine.accounts executed [[]], account.1.Accounted account.2) ∧
      ((Machine.start module limit world).handleAll events).Accounted
        (Machine.giftsOver executed [[]]) := by
  obtain ⟨p', hcheck', made⟩ := compile_eq_ok.mp hcompile
  rw [hcheck, Except.ok.injEq] at hcheck'
  subst hcheck'
  obtain ⟨typed, -, main, others, hfunctions, harrow⟩ := checkSource_typed hcheck
  have hmain : p.functions[0]? = some main := by rw [hfunctions, List.getElem?_cons_zero]
  refine ⟨?_, ?_⟩
  · intro index code hcode
    obtain ⟨d, hd, hmade⟩ := emitModule_made made hcode
    exact ⟨d, hd, emitFunction_scopedBy hmade⟩
  · have hstart : Machine.Provided p module [] (Machine.start module limit world) :=
      .restart made rfl hmain harrow
    have hall := (Machine.Provided.invariant made typed).sinceRestart
      (fun future v h => ⟨h.counted.complete future v, h.received, h.past⟩)
      (fun h => .restart made h.counted.module_eq hmain harrow) events hstart
    exact ⟨hall.past, Machine.accounted_of_received made hall.counted.module_eq hall.received⟩

/-- A program that calls a function with a variable of its own. -/
def pickingSource : String :=
  "fun pick(x: boolean): boolean\n  var y = x\n  return y\nend\nvar a = pick(true)\n"

theorem locals_in_scope_given_called : ∃ (module : Module Unit) (p : CheckedProgram Unit),
    compile pickingSource [] = .ok module ∧ checkSource pickingSource [] = .ok p ∧
    let start := Machine.start module 1000 (.initial ())
    (((start.run 5).localsInScope 1).map fun shown => (shown.1.name, shown.2.asBool)) =
      [("x", true), ("y", true)] ∧
      (start.run 5).Accounted (Machine.giftsOver (start.executed (.run 5)) [[]]) := by
  have hlisted : ((compile pickingSource ([] : HostTable Unit)).map fun module =>
      ((((Machine.start module 1000 (.initial ())).run 5).localsInScope 1).map fun shown =>
        (shown.1.name, shown.2.asBool))) = .ok [("x", true), ("y", true)] := by decide +kernel
  obtain ⟨module, hmodule, hlisted⟩ := Diagnosed.map_eq_ok.mp hlisted
  obtain ⟨p, hcheck, -⟩ := compile_eq_ok.mp hmodule
  exact ⟨module, p, hmodule, hcheck, hlisted,
    (locals_in_scope_given hmodule hcheck 1000 (.initial ()) [.act (.run 5)]).2.2⟩

end Stepwise
