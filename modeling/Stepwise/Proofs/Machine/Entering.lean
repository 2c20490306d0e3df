import Stepwise.Proofs.Code.Extent
import Stepwise.Proofs.Machine.Moves

/-!
# Statements are entered

A debugger shows the statement whose number the next instruction carries. In a compiled program that
statement was entered: the same activation has been at the instruction where the statement begins,
however the machine was driven (`shown_statements_entered`).

The activations of a machine are followed along its `course`: how they were before each instruction,
and how they are in the end. They move as their code leads, and the extent of a statement can only
be entered where it begins. So whoever is in it came in there (`Entered.moves`).

Instructions that borrow their number are excepted. They show a statement that may have been passed
by (`passed_statement_shown`).
-/

set_option autoImplicit false

namespace Stepwise

variable {σ : Type}

/-! ## Courses -/

/-- How the activations are before each instruction that events in a row execute, and in the end. -/
def Machine.course (m : Machine σ) (events : List Event) : List (List Frame) :=
  (m.history events).map (·.frames) ++ [(m.handleAll events).frames]

/-- Something held of the activation of number `k` at a moment of a course, and that activation has
been there since. -/
inductive Since (k : Nat) (P : Frame → Prop) : List (List Frame) → Prop
  | now {past : List (List Frame)} {frames : List Frame} {frame : Frame} :
      frames.reverse[k]? = some frame → P frame → Since k P (past ++ [frames])
  | later {past : List (List Frame)} {frames : List Frame} :
      Since k P past → k < frames.length → Since k P (past ++ [frames])

theorem Since.imp {k : Nat} {P Q : Frame → Prop} {course : List (List Frame)}
    (hall : ∀ {f : Frame}, P f → Q f) (h : Since k P course) : Since k Q course := by
  induction h with
  | now hframe hp => exact .now hframe (hall hp)
  | later _ hlt ih => exact .later ih hlt

/-- The number of an activation is the number of those below it. -/
theorem getElem?_reverse_of_suffix {frame : Frame} {callers frames : List Frame}
    (h : frame :: callers <:+ frames) :
    frames.reverse[callers.length]? = some frame := by
  obtain ⟨above, rfl⟩ := h
  rw [List.reverse_append, List.reverse_cons, List.append_assoc, ← List.length_reverse,
    List.getElem?_append_right (Nat.le_refl _), Nat.sub_self]
  rfl

theorem suffix_of_getElem?_reverse {frame : Frame} {frames : List Frame} {k : Nat}
    (h : frames.reverse[k]? = some frame) :
    ∃ callers, callers.length = k ∧ frame :: callers <:+ frames := by
  induction frames with
  | nil => cases h
  | cons top rest ih =>
      rw [List.reverse_cons] at h
      rcases Nat.lt_or_ge k rest.length with hlt | hge
      · rw [List.getElem?_append_left (by simpa using hlt)] at h
        obtain ⟨callers, hlength, hsuffix⟩ := ih h
        exact ⟨callers, hlength, hsuffix.trans (List.suffix_cons _ _)⟩
      · rw [List.getElem?_append_right (by simpa using hge), List.length_reverse,
          List.getElem?_singleton] at h
        split at h
        · cases h
          exact ⟨rest, by omega, List.suffix_refl _⟩
        · cases h

/-- Something holds at every moment of a course, given what was before. -/
def Throughout {α : Type} (Q : List α → α → Prop) (course : List α) : Prop :=
  ∀ past now later, course = past ++ now :: later → Q past now

/-- A moment of a course is the last one, or comes before it. -/
theorem split_concat {α : Type} {course past later : List α} {last now : α}
    (h : course ++ [last] = past ++ now :: later) :
    (course = past ∧ last = now ∧ later = []) ∨
      ∃ between, later = between ++ [last] ∧ course = past ++ now :: between := by
  rcases List.eq_nil_or_concat later with rfl | ⟨between, other, rfl⟩
  · obtain ⟨rfl, hlast⟩ := List.append_inj' h rfl
    exact .inl ⟨rfl, List.head_eq_of_cons_eq hlast, rfl⟩
  · rw [List.concat_eq_append, ← List.cons_append, ← List.append_assoc] at h
    obtain ⟨rfl, hlast⟩ := List.append_inj' h rfl
    cases hlast
    exact .inr ⟨between, List.concat_eq_append, rfl⟩

theorem throughout_concat {α : Type} {Q : List α → α → Prop} {course : List α} {last : α} :
    Throughout Q (course ++ [last]) ↔ Throughout Q course ∧ Q course last := by
  constructor
  · intro h
    exact ⟨fun past now later heq => h past now (later ++ [last]) (by simp [heq]),
      h course last [] rfl⟩
  · rintro ⟨hbefore, hlast⟩ past now later heq
    rcases split_concat heq with ⟨rfl, rfl, -⟩ | ⟨between, -, hsplit⟩
    · exact hlast
    · exact hbefore past now between hsplit

/-! ## Statements are entered where they begin -/

variable {p : CheckedProgram σ} {module : Module σ}

/-- Every activation that is in the extent of a statement has been where the statement begins. -/
def Entered (p : CheckedProgram σ) (past : List (List Frame)) (frames : List Frame) : Prop :=
  ∀ (frame : Frame) (callers : List Frame) (d : FunctionDecl) (i start stop : Nat),
    frame :: callers <:+ frames →
    p.functions[frame.function]? = some d → d.Extent i start stop → start ≤ frame.pc →
    frame.pc < stop →
    Since callers.length (fun f => f.function = frame.function ∧ f.pc = start) (past ++ [frames])

namespace Entered

variable {past : List (List Frame)} {frame : Frame} {callers frames frames' : List Frame}

/-- Where a function begins, a statement begins. -/
theorem of_pc_eq_zero (hpc : frame.pc = 0) {start : Nat} (hsuffix : frame :: callers <:+ frames)
    (hstart : start ≤ frame.pc) :
    Since callers.length (fun f => f.function = frame.function ∧ f.pc = start) (past ++ [frames]) :=
  .now (getElem?_reverse_of_suffix hsuffix) ⟨rfl, by omega⟩

/-- An activation that goes on has been where its statements begin. -/
theorem goes (made : emitModule p.functions p.environment = .ok module)
    (h : Entered p past (frame :: callers)) {code : FunctionCode} {I : Instruction} {target : Nat}
    {slots : List Value} (hcode : module.function? frame.function = some code)
    (hI : code.instructions[frame.pc]? = some I) (hleads : I.Leads frame.pc target)
    (hsuffix : (⟨frame.function, target, slots, frame.base⟩ : Frame) :: callers <:+ frames')
    {d : FunctionDecl} {i start stop : Nat} (hd : p.functions[frame.function]? = some d)
    (hextent : d.Extent i start stop) (hstart : start ≤ target) (hstop : target < stop) :
    Since callers.length (fun f => f.function = frame.function ∧ f.pc = start)
      (past ++ [frame :: callers] ++ [frames']) := by
  rcases Nat.eq_or_lt_of_le hstart with rfl | hinside
  · exact .now (getElem?_reverse_of_suffix hsuffix) ⟨rfl, rfl⟩
  · obtain ⟨d', hd', hmade⟩ := emitModule_made made hcode
    rw [hd, Option.some.injEq] at hd'
    subst hd'
    rw [(emitFunction_compiled hmade).getElem?] at hI
    have hflows : Flows (d.code p.environment.registry) 0 frame.pc target :=
      ⟨I, ⟨frame.pc, (Nat.zero_add _).symm, hI⟩, hleads⟩
    obtain ⟨hlow, hhigh⟩ := hextent.entered hflows hinside hstop
    exact .later (h frame callers d i start stop (List.suffix_refl _) hd hextent hlow hhigh)
      hsuffix.length_le

/-- **What moves as code leads enters statements where they begin.** -/
theorem moves (made : emitModule p.functions p.environment = .ok module) (h : Entered p past frames)
    (hmoves : Machine.Moves module frames frames') : Entered p (past ++ [frames]) frames' := by
  intro frame callers d i start stop hsuffix hd hextent hstart hstop
  have hstays (hbefore : frame :: callers <:+ frames) :
      Since callers.length (fun f => f.function = frame.function ∧ f.pc = start)
        (past ++ [frames] ++ [frames']) :=
    .later (h frame callers d i start stop hbefore hd hextent hstart hstop) hsuffix.length_le
  cases hmoves with
  | leaves => exact hstays (hsuffix.trans (List.suffix_cons _ _))
  | goes hcode hI hleads =>
      rcases List.suffix_cons_iff.mp hsuffix with heq | hbelow
      · cases heq
        exact goes made h hcode hI hleads hsuffix hd hextent hstart hstop
      · exact hstays (hbelow.trans (List.suffix_cons _ _))
  | enters hcode hI hleads hcallee hfunction hentered =>
      rcases List.suffix_cons_iff.mp hsuffix with heq | hbelow
      · cases heq
        exact of_pc_eq_zero hentered hsuffix hstart
      · rcases List.suffix_cons_iff.mp hbelow with heq | hbelow'
        · cases heq
          exact goes made h hcode hI hleads hsuffix hd hextent hstart hstop
        · exact hstays (hbelow'.trans (List.suffix_cons _ _))

/-- An activation that is alone at its beginning has entered what it is in. -/
theorem restart (m : Machine σ) : Entered p past m.restart.frames := by
  intro frame callers d i start stop hsuffix hd hextent hstart hstop
  have hfirst : frame.pc = 0 := by
    simp only [Machine.restart] at hsuffix
    have hmem : frame ∈ (m.module.main?.map fun code => Frame.enter code 0 []).toList :=
      hsuffix.subset List.mem_cons_self
    simp only [Option.mem_toList, Option.map_eq_some_iff] at hmem
    obtain ⟨code, -, rfl⟩ := hmem
    rfl
  exact of_pc_eq_zero hfirst hsuffix hstart

/-- Having entered whatever an activation is in survives every change of a machine. -/
theorem invariant (made : emitModule p.functions p.environment = .ok module) :
    Machine.Invariant fun xs (m : Machine σ) =>
      m.module = module ∧ Throughout (Entered p) (xs.map (·.frames) ++ [m.frames]) where
  step := by
    rintro xs m ⟨hmodule, hall⟩ - hframes
    refine ⟨m.step_unchanged.1.trans hmodule, ?_⟩
    rw [List.map_append]
    have hmoves := Machine.step_moves hframes
    rw [hmodule] at hmoves
    exact throughout_concat.mpr ⟨hall, moves made (throughout_concat.mp hall).2 hmoves⟩
  resume := by
    rintro xs m call h - hpending -
    rw [Machine.resume_of_pending hpending]
    exact h
  settle h _ := h
  breakpoints _ h := h

end Entered

/-- A statement of a function begins at an instruction: it is the first that carries the statement's
number. -/
def FunctionCode.BeginsAt (code : FunctionCode) (i pc : Nat) : Prop :=
  code.lineInfos[pc]?.map (·.index) = some i ∧
    ∀ earlier : Nat, code.lineInfos[earlier]?.map (·.index) = some i → pc ≤ earlier

/-- **Statements that are shown were entered.** However a machine is driven behind a restart on a
compiled program, whenever an instruction of an activation is next that does not borrow its number,
that activation is or has been at the first instruction of the statement whose number it carries. So
the first instruction with that number that it comes to is the one where the statement begins. -/
theorem shown_statements_entered {source : String} {host : HostTable σ}
    (hcompile : compile source host = .ok module) (hcheck : checkSource source host = .ok p)
    {m : Machine σ} (hmodule : m.module = module) {events : List Event}
    {past later : List (List Frame)} {frames : List Frame}
    (hcourse : m.restart.course events = past ++ frames :: later) {k : Nat} {frame : Frame}
    (hframe : frames.reverse[k]? = some frame) {code : FunctionCode} {d : FunctionDecl}
    {info : LineInfo} (hcode : module.function? frame.function = some code)
    (hd : p.functions[frame.function]? = some d) (hinfo : code.lineInfos[frame.pc]? = some info)
    (hown : d.borrows frame.pc = false) :
    Since k (fun f => f.function = frame.function ∧ (∃ stop, d.Extent info.index f.pc stop) ∧
      code.BeginsAt info.index f.pc) (past ++ [frames]) := by
  obtain ⟨p', hcheck', made⟩ := compile_eq_ok.mp hcompile
  rw [hcheck, Except.ok.injEq] at hcheck'
  subst hcheck'
  obtain ⟨d', hd', hmade⟩ := emitModule_made made hcode
  rw [hd, Option.some.injEq] at hd'
  subst hd'
  have hmarks (pc i : Nat) : code.lineInfos[pc]?.map (·.index) = some i ↔
      Placed d.marks 0 pc i := by
    rw [← emitFunction_numbered hmade]
    simp [Placed]
  -- The activation is in the extent of the statement whose number it shows.
  obtain ⟨start, stop, hextent, hstart, hstop | hborrows⟩ :=
    d.marks_covered ((hmarks _ _).mp (by rw [hinfo]; rfl))
  · have hall := @Machine.Invariant.handleAll _ _ (Entered.invariant made) (fun _ _ h => h)
      (fun h => ⟨h.1, throughout_concat.mpr ⟨(throughout_concat.mp h.2).1, Entered.restart _⟩⟩)
        events [] m.restart
      ⟨hmodule, throughout_concat.mpr ⟨by simp [Throughout], Entered.restart m⟩⟩
    obtain ⟨callers, rfl, hsuffix⟩ := suffix_of_getElem?_reverse hframe
    refine (hall.2 past frames later hcourse frame callers d info.index start stop hsuffix hd
      hextent hstart hstop).imp ?_
    rintro f ⟨hfunction, rfl⟩
    obtain ⟨hmarked, hfirst⟩ := hextent.first
    exact ⟨hfunction, ⟨stop, hextent⟩, (hmarks _ _).mpr hmarked, fun earlier h =>
      hfirst _ ((hmarks _ _).mp h)⟩
  · rw [hown] at hborrows
    cases hborrows

/-- The jump behind a block belongs to the statement that ends the block. -/
theorem shown_statements_entered_branching : ∃ (module : Module Unit) (p : CheckedProgram Unit)
    (code : FunctionCode) (d : FunctionDecl) (frame : Frame),
    compile "if true then\n  true\nend\n" [] = .ok module ∧
    checkSource "if true then\n  true\nend\n" [] = .ok p ∧ module.function? 0 = some code ∧
    p.functions[0]? = some d ∧ ((Machine.start module 1000 (.initial ())).restart.run 4).frames =
      [frame] ∧
    code.lineInfos[frame.pc]? = some ⟨1, 2⟩ ∧ d.borrows frame.pc = false ∧
    Since 0 (fun f => f.function = 0 ∧ (∃ stop, d.Extent 1 f.pc stop) ∧ code.BeginsAt 1 f.pc)
      ((Machine.start module 1000 (.initial ())).restart.course [.act (.run 4)]) := by
  have hinfos : ((compile "if true then\n  true\nend\n" ([] : HostTable Unit)).map fun module =>
      (module.function? 0).map fun code => code.lineInfos[4]?) = .ok (some (some ⟨1, 2⟩)) := by
    decide +kernel
  have hstops : ((compile "if true then\n  true\nend\n" ([] : HostTable Unit)).map fun module =>
      ((Machine.start module 1000 (.initial ())).restart.run 4).frames.map fun f =>
        (f.function, f.pc)) =
        .ok [(0, 4)] := by decide +kernel
  have hchecked : ((checkSource "if true then\n  true\nend\n" ([] : HostTable Unit)).map fun p =>
      (p.functions[0]?).map fun d => d.borrows 4) = .ok (some false) := by decide +kernel
  obtain ⟨module, hcompile, hstops⟩ := Diagnosed.map_eq_ok.mp hstops
  obtain ⟨p, hcheck, hchecked⟩ := Diagnosed.map_eq_ok.mp hchecked
  rw [hcompile, Except.map, Except.ok.injEq] at hinfos
  simp only [Option.map_eq_some_iff, List.map_eq_singleton_iff, Prod.mk.injEq]
    at hinfos hstops hchecked
  obtain ⟨code, hcode, hinfo⟩ := hinfos
  obtain ⟨frame, hframes, hfunction, hpc⟩ := hstops
  obtain ⟨d, hd, hown⟩ := hchecked
  rw [← hpc] at hinfo hown
  rw [← hfunction] at hcode hd
  let m := Machine.start module 1000 (World.initial ())
  have hshown : (m.restart.run 4).frames.reverse[0]? = some frame := by
    rw [hframes]
    rfl
  have hcourse : m.restart.course [.act (.run 4)] =
      (m.restart.history [.act (.run 4)]).map (·.frames) ++
        (m.restart.run 4).frames :: [] := rfl
  have hsince :=
    shown_statements_entered hcompile hcheck rfl hcourse hshown hcode hd hinfo hown
  rw [hfunction] at hcode hd hsince
  exact ⟨module, p, code, d, frame, hcompile, hcheck, hcode, hd, hframes, hinfo, hown, hsince⟩

/-- The closing `return` behind an `if` shows the last statement inside, be it that it was passed
by: statement 1 begins at the instruction 2, where the program does not come. -/
theorem passed_statement_shown : ∃ (module : Module Unit) (code : FunctionCode),
    compile "if false then\n  true\nend\n" [] = .ok module ∧ module.function? 0 = some code ∧
    code.BeginsAt 1 2 ∧
    ((Machine.start module 1000 (.initial ())).restart.run 2).statement? = some 1 ∧
    ∀ frames ∈ (Machine.start module 1000 (.initial ())).restart.course [.act (.run 2)],
      ∀ f ∈ frames,
      f.pc ≠ 2 := by
  have hmarks : ((compile "if false then\n  true\nend\n" ([] : HostTable Unit)).map fun module =>
      (module.function? 0).map fun code => code.lineInfos.toList.map (·.index)) =
        .ok (some [0, 0, 1, 1, 1, 1]) := by decide +kernel
  have hshown : ((compile "if false then\n  true\nend\n" ([] : HostTable Unit)).map fun module =>
      ((Machine.start module 1000 (.initial ())).restart.run 2).statement?) = .ok (some 1) := by
    decide +kernel
  have hcourse : ((compile "if false then\n  true\nend\n" ([] : HostTable Unit)).map fun module =>
      ((Machine.start module 1000 (.initial ())).restart.course [.act (.run 2)]).map
        (·.map (·.pc))) =
        .ok [[0], [1], [5]] := by decide +kernel
  obtain ⟨module, hcompile, hshown⟩ := Diagnosed.map_eq_ok.mp hshown
  rw [hcompile, Except.map, Except.ok.injEq] at hmarks hcourse
  simp only [Option.map_eq_some_iff] at hmarks hshown hcourse
  obtain ⟨code, hcode, hmarks⟩ := hmarks
  have hat (pc : Nat) : code.lineInfos[pc]?.map (·.index) = [0, 0, 1, 1, 1, 1][pc]? := by
    rw [← hmarks]
    simp
  refine ⟨module, code, hcompile, hcode, ⟨hat 2, ?_⟩, hshown, ?_⟩
  · intro earlier hearlier
    rw [hat] at hearlier
    rcases earlier with _ | _ | earlier
    · cases hearlier
    · cases hearlier
    · exact Nat.le_add_left _ _
  · intro frames hframes f hf hpc
    have hmem : frames.map (·.pc) ∈ [[0], [1], [5]] := hcourse ▸ List.mem_map_of_mem hframes
    have htwo : 2 ∈ frames.map (·.pc) := hpc ▸ List.mem_map_of_mem hf
    simp only [List.mem_cons, List.not_mem_nil, or_false] at hmem
    rcases hmem with h | h | h <;> simp [h] at htwo

end Stepwise
