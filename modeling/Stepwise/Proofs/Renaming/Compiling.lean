import Mathlib.SetTheory.Cardinal.Arithmetic
import Stepwise.Compile
import Stepwise.Proofs.Code.Numbering
import Stepwise.Proofs.Code.Table
import Stepwise.Proofs.Renaming.Making
import Stepwise.Proofs.Typing.Completion

/-!
# What names decide

Nothing but what locals are called. It is enough that a renaming gives different names to different
variables of each function: on the finitely many names of a function it agrees with one that never
gives the same name twice (`exists_injective_extension`), and neither the renamed program nor the
names of the locals depend on more (`FunctionDecl.rename_congr`, `emitModule_names`).
-/

set_option autoImplicit false

namespace Stepwise

open Diagnosed

variable {σ : Type}

/-! ## Names in checked programs and in tables -/

section Names

variable {r : Registry}

mutual

theorem Expr.Completed.names_eq : ∀ {e e' : Expr}, e.Completed r e' → e'.names = e.names
  | _, _, .number | _, _, .boolean | _, _, .string | _, _, .reference => rfl
  | _, _, .call h => by rw [Expr.names, Expr.names, Expr.AllCompleted.names_eq h]
  | _, _, .field h => by rw [Expr.names, Expr.names, Expr.Completed.names_eq h]
  | _, _, .unary h => by rw [Expr.names, Expr.names, Expr.Completed.names_eq h]
  | _, _, .binary h h' _ _ =>
    by rw [Expr.names, Expr.names, Expr.Completed.names_eq h, Expr.Completed.names_eq h']
  | _, _, .equal h h' _ _ _ => by
      rw [Expr.names, Expr.names, Expr.namesIn, Expr.namesIn, Expr.namesIn, List.append_nil,
        Expr.Completed.names_eq h, Expr.Completed.names_eq h']
  | _, _, .notEqual h h' _ _ _ => by
      rw [Expr.names, Expr.names, Expr.names, Expr.namesIn, Expr.namesIn, Expr.namesIn,
        List.append_nil, Expr.Completed.names_eq h, Expr.Completed.names_eq h']

theorem Expr.AllCompleted.names_eq : ∀ {es es' : List Expr}, Expr.AllCompleted r es es' →
    Expr.namesIn es' = Expr.namesIn es
  | _, _, .nil => rfl
  | _, _, .cons h hrest => by
      rw [Expr.namesIn, Expr.namesIn, Expr.Completed.names_eq h, Expr.AllCompleted.names_eq hrest]

end

mutual

theorem Stmt.Completed.names_eq : ∀ {s s' : Stmt}, s.Completed r s' → s'.names = s.names
  | _, _, .expr h => h.names_eq
  | _, _, .var h => by rw [Stmt.names, Stmt.names, h.names_eq]
  | _, _, .assign h h' => by rw [Stmt.names, Stmt.names, h.names_eq, h'.names_eq]
  | _, _, .cond h hthen helse => by
      rw [Stmt.names, Stmt.names, h.names_eq, Stmt.AllCompleted.names_eq hthen,
        Stmt.AllCompleted.names_eq helse]
  | _, _, .whileLoop h hbody | _, _, .repeatLoop h hbody => by
      rw [Stmt.names, Stmt.names, h.names_eq, Stmt.AllCompleted.names_eq hbody]
  | _, _, .retValue h => h.names_eq
  | _, _, .retNothing | _, _, .breakLoop | _, _, .continueLoop | _, _, .comment => rfl

/-- Checking leaves names as they are. -/
theorem Stmt.AllCompleted.names_eq : ∀ {ss ss' : List Stmt}, Stmt.AllCompleted r ss ss' →
    Stmt.namesIn ss' = Stmt.namesIn ss
  | _, _, .nil => rfl
  | _, _, .cons h hrest => by
      rw [Stmt.namesIn, Stmt.namesIn, Stmt.Completed.names_eq h, Stmt.AllCompleted.names_eq hrest]

end

theorem FunctionDecl.Completed.names_eq {d d' : FunctionDecl} (h : d.Completed r d') :
    d'.names = d.names := by
  obtain ⟨params, t, body, hparams, hbody, rfl⟩ := h
  rw [names, names, Param.names_of_completed hparams, hbody.names_eq]

end Names

mutual

theorem Stmt.name_mem_names :
    ∀ (s : Stmt) {blockEnd pc : Nat} {l : LocalInfo}, l ∈ s.table blockEnd pc →
    l.name ∈ s.names
  | .var decl, blockEnd, pc, l, h => by
      cases List.mem_singleton.mp h
      exact List.mem_cons_self
  | .cond condition thenBlock elseBlock span, blockEnd, pc, l, h => by
      rcases List.mem_append.mp h with h | h
      · exact List.mem_append_left _ (List.mem_append_right _ (Stmt.name_mem_namesIn thenBlock h))
      · exact List.mem_append_right _ (Stmt.name_mem_namesIn elseBlock h)
  | .whileLoop condition body span, blockEnd, pc, l, h =>
    List.mem_append_right _ (Stmt.name_mem_namesIn body h)
  | .repeatLoop count body span, blockEnd, pc, l, h =>
    List.mem_append_right _ (Stmt.name_mem_namesIn body h)
  | .expr _, _, _, _, h | .assign .., _, _, _, h | .ret .., _, _, _, h | .breakLoop _, _, _, _, h
  | .continueLoop _, _, _, _, h | .comment .., _, _, _, h => absurd h List.not_mem_nil

theorem Stmt.name_mem_namesIn : ∀ (ss : List Stmt) {blockEnd pc : Nat} {l : LocalInfo},
    l ∈ Stmt.tables blockEnd pc ss → l.name ∈ Stmt.namesIn ss
  | [], _, _, _, h => absurd h List.not_mem_nil
  | s :: rest, _, _, _, h => by
      rcases List.mem_append.mp h with h | h
      · exact List.mem_append_left _ (Stmt.name_mem_names s h)
      · exact List.mem_append_right _ (Stmt.name_mem_namesIn rest h)

end

/-- The locals of a function bear names of the function. -/
theorem FunctionDecl.name_mem_names {d : FunctionDecl} {l : LocalInfo} (h : l ∈ d.table) :
    l.name ∈ d.names := by
  rcases List.mem_append.mp h with h | h
  · obtain ⟨p, hp, rfl⟩ := List.mem_map.mp h
    exact List.mem_append_left _ (List.mem_map_of_mem hp)
  · exact List.mem_append_right _ (Stmt.name_mem_namesIn d.body h)

/-- **The locals of a module bear names of the program** that it was made of. -/
theorem emitModule_names {records : List RecordDecl} {functions : List FunctionDecl}
    {checked : CheckedProgram σ} {module : Module σ}
    (hcompletes : checked.Completes records functions)
    (h : emitModule checked.functions checked.environment = .ok module) {index : Nat}
    {code : FunctionCode} (hcode : module.function? index = some code) :
    ∃ d, functions[index]? = some d ∧ ∀ l ∈ code.locals, l.name ∈ d.names := by
  obtain ⟨d', hd', hmade⟩ := emitModule_made h hcode
  obtain ⟨hindex, hd'⟩ := List.getElem?_eq_some_iff.mp hd'
  have hlength := hcompletes.functions.length_eq
  refine ⟨functions[index], List.getElem?_eq_getElem (hlength ▸ hindex), fun l hl => ?_⟩
  have hcompleted := hcompletes.functions.get (hlength ▸ hindex) hindex
  simp only [List.get_eq_getElem, hd'] at hcompleted
  rw [emitFunction_table hmade] at hl
  exact hcompleted.names_eq ▸ FunctionDecl.name_mem_names hl

/-- Renamings that agree on the names of locals rename code alike. -/
theorem FunctionCode.renameEach_congr {ρ ρ' : Nat → String → String} {codes : List FunctionCode} :
    ∀ {start : Nat},
    (∀ {i : Nat} {code : FunctionCode}, codes[i]? = some code →
      ∀ l ∈ code.locals, ρ (start + i) l.name = ρ' (start + i) l.name) →
      FunctionCode.renameEach ρ start codes = FunctionCode.renameEach ρ' start codes := by
  induction codes with
  | nil => exact fun _ => rfl
  | cons code rest ih =>
      intro start h
      have hhead : code.rename (ρ start) = code.rename (ρ' start) := by
        have hlocals : code.locals.map (LocalInfo.rename (ρ start)) =
            code.locals.map (LocalInfo.rename (ρ' start)) := by
          refine List.map_congr_left fun l hl => ?_
          have hname : ρ start l.name = ρ' start l.name := h (i := 0) rfl l hl
          rw [LocalInfo.rename, LocalInfo.rename, hname]
        rw [rename, rename, hlocals]
      have htail : renameEach ρ (start + 1) rest = renameEach ρ' (start + 1) rest := by
        refine ih fun {i code} hcode l hl => ?_
        have hl' := h (i := i + 1) hcode l hl
        rwa [← Nat.add_assoc, Nat.add_right_comm] at hl'
      rw [renameEach, renameEach, hhead, htail]

/-! ## Renamings of finitely many names -/

/-- **A renaming that gives different names to some finitely many names** agrees on these with one
that gives different names to all names. -/
theorem exists_injective_extension {names : List String} {ρ : String → String}
    (h : Set.InjOn ρ {x | x ∈ names}) :
    ∃ ρ' : String → String, ρ'.Injective ∧ ∀ x ∈ names, ρ x = ρ' x := by
  have hfinite : {x | x ∈ names}.Finite := names.finite_toSet
  have hfew : Cardinal.mk {x | x ∈ names} < Cardinal.mk String :=
    hfinite.lt_aleph0.trans_le (Cardinal.aleph0_le_mk _)
  obtain ⟨ρ', hρ'⟩ :=
    Cardinal.extend_function_of_lt ⟨fun x : {x | x ∈ names} => ρ x, h.injective⟩ hfew ⟨.refl _⟩
  exact ⟨ρ', ρ'.injective, fun x hx => (hρ' ⟨x, hx⟩).symm⟩

/-! ## Compilation -/

/-- The module of a program, compiled against the functions of a host. -/
def Program.compiled (p : Program) (host : HostTable σ) : Diagnosed (Module σ) := do
  let checked ← checkProgram p.records p.allFunctions host
  emitModule checked.functions checked.environment

theorem compile_eq_compiled (source : String) (host : HostTable σ) :
    compile source host = Program.ofSource source >>= fun p => p.compiled host := rfl

/-- **Names of locals are irrelevant.** Let the parameters and variables of each function of a
program be renamed, so that different names of a function stay different. Then either both programs
compile, to modules that differ only in what the locals are called, or neither does, and both stop
with faults of one kind at one place. -/
theorem renaming_irrelevant (program : Program) (host : HostTable σ) {ρ : Nat → String → String}
    (hρ : ∀ (i : Nat) (d : FunctionDecl), program.allFunctions[i]? = some d →
      Set.InjOn (ρ i) {x | x ∈ d.names}) :
    (∃ module, program.compiled host = .ok module ∧ (program.rename ρ).compiled host =
      .ok (module.rename ρ)) ∨
      ∃ d d', program.compiled host = .error d ∧ (program.rename ρ).compiled host = .error d' ∧
        d'.report.kind = d.report.kind ∧ d'.report.span = d.report.span := by
  have hextend : ∀ i, ∃ ρ' : String → String, ρ'.Injective ∧
      ∀ d, program.allFunctions[i]? = some d → ∀ x ∈ d.names, ρ i x = ρ' x := by
    intro i
    cases hd : program.allFunctions[i]? with
    | none => exact ⟨id, Function.injective_id, fun d hd => by cases hd⟩
    | some d =>
        obtain ⟨ρ', hinjective, hagree⟩ := exists_injective_extension (hρ i d hd)
        exact ⟨ρ', hinjective, fun d' hd' => Option.some.inj hd' ▸ hagree⟩
  choose ρ' hinjective hagree using hextend
  have hfunctions : (program.rename ρ).allFunctions = FunctionDecl.renameEach ρ' 0
      program.allFunctions := by
    rw [Program.allFunctions_rename]
    refine FunctionDecl.renameEach_congr fun {i d} hd => ?_
    rw [Nat.zero_add]
    exact hagree i d hd
  have hmirrors :
      Mirrors (Module.rename ρ') (program.compiled host) ((program.rename ρ).compiled host) := by
    rw [Program.compiled, Program.compiled, hfunctions]
    exact (checkProgram_rename hinjective program.records program.allFunctions host).bind_image
        fun checked =>
      emitModule_rename hinjective checked
  rcases hmirrors.results with ⟨module, _, hmodule, hrenamed, rfl⟩ | ⟨d, d', hd, hd', hkind, hspan⟩
  · obtain ⟨checked, hchecked, hmade⟩ := bind_eq_ok.mp hmodule
    have hsame : FunctionCode.renameEach ρ 0 module.functions = FunctionCode.renameEach ρ' 0
        module.functions := by
      refine FunctionCode.renameEach_congr fun {i code} hcode l hl => ?_
      obtain ⟨d, hd, hnames⟩ := emitModule_names (completes_of_checkProgram hchecked) hmade hcode
      rw [Nat.zero_add]
      exact hagree i d hd _ (hnames l hl)
    refine .inl ⟨module, hmodule, ?_⟩
    rw [hrenamed, Module.rename, Module.rename, hsame]
  · exact .inr ⟨d, d', hd, hd', hkind, hspan⟩

/-- A function whose parameter and variable can change names, and blocks side by side that declare
the same name. -/
def twoNamesSource : String :=
  "fun f(a: boolean): boolean\n  var b = not a\n  return b\nend\n" ++
    "if true then var a = f(true) else var a = true var b = a end\n"

theorem renaming_irrelevant_swapped : ∃ (program : Program) (module : Module Unit),
    Program.ofSource twoNamesSource = .ok program ∧ program.compiled [] = .ok module ∧
      (program.rename fun _ => Equiv.swap "a" "b").compiled [] =
        .ok (module.rename fun _ => Equiv.swap "a" "b") := by
  have hcompile : (compile twoNamesSource ([] : HostTable Unit)).isOk = true := by decide +kernel
  obtain ⟨module, hmodule⟩ := isOk_iff.mp hcompile
  rw [compile_eq_compiled] at hmodule
  obtain ⟨program, hprogram, hmodule⟩ := bind_eq_ok.mp hmodule
  have hinjective : ∀ (i : Nat) (d : FunctionDecl), program.allFunctions[i]? = some d →
      Set.InjOn (Equiv.swap "a" "b") {x | x ∈ d.names} :=
        fun _ _ _ => (Equiv.swap "a" "b").injective.injOn
  rcases renaming_irrelevant program ([] : HostTable Unit) hinjective with
    ⟨module, hmodule, hrenamed⟩ | ⟨d, d', hd, -⟩
  · exact ⟨program, module, hprogram, hmodule, hrenamed⟩
  · rw [hd] at hmodule
    cases hmodule

end Stepwise
