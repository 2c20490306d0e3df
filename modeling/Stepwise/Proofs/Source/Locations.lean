import Stepwise.Host.Standard
import Stepwise.Proofs.Code.Agreement

/-!
# Faults are located in their source

Every span that compilation reports is one of its source: reading tokens counts positions along the
text, trees have the spans of tokens, checking reports the spans of trees, and making code of a
checked program does not fail. The functions of the environment are not written in the source and
have no span; what is wrong with them is reported at its beginning.

**Location of faults** (`compile_located`): whenever compilation fails, both ends of the reported
span are places of the source in order, and the report shows the line that the span starts on with
carets below it.
-/

set_option autoImplicit false

namespace Stepwise

open Diagnosed

/-- **Compilation fails at a span of its source**, and the report shows the line that it starts
on. -/
theorem compile_located {σ : Type} {source : String} {host : HostTable σ}
    (hhost : ∀ f ∈ host, f.span = none) {d : Diagnostic} (h : compile source host = .error d) :
    d.span.start.LiesIn source ∧ d.span.stop.LiesIn source ∧
      d.span.start.offset ≤ d.span.stop.offset ∧
      ((∃ l : ShownLine source d.span.start, d.report.render source = d.report.header ++ l.text) ∨
        d.report.render source = d.report.header ∧ d.span.start = .behind source.toList ∧
          Text.EndsLine source.toList) := by
  have hspan : d.span.LiesIn source := by
    have hplace : ∀ f ∈ host, f.place.LiesIn source := by
      intro f hf
      rw [HostFunction.place, hhost f hf]
      exact .origin
    unfold compile at h
    cases hprogram : Program.ofSource source with
    | error e =>
        rw [hprogram] at h
        cases h
        exact ((Program.ofSource_located source).of_error hprogram).2
    | ok program =>
        rw [hprogram] at h
        have hwithin := (Program.ofSource_located source).of_ok hprogram
        change (checkProgram program.records program.allFunctions host >>= fun checked =>
          emitModule checked.functions checked.environment) = _ at h
        cases hchecked : checkProgram program.records program.allFunctions host with
        | error e =>
            rw [hchecked] at h
            cases h
            exact ((checkProgram_within hwithin .origin hplace).of_error hchecked).2
        | ok checked =>
            obtain ⟨module, hmodule⟩ :=
              emitModule_of_checkProgram (Program.targetsAssignable_of_ofSource hprogram) hchecked
            rw [hchecked] at h
            cases hmodule.symm.trans h
  exact ⟨hspan.start.liesIn, hspan.stop, hspan.ordered, Report.render_shown d.report hspan⟩

/-- A program with a two-byte letter, both characters at the ends of its lines and a tab, in which
no variable `b` is known. -/
def unknownSource : String := "var é = 'x'\r\nvar a =\tb\r\n"

/-- A host with the one function that doubles a number. -/
def doublingHost : HostTable Unit :=
  [⟨"double", [⟨"x", "number"⟩], "number", false, "", none, .ofFunction (Standard.onNumber fun x =>
    x + x)⟩]

/-- Where compilation fails. -/
def faultSpan? {σ : Type} : Diagnosed (Module σ) → Option Span
  | .error d => some d.span
  | .ok _ => none

/-- The unknown variable is reported where it stands, with the line below the header. -/
theorem compile_located_unknown : ∃ d, compile unknownSource doublingHost = .error d ∧
    d.span = ⟨⟨2, 9, 22⟩, ⟨2, 10, 23⟩⟩ ∧ d.span.start.LiesIn unknownSource ∧
    d.span.stop.LiesIn unknownSource ∧
    ((∃ l : ShownLine unknownSource d.span.start, d.report.render unknownSource = d.report.header ++
      l.text) ∨
      d.report.render unknownSource = d.report.header ∧
        d.span.start = .behind unknownSource.toList ∧
        Text.EndsLine unknownSource.toList) := by
  have hhost : ∀ f ∈ doublingHost, f.span = none := List.forall_mem_singleton.mpr rfl
  have hspan : faultSpan? (compile unknownSource doublingHost) =
    some ⟨⟨2, 9, 22⟩, ⟨2, 10, 23⟩⟩ := by decide +kernel
  cases hcompile : compile unknownSource doublingHost with
  | ok module =>
      rw [hcompile] at hspan
      cases hspan
  | error d =>
      rw [hcompile] at hspan
      obtain ⟨hstart, hstop, -, hshown⟩ := compile_located hhost hcompile
      exact ⟨d, rfl, Option.some.inj hspan, hstart, hstop, hshown⟩

end Stepwise
