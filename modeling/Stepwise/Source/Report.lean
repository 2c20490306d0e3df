import Stepwise.Source.Position
import Stepwise.Text.Lines

/-!
# Reports about a source text

A report says what kind of fault was found, in words, and where. With the source text at hand it is
shown as a header, the line that the span starts on, and carets below the span; a span that ends on
a later line gets a single caret.
-/

set_option autoImplicit false

namespace Stepwise

/-- Which stage of compilation found the fault. -/
inductive FaultKind where
  /-- The text does not follow the grammar. -/
  | grammar
  /-- The program does not follow the typing rules. -/
  | typing
  /-- The annotations that code is made from contradict each other. -/
  | internal
  deriving Repr, DecidableEq

/-- The word that the header of a report uses. -/
def FaultKind.label : FaultKind → String
  | .grammar => "syntax"
  | .typing => "type"
  | .internal => "internal"

/-- A fault in a source text. -/
structure Report where
  kind : FaultKind
  message : String
  span : Span
  deriving Repr, DecidableEq

namespace Report

/-- The first line: kind, place and message. -/
def header (r : Report) : String :=
  s!"[{r.kind.label}] line {r.span.start.line}:{r.span.start.column}: {r.message}"

/-- How many carets stand below a span. -/
def caretCount (s : Span) : Nat :=
  if s.stop.line = s.start.line then max 1 (s.stop.column - s.start.column) else 1

/-- The line below the shown source line. -/
def carets (s : Span) : List Char :=
  List.replicate (s.start.column - 1) ' ' ++ List.replicate (caretCount s) '^'

/-- The report with the source line it is about, as far as there is one. -/
def render (r : Report) (source : String) : String :=
  match (Text.lines source.toList)[r.span.start.line - 1]? with
  | none => r.header
  | some line => r.header ++ "\n" ++ String.ofList line ++ "\n" ++ String.ofList (carets r.span)

end Report

end Stepwise
