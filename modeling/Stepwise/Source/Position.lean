/-!
# Positions and spans in a source text

A position counts lines and columns from one, columns in characters, and offsets from zero in bytes
of UTF-8. A span is a pair of positions.

* `Position.after` is the position behind a piece of text; it composes over concatenation
  (`Position.after_append`).
* `Span.merge` is the smallest span around two spans; where offsets are equal the first span's ends
  are kept.
-/

set_option autoImplicit false

namespace Stepwise

/-- A place in a source text. -/
structure Position where
  line : Nat
  column : Nat
  offset : Nat
  deriving Repr, DecidableEq

namespace Position

/-- The beginning of every source text. -/
def start : Position := ⟨1, 1, 0⟩

instance : Inhabited Position := ⟨start⟩

/-- The position behind one character. -/
def advance (p : Position) (c : Char) : Position :=
  if c = '\n' then ⟨p.line + 1, 1, p.offset + c.utf8Size⟩ else
    ⟨p.line, p.column + 1, p.offset + c.utf8Size⟩

/-- The position behind a piece of text. -/
def after (p : Position) (text : List Char) : Position := text.foldl advance p

@[simp] theorem after_nil (p : Position) : p.after [] = p := rfl

@[simp] theorem after_cons (p : Position) (c : Char) (cs : List Char) :
    p.after (c :: cs) = (p.advance c).after cs := rfl

/-- Passing two pieces one after the other is passing both at once. -/
theorem after_append (p : Position) (xs ys : List Char) :
    p.after (xs ++ ys) = (p.after xs).after ys := by
  simp [after, List.foldl_append]

end Position

/-- A stretch of source text from one position to another. -/
structure Span where
  start : Position
  stop : Position
  deriving Repr, DecidableEq, Inhabited

namespace Span

/-- The empty span at the beginning of the text, which stands for what is not written in it. -/
def origin : Span := ⟨.start, .start⟩

/-- The empty span at the end of another. -/
def atStop (s : Span) : Span := ⟨s.stop, s.stop⟩

/-- The span around two spans: the earlier start and the later end by offset. -/
def merge (a b : Span) : Span :=
  ⟨if b.start.offset < a.start.offset then b.start else a.start,
   if a.stop.offset < b.stop.offset then b.stop else a.stop⟩

/-- The line a span starts on. -/
def line (s : Span) : Nat := s.start.line

end Span

end Stepwise
