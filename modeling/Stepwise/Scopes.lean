import Stepwise.Program.Tree

/-!
# Scopes of a function body

The names visible at a place in a function, block by block. Each declaration takes the next slot; no
slot is handed out twice, so every variable keeps a slot of its own for the whole call. A name that
is visible cannot be declared again, in whichever block.
-/

set_option autoImplicit false

namespace Stepwise

/-- A declared variable or parameter. -/
structure Symbol where
  name : String
  ty : Ty
  slot : Nat
  span : Span
  deriving Repr, DecidableEq

/-- The open blocks of a function, the innermost apart, and the slot of the next declaration. -/
structure Scopes where
  innermost : List Symbol
  enclosing : List (List Symbol)
  nextSlot : Nat
  deriving Repr, DecidableEq

namespace Scopes

/-- The scopes at the start of a function: one open block without names. -/
def initial : Scopes := ⟨[], [], 0⟩

instance : Inhabited Scopes := ⟨initial⟩

/-- The scopes with a block opened. -/
def push (s : Scopes) : Scopes := ⟨[], s.innermost :: s.enclosing, s.nextSlot⟩

/-- The scopes with the innermost block closed; the function's own block stays. -/
def pop (s : Scopes) : Scopes :=
  match s.enclosing with
  | [] => s
  | outer :: others => ⟨outer, others, s.nextSlot⟩

/-- All visible symbols, the innermost block first. -/
def visible (s : Scopes) : List Symbol := s.innermost ++ s.enclosing.flatten

/-- The symbol of a name, if it is visible. -/
def find? (s : Scopes) (name : String) : Option Symbol := s.visible.find? (·.name == name)

/-- Declares a name in the innermost block and hands out its slot, unless the name is visible
already: then the symbol that bears it. The scopes behind the declaration come with either. -/
def declare (s : Scopes) (name : Ident) (ty : Ty) : Except Symbol Nat × Scopes :=
  match s.find? name.name with
  | some existing => (.error existing, s)
  | none =>
    (.ok s.nextSlot, ⟨⟨name.name, ty, s.nextSlot, name.span⟩ :: s.innermost, s.enclosing,
      s.nextSlot + 1⟩)

/-- Closing a block right after opening it changes nothing. -/
@[simp] theorem pop_push (s : Scopes) : s.push.pop = s := rfl

/-- Opening a block hides no name. -/
@[simp] theorem find?_push (s : Scopes) (name : String) : s.push.find? name = s.find? name := by
  simp [find?, visible, push]

end Scopes

end Stepwise
