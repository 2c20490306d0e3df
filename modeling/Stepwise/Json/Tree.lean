import Stepwise.Decimal.Layout

/-!
# Data trees and their text

A data tree is written one entry a line, each level indented by two blanks; an array or object
without entries stands on one line. In strings only the quote, the backslash and the control
characters below the blank are escaped.
-/

set_option autoImplicit false

namespace Stepwise.Json

/-- A data tree. The entries of an object keep their order. -/
inductive Tree where
  | null
  | boolean (b : Bool)
  | natural (n : Nat)
  | number (x : Float)
  | string (s : String)
  | array (entries : List Tree)
  | object (entries : List (String × Tree))
  deriving Repr

namespace Tree

/-- The tree of an optional part. -/
def ofOption {α : Type} (f : α → Tree) : Option α → Tree
  | none => .null
  | some a => f a

/-- The array of the trees of a list. -/
def ofList {α : Type} (f : α → Tree) (xs : List α) : Tree := .array (xs.map f)

end Tree

/-! ## Strings -/

/-- A hexadecimal digit. -/
def hexDigit (n : Nat) : Char := (Nat.toDigits 16 n).headD '0'

/-- A character as strings write it. -/
def escapedChar (c : Char) : List Char :=
  if c == '"' || c == '\\' then ['\\', c]
  else if c == '\n' then ['\\', 'n']
  else if c == '\r' then ['\\', 'r']
  else if c == '\t' then ['\\', 't']
  else if c == '\x08' then ['\\', 'b']
  else if c == '\x0c' then ['\\', 'f']
  else if c.toNat < 32 then ['\\', 'u', '0', '0', hexDigit (c.toNat / 16), hexDigit (c.toNat % 16)]
  else [c]

/-- A string between quotes. -/
def quoted (s : String) : String := String.ofList (['"'] ++ s.toList.flatMap escapedChar ++ ['"'])

/-! ## Trees -/

/-- The beginning of a line at a depth. -/
def newLine (depth : Nat) : String := String.ofList ('\n' :: List.replicate (2 * depth) ' ')

mutual

/-- The text of a tree whose first line is begun at a depth. -/
def Tree.text (depth : Nat) : Tree → String
  | .null => "null"
  | .boolean b => if b then "true" else "false"
  | .natural n => Nat.repr n
  | .number x => Decimal.Layout.data.text x
  | .string s => quoted s
  | .array [] => "[]"
  | .array (x :: rest) =>
    "[" ++ newLine (depth + 1) ++ x.text (depth + 1) ++ Tree.restText (depth + 1) rest ++
      newLine depth ++ "]"
  | .object [] => "\x7b\x7d"
  | .object ((k, x) :: rest) =>
    "\x7b" ++ newLine (depth + 1) ++ quoted k ++ ": " ++ x.text (depth + 1) ++
      Tree.restEntries (depth + 1) rest ++
      newLine depth ++ "\x7d"

/-- The entries of an array behind the first. -/
def Tree.restText (depth : Nat) : List Tree → String
  | [] => ""
  | x :: rest => "," ++ newLine depth ++ x.text depth ++ Tree.restText depth rest

/-- The entries of an object behind the first. -/
def Tree.restEntries (depth : Nat) : List (String × Tree) → String
  | [] => ""
  | (k, x) :: rest =>
    "," ++ newLine depth ++ quoted k ++ ": " ++ x.text depth ++ Tree.restEntries depth rest

end

/-- The text of a tree by itself. -/
def Tree.render (t : Tree) : String := t.text 0

end Stepwise.Json
