import Stepwise.Json.Token

/-!
# Passing over values

Where a value does not matter, it is passed over: its tokens are followed with a stack of the arrays
and objects that are open, and it ends as soon as none is.

* `skipValue` is what follows the value at the beginning, if there is a value.
-/

set_option autoImplicit false

namespace Stepwise.Json

/-- An array or object that is open. -/
inductive Enclosing where
  | array
  | object
  deriving Repr, DecidableEq

/-- What may come next inside a value. -/
inductive Expected where
  | value
  /-- Behind an opening bracket: a value or the closing bracket. -/
  | entry
  /-- Behind an opening brace: a key or the closing brace. -/
  | member
  | key
  | colon
  /-- Behind a value: a comma or a closing sign. -/
  | more
  deriving Repr, DecidableEq

/-- How far a value has been followed: what is expected, and what is open. -/
structure Progress where
  expected : Expected
  enclosing : List Enclosing
  deriving Repr, DecidableEq

namespace Progress

/-- Whether the value has ended. -/
def ended (p : Progress) : Bool := p.expected == .more && p.enclosing.isEmpty

/-- The progress behind a token that begins a value. -/
def begin? (enclosing : List Enclosing) : Token → Option Progress
  | .word | .number _ | .string _ => some ⟨.more, enclosing⟩
  | .openArray => some ⟨.entry, .array :: enclosing⟩
  | .openObject => some ⟨.member, .object :: enclosing⟩
  | _ => none

/-- The progress behind a token. -/
def next? (p : Progress) (t : Token) : Option Progress :=
  match p.expected, p.enclosing, t with
  | .entry, .array :: outer, .closeArray => some ⟨.more, outer⟩
  | .member, .object :: outer, .closeObject => some ⟨.more, outer⟩
  | .member, _, .string _ | .key, _, .string _ => some ⟨.colon, p.enclosing⟩
  | .colon, _, .colon => some ⟨.value, p.enclosing⟩
  | .more, .array :: _, .comma => some ⟨.value, p.enclosing⟩
  | .more, .object :: _, .comma => some ⟨.key, p.enclosing⟩
  | .more, .array :: outer, .closeArray => some ⟨.more, outer⟩
  | .more, .object :: outer, .closeObject => some ⟨.more, outer⟩
  | .value, _, t | .entry, _, t => begin? p.enclosing t
  | _, _, _ => none

end Progress

/-- What follows the end of a value that has been followed so far. -/
def skipFrom (p : Progress) : List Token → Option (List Token)
  | [] => if p.ended then some [] else none
  | t :: rest =>
    if p.ended then some (t :: rest)
    else
      match p.next? t with
      | none => none
      | some q => skipFrom q rest

/-- What follows the value at the beginning. -/
def skipValue (ts : List Token) : Option (List Token) := skipFrom ⟨.value, []⟩ ts

theorem length_skipFrom_le {p : Progress} {ts rest : List Token} (h : skipFrom p ts = some rest) :
    rest.length ≤ ts.length := by
  induction ts generalizing p with
  | nil =>
    simp only [skipFrom] at h
    split at h <;> simp_all
  | cons t ts ih =>
    simp only [skipFrom] at h
    split at h
    · simp_all
    · split at h
      · simp at h
      · have := ih h
        simp only [List.length_cons]
        omega

/-- A value has at least one token. -/
theorem length_skipValue_lt {ts rest : List Token} (h : skipValue ts = some rest) :
    rest.length < ts.length := by
  cases ts with
  | nil => simp [skipValue, skipFrom, Progress.ended] at h
  | cons t ts =>
    have running : Progress.ended ⟨.value, []⟩ = false := rfl
    simp only [skipValue, skipFrom, running, Bool.false_eq_true, if_false] at h
    split at h
    · simp at h
    · have := length_skipFrom_le h
      simp only [List.length_cons]
      omega

end Stepwise.Json
