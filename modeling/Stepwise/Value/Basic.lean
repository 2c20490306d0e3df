/-!
# Values

What a running program computes with. A record value is a reference, the number of a record on the
heap; copying it copies the reference. Where a value of one kind is needed and another stands there,
the neutral value of that kind is used: false, zero, the empty text.
-/

set_option autoImplicit false

namespace Stepwise

/-- A value of a running program. -/
inductive Value where
  | nothing
  | boolean (b : Bool)
  | number (n : Float)
  | string (s : String)
  /-- A reference to a record on the heap. -/
  | record (id : Nat)
  deriving Repr, Inhabited

/-- A value written in a program. -/
inductive Constant where
  | boolean (b : Bool)
  | number (n : Float)
  | string (s : String)
  deriving Repr, DecidableEq

/-- The value of a constant. -/
def Constant.value : Constant → Value
  | .boolean b => .boolean b
  | .number n => .number n
  | .string s => .string s

namespace Value

/-- The truth value, false if there is none. -/
def asBool : Value → Bool
  | boolean b => b
  | _ => false

/-- The number, zero if there is none. -/
def asNumber : Value → Float
  | number n => n
  | _ => 0

/-- The text, empty if there is none. -/
def asString : Value → String
  | string s => s
  | _ => ""

/-- The record referred to, if any. -/
def record? : Value → Option Nat
  | record id => some id
  | _ => none

/-- Equality of values: records by identity, all others by value, numbers as floating-point numbers
compare. -/
def equals : Value → Value → Bool
  | nothing, nothing => true
  | boolean a, boolean b => a == b
  | number a, number b => a == b
  | string a, string b => a == b
  | record a, record b => a == b
  | _, _ => false

/-- The constant that a value can be written as. -/
def constant? : Value → Option Constant
  | nothing | record _ => none
  | boolean b => some (.boolean b)
  | number n => some (.number n)
  | string s => some (.string s)

end Value

end Stepwise
