import Stepwise.Host.Function
import Stepwise.Value.Display

/-!
# The standard functions

The functions that every program can call: texts of numbers and truth values, characters of texts,
and some arithmetic. Each computes its value from its arguments alone; a missing argument counts as
nothing.
-/

set_option autoImplicit false

namespace Stepwise.Standard

/-- An argument by its place. -/
def argument (arguments : List Value) (i : Nat) : Value := (arguments[i]?).getD .nothing

/-- The function that applies an operation to a number. -/
def onNumber (f : Float → Float) (arguments : List Value) : Value :=
  .number (f (argument arguments 0).asNumber)

/-- How many characters a text has. -/
def length (arguments : List Value) : Value :=
  .number (Float.ofNat (argument arguments 0).asString.toList.length)

/-- The character of a text at a place counted from zero; the empty text where there is none. -/
def charAt (arguments : List Value) : Value :=
  let index := (argument arguments 1).asNumber
  let found :=
    if index ≥ 0 && index - index.floor == 0 then
      (argument arguments 0).asString.toList[index.toUInt64.toNat]?
    else none
  .string ((found.map String.singleton).getD "")

/-- A standard function: name, parameters with their types, type of the result, what it computes,
and for what. -/
structure Entry where
  name : String
  params : List HostParameter
  resultName : String
  compute : List Value → Value
  description : String

/-- The standard functions in order. -/
def entries : List Entry :=
  [⟨"toString", [⟨"value", "number"⟩], "string",
      fun arguments => .string (Decimal.display (argument arguments 0).asNumber),
      "Format a number as text"⟩,
    ⟨"toString", [⟨"value", "boolean"⟩], "string",
      fun arguments => .string (boolText (argument arguments 0).asBool),
      "Format a boolean as text"⟩,
    ⟨"length", [⟨"text", "string"⟩], "number", length, "Number of characters"⟩,
    ⟨"charAt", [⟨"text", "string"⟩, ⟨"index", "number"⟩], "string", charAt,
      "Character at a 0-based index, or \"\" when out of range"⟩,
    ⟨"abs", [⟨"x", "number"⟩], "number", onNumber Float.abs, "Absolute value"⟩,
    ⟨"sqrt", [⟨"x", "number"⟩], "number", onNumber Float.sqrt, "Square root"⟩,
    ⟨"floor", [⟨"x", "number"⟩], "number", onNumber Float.floor, "Round down"⟩,
    ⟨"round", [⟨"x", "number"⟩], "number", onNumber Float.round, "Round to nearest"⟩]

/-- The host function of a standard function. -/
def Entry.hostFunction {σ : Type} (e : Entry) : HostFunction σ :=
  ⟨e.name, e.params, e.resultName, false, e.description, none, .ofFunction e.compute⟩

/-- The table of the standard functions. -/
def table {σ : Type} : HostTable σ := entries.map Entry.hostFunction

end Stepwise.Standard
