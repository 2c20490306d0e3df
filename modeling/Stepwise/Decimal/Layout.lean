import Stepwise.Decimal.Shortest

/-!
# How a number is written

A layout decides everything about a number's text that its digits leave open: which way a tie goes,
between which positions of the decimal point the number is written without an exponent, and how
whole numbers, infinities and the missing number look.

* `Layout.language` is the layout of the language's own texts: never an exponent, whole numbers
  without a point.
* `Layout.data` is the layout of data files: always a point or an exponent, `null` for what is not
  finite.
* `display` is the text of a number inside a running program; it drops the sign of zero.
-/

set_option autoImplicit false

namespace Stepwise.Decimal

/-- The choices that fix the text of a number. -/
structure Layout where
  /-- Where a tie between two shortest decimals goes. -/
  tie : Tie
  /-- The point positions written without an exponent: above the first and at most the second. -/
  positional : Option (Int × Int)
  /-- What follows a whole number. -/
  wholeSuffix : String
  /-- The text of positive infinity. -/
  infinity : String
  /-- The text of negative infinity. -/
  negativeInfinity : String
  /-- The text of a double that is no number. -/
  notANumber : String

/-- The language writes numbers without an exponent, however long. -/
def Layout.language : Layout := ⟨.up, none, "", "inf", "-inf", "NaN"⟩

/-- Data files write a point or an exponent always, and `null` for what they cannot hold. -/
def Layout.data : Layout := ⟨.toEven, some (-5, 16), ".0", "null", "null", "null"⟩

/-- So many zeros. -/
def zeros (n : Nat) : String := String.ofList (List.replicate n '0')

/-- The digits with the point at the given position, without an exponent. -/
def Layout.positionalText (layout : Layout) (digits : String) (point : Int) : String :=
  let length : Int := digits.length
  if length ≤ point then digits ++ zeros (point - length).toNat ++ layout.wholeSuffix
  else if 0 < point then
    String.ofList (digits.toList.take point.toNat) ++ "." ++
      String.ofList (digits.toList.drop point.toNat)
  else "0." ++ zeros (-point).toNat ++ digits

/-- An exponent, always with its sign. -/
def signedText (n : Int) : String := (if n < 0 then "-" else "+") ++ Nat.repr n.natAbs

/-- One digit before the point, the others behind it, and the exponent. -/
def exponentText (digits : String) (point : Int) : String :=
  let exponent := "e" ++ signedText (point - 1)
  match digits.toList with
  | [] => exponent
  | [d] => String.singleton d ++ exponent
  | d :: rest => String.singleton d ++ "." ++ String.ofList rest ++ exponent

/-- The text of a positive decimal. -/
def Layout.decimalText (layout : Layout) (d : Scientific) : String :=
  let digits := Nat.repr d.digits
  let point : Int := digits.length + d.exponent
  match layout.positional with
  | none => layout.positionalText digits point
  | some (low, high) =>
    if low < point && point ≤ high then layout.positionalText digits point else
      exponentText digits point

/-- The text of a number. -/
def Layout.text (layout : Layout) (x : Float) : String :=
  let (negative, reading) := readBits x.toBits
  let sign := if negative then "-" else ""
  match reading with
  | .notANumber => layout.notANumber
  | .infinite => if negative then layout.negativeInfinity else layout.infinity
  | .zero => sign ++ "0" ++ layout.wholeSuffix
  | .finite m => sign ++ layout.decimalText (m.shortest layout.tie)

/-- The text of a number in a running program: the language's layout, except that negative zero is
`0`. -/
def display (x : Float) : String :=
  match readBits x.toBits with
  | (_, .zero) => "0"
  | _ => Layout.language.text x

end Stepwise.Decimal
