/-!
# Reading decimals

The number that a decimal text stands for: the double nearest to it, a tie going to the even
mantissa.

* `ofDigits` reads the digits before and behind a decimal point.
* `read?` reads every text of a number: a sign, digits with a point somewhere, an exponent, or the
  names of the infinities and of the missing number in any case of letters.
-/

set_option autoImplicit false

namespace Stepwise.Decimal

/-- The value of a digit. -/
def digitValue (c : Char) : Nat := c.toNat - '0'.toNat

/-- The natural number that digits stand for. -/
def digitsValue (ds : List Char) : Nat := ds.foldl (fun n c => 10 * n + digitValue c) 0

/-- The double nearest to the decimal `n · 10^e`. -/
def scale (n : Nat) (e : Int) : Float :=
  if 0 ≤ e then Float.ofScientific n false e.toNat else Float.ofScientific n true (-e).toNat

/-- The double nearest to the decimal with these digits before and behind the point. -/
def ofDigits (whole fraction : List Char) : Float :=
  scale (digitsValue (whole ++ fraction)) (-(fraction.length : Int))

/-- The exponent behind a decimal: nothing, or a mark, a sign and digits. -/
def exponent? : List Char → Option Int
  | [] => some 0
  | mark :: rest =>
    if mark == 'e' || mark == 'E' then
      let (negative, ds) : Bool × List Char :=
        match rest with
        | '-' :: ds => (true, ds)
        | '+' :: ds => (false, ds)
        | ds => (false, ds)
      if ds.isEmpty || !ds.all Char.isDigit then none
      else some (if negative then -(digitsValue ds : Int) else digitsValue ds)
    else none

/-- The double of an unsigned decimal text. -/
def unsigned? (text : List Char) : Option Float :=
  let whole := text.takeWhile Char.isDigit
  let afterWhole := text.dropWhile Char.isDigit
  let (fraction, rest) : List Char × List Char :=
    match afterWhole with
    | '.' :: tail => (tail.takeWhile Char.isDigit, tail.dropWhile Char.isDigit)
    | _ => ([], afterWhole)
  if whole.isEmpty && fraction.isEmpty then none
  else (exponent? rest).map fun e => scale (digitsValue (whole ++ fraction)) (e - fraction.length)

/-- The double that a text stands for, if it is the text of a number. -/
def read? (text : String) : Option Float :=
  let (negative, body) : Bool × List Char :=
    match text.toList with
    | '-' :: cs => (true, cs)
    | '+' :: cs => (false, cs)
    | cs => (false, cs)
  let value :=
    match String.ofList (body.map Char.toLower) with
    | "inf" | "infinity" => some (1.0 / 0.0)
    | "nan" => some (0.0 / 0.0)
    | _ => unsigned? body
  value.map fun x => if negative then -x else x

end Stepwise.Decimal
