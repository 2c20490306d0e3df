/-!
# The shortest decimal of a floating-point number

A finite positive double is `m · 2^q`. The reals that round to it form an interval around it; the
ends belong to the interval exactly if `m` is even. Among the decimals in that interval the shortest
is the one with the fewest digits, and of several with equally few digits the one nearest to the
double. All comparisons are exact, on natural numbers.

* `Magnitude.ofBits?` decodes the sixty-four bits of a double.
* `Magnitude.shortest` is its shortest decimal.
-/

set_option autoImplicit false

namespace Stepwise.Decimal

/-- Where an exact tie between two equally short decimals goes. -/
inductive Tie where
  /-- To the one with the even last digit. -/
  | toEven
  /-- To the larger one. -/
  | up
  deriving Repr, DecidableEq

/-- The decimal `digits · 10^exponent`. -/
structure Scientific where
  digits : Nat
  exponent : Int
  deriving Repr, DecidableEq

/-- A positive finite double: the value `mantissa · 2^exponent`. The flag `narrow` says that the
double below is only half as far away as the one above, which happens at powers of two. -/
structure Magnitude where
  mantissa : Nat
  exponent : Int
  narrow : Bool
  deriving Repr, DecidableEq

/-- What the bits of a double stand for, its sign apart. -/
inductive Reading where
  | zero
  | finite (m : Magnitude)
  | infinite
  | notANumber
  deriving Repr, DecidableEq

/-- The sign bit and the meaning of the other sixty-three bits. -/
def readBits (bits : UInt64) : Bool × Reading :=
  let n : Nat := bits.toNat
  let negative := n / Nat.pow 2 63 == 1
  let biased : Nat := n / Nat.pow 2 52 % Nat.pow 2 11
  let fraction : Nat := n % Nat.pow 2 52
  let reading :=
    if biased == 2047 then
      if fraction == 0 then Reading.infinite else Reading.notANumber
    else if biased == 0 then
      if fraction == 0 then .zero else .finite ⟨fraction, -1074, false⟩
    else
      .finite ⟨fraction + Nat.pow 2 52, (biased : Int) - 1075, fraction == 0 && biased != 1⟩
  (negative, reading)

/-- The power `b^e` as a fraction, numerator first. -/
def powerFraction (b : Nat) (e : Int) : Nat × Nat :=
  if 0 ≤ e then (Nat.pow b e.toNat, 1) else (1, Nat.pow b (-e).toNat)

namespace Magnitude

/-- Both sides of a comparison on the grid of step `10^e`: the decimal `c · 10^e` compares with `x`
quarters of the double's last binary place as `c * fst` compares with `x * snd`. -/
def scales (v : Magnitude) (e : Int) : Nat × Nat :=
  let (un, ud) := powerFraction 2 (v.exponent - 2)
  let (gn, gd) := powerFraction 10 e
  (gn * ud, un * gd)

/-- Four times the mantissa: the double itself in quarters of its last place. -/
def middle (v : Magnitude) : Nat := 4 * v.mantissa

/-- The lower end of the interval, in quarters of the last place. -/
def lower (v : Magnitude) : Nat := if v.narrow then v.middle - 1 else v.middle - 2

/-- The upper end of the interval, in quarters of the last place. -/
def upper (v : Magnitude) : Nat := v.middle + 2

/-- Whether the decimal `c · 10^e` reads back as the double, for the scales of `e`. -/
def readsBack (v : Magnitude) (scales : Nat × Nat) (c : Nat) : Bool :=
  let x := c * scales.1
  if v.mantissa % 2 == 0 then v.lower * scales.2 ≤ x && x ≤ v.upper * scales.2
  else v.lower * scales.2 < x && x < v.upper * scales.2

/-- The number of digits before the decimal point: `10^(k-1) ≤ v < 10^k`. The estimate from the
binary exponent is one too small at most. -/
def pointPosition (v : Magnitude) : Int :=
  let binary := v.exponent + (Nat.log2 v.mantissa : Int)
  let estimate := binary * 30103 / 100000
  let (a, b) := v.scales (estimate + 1)
  if a ≤ v.middle * b then estimate + 2 else estimate + 1

/-- The multiples of `10^e` that may stand for the double: its two neighbours on that grid, as far
as they read back, the nearer one first choice. -/
def onGrid? (v : Magnitude) (tie : Tie) (e : Int) : Option Nat :=
  let (a, b) := v.scales e
  let x := v.middle * b
  let below := x / a
  let above := below + 1
  match v.readsBack (a, b) below && below != 0, v.readsBack (a, b) above with
  | true, true =>
    let toBelow := x - below * a
    let toAbove := above * a - x
    if toBelow < toAbove then some below
    else if toAbove < toBelow then some above
    else match tie with
      | .up => some above
      | .toEven => if below % 2 == 0 then some below else some above
  | true, false => some below
  | false, true => some above
  | false, false => none

/-- The first grid with a hit, from `digits` digits on. -/
def searchFrom (v : Magnitude) (tie : Tie) (point : Int) : Nat → Nat → Scientific
  | 0, digits =>
    ⟨v.middle * (v.scales (point - digits)).2 / (v.scales (point - digits)).1, point - digits⟩
  | steps + 1, digits =>
    match v.onGrid? tie (point - digits) with
    | some c => ⟨c, point - digits⟩
    | none => searchFrom v tie point steps (digits + 1)

end Magnitude

/-- The same decimal without trailing zeros. -/
def Scientific.trim (fuel : Nat) (d : Scientific) : Scientific :=
  match fuel with
  | 0 => d
  | fuel + 1 =>
    if d.digits % 10 == 0 && d.digits != 0 then
      Scientific.trim fuel ⟨d.digits / 10, d.exponent + 1⟩ else d

/-- The shortest decimal that reads back as the double; seventeen digits always do. -/
def Magnitude.shortest (v : Magnitude) (tie : Tie) : Scientific :=
  (v.searchFrom tie v.pointPosition 17 1).trim 20

end Stepwise.Decimal
