import Stepwise.Decimal.Layout
import Stepwise.Text.Quoted
import Stepwise.Value.Heap

/-!
# Values as text

How values are shown to the user. A record shows its fields, texts among them in quotes; a record
inside a record is only hinted at, so that records which refer to themselves show too.
-/

set_option autoImplicit false

namespace Stepwise

/-- The text of a truth value. -/
def boolText (b : Bool) : String := if b then "true" else "false"

/-- A constant as listings write it. -/
def Constant.display : Constant → String
  | .boolean b => boolText b
  | .number n => Decimal.display n
  | .string s => Text.quoted s

/-- A value inside a record. -/
def Value.displayField : Value → String
  | .nothing => "nothing"
  | .boolean b => boolText b
  | .number n => Decimal.display n
  | .string s => Text.quoted s
  | .record _ => "\x7b...\x7d"

/-- A value by itself. -/
def Value.display (heap : Heap) : Value → String
  | .nothing => "nothing"
  | .boolean b => boolText b
  | .number n => Decimal.display n
  | .string s => s
  | .record id => "\x7b" ++ ", ".intercalate ((heap.fields id).map Value.displayField) ++ "\x7d"

end Stepwise
