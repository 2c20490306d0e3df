import Stepwise.Text.Ranges

/-!
# Blank characters

The code points with the Unicode property `White_Space`, version 17.0, as ascending ranges. They
separate the tokens of a program and mean nothing else.
-/

set_option autoImplicit false

namespace Stepwise.Text

/-- The ranges of the property `White_Space`. -/
def blankRanges : Ranges :=
  [(0x9, 0xD), (0x20, 0x20), (0x85, 0x85), (0xA0, 0xA0), (0x1680, 0x1680), (0x2000, 0x200A),
   (0x2028, 0x2029), (0x202F, 0x202F), (0x205F, 0x205F), (0x3000, 0x3000)]

end Stepwise.Text
