import Stepwise.Decimal.Layout
import Stepwise.Source.Position
import Stepwise.Token.Terminal

/-!
# Tokens

The pieces that a source text consists of, comments included, each with the span it was read from.
The end of the text is a token too.
-/

set_option autoImplicit false

namespace Stepwise

/-- A piece of a source text. -/
inductive Token where
  | number (value : Float)
  | string (value : String)
  | identifier (name : String)
  | comment (text : String)
  | terminal (t : Terminal)
  | endOfInput
  deriving Repr, DecidableEq

/-- How messages speak of a token. -/
def Token.describe : Token → String
  | .number v => "number " ++ Decimal.Layout.language.text v
  | .string s => "string \"" ++ s ++ "\""
  | .identifier name => "identifier '" ++ name ++ "'"
  | .comment _ => "comment"
  | .terminal t => "'" ++ t.spelling ++ "'"
  | .endOfInput => "end of input"

/-- Whether a token is a comment. -/
def Token.isComment : Token → Bool
  | .comment _ => true
  | _ => false

/-- A token and the stretch of text it was read from. -/
structure SourceToken where
  token : Token
  span : Span
  deriving Repr, DecidableEq

end Stepwise
