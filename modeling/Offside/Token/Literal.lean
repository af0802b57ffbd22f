import Offside.Decimal.Style
import Offside.Text.Escaping

/-!
# `Offside.Token.Literal`: what a token carries

Words and signs carry their text, literals their value. `Literal.text` is the form in which a
token shows it: characters and strings in quotes and escaped, so that one token is always
one line of text.
-/

set_option autoImplicit false

namespace Offside

/-- The payload of a token. -/
inductive Literal where
  /-- A truth value. -/
  | boolean (b : Bool)
  /-- An integer. -/
  | integer (i : Int)
  /-- A decimal. -/
  | decimal (d : Decimal)
  /-- A character. -/
  | character (c : Char)
  /-- A text. -/
  | string (s : String)
deriving DecidableEq, Repr

namespace Literal

/-- The payload as token text shows it. -/
def text : Literal → String
  | boolean b => if b then "true" else "false"
  | integer i => toString i
  | decimal d => Decimal.Style.token.text d
  | character c => String.ofList (Text.enquote '\'' [c])
  | string s => String.ofList (Text.enquote '"' s.toList)

end Literal

end Offside
