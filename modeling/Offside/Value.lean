import Offside.Token.Literal

/-!
# `Offside.Value`: what variables hold

A variable holds a value, and where it holds nothing it holds `null`. Values come from the
payloads of tokens and are shown as text of their own: characters and strings stand between
quotes but are not escaped, and decimals are written out in full.
-/

set_option autoImplicit false

namespace Offside

/-- A value of the language. -/
inductive Value where
  /-- The absence of anything else. -/
  | null
  /-- A truth value. -/
  | boolean (b : Bool)
  /-- An integer. -/
  | integer (i : Int)
  /-- A decimal. -/
  | decimal (d : Decimal)
  /-- A character. -/
  | character (c : Char)
  /-- A text. -/
  | string (s : String)
deriving DecidableEq, Repr

namespace Value

/-- Whether a value is the absence of anything else. -/
def isNull : Value → Bool
  | null => true
  | _ => false

/-- The value that a literal stands for. -/
def ofLiteral : Literal → Value
  | .boolean b => boolean b
  | .integer i => integer i
  | .decimal d => decimal d
  | .character c => character c
  | .string s => string s

/-- The value of a token's payload; no payload is `null`. -/
def ofPayload (payload : Option Literal) : Value := (payload.map ofLiteral).getD null

/-- The value as text. -/
def text : Value → String
  | null => "null"
  | boolean b => if b then "true" else "false"
  | integer i => toString i
  | decimal d => Decimal.Style.value.text d
  | character c => "'" ++ c.toString ++ "'"
  | string s => "\"" ++ s ++ "\""

end Value

end Offside
