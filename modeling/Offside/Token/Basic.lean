import Offside.Token.Kind
import Offside.Token.Literal

/-!
# `Offside.Token.Basic`: tokens

A token has a kind, a payload where its kind calls for one, and the place of its first
character: line and column, both counted from one, columns in characters.
-/

set_option autoImplicit false

namespace Offside

/-- A piece of a program with its place in the source. -/
structure Token where
  /-- What sort of thing it is. -/
  kind : Kind
  /-- What it carries. -/
  literal : Option Literal
  /-- The line it starts on. -/
  line : Nat
  /-- The column it starts at. -/
  column : Nat
deriving DecidableEq, Repr

namespace Token

/-- The token as one line of text: place, kind, and the payload in parentheses. -/
def text (t : Token) : String :=
  let payload := match t.literal with
    | some l => "(" ++ l.text ++ ")"
    | none => ""
  toString t.line ++ ":" ++ toString t.column ++ " " ++ t.kind.name ++ payload

/-- The payload of words, signs and strings. -/
def word? (t : Token) : Option String :=
  match t.literal with
  | some (.string s) => some s
  | _ => none

end Token

end Offside
