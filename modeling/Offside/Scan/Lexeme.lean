import Offside.Scan.Fault
import Offside.Token.Basic

/-!
# `Offside.Scan.Lexeme`: what a piece of a line says

A lexeme is a token without its place: a kind and a payload. Readers take the text that
begins at the lexeme and answer the lexeme with the text behind it, so a place in a line is
always the part of the line that begins there.
-/

set_option autoImplicit false

namespace Offside.Scan

/-- A kind of token and its payload. -/
structure Lexeme where
  /-- What sort of token it is. -/
  kind : Kind
  /-- What it carries. -/
  literal : Option Literal := none
deriving DecidableEq, Repr

/-- A lexeme with the part of its line that begins at its first character. -/
structure Placed where
  /-- The lexeme. -/
  lexeme : Lexeme
  /-- The line from its first character on. -/
  text : List Char
deriving DecidableEq, Repr

/-- The token of a placed lexeme in the given line of the given number. -/
def Placed.token (p : Placed) (number : Nat) (line : List Char) : Token :=
  ⟨p.lexeme.kind, p.lexeme.literal, number, column line p.text⟩

/-- Letters, digits and the underscore of ASCII, which words and numbers are made of. -/
def isWordChar (c : Char) : Bool := c.isAlphanum || c == '_'

/-- The letters of ASCII and the underscore, one of which makes a word out of a number. -/
def isLetter (c : Char) : Bool := c.isAlpha || c == '_'

end Offside.Scan
