import Offside.Text.Escaping

/-!
# `Offside.Scan.Fault`: why a scan stops

The first thing in a source that is no part of any token ends the scan. `Cause` lists what
can be wrong, `Fault` adds the text that begins at the offending character, and `Error` turns
that text into a line and a column. A block comment that never ends is the one error without
a column.
-/

set_option autoImplicit false

namespace Offside.Scan

/-- What is wrong. -/
inductive Cause where
  /-- A character that begins no token. -/
  | illegalCharacter (c : Char)
  /-- Indentation by something other than spaces and tabs. -/
  | illegalWhitespace
  /-- A number of spaces that is no multiple of the indentation width. -/
  | inconsistentIndentation (spaces unit : Nat)
  /-- A character literal cut off by the end of its line. -/
  | unterminatedCharacter
  /-- A character literal with nothing in it. -/
  | emptyCharacter
  /-- A character literal with more than one character in it. -/
  | malformedCharacter
  /-- A string literal cut off by the end of its line. -/
  | unterminatedString
  /-- A word or number directly behind a literal. -/
  | illegalTrailing (c : Char)
  /-- The escape `\u` without four hexadecimal digits that name a character. -/
  | malformedUnicode
  /-- A letter or a second point in a decimal. -/
  | illegalDecimal (c : Char)
  /-- Digits too many for an integer. -/
  | malformedNumber (digits : String)
  /-- The end of a block comment where none is open. -/
  | rogueTerminator
  /-- A block comment that is open at the end of the input. -/
  | unterminatedComment
  /-- A `#` without a word directly behind it. -/
  | emptyHeader
deriving DecidableEq, Repr

/-- The wording of a cause. -/
def Cause.message : Cause → String
  | illegalCharacter c =>
    "Illegal character '" ++ String.ofList (Text.ascii.char c) ++ "'"
  | illegalWhitespace => "Illegal whitespace character in indentation"
  | inconsistentIndentation spaces unit =>
    "Inconsistent indentation: " ++ toString spaces ++ " spaces is not a multiple of " ++
      toString unit
  | unterminatedCharacter => "Character literal not terminated"
  | emptyCharacter => "Empty character literal"
  | malformedCharacter => "Character literal holds more than one character"
  | unterminatedString => "String literal not terminated"
  | illegalTrailing c => "Illegal character '" ++ c.toString ++ "' after a literal"
  | malformedUnicode => "Malformed unicode escape"
  | illegalDecimal c => "Illegal character '" ++ c.toString ++ "' in decimal"
  | malformedNumber digits => "Malformed number literal '" ++ digits ++ "'"
  | rogueTerminator => "Rogue multiline comment terminator"
  | unterminatedComment => "Unterminated block comment"
  | emptyHeader => "Header prefix must not be empty"

/-- A cause with the rest of the line, beginning at the offending character. -/
structure Fault where
  /-- What is wrong. -/
  cause : Cause
  /-- The line from the offending character on. -/
  text : List Char
deriving DecidableEq, Repr

/-- The column of a place in a line, given by the part of the line that begins there. -/
def column (line text : List Char) : Nat := line.length + 1 - text.length

/-- A cause with its place in the source. -/
structure Error where
  /-- The line, counted from one. -/
  line : Nat
  /-- The column, counted from one, where a character is to blame. -/
  column : Option Nat
  /-- What is wrong. -/
  cause : Cause
deriving DecidableEq, Repr

/-- The error that a fault in the given line of the given number amounts to. -/
def Fault.error (f : Fault) (number : Nat) (line : List Char) : Error :=
  ⟨number, some (Scan.column line f.text), f.cause⟩

/-- The error as a phrase that begins with its place. -/
def Error.text (e : Error) : String :=
  let column := match e.column with
    | some c => ", column " ++ toString c
    | none => ""
  "line " ++ toString e.line ++ column ++ ": " ++ e.cause.message

end Offside.Scan
