import Offside.Text.Unprintable

/-!
# `Offside.Text.Escaping`: writing characters so that they can be told apart

Where a character is shown between quotes, some characters are written as a backslash
sequence: a few by a letter of their own, the others by number, as a backslash and the code
point in hexadecimal digits between `u` with braces. An `Escaping` fixes both choices and
`Escaping.char` carries them out. Two of them are in use: `quoted` for the text of a token,
where only what cannot be printed is escaped, and `ascii` for the report of an illegal
character, where everything outside printable ASCII is.
-/

set_option autoImplicit false

namespace Offside.Text

/-- Which characters are written as a backslash and a letter, and which as themselves. -/
structure Escaping where
  /-- The characters with a letter of their own, each with that letter. -/
  letters : List (Char × Char)
  /-- The characters that need no escape, unless they have a letter. -/
  plain : Char → Bool

/-- A character by number: its code point in lower-case hexadecimal digits, without leading
zeros. -/
def byNumber (c : Char) : List Char :=
  '\\' :: 'u' :: '{' :: (Nat.toDigits 16 c.toNat ++ ['}'])

/-- The written form of one character. -/
def Escaping.char (e : Escaping) (c : Char) : List Char :=
  match e.letters.find? (fun p => p.1 == c) with
  | some (_, letter) => ['\\', letter]
  | none => if e.plain c then [c] else byNumber c

/-- The escaping between two equal quotes. The quote itself is escaped, the other kind of
quote is not. -/
def quoted (quote : Char) : Escaping where
  letters :=
    [('\x00', '0'), ('\t', 't'), ('\r', 'r'), ('\n', 'n'), ('\\', '\\'), (quote, quote)]
  plain c := !isUnprintable c

/-- The escaping into printable ASCII. -/
def ascii : Escaping where
  letters :=
    [('\t', 't'), ('\r', 'r'), ('\n', 'n'), ('\'', '\''), ('"', '"'), ('\\', '\\')]
  plain c := ' ' ≤ c && c ≤ '~'

/-- A text between two quotes. -/
def enquote (quote : Char) (cs : List Char) : List Char :=
  quote :: (cs.flatMap (quoted quote).char ++ [quote])

end Offside.Text
