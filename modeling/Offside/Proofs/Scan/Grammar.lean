import Offside.Scan.Line

/-!
# `Offside.Proofs.Scan.Grammar`: how the lexemes of a line are spelled

The readers of `Offside.Scan` say how a line is read. This file says what its lexemes look
like, without saying how they are found:

* `IsUnit` and `AreUnits`: the units between the quotes of a literal and what they stand for.
* `SpellsWord`, `IsSign`, `IsCharacter`, `IsString` and, over them, `Spells`: a piece of code,
  between the text before it and the text after it, spells a lexeme. Words and numbers are
  maximal runs, a sign is the longest sign at its place, a literal is its quoted units, and
  a header is `#` with a word.
* `SpellsArgument`: the same for the arguments of a header, which are maximal runs without
  blanks and quotes, or quoted.
* `Reads`: one piece of a line, a lexeme or a character that says nothing, and the mode
  behind it.
* `LineReads`: a whole line, piece by piece, with its lexemes in their places.
* `LinesEnd`: the mode that a row of lines ends in, which is all that one line tells the
  next about its spelling.

Each rule names the text on both sides of its piece, because a run is maximal only between
characters that do not belong to it.
-/

set_option autoImplicit false

namespace Offside.Scan

open Offside.Text

/-! ### Literals -/

/-- A hexadecimal digit, small or capital, and its value. -/
def IsHexDigit (c : Char) (value : Nat) : Prop :=
  value < 16 ∧ (c = Nat.digitChar value ∨ c = (Nat.digitChar value).toUpper)

/-- A unit of a literal in the given quotes, and the character it stands for. A character by
number is any character at all, so the number of a surrogate makes no unit. -/
inductive IsUnit (quote : Char) : List Char → Char → Prop
  | plain {c : Char} : c ≠ '\\' → c ≠ quote → IsUnit quote [c] c
  | escape {c : Char} : c ≠ 'u' → IsUnit quote ['\\', c] (escaped c)
  | number {a b c d x : Char} {i j k l : Nat} :
      IsHexDigit a i → IsHexDigit b j → IsHexDigit c k → IsHexDigit d l →
      x.toNat = ((i * 16 + j) * 16 + k) * 16 + l → IsUnit quote ['\\', 'u', a, b, c, d] x

/-- A row of units, and the characters they stand for. -/
inductive AreUnits (quote : Char) : List Char → List Char → Prop
  | nil : AreUnits quote [] []
  | cons {text body : List Char} {x : Char} {xs : List Char} :
      IsUnit quote text x → AreUnits quote body xs → AreUnits quote (text ++ body) (x :: xs)

/-- No character of the given class stands directly behind. -/
def StopsAt (p : Char → Bool) (after : List Char) : Prop := ∀ c ∈ after.head?, p c = false

/-- A character literal, which no word or number follows directly. -/
inductive IsCharacter (after : List Char) : List Char → Char → Prop
  | mk {body : List Char} {x : Char} :
      IsUnit '\'' body x → StopsAt isWordChar after →
      IsCharacter after ('\'' :: (body ++ ['\''])) x

/-- A string literal, which no word or number follows directly. -/
inductive IsString (after : List Char) : List Char → String → Prop
  | mk {body xs : List Char} :
      AreUnits '"' body xs → StopsAt isWordChar after →
      IsString after ('"' :: (body ++ ['"'])) (String.ofList xs)

/-! ### Lexemes -/

/-- A text of characters of one class that is not longer on either side. -/
structure MaximalRun (p : Char → Bool) (before text after : List Char) : Prop where
  /-- There is a character. -/
  ne_nil : text ≠ []
  /-- All characters are of the class. -/
  all : ∀ c ∈ text, p c = true
  /-- The character before is not. -/
  left : ∀ c ∈ before.getLast?, p c = false
  /-- The character behind is not. -/
  right : StopsAt p after

/-- The words that are literals. -/
def literalWords : List String := ["true", "false", "null"]

/-- The delimiters of comments, which no sign is read across. -/
def commentMarks : List (List Char) := [['/', '/'], ['/', '*'], ['*', '/']]

/-- A word or a number, between the text before it and the text behind it on its line. -/
inductive SpellsWord (isKeyword : String → Bool) (before text after : List Char) :
    Lexeme → Prop
  | boolean (b : Bool) :
      MaximalRun isWordChar before text after → String.ofList text = toString b →
      SpellsWord isKeyword before text after ⟨.boolean, some (.boolean b)⟩
  | null :
      MaximalRun isWordChar before text after → String.ofList text = "null" →
      SpellsWord isKeyword before text after ⟨.null, none⟩
  | keyword :
      MaximalRun isWordChar before text after → (∃ c ∈ text, isLetter c = true) →
      String.ofList text ∉ literalWords → isKeyword (String.ofList text) = true →
      SpellsWord isKeyword before text after ⟨.keyword, some (.string (String.ofList text))⟩
  | identifier :
      MaximalRun isWordChar before text after → (∃ c ∈ text, isLetter c = true) →
      String.ofList text ∉ literalWords → isKeyword (String.ofList text) = false →
      SpellsWord isKeyword before text after ⟨.identifier, some (.string (String.ofList text))⟩
  | integer :
      MaximalRun isWordChar before text after → (∀ c ∈ text, c.isDigit = true) →
      after.head? ≠ some '.' → Nat.ofDigitChars 10 text 0 ≤ maxInteger →
      SpellsWord isKeyword before text after
        ⟨.integer, some (.integer (Nat.ofDigitChars 10 text 0))⟩
  | decimal {whole part : List Char} :
      text = whole ++ '.' :: part → whole ≠ [] → (∀ c ∈ whole ++ part, c.isDigit = true) →
      (∀ c ∈ before.getLast?, isWordChar c = false) → StopsAt isWordChar after →
      after.head? ≠ some '.' →
      SpellsWord isKeyword before text after
        ⟨.decimal, some (.decimal (Decimal.ofDigits whole part))⟩

/-- The spelling of a sign, where no longer sign and no mark of a comment stands. -/
structure IsSign (after text : List Char) (s : Sign) : Prop where
  /-- The sign is one of the language's. -/
  mem : s ∈ signs
  /-- The text is its spelling. -/
  spelling : s.spelling = text
  /-- No longer sign begins here. -/
  longest : ∀ t ∈ signs, t.spelling <+: text ++ after → t.spelling.length ≤ text.length
  /-- No comment begins or ends here. -/
  unmarked : ∀ mark ∈ commentMarks, ¬ mark <+: text ++ after

/-- A piece of code and the lexeme it spells, between the text before it and the text behind
it on its line. -/
inductive Spells (isKeyword : String → Bool) (before text after : List Char) : Lexeme → Prop
  | word {l : Lexeme} :
      SpellsWord isKeyword before text after l → Spells isKeyword before text after l
  | character {x : Char} :
      IsCharacter after text x →
      Spells isKeyword before text after ⟨.character, some (.character x)⟩
  | string {s : String} :
      IsString after text s →
      Spells isKeyword before text after ⟨.string, some (.string s)⟩
  | sign {s : Sign} : IsSign after text s → Spells isKeyword before text after s.lexeme
  | header {name : List Char} :
      text = '#' :: name → name ≠ [] → (∀ c ∈ name, isHeaderChar c = true) →
      StopsAt isHeaderChar after →
      Spells isKeyword before text after ⟨.header, some (.string (String.ofList name))⟩

/-- An argument of a header and the lexeme it spells. -/
inductive SpellsArgument (before text after : List Char) : Lexeme → Prop
  | bare :
      MaximalRun isHeaderChar before text after →
      SpellsArgument before text after ⟨.string, some (.string (String.ofList text))⟩
  | character {x : Char} :
      IsCharacter after text x →
      SpellsArgument before text after ⟨.string, some (.string x.toString)⟩
  | string {s : String} :
      IsString after text s → SpellsArgument before text after ⟨.string, some (.string s)⟩

/-! ### Pieces of a line -/

/-- The mode behind a lexeme of code: everything behind a header's name is its arguments. -/
def Lexeme.modeBehind (l : Lexeme) : Mode := if l.kind = .header then .header else .code

/-- What a text begins with in a mode: the piece, the text behind it, the lexeme if the piece
says anything, and the mode behind it. `before` is the line up to the piece. -/
inductive Reads (isKeyword : String → Bool) (before : List Char) :
    Mode → List Char → List Char → Option Lexeme → Mode → Prop
  | blank {c : Char} {after : List Char} :
      isBlank c = true → Reads isKeyword before .code [c] after none .code
  | lexeme {text after : List Char} {l : Lexeme} :
      Spells isKeyword before text after l →
      Reads isKeyword before .code text after (some l) l.modeBehind
  | lineComment {body : List Char} :
      Reads isKeyword before .code ('/' :: '/' :: body) [] (some ⟨.singleComment, none⟩) .code
  | blockOpen {after : List Char} :
      Reads isKeyword before .code ['/', '*'] after (some ⟨.flexCommentStart, none⟩) .comment
  | blockBody {c : Char} {after : List Char} :
      ¬ ['*', '/'] <+: c :: after → Reads isKeyword before .comment [c] after none .comment
  | blockClose {after : List Char} :
      Reads isKeyword before .comment ['*', '/'] after (some ⟨.flexCommentEnd, none⟩) .code
  | argumentBlank {c : Char} {after : List Char} :
      isBlank c = true → Reads isKeyword before .header [c] after none .header
  | argument {text after : List Char} {l : Lexeme} :
      SpellsArgument before text after l →
      Reads isKeyword before .header text after (some l) .header

/-- A piece's lexeme in its place, in front of those that follow. -/
def placeFirst (l : Option Lexeme) (text : List Char) (found : List Placed) : List Placed :=
  match l with
  | some l => ⟨l, text⟩ :: found
  | none => found

/-- The rest of a line, its lexemes in their places, and the mode at its end. -/
inductive LineReads (isKeyword : String → Bool) :
    List Char → Mode → List Char → List Placed → Mode → Prop
  | nil {before : List Char} {mode : Mode} : LineReads isKeyword before mode [] [] mode
  | cons {before text after : List Char} {mode next last : Mode} {l : Option Lexeme}
      {found : List Placed} :
      Reads isKeyword before mode text after l next →
      LineReads isKeyword (before ++ text) next after found last →
      LineReads isKeyword before mode (text ++ after) (placeFirst l (text ++ after) found) last

/-- The mode that a line leaves for the next one: a block comment goes on, a header does
not. -/
def Mode.carried (mode : Mode) : Mode := if mode = .comment then .comment else .code

/-- The mode at the end of a row of lines. -/
inductive LinesEnd (isKeyword : String → Bool) : List (List Char) → Mode → Prop
  | nil : LinesEnd isKeyword [] .code
  | concat {lines : List (List Char)} {line : List Char} {mode last : Mode}
      {found : List Placed} :
      LinesEnd isKeyword lines mode → LineReads isKeyword [] mode.carried line found last →
      LinesEnd isKeyword (lines ++ [line]) last

end Offside.Scan
