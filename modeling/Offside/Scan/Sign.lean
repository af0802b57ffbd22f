import Offside.Scan.Lexeme

/-!
# `Offside.Scan.Sign`: operators, comparators and punctuation

The signs of the language are a table. A text begins with the first sign of the table whose
spelling it begins with, and since the signs of two characters stand before those of one,
that is the longest. `sign?_suffix` says that what follows a sign is the text without its
spelling, and `sign?_mem` that only signs of the table are found.
-/

set_option autoImplicit false

namespace Offside.Scan

/-- A spelling and the lexeme it stands for. -/
structure Sign where
  /-- The characters of the sign. -/
  spelling : List Char
  /-- The lexeme it stands for. -/
  lexeme : Lexeme
deriving DecidableEq, Repr

/-- An arithmetic or bitwise operator, which carries its character. -/
def Sign.operator (c : Char) : Sign := ⟨[c], ⟨.operator, some (.character c)⟩⟩

/-- An operator followed by `=`, which carries both characters. -/
def Sign.setOperator (c : Char) : Sign :=
  ⟨[c, '='], ⟨.setOperator, some (.string (String.ofList [c, '=']))⟩⟩

/-- A comparator, which carries its spelling. -/
def Sign.comparator (spelling : List Char) : Sign :=
  ⟨spelling, ⟨.comparator, some (.string (String.ofList spelling))⟩⟩

/-- A sign that carries nothing. -/
def Sign.bare (spelling : List Char) (kind : Kind) : Sign := ⟨spelling, ⟨kind, none⟩⟩

/-- The characters of the operators. -/
def operatorChars : List Char := ['+', '-', '*', '/', '%', '&', '|']

/-- All signs, the longer ones first. -/
def signs : List Sign :=
  operatorChars.map Sign.setOperator ++
    [.bare ['&', '&'] .and, .bare ['|', '|'] .or,
      .comparator ['=', '='], .comparator ['!', '='], .comparator ['<', '='],
      .comparator ['>', '=']] ++
    operatorChars.map Sign.operator ++
    [.bare ['!'] .not, .bare ['='] .assign, .comparator ['<'], .comparator ['>'],
      .bare ['('] .lParen, .bare [')'] .rParen, .bare ['['] .lBracket,
      .bare [']'] .rBracket, .bare ['{'] .lBrace, .bare ['}'] .rBrace, .bare ['.'] .dot,
      .bare [','] .comma, .bare [':'] .colon]

/-- The longest sign that a text begins with. -/
def sign? (text : List Char) : Option Sign := signs.find? (fun s => s.spelling.isPrefixOf text)

/-- A sign that is found stands in the table, and the text begins with it. -/
theorem sign?_mem {text : List Char} {s : Sign} (h : sign? text = some s) :
    s ∈ signs ∧ s.spelling <+: text := by
  unfold sign? at h
  have hfound := List.find?_some h
  exact ⟨List.mem_of_find?_eq_some h, List.isPrefixOf_iff_prefix.1 (by simpa using hfound)⟩

/-- No sign is empty. -/
theorem spelling_ne_nil {s : Sign} (h : s ∈ signs) : s.spelling ≠ [] := by
  have all : ∀ t ∈ signs, t.spelling.length ≠ 0 := by decide
  exact fun hs => all s h (by rw [hs]; rfl)

/-- A sign takes at least its first character. -/
theorem sign?_suffix {c : Char} {text : List Char} {s : Sign}
    (h : sign? (c :: text) = some s) : (c :: text).drop s.spelling.length <:+ text := by
  have hne := spelling_ne_nil (sign?_mem h).1
  cases hs : s.spelling with
  | nil => exact absurd hs hne
  | cons d ds => simpa using List.drop_suffix ds.length text

end Offside.Scan
