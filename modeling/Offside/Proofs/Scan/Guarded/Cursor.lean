import Offside.Scan.Line

/-!
# `Offside.Proofs.Scan.Guarded.Cursor`: reading a line with a guarded cursor

`Scan.lexemes` takes a line apart from the front, so it has no place that could be wrong. Here the
same language is read the way a machine with little memory does it: the line stays whole, a cursor
counts the characters that are behind, pieces of the line are cut out between two places, and loops
move the cursor on until something ends them. All of this can go wrong, and every operation that can
is guarded. What a guard refuses is a `Slip`, which is no error of the program that is read:

* the cursor moves beyond the last character (`Row.advance`);
* a piece is cut out whose ends do not stand in order within the line (`Row.slice`);
* a number is taken from a smaller one, or divided by zero (`minus`, `divide`);
* a round of a loop does not move the cursor on (`loop`).

A loop ends because its guard makes every round move on. Nothing here says that a guard never
refuses: that is what is proved of these definitions.
-/

set_option autoImplicit false

namespace Offside.Scan.Guarded

open Offside.Text

/-! ### Guards -/

/-- What a guard refuses. -/
inductive Slip where
  /-- The cursor would leave its line. -/
  | pastEnd
  /-- The ends of a piece do not stand in order within the line. -/
  | badSlice
  /-- A number would be taken from a smaller one. -/
  | underflow
  /-- Something would be divided by zero. -/
  | zeroDivisor
  /-- A round of a loop has not moved the cursor on. -/
  | noProgress
deriving DecidableEq, Repr

/-- Why a guarded scan stops before its end. -/
inductive Halt where
  /-- The program that is read has an error. -/
  | error (e : Error)
  /-- The scan itself has made a mistake. -/
  | slip (s : Slip)
deriving DecidableEq, Repr

/-- The difference of two numbers. -/
def minus (a b : Nat) : Except Halt Nat :=
  if b ≤ a then .ok (a - b) else .error (.slip .underflow)

/-- The quotient of two numbers, and what is left over. -/
def divide (a b : Nat) : Except Halt (Nat × Nat) :=
  if b = 0 then .error (.slip .zeroDivisor) else .ok (a / b, a % b)

/-- What one round of a loop comes to. -/
inductive Round (σ β : Type) where
  /-- Another round follows. -/
  | again (s : σ)
  /-- The loop is left with an answer. -/
  | leave (b : β)

/-- Rounds, each with what the last one leaves, until one of them leaves the loop or halts. Between
two rounds the cursor must have moved on within the line, whose length is `bound`. -/
def loop {σ β : Type} (cursor : σ → Nat) (bound : Nat) (round : σ → Except Halt (Round σ β))
    (s : σ) : Except Halt β :=
  match round s with
  | .error h => .error h
  | .ok (.leave b) => .ok b
  | .ok (.again t) =>
    if cursor t ≤ cursor s then .error (.slip .noProgress)
    else if bound < cursor t then .error (.slip .pastEnd)
    else loop cursor bound round t
termination_by bound - cursor s

/-! ### Lines -/

/-- A line with its number. -/
structure Row where
  /-- The number of the line, counted from one. -/
  number : Nat
  /-- Its characters. -/
  chars : List Char
deriving DecidableEq, Repr

namespace Row

/-- The character at a place, if there is one. -/
def peek (r : Row) (place : Nat) : Option Char := r.chars[place]?

/-- The cursor moved on by some characters. -/
def advance (r : Row) (cursor count : Nat) : Except Halt Nat :=
  if cursor + count ≤ r.chars.length then .ok (cursor + count) else .error (.slip .pastEnd)

/-- The characters from a place up to the cursor. -/
def slice (r : Row) (start cursor : Nat) : Except Halt (List Char) :=
  if start ≤ cursor ∧ cursor ≤ r.chars.length then .ok ((r.chars.take cursor).drop start)
  else .error (.slip .badSlice)

/-- An error of the program at a place of the line. -/
def fail {α : Type} (r : Row) (place : Nat) (cause : Cause) : Except Halt α :=
  .error (.error ⟨r.number, some (place + 1), cause⟩)

/-! ### Literals -/

/-- A literal may not run straight into a word or number. -/
def checkTrailing (r : Row) (cursor : Nat) : Except Halt Unit :=
  match r.peek cursor with
  | none => .ok ()
  | some c => if isWordChar c then r.fail cursor (.illegalTrailing c) else .ok ()

/-- The character that four hexadecimal digits at the cursor name. -/
def unicode (r : Row) (backslash cursor : Nat) : Except Halt (Char × Nat) :=
  let digits := ((r.chars.drop cursor).take 4).takeWhile (fun c => (hexDigit? c).isSome)
  if digits.length ≠ 4 then r.fail backslash .malformedUnicode
  else do
    let cursor ← r.advance cursor 4
    match (hexValue? digits).bind charOfNat? with
    | some c => return (c, cursor)
    | none => r.fail backslash .malformedUnicode

/-- The character that an escape stands for, whose backslash is at the cursor. If the line ends
there, the literal is to blame, which begins at `start`. -/
def escape (r : Row) (start : Nat) (cut : Cause) (cursor : Nat) : Except Halt (Char × Nat) := do
  let backslash := cursor
  let cursor ← r.advance cursor 1
  match r.peek cursor with
  | none => r.fail start cut
  | some c =>
    let cursor ← r.advance cursor 1
    if c = 'u' then r.unicode backslash cursor else return (escaped c, cursor)

/-- The character that stands in a literal at the cursor: `c`, or what an escape stands for. -/
def unitAt (r : Row) (start : Nat) (cut : Cause) (cursor : Nat) (c : Char) :
    Except Halt (Char × Nat) :=
  if c = '\\' then r.escape start cut cursor
  else do
    let cursor ← r.advance cursor 1
    return (c, cursor)

/-- The one character between the quotes of a character literal. -/
def characterBody (r : Row) (start cursor : Nat) : Except Halt (Char × Nat) :=
  match r.peek cursor with
  | none => r.fail start .unterminatedCharacter
  | some c =>
    if c = '\'' then r.fail start .emptyCharacter
    else r.unitAt start .unterminatedCharacter cursor c

/-- The character literal at the cursor, and the place behind it. -/
def characterLiteral (r : Row) (cursor : Nat) : Except Halt (Char × Nat) := do
  let start := cursor
  let cursor ← r.advance cursor 1
  let (value, cursor) ← r.characterBody start cursor
  match r.peek cursor with
  | none => r.fail start .unterminatedCharacter
  | some c =>
    if c = '\'' then do
      let cursor ← r.advance cursor 1
      r.checkTrailing cursor
      return (value, cursor)
    else r.fail start .malformedCharacter

/-- One round over the units of a string: what the units stand for so far, and the cursor. -/
def stringRound (r : Row) (start : Nat) (s : List Char × Nat) :
    Except Halt (Round (List Char × Nat) (List Char × Nat)) :=
  match r.peek s.2 with
  | none => r.fail start .unterminatedString
  | some c =>
    if c = '"' then do
      let cursor ← r.advance s.2 1
      return .leave (s.1, cursor)
    else do
      let (x, cursor) ← r.unitAt start .unterminatedString s.2 c
      return .again (s.1 ++ [x], cursor)

/-- The string literal at the cursor, and the place behind it. -/
def stringLiteral (r : Row) (cursor : Nat) : Except Halt (String × Nat) := do
  let start := cursor
  let cursor ← r.advance cursor 1
  let (value, cursor) ← loop Prod.snd r.chars.length (r.stringRound start) ([], cursor)
  r.checkTrailing cursor
  return (String.ofList value, cursor)

/-- The text of the literal at the cursor, which begins with a quote of either kind. -/
def quotedText (r : Row) (quote : Char) (cursor : Nat) : Except Halt (String × Nat) :=
  if quote = '"' then r.stringLiteral cursor
  else do
    let (value, cursor) ← r.characterLiteral cursor
    return (value.toString, cursor)

/-! ### Words and numbers -/

/-- What is known about a word in the middle of it. -/
structure WordScan where
  /-- The place behind what is read. -/
  cursor : Nat
  /-- Whether a letter has been read. -/
  hasLetter : Bool := false
  /-- Whether a point has been read. -/
  decimal : Bool := false

/-- One round over a word or number. -/
def wordRound (r : Row) (w : WordScan) : Except Halt (Round WordScan WordScan) :=
  match r.peek w.cursor with
  | none => .ok (.leave w)
  | some c =>
    if !isWordChar c && c != '.' then .ok (.leave w)
    else
      let hasLetter := w.hasLetter || isLetter c
      if w.decimal && (hasLetter || c == '.') then r.fail w.cursor (.illegalDecimal c)
      -- A point behind a word is left to a parser.
      else if c == '.' && hasLetter then .ok (.leave { w with hasLetter })
      else do
        let cursor ← r.advance w.cursor 1
        return .again { cursor, hasLetter, decimal := w.decimal || c == '.' }

/-- What the text of a word or number says, which begins at `start`. -/
def wordValue (r : Row) (isKeyword : String → Bool) (start : Nat) (w : WordScan)
    (text : List Char) : Except Halt Lexeme :=
  if w.hasLetter then .ok (wordLexeme isKeyword (String.ofList text))
  else if w.decimal then
    let value := Decimal.ofDigits (text.takeWhile (· != '.')) (text.dropWhile (· != '.')).tail
    .ok ⟨.decimal, some (.decimal value)⟩
  else
    let value := Decimal.digitsValue text
    if value ≤ maxInteger then .ok ⟨.integer, some (.integer value)⟩
    else r.fail start (.malformedNumber (String.ofList text))

/-- The word or number at the cursor, and the place behind it. -/
def wordLiteral (r : Row) (isKeyword : String → Bool) (cursor : Nat) :
    Except Halt (Lexeme × Nat) := do
  let w ← loop WordScan.cursor r.chars.length r.wordRound { cursor }
  let text ← r.slice cursor w.cursor
  let l ← r.wordValue isKeyword cursor w text
  return (l, w.cursor)

/-- One round over the name of a header. -/
def nameRound (r : Row) (cursor : Nat) : Except Halt (Round Nat Nat) :=
  match r.peek cursor with
  | none => .ok (.leave cursor)
  | some c =>
    if isHeaderChar c then do
      let cursor ← r.advance cursor 1
      return .again cursor
    else .ok (.leave cursor)

/-! ### Margins -/

/-- The margin of a line in the middle of it. -/
structure Margin where
  /-- The place behind what is read. -/
  cursor : Nat
  /-- The tabs so far. -/
  tabs : Nat := 0
  /-- The spaces so far. -/
  spaces : Nat := 0

/-- One round over the blanks that a line begins with. -/
def marginRound (r : Row) (m : Margin) : Except Halt (Round Margin Margin) :=
  match r.peek m.cursor with
  | none => .ok (.leave m)
  | some c =>
    if isBlank c then
      if c = '\t' then do
        let cursor ← r.advance m.cursor 1
        return .again { m with cursor, tabs := m.tabs + 1 }
      else if c = ' ' then do
        let cursor ← r.advance m.cursor 1
        return .again { m with cursor, spaces := m.spaces + 1 }
      else r.fail m.cursor .illegalWhitespace
    else .ok (.leave m)

/-- The depth that a margin stands for, and the unit that is known from then on. -/
def depthOf (r : Row) (unit : Option Nat) (m : Margin) : Except Halt (Nat × Option Nat) :=
  if m.spaces = 0 then .ok (m.tabs, unit)
  else do
    let width := unit.getD m.spaces
    let (steps, left) ← divide m.spaces width
    if left ≠ 0 then r.fail m.cursor (.inconsistentIndentation m.spaces width)
    else return (m.tabs + steps, some width)

end Row

end Offside.Scan.Guarded
