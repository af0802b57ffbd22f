import Offside.Proofs.Scan.Guarded.Cursor
import Offside.Scan.Layout

/-!
# `Offside.Proofs.Scan.Guarded.Machine`: scanning a program with a guarded cursor

The whole scan as a machine: a `Machine` holds the line that is read with its number, the cursor,
the tokens so far and what later lines depend on, and `Machine.scanLine` reads one more line into
it. Its main loop has one round for a blank, a literal, a word, a sign, a whole header or a whole
block comment; headers, comments, strings and words have loops of their own inside of it. Every move
of the cursor, every piece that is cut out, every difference and quotient and every round of a loop
is guarded.

`Guarded.scan` is the scan of a program. It halts with an error of the program, halts with a slip of
its own, or answers tokens.
-/

set_option autoImplicit false

namespace Offside.Scan.Guarded

open Offside.Text

/-- What a comment makes of the characters at the cursor. -/
inductive CommentMode where
  /-- There is no comment. -/
  | normal
  /-- The rest of the line is a comment. -/
  | line
  /-- Everything up to the next end of a block comment is one, across lines. -/
  | block
deriving DecidableEq, Repr

/-- A scan in the middle of a program. -/
structure Machine where
  /-- The tokens so far. -/
  tokens : List Token := []
  /-- The line that is read, of number zero before the first. -/
  row : Row := ⟨0, []⟩
  /-- The number of its characters that are behind. -/
  cursor : Nat := 0
  /-- The spaces in one step of indentation, once that is known. -/
  unit : Option Nat := none
  /-- The current depth of indentation. -/
  depth : Nat := 0
  /-- The comment at the cursor. -/
  comment : CommentMode := .normal
  /-- The number of open parentheses. -/
  parens : Nat := 0
  /-- The kind of the last token that is no mark of a comment. -/
  last : Option Kind := none

namespace Machine

/-- The machine in front of a program. A forced indentation width of zero is none. -/
def start (settings : Settings) : Machine :=
  { unit := settings.indentWidth.filter (0 < ·) }

/-- The cursor moved on by some characters. -/
def advance (m : Machine) (count : Nat) : Except Halt Machine := do
  let cursor ← m.row.advance m.cursor count
  return { m with cursor }

/-- Adds a token. -/
def pushAt (m : Machine) (l : Lexeme) (line column : Nat) : Machine :=
  { m with
    tokens := m.tokens ++ [⟨l.kind, l.literal, line, column⟩]
    last := if l.kind.isComment then m.last else some l.kind }

/-- Adds a token that starts at a place of the line. -/
def push (m : Machine) (l : Lexeme) (start : Nat) : Machine :=
  m.pushAt l m.row.number (start + 1)

/-- Adds the same token some number of times. -/
def pushRow (m : Machine) (count : Nat) (kind : Kind) (line column : Nat) : Machine :=
  Nat.repeat (fun m => m.pushAt ⟨kind, none⟩ line column) count m

/-- Adds the mark of a comment, if marks are wanted. -/
def mark (settings : Settings) (m : Machine) (kind : Kind) (start : Nat) : Machine :=
  if settings.emitComments then m.push ⟨kind, none⟩ start else m

/-! ### Comments -/

/-- One round inside of a block comment. -/
def blockRound (settings : Settings) (m : Machine) : Except Halt (Round Machine Machine) :=
  match m.row.peek m.cursor with
  | none => .ok (.leave m)
  | some c => do
    let m ← m.advance 1
    if c = '*' ∧ m.row.peek m.cursor = some '/' then do
      let m ← m.advance 1
      let m := { m with comment := .normal }
      if settings.emitComments then do
        let start ← minus m.cursor 2
        return .leave (m.push ⟨.flexCommentEnd, none⟩ start)
      else return .leave m
    else return .again m

/-- A block comment up to its end, or to the end of the line. -/
def blockComment (settings : Settings) (m : Machine) : Except Halt Machine :=
  loop cursor m.row.chars.length (blockRound settings) m

/-! ### Literals and words -/

/-- A character literal. -/
def character (m : Machine) : Except Halt Machine := do
  let (value, cursor) ← m.row.characterLiteral m.cursor
  return { m with cursor }.push ⟨.character, some (.character value)⟩ m.cursor

/-- A string literal. -/
def string (m : Machine) : Except Halt Machine := do
  let (value, cursor) ← m.row.stringLiteral m.cursor
  return { m with cursor }.push ⟨.string, some (.string value)⟩ m.cursor

/-- A word or a number. -/
def word (settings : Settings) (m : Machine) : Except Halt Machine := do
  let (l, cursor) ← m.row.wordLiteral settings.isKeyword m.cursor
  return { m with cursor }.push l m.cursor

/-! ### Headers -/

/-- Ends the unquoted word of a header, if there is one: it began at `start`. -/
def endArgument (m : Machine) (start : Option Nat) : Except Halt Machine :=
  match start with
  | none => .ok m
  | some start => do
    let text ← m.row.slice start m.cursor
    return m.push ⟨.string, some (.string (String.ofList text))⟩ start

/-- A quoted argument of a header. -/
def quotedArgument (m : Machine) (quote : Char) : Except Halt Machine := do
  let (value, cursor) ← m.row.quotedText quote m.cursor
  return { m with cursor }.push ⟨.string, some (.string value)⟩ m.cursor

/-- One round over the arguments of a header: the machine, and where the unquoted word began that
is read, if there is one. -/
def argumentRound (s : Machine × Option Nat) :
    Except Halt (Round (Machine × Option Nat) (Machine × Option Nat)) :=
  match s.1.row.peek s.1.cursor with
  | none => .ok (.leave s)
  | some c =>
    if c = '"' ∨ c = '\'' then do
      let m ← s.1.endArgument s.2
      let m ← m.quotedArgument c
      return .again (m, none)
    else if isBlank c then do
      let m ← s.1.endArgument s.2
      let m ← m.advance 1
      return .again (m, none)
    else do
      let m ← s.1.advance 1
      return .again (m, some (s.2.getD s.1.cursor))

/-- The arguments of a header, up to the end of the line. -/
def arguments (m : Machine) (word : Option Nat) : Except Halt Machine := do
  let (m, word) ← loop (fun s => s.1.cursor) m.row.chars.length argumentRound (m, word)
  m.endArgument word

/-- A header, up to the end of the line. -/
def header (m : Machine) : Except Halt Machine := do
  let begin ← m.row.advance m.cursor 1
  let cursor ← loop id m.row.chars.length m.row.nameRound begin
  if cursor = begin then m.row.fail m.cursor .emptyHeader
  else do
    let name ← m.row.slice begin cursor
    let next := { m with cursor }.push ⟨.header, some (.string (String.ofList name))⟩ m.cursor
    next.arguments none

/-! ### Signs -/

/-- One of the signs `+ - * / % & |` with what belongs to it, or the beginning of a comment. -/
def operator (settings : Settings) (m : Machine) (c : Char) : Except Halt Machine := do
  let start := m.cursor
  let next := m.row.peek (start + 1)
  let m ← m.advance 1
  if next = some '=' then do
    let m ← m.advance 1
    return m.push ⟨.setOperator, some (.string (String.ofList [c, '=']))⟩ start
  else if c = '&' ∧ next = some '&' then do
    let m ← m.advance 1
    return m.push ⟨.and, none⟩ start
  else if c = '|' ∧ next = some '|' then do
    let m ← m.advance 1
    return m.push ⟨.or, none⟩ start
  else if c = '/' ∧ next = some '/' then
    let m := { m with cursor := m.row.chars.length, comment := .line }
    return m.mark settings .singleComment start
  else if c = '/' ∧ next = some '*' then do
    let m ← m.advance 1
    let m := { m with comment := .block }
    return m.mark settings .flexCommentStart start
  else if c = '*' ∧ next = some '/' then m.row.fail start .rogueTerminator
  else return m.push ⟨.operator, some (.character c)⟩ start

/-- What a sign of one character stands for, if it is no operator. -/
def plainSign? : Char → Option Lexeme
  | '!' => some ⟨.not, none⟩
  | '=' => some ⟨.assign, none⟩
  | '<' => some ⟨.comparator, some (.string "<")⟩
  | '>' => some ⟨.comparator, some (.string ">")⟩
  | '(' => some ⟨.lParen, none⟩
  | ')' => some ⟨.rParen, none⟩
  | '[' => some ⟨.lBracket, none⟩
  | ']' => some ⟨.rBracket, none⟩
  | '{' => some ⟨.lBrace, none⟩
  | '}' => some ⟨.rBrace, none⟩
  | '.' => some ⟨.dot, none⟩
  | ',' => some ⟨.comma, none⟩
  | ':' => some ⟨.colon, none⟩
  | _ => none

/-- Any other sign, of one character or two. -/
def punctuation (m : Machine) (c : Char) : Except Halt Machine :=
  if ['!', '=', '<', '>'].contains c ∧ m.row.peek (m.cursor + 1) = some '=' then do
    let next ← m.advance 2
    return next.push ⟨.comparator, some (.string (String.ofList [c, '=']))⟩ m.cursor
  else
    match plainSign? c with
    | none => m.row.fail m.cursor (.illegalCharacter c)
    | some l => do
      -- A closing parenthesis without an opening one changes nothing.
      let parens := if c = '(' then m.parens + 1 else if c = ')' then m.parens - 1 else m.parens
      let next ← m.advance 1
      return { next with parens }.push l m.cursor

/-! ### Lines -/

/-- One round in code, where a character is at the cursor. -/
def codeRound (settings : Settings) (m : Machine) (c : Char) : Except Halt Machine :=
  if isBlank c then m.advance 1
  else if c = '\'' then m.character
  else if c = '"' then m.string
  else if c = '#' then m.header
  else if operatorChars.contains c then m.operator settings c
  else if isWordChar c then m.word settings
  else m.punctuation c

/-- One round over a line. -/
def lineRound (settings : Settings) (m : Machine) : Except Halt (Round Machine Machine) :=
  match m.row.peek m.cursor with
  | none => .ok (.leave m)
  | some c =>
    match m.comment with
    | .line => .ok (.leave m)
    | .block => do
      let m ← m.blockComment settings
      return .again m
    | .normal => do
      let m ← m.codeRound settings c
      return .again m

/-- Whether the next line break is part of a statement. -/
def joinsNext (settings : Settings) (m : Machine) : Bool :=
  m.comment == .block || 0 < m.parens || m.last.any settings.continues

/-- Measures the margin of the line and adds the tokens of the change of depth. -/
def indentation (m : Machine) : Except Halt Machine :=
  if allBlank m.row.chars then .ok m
  else do
    let margin ← loop Row.Margin.cursor m.row.chars.length m.row.marginRound { cursor := m.cursor }
    let (depth, unit) ← m.row.depthOf m.unit margin
    let kind := if m.depth < depth then Kind.indent else Kind.dedent
    let steps := (depth - m.depth) + (m.depth - depth)
    let next := { m with cursor := margin.cursor }.pushRow steps kind m.row.number 1
    return { next with depth, unit }

/-- The machine in front of the first character of one more line. -/
def nextLine (m : Machine) (line : List Char) : Machine :=
  { m with
    row := ⟨m.row.number + 1, line⟩
    cursor := 0
    comment := if m.comment = .line then .normal else m.comment }

/-- The line break in front of the line, if it ends a statement, and the indentation behind it.
The last line had `width` characters. -/
def lineBreak (settings : Settings) (m : Machine) (width : Nat) : Except Halt Machine :=
  if 1 < m.row.number ∧ m.joinsNext settings = false then do
    let number ← minus m.row.number 1
    (m.pushAt ⟨.newline, none⟩ number (width + 1)).indentation
  else .ok m

/-- Reads one more line. -/
def scanLine (settings : Settings) (m : Machine) (line : List Char) : Except Halt Machine := do
  let next ← (m.nextLine line).lineBreak settings m.row.chars.length
  loop cursor line.length (lineRound settings) next

/-- Adds the tokens that end a program, and answers all of them. -/
def finish (m : Machine) : Except Halt (List Token) :=
  if m.comment = .block then .error (.error ⟨m.row.number, none, .unterminatedComment⟩)
  else
    let line := max m.row.number 1
    let column := m.row.chars.length + 1
    .ok ((m.pushRow m.depth .dedent line column).pushAt ⟨.eof, none⟩ line column).tokens

end Machine

/-- The tokens of a program given by its lines. -/
def scan (settings : Settings) (lines : List (List Char)) : Except Halt (List Token) := do
  let m ← lines.foldlM (Machine.scanLine settings) (Machine.start settings)
  m.finish

end Offside.Scan.Guarded
