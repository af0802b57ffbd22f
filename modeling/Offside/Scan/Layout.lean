import Offside.Scan.Line
import Offside.Settings

/-!
# `Offside.Scan.Layout`: line breaks and indentation

What happens at the beginning of a line depends on what came before it, and a `State` holds
just that. A line break ends a statement, and becomes a `NEWLINE`, unless it falls inside a
block comment or inside parentheses or behind a token that wants more. The line behind a
`NEWLINE`, if it holds anything but blanks, is measured: every tab of its margin counts one
step of indentation and every `unit` spaces count one, where the unit is the forced width or
the number of spaces in the first margin that has any. A change of depth becomes `INDENT` or
`DEDENT` tokens, one for each step.
-/

set_option autoImplicit false

namespace Offside.Scan

open Offside.Text

/-- What the lines read so far mean for the next one. -/
structure State where
  /-- The number of lines read. -/
  lines : Nat := 0
  /-- The length of the last of them. -/
  width : Nat := 0
  /-- The spaces in one step of indentation, once that is known. -/
  unit : Option Nat := none
  /-- The current depth of indentation. -/
  depth : Nat := 0
  /-- Whether a block comment is open. -/
  inComment : Bool := false
  /-- The number of open parentheses. -/
  parens : Nat := 0
  /-- The kind of the last token that is no mark of a comment. -/
  last : Option Kind := none
deriving DecidableEq, Repr

namespace State

/-- The state before the first line. A forced indentation width of zero is none. -/
def start (settings : Settings) : State := { unit := settings.indentWidth.filter (0 < ·) }

/-- The state behind a token of the given kind. A closing parenthesis without an opening one
changes nothing. -/
def see (s : State) (kind : Kind) : State :=
  if kind.isComment then s
  else
    { s with
      parens := match kind with
        | .lParen => s.parens + 1
        | .rParen => s.parens - 1
        | _ => s.parens
      last := some kind }

/-- The state behind a row of tokens. -/
def seeAll (s : State) (tokens : List Token) : State :=
  tokens.foldl (fun s t => s.see t.kind) s

/-- Whether the next line break is part of a statement. -/
def joinsNext (settings : Settings) (s : State) : Bool :=
  s.inComment || 0 < s.parens || s.last.any settings.continues

end State

/-! ### Measuring a line -/

/-- Whether a character may indent a line. -/
def isMargin (c : Char) : Bool := c == ' ' || c == '\t'

theorem isMargin_iff {c : Char} : isMargin c = true ↔ c = ' ' ∨ c = '\t' := by
  simp [isMargin]

theorem isBlank_of_isMargin {c : Char} (h : isMargin c = true) : isBlank c = true := by
  rcases isMargin_iff.1 h with rfl | rfl <;> decide

/-- The depth of a line that holds more than blanks, and the unit that is known from then on.
The margin must consist of spaces and tabs up to the first character that is no blank, and
its spaces must make up whole steps. -/
def measure (unit : Option Nat) (line : List Char) : Except Fault (Nat × Option Nat) :=
  let margin := line.takeWhile isMargin
  let rest := line.dropWhile isMargin
  -- A margin that stops at a blank is indented by something else.
  if rest.head?.any isBlank then .error ⟨.illegalWhitespace, rest⟩
  else
    let tabs := margin.count '\t'
    let spaces := margin.count ' '
    -- Tabs alone do not decide the unit.
    if spaces = 0 then .ok (tabs, unit)
    else
      let width := unit.getD spaces
      if spaces % width = 0 then .ok (tabs + spaces / width, some width)
      else .error ⟨.inconsistentIndentation spaces width, rest⟩

/-- The tokens of a change of depth at the beginning of a line. -/
def depthTokens (number before after : Nat) : List Token :=
  if before < after then List.replicate (after - before) ⟨.indent, none, number, 1⟩
  else List.replicate (before - after) ⟨.dedent, none, number, 1⟩

/-- The token of the line break behind the last line. -/
def State.newline (s : State) : Token := ⟨.newline, none, s.lines, s.width + 1⟩

/-- The tokens between the last line and the next one, and the state behind them. -/
def boundary (settings : Settings) (s : State) (line : List Char) :
    Except Fault (State × List Token) :=
  if s.lines = 0 ∨ s.joinsNext settings then .ok (s, [])
  -- A line of blanks ends a statement like any other but has no depth.
  else if allBlank line then .ok (s.see .newline, [s.newline])
  else
    match measure s.unit line with
    | .error fault => .error fault
    | .ok (depth, unit) =>
      let tokens := s.newline :: depthTokens (s.lines + 1) s.depth depth
      .ok ({ s.seeAll tokens with depth, unit }, tokens)

end Offside.Scan
