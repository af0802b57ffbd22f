import Mathlib
import Offside.Proofs.Text.Lines
import Offside.Scan.Program

/-!
# `Offside.Proofs.Scan.LineEndings`: how lines end does not matter

A line of a source text ends in a line feed, or in a carriage return and a line feed, and every
line of a text may choose for itself. `EndedLine` is a line with such a choice: it holds no line
feed, and it does not choose the line feed alone if it ends in a carriage return, since the two
would be read as one ending. Carriage returns that stand anywhere else are characters of the line.

`linesOf_sourceText` says that the text of such lines has exactly these lines, and
`linesOf_sourceText_append` that the last line, unless it is empty, needs no ending. A program sees
of its text nothing but the lines, so `line_endings_neutral` follows: no choice of endings changes
a scan.
-/

set_option autoImplicit false

namespace Offside.Text

/-- How a line of a source text ends. -/
inductive Ending where
  /-- A line feed alone. -/
  | feed
  /-- A carriage return and a line feed. -/
  | returnFeed
deriving DecidableEq, Repr

/-- The characters of an ending. -/
def Ending.chars : Ending → List Char
  | feed => ['\n']
  | returnFeed => ['\r', '\n']

/-- A line of a source text with its ending. -/
structure EndedLine where
  /-- The characters of the line. -/
  chars : List Char
  /-- How it ends. -/
  ending : Ending
  /-- The line ends where its ending stands and not before. -/
  feed_not_mem : '\n' ∉ chars
  /-- A carriage return in front of a line feed would be part of the ending. -/
  getLast?_ne : ending = .feed → chars.getLast? ≠ some '\r'

/-- The characters of a line and of its ending. -/
def EndedLine.text (l : EndedLine) : List Char := l.chars ++ l.ending.chars

/-- The text of lines that stand one behind the other. -/
def sourceText (lines : List EndedLine) : List Char := lines.flatMap EndedLine.text

/-- Only the line feed ends a line, and a carriage return that belongs to the ending is dropped
with it. -/
theorem splitLines_endedLine (l : EndedLine) (rest : List Char) :
    splitLines '\n' '\r' (l.text ++ rest) = l.chars :: splitLines '\n' '\r' rest := by
  obtain ⟨chars, ending, hfeed, hlast⟩ := l
  cases ending with
  | feed =>
    show splitLines '\n' '\r' (chars ++ ['\n'] ++ rest) = _
    rw [List.append_assoc, List.singleton_append, splitLines_line hfeed,
      dropFinal_of_ne (hlast rfl)]
  | returnFeed =>
    have hmem : '\n' ∉ chars ++ ['\r'] := by simp [hfeed]
    have htext : chars ++ ['\r', '\n'] ++ rest = chars ++ ['\r'] ++ '\n' :: rest := by simp
    show splitLines '\n' '\r' (chars ++ ['\r', '\n'] ++ rest) = _
    rw [htext, splitLines_line hmem, dropFinal_concat]

/-- In front of anything, lines with endings are found as they are. -/
theorem splitLines_sourceText (lines : List EndedLine) (rest : List Char) :
    splitLines '\n' '\r' (sourceText lines ++ rest) =
      lines.map EndedLine.chars ++ splitLines '\n' '\r' rest := by
  induction lines with
  | nil => rfl
  | cons l lines ih =>
    show splitLines '\n' '\r' (l.text ++ sourceText lines ++ rest) = _
    rw [List.append_assoc, splitLines_endedLine, ih]
    rfl

/-- A text of ended lines has these lines and no others. -/
theorem linesOf_sourceText (lines : List EndedLine) :
    linesOf (String.ofList (sourceText lines)) = lines.map EndedLine.chars := by
  have h := splitLines_sourceText lines []
  rw [List.append_nil, splitLines_nil, List.append_nil] at h
  rw [linesOf, String.toList_ofList, h]

/-- A last line that is not empty needs no ending, whatever it ends in. -/
theorem linesOf_sourceText_append (lines : List EndedLine) {last : List Char} (hne : last ≠ [])
    (hfeed : '\n' ∉ last) :
    linesOf (String.ofList (sourceText lines ++ last)) =
      lines.map EndedLine.chars ++ [last] := by
  rw [linesOf, String.toList_ofList, splitLines_sourceText, splitLines_of_not_mem hne hfeed]

/-- Where the last line ends in a line feed alone, the text without its last character is the text
in which that line has no ending. -/
theorem dropLast_sourceText_concat (lines : List EndedLine) {last : EndedLine}
    (h : last.ending = .feed) :
    (sourceText (lines ++ [last])).dropLast = sourceText lines ++ last.chars := by
  have htext : sourceText (lines ++ [last]) = sourceText lines ++ last.chars ++ ['\n'] := by
    simp [sourceText, EndedLine.text, h, Ending.chars]
  rw [htext, List.dropLast_concat]

end Offside.Text

namespace Offside.Scan

open Offside.Text

/-- How lines end does not matter. Every line of a source text may end in a line feed, unless it
ends in a carriage return itself, or in a carriage return and a line feed: the scan of the text is
the scan of its lines, token for token or error for error. It stays the same where the line feed
behind a last line that is not empty is left out. -/
theorem line_endings_neutral (settings : Settings) (lines : List EndedLine) :
    scanSource settings (String.ofList (sourceText lines)) =
      scan settings (lines.map EndedLine.chars) ∧
    ∀ last ∈ lines.getLast?, last.chars ≠ [] → last.ending = .feed →
      scanSource settings (String.ofList (sourceText lines).dropLast) =
        scan settings (lines.map EndedLine.chars) := by
  refine ⟨by rw [scanSource, linesOf_sourceText], ?_⟩
  intro last hlast hne hending
  obtain ⟨front, rfl⟩ := List.getLast?_eq_some_iff.1 hlast
  rw [scanSource, dropLast_sourceText_concat front hending,
    linesOf_sourceText_append front hne last.feed_not_mem, List.map_append]
  rfl

/-- A block whose lines end in both ways. Of its other carriage returns one stands inside of a line
and one ends a line, in front of its ending; the second line is empty. The error is on the fourth
line, with and without the last line feed. -/
theorem line_endings_neutral_mixed :
    let lines : List EndedLine :=
      [⟨"if a\r".toList, .returnFeed, by decide, by decide⟩,
        ⟨[], .feed, by decide, by decide⟩,
        ⟨"  b\r= 1".toList, .returnFeed, by decide, by decide⟩,
        ⟨"   c".toList, .feed, by decide, by decide⟩]
    String.ofList (sourceText lines) = "if a\r\r\n\n  b\r= 1\r\n   c\n" ∧
    scan {} (lines.map EndedLine.chars) = .error ⟨4, some 4, .inconsistentIndentation 3 2⟩ ∧
    scanSource {} (String.ofList (sourceText lines)) = scan {} (lines.map EndedLine.chars) ∧
    scanSource {} (String.ofList (sourceText lines).dropLast) =
      scan {} (lines.map EndedLine.chars) := by
  intro lines
  have h := line_endings_neutral {} lines
  refine ⟨by decide, ?_, h.1, h.2 _ rfl (by decide) rfl⟩
  cbv

end Offside.Scan
