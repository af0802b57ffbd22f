/-!
# `Offside.Text.Lines`: cutting a text into lines

A line ends at a line feed, and a carriage return directly before that line feed belongs to
the terminator. A carriage return anywhere else is an ordinary element of its line, and a
terminator at the very end of the text opens no further line. The same rule serves
characters and bytes, so `splitLines` takes the two terminators as arguments.
-/

set_option autoImplicit false

namespace Offside.Text

variable {α : Type} [DecidableEq α]

/-- A line without the one carriage return it may end in. -/
def dropFinal (ret : α) (line : List α) : List α :=
  if line.getLast? = some ret then line.dropLast else line

/-- The lines of a text whose lines end at `feed`, or at `ret` followed by `feed`. -/
def splitLines (feed ret : α) (text : List α) : List (List α) :=
  if text = [] then []
  else
    match _h : text.dropWhile (· ≠ feed) with
    | [] => [text]
    | _ :: rest =>
      dropFinal ret (text.takeWhile (· ≠ feed)) :: splitLines feed ret rest
termination_by text.length
decreasing_by
  -- What is left behind the line feed is shorter than what is left from it on.
  have hle : (text.dropWhile (· ≠ feed)).length ≤ text.length :=
    List.Sublist.length_le (List.dropWhile_sublist _)
  rw [_h] at hle
  simp only [List.length_cons] at hle
  omega

/-- The lines of a source text. -/
def linesOf (source : String) : List (List Char) :=
  splitLines '\n' '\r' source.toList

end Offside.Text
