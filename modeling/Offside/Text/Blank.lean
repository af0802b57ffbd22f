/-!
# `Offside.Text.Blank`: blank characters

Between the tokens of a line stand blanks: the twenty-five characters with the Unicode
property `White_Space`. Only two of them, the space and the tab, may indent a line; the
others are still blanks anywhere else. `isBlank_of_isWhitespace` says that the class
contains the four blanks of ASCII that core's `Char.isWhitespace` knows.
-/

set_option autoImplicit false

namespace Offside.Text

/-- Whether a character has the property `White_Space`. -/
def isBlank (c : Char) : Bool :=
  c == ' ' || ('\t' ≤ c && c ≤ '\r') || c == '\u0085' || c == '\u00a0' || c == '\u1680' ||
    ('\u2000' ≤ c && c ≤ '\u200a') || c == '\u2028' || c == '\u2029' || c == '\u202f' ||
    c == '\u205f' || c == '\u3000'

/-- Every blank of ASCII is a blank. -/
theorem isBlank_of_isWhitespace {c : Char} (h : c.isWhitespace = true) : isBlank c = true := by
  simp only [Char.isWhitespace, Bool.or_eq_true, decide_eq_true_eq] at h
  rcases h with ((h | h) | h) | h <;> subst h <;> decide

/-- A text of blanks only, the empty text included. -/
def allBlank (cs : List Char) : Bool := cs.all isBlank

end Offside.Text
