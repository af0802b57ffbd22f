import Offside.Token.Kind

/-!
# `Offside.Settings`: what can be changed about a scan

Twenty words are reserved and six kinds of token let a statement run on into the next line.
`Settings` extend both sets, never shrink them, and choose the width of one indentation step
and whether marks of comments become tokens. `addKeyword` and `addContinuation` report
whether the set has grown; `isKeyword_addKeyword` and `continues_addContinuation` say that
they add one member and nothing else.
-/

set_option autoImplicit false

namespace Offside

/-- The words that are always reserved: the protections, the words of control flow and the
names of the data types. -/
def reservedWords : List String :=
  ["public", "group", "directory", "private",
    "if", "elif", "else", "for", "while", "continue", "break", "return", "switch", "case",
    "default",
    "bool", "char", "int", "dec", "string"]

/-- The kinds that always let a statement run on when they end a line. -/
def continuationKinds : List Kind :=
  [.operator, .setOperator, .comparator, .and, .or, .assign]

/-- The choices of one scan. -/
structure Settings where
  /-- The number of spaces in one indentation step; absent or zero, the first line that is
  indented by spaces decides it. -/
  indentWidth : Option Nat := none
  /-- Whether the marks of comments become tokens. -/
  emitComments : Bool := false
  /-- Reserved words beside the fixed ones, without repetition. -/
  extraKeywords : List String := []
  /-- Continuation kinds beside the fixed ones, without repetition. -/
  extraContinuations : List Kind := []
deriving DecidableEq, Repr

namespace Settings

/-- Whether a word is reserved. -/
def isKeyword (s : Settings) (word : String) : Bool :=
  reservedWords.contains word || s.extraKeywords.contains word

/-- Whether a token of this kind at the end of a line lets the statement run on. -/
def continues (s : Settings) (kind : Kind) : Bool :=
  continuationKinds.contains kind || s.extraContinuations.contains kind

/-- Reserve a word. The flag says whether it was free before. -/
def addKeyword (s : Settings) (word : String) : Settings × Bool :=
  if s.isKeyword word then (s, false)
  else ({ s with extraKeywords := word :: s.extraKeywords }, true)

/-- Make a kind a continuation. The flag says whether it was none before. -/
def addContinuation (s : Settings) (kind : Kind) : Settings × Bool :=
  if s.continues kind then (s, false)
  else ({ s with extraContinuations := kind :: s.extraContinuations }, true)

/-- The extra keywords in the order of their code points. -/
def sortedKeywords (s : Settings) : List String :=
  s.extraKeywords.mergeSort (fun a b => a ≤ b)

/-- The extra continuation kinds in the order of their names. -/
def sortedContinuations (s : Settings) : List Kind :=
  s.extraContinuations.mergeSort (fun a b => a.name ≤ b.name)

/-- Reserving a word changes the answer for that word only. -/
theorem isKeyword_addKeyword (s : Settings) (w v : String) :
    (s.addKeyword w).1.isKeyword v = (v == w || s.isKeyword v) := by
  unfold addKeyword
  split
  · by_cases h : v = w <;> simp_all
  · by_cases h : v = w <;> simp [isKeyword, h]

/-- Adding a continuation changes the answer for that kind only. -/
theorem continues_addContinuation (s : Settings) (k j : Kind) :
    (s.addContinuation k).1.continues j = (j == k || s.continues j) := by
  unfold addContinuation
  split
  · by_cases h : j = k <;> simp_all
  · by_cases h : j = k <;> simp [continues, h]

end Settings

end Offside
