/-!
# `Offside.Toml.Reader`: reading a text from the left

A reader takes something off the front of a text and answers it with the text behind it, or
answers nothing. After a failure the next alternative starts from the same place. `many` ends
at the first failure or when nothing is taken any more, so it ends on every text.
-/

set_option autoImplicit false

namespace Offside.Toml

/-- A reader of something at the front of a text. -/
abbrev Reader (α : Type) : Type := StateT (List Char) Option α

namespace Reader

variable {α β : Type}

/-- One character of a class. -/
def satisfy (p : Char → Bool) : Reader Char := fun text =>
  match text with
  | c :: rest => if p c then some (c, rest) else none
  | [] => none

/-- Exactly the given characters. -/
def exactly (s : List Char) : Reader Unit := fun text =>
  if s.isPrefixOf text then some ((), text.drop s.length) else none

/-- The characters of a class at the front, possibly none. -/
def span (p : Char → Bool) : Reader (List Char) := fun text =>
  some (text.takeWhile p, text.dropWhile p)

/-- What the reader reads, or nothing. -/
def maybe (r : Reader α) : Reader (Option α) := fun text =>
  match r text with
  | some (a, rest) => some (some a, rest)
  | none => some (none, text)

/-- Whether a text is used up. -/
def finished : Reader Unit := fun text => if text.isEmpty then some ((), text) else none

/-- As many as there are of what the reader reads, as long as it takes something. -/
def many (r : Reader α) (text : List Char) : Option (List α × List Char) :=
  match r text with
  | none => some ([], text)
  | some (a, rest) =>
    if rest.length < text.length then (many r rest).map (fun p => (a :: p.1, p.2))
    else some ([], text)
termination_by text.length

/-- What the reader reads, any number of times, with a separator in between. A separator
counts only if another item follows. -/
def separated (r : Reader α) (separator : Reader Unit) : Reader (List α) := do
  match ← maybe r with
  | none => return []
  | some first =>
    let more ← many (do separator; r)
    return first :: more

/-- What the reader reads, if a condition holds of it. -/
def filter (r : Reader α) (p : α → Bool) : Reader α := do
  let a ← r
  if p a then return a else failure

end Reader

end Offside.Toml
