import Offside.Command.Source

/-!
# `Offside.Command.Prompt`: scanning line by line

At the prompt every line is a program of its own, and nothing is remembered from one line to
the next. A line that cannot be read or scanned is reported and the session goes on. It ends
with the input.
-/

set_option autoImplicit false

namespace Offside.Command

/-- What a command writes to its two outputs. -/
structure Output where
  /-- The text on the standard output. -/
  out : String := ""
  /-- The text on the error output. -/
  err : String := ""
deriving DecidableEq, Repr

/-- One output behind another. -/
def Output.append (a b : Output) : Output := ⟨a.out ++ b.out, a.err ++ b.err⟩

instance : Append Output := ⟨Output.append⟩

/-- What is written when a line is expected. -/
def prompt : String := "> "

/-- What is written at the end of a session. -/
def farewell : String := "\nExited scriptlang repl\n"

/-- The answer to one line of input, given without its line break. -/
def reply (settings : Settings) (line : List UInt8) : Output :=
  match String.fromUTF8? ⟨line.toArray⟩ with
  | none => { err := "Failed read line: " ++ ReadError.notText.text ++ "\n" }
  | some text =>
    match Scan.scan settings [text.toList] with
    | .error e => { err := "Failed tokenize line: " ++ (Failure.scan e).text ++ "\n" }
    | .ok tokens => { out := listing tokens }

/-- The lines of an input. -/
def inputLines (input : List UInt8) : List (List UInt8) := Text.splitLines 10 13 input

/-- The outputs of a whole session. -/
def session (settings : Settings) (input : List UInt8) : Output :=
  (inputLines input).foldr (fun line rest => { out := prompt } ++ reply settings line ++ rest)
    { out := prompt ++ farewell }

end Offside.Command
