import Offside.Scan.Quote
import Offside.Toml.Reader

/-!
# `Offside.Toml.Quoted`: TOML strings

There are four kinds: between double quotes backslashes escape, between single quotes they
do not, and three quotes of either kind allow line breaks inside. A line break directly
behind three opening quotes is dropped, and a carriage return before a line feed never
counts. Control characters other than the tab are allowed in none of them.
-/

set_option autoImplicit false

namespace Offside.Toml

open Reader

/-- Characters that may stand in comments and strings. -/
def isText (c : Char) : Bool := c == '\t' || (' ' ≤ c && c != '\x7f')

/-- A line break. -/
def newline : Reader Unit := exactly ['\n'] <|> exactly ['\r', '\n']

/-- Spaces and tabs. -/
def blanks : Reader Unit := do
  let _ ← span (fun c => c == ' ' || c == '\t')

/-- A character given by the number of its code point. -/
def numbered (digits : Nat) : Reader Char := fun text =>
  let run := text.take digits
  if run.length = digits then
    ((Scan.hexValue? run).bind Scan.charOfNat?).map (fun c => (c, text.drop digits))
  else none

/-- The character that an escape stands for. -/
def escape : Reader Char := do
  exactly ['\\']
  match ← satisfy (fun _ => true) with
  | 'b' => return '\x08'
  | 't' => return '\t'
  | 'n' => return '\n'
  | 'f' => return '\x0c'
  | 'r' => return '\r'
  | '"' => return '"'
  | '\\' => return '\\'
  | 'u' => numbered 4
  | 'U' => numbered 8
  | _ => failure

/-- A string between double quotes on one line. -/
def basicString : Reader String := do
  exactly ['"']
  let cs ← many (satisfy (fun c => isText c && c != '"' && c != '\\') <|> escape)
  exactly ['"']
  return String.ofList cs

/-- A string between single quotes on one line. -/
def literalString : Reader String := do
  exactly ['\'']
  let cs ← span (fun c => isText c && c != '\'')
  exactly ['\'']
  return String.ofList cs

/-- One or two quotes that do not close a string in three of them. -/
def looseQuotes (quote : Char) : Reader (List Char) := fun text =>
  let quotes := text.takeWhile (· == quote)
  if quotes.length = 1 ∨ quotes.length = 2 then some (quotes, text.drop quotes.length) else none

/-- Three closing quotes, with up to two more before them that belong to the string. -/
def closingQuotes (quote : Char) : Reader (List Char) := fun text =>
  let quotes := text.takeWhile (· == quote)
  if 3 ≤ quotes.length then
    let inside := min (quotes.length - 3) 2
    some (List.replicate inside quote, text.drop (inside + 3))
  else none

/-- A backslash at the end of a line, with all blanks and line breaks up to the next text. -/
def lineContinuation : Reader Unit := do
  exactly ['\\']
  blanks
  newline
  let _ ← many (newline <|> (do let _ ← satisfy (fun c => c == ' ' || c == '\t')))

/-- A string between three double quotes. -/
def multilineBasic : Reader String := do
  exactly ['"', '"', '"']
  let _ ← maybe newline
  let parts ← many (
    (do return [← satisfy (fun c => isText c && c != '"' && c != '\\')]) <|>
    (do newline; return ['\n']) <|>
    (do lineContinuation; return []) <|>
    (do return [← escape]) <|>
    looseQuotes '"')
  let last ← closingQuotes '"'
  return String.ofList (parts.flatten ++ last)

/-- A string between three single quotes. -/
def multilineLiteral : Reader String := do
  exactly ['\'', '\'', '\'']
  let _ ← maybe newline
  let parts ← many (
    (do return [← satisfy (fun c => isText c && c != '\'')]) <|>
    (do newline; return ['\n']) <|>
    looseQuotes '\'')
  let last ← closingQuotes '\''
  return String.ofList (parts.flatten ++ last)

/-- A string of any kind. -/
def anyString : Reader String :=
  multilineBasic <|> basicString <|> multilineLiteral <|> literalString

end Offside.Toml
