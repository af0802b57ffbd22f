import Offside.Toml.Number
import Offside.Toml.Quoted

/-!
# `Offside.Toml.Document`: TOML documents

A document is a sequence of lines, each of which is blank, opens a table, opens an element of
an array of tables, or gives a key a value; a comment may end any of them. `statements` reads
the lines and `build` makes the tables out of them. `document` does both, and answers nothing
where the text is no TOML or defines something twice.
-/

set_option autoImplicit false

namespace Offside.Toml

open Reader

/-! ### Keys and values -/

/-- A key of one name. -/
def simpleKey : Reader String :=
  basicString <|> literalString <|> do
    let cs ← span (fun c => c.isAlphanum || c == '_' || c == '-')
    if cs.isEmpty then failure else return String.ofList cs

/-- A key of one or more names with points in between. -/
def key : Reader (List String) :=
  filter (separated (do blanks; let k ← simpleKey; blanks; return k) (exactly ['.']))
    (fun names => 0 < names.length && names.length < 80)

/-- A comment up to the end of its line. -/
def comment : Reader Unit := do
  exactly ['#']
  let _ ← span isText

/-- A key, an equals sign and a value. -/
def pair (value : Reader Value) : Reader (List String × Value) := do
  let k ← key
  exactly ['=']
  blanks
  let v ← value
  blanks
  return (k, v)

/-- Blanks, line breaks and comments, all of which an array allows between its items. -/
def gap : Reader Unit := do
  let _ ← many ((do let _ ← satisfy (fun c => c == ' ' || c == '\t')) <|> newline <|> comment)

/-- An array. A comma may follow its last item. -/
def array (value : Reader Value) : Reader Value := do
  exactly ['[']
  let items ← separated (do gap; let v ← value; gap; return v) (exactly [','])
  let _ ← if items.isEmpty then pure none else maybe (exactly [','])
  gap
  exactly [']']
  return .array false items

/-- The table of some keys with their values, written inline. -/
def inlineTable? (pairs : List (List String × Value)) : Option Value :=
  (pairs.foldlM (fun (es : Entries) p =>
    (Entries.addPair p.1 p.2 .inline es).map Prod.snd) []).map (.table .inline)

/-- A table written inline. No comma follows its last key. -/
def inlineTable (value : Reader Value) : Reader Value := do
  exactly ['\x7b']
  let pairs ← separated (pair value) (exactly [','])
  blanks
  exactly ['\x7d']
  match inlineTable? pairs with
  | some t => return t
  | none => failure

/-- A value that holds no others. -/
def scalar : Reader Value :=
  Value.string <$> anyString <|>
  (fun _ => Value.datetime) <$> datetime <|>
  Value.float <$> float <|>
  Value.integer <$> integer <|>
  (fun _ => Value.boolean true) <$> exactly ['t', 'r', 'u', 'e'] <|>
  (fun _ => Value.boolean false) <$> exactly ['f', 'a', 'l', 's', 'e']

/-- A value with at most the given number of arrays and inline tables around its innermost
parts. -/
def value : Nat → Reader Value
  | 0 => scalar
  | depth + 1 => scalar <|> array (value depth) <|> inlineTable (value depth)

/-! ### Lines -/

/-- What a line says. -/
inductive Statement where
  /-- It opens a table. -/
  | table (path : List String)
  /-- It opens an element of an array of tables. -/
  | element (path : List String)
  /-- It gives a key a value. -/
  | pair (key : List String) (value : Value)

/-- What a line says, if it is neither blank nor a comment. -/
def statement : Reader Statement :=
  (do
    exactly ['[', '[']
    let k ← key
    exactly [']', ']']
    return .element k) <|>
  (do
    exactly ['[']
    let k ← key
    exactly [']']
    return .table k) <|>
  (do
    let (k, v) ← pair (value 79)
    return .pair k v)

/-- A line without its line break. -/
def line : Reader (Option Statement) := do
  blanks
  let s ← maybe statement
  blanks
  let _ ← maybe comment
  return s

/-- What the lines of a document say. A byte order mark may stand before them. -/
def statements : Reader (List Statement) := do
  let _ ← maybe (exactly ['\ufeff'])
  let lines ← separated line newline
  finished
  return lines.filterMap id

/-! ### Tables -/

/-- A document under construction: the tables so far, and the path of the one that is
open. -/
structure Draft where
  /-- The outermost table. -/
  root : Entries := []
  /-- The names that lead to the open table. -/
  path : List String := []

/-- A draft with one more statement. -/
def Draft.add (d : Draft) : Statement → Option Draft
  | .table path => do
    let last ← path.getLast?
    let (_, root) ← Entries.graft false (Entries.addTable last) path.dropLast .header d.root
    return { root, path }
  | .element path => do
    let last ← path.getLast?
    let (_, root) ← Entries.graft false (Entries.addElement last) path.dropLast .header d.root
    return { root, path }
  | .pair key value => do
    let (_, root) ← Entries.graft false (Entries.addPair key value) d.path .header d.root
    return { d with root }

/-- The tables that some statements define. -/
def build (ss : List Statement) : Option Entries := (ss.foldlM Draft.add {}).map (·.root)

/-- The tables of a document. -/
def document (text : String) : Option Entries :=
  match statements text.toList with
  | some (ss, _) => build ss
  | none => none

end Offside.Toml
