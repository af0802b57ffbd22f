/-!
# `Offside.Token.Kind`: the vocabulary of token kinds

Thirty-two kinds, each with one fixed name. The names appear in token text and in
configuration files, so they are read back as well: `Kind.ofName?` finds the kind of a name,
and `ofName?_eq_some_iff` says that it accepts the names of the kinds and nothing else.
-/

set_option autoImplicit false

namespace Offside

/-- What sort of thing a token is. -/
inductive Kind where
  /-- The sign `!`. -/
  | not
  /-- The sign `=`. -/
  | assign
  /-- One of the signs `+ - * / % & |`. -/
  | operator
  /-- One of those signs followed by `=`. -/
  | setOperator
  /-- One of `== != < <= > >=`. -/
  | comparator
  /-- The sign `&&`. -/
  | and
  /-- The sign `||`. -/
  | or
  /-- An opening parenthesis. -/
  | lParen
  /-- A closing parenthesis. -/
  | rParen
  /-- An opening bracket. -/
  | lBracket
  /-- A closing bracket. -/
  | rBracket
  /-- An opening brace. -/
  | lBrace
  /-- A closing brace. -/
  | rBrace
  /-- The mark of a comment that runs to the end of its line. -/
  | singleComment
  /-- The mark that opens a block comment. -/
  | flexCommentStart
  /-- The mark that closes a block comment. -/
  | flexCommentEnd
  /-- The word directly behind the `#` of a header line. -/
  | header
  /-- A reserved word. -/
  | keyword
  /-- Any other word. -/
  | identifier
  /-- A character literal. -/
  | character
  /-- A string literal, or an argument of a header line. -/
  | string
  /-- One of the words `true` and `false`. -/
  | boolean
  /-- A run of digits. -/
  | integer
  /-- Digits with a point. -/
  | decimal
  /-- The word `null`. -/
  | null
  /-- The sign `.`. -/
  | dot
  /-- The sign `:`. -/
  | colon
  /-- The sign `,`. -/
  | comma
  /-- One step to the right in the indentation. -/
  | indent
  /-- One step to the left in the indentation. -/
  | dedent
  /-- The end of a statement at the end of a line. -/
  | newline
  /-- The end of the input. -/
  | eof
deriving DecidableEq, Repr

namespace Kind

/-- Every kind, in the order of the declaration. -/
def all : List Kind :=
  [not, assign, operator, setOperator, comparator, and, or, lParen, rParen, lBracket,
    rBracket, lBrace, rBrace, singleComment, flexCommentStart, flexCommentEnd, header,
    keyword, identifier, character, string, boolean, integer, decimal, null, dot, colon,
    comma, indent, dedent, newline, eof]

/-- The name of a kind. -/
def name : Kind → String
  | not => "NOT"
  | assign => "ASSIGN"
  | operator => "OPERATOR"
  | setOperator => "SET_OPERATOR"
  | comparator => "COMPARATOR"
  | and => "AND"
  | or => "OR"
  | lParen => "L_PAREN"
  | rParen => "R_PAREN"
  | lBracket => "L_BRACKET"
  | rBracket => "R_BRACKET"
  | lBrace => "L_BRACE"
  | rBrace => "R_BRACE"
  | singleComment => "SINGLE_COMMENT"
  | flexCommentStart => "FLEX_COMMENT_START"
  | flexCommentEnd => "FLEX_COMMENT_END"
  | header => "HEADER"
  | keyword => "KEYWORD"
  | identifier => "IDENTIFIER"
  | character => "CHARACTER"
  | string => "STRING"
  | boolean => "BOOLEAN"
  | integer => "INTEGER"
  | decimal => "DECIMAL"
  | null => "NULL"
  | dot => "DOT"
  | colon => "COLON"
  | comma => "COMMA"
  | indent => "INDENT"
  | dedent => "DEDENT"
  | newline => "NEWLINE"
  | eof => "EOF"

/-- The kind of a name, if there is one. Names are case sensitive. -/
def ofName? (s : String) : Option Kind := all.find? (fun k => k.name == s)

/-- Every kind is listed. -/
theorem mem_all (k : Kind) : k ∈ all := by cases k <;> decide

/-- Different kinds have different names. -/
theorem name_injective {j k : Kind} (h : j.name = k.name) : j = k := by
  revert h; cases j <;> cases k <;> decide

/-- Reading a name gives exactly the kind that is written so. -/
theorem ofName?_eq_some_iff {s : String} {k : Kind} : ofName? s = some k ↔ k.name = s := by
  constructor
  · intro h
    simpa using List.find?_some h
  · intro h
    cases hf : ofName? s with
    | none =>
      have := List.find?_eq_none.1 hf k (mem_all k)
      simp [h] at this
    | some j =>
      have hj : j.name = s := by simpa using List.find?_some hf
      rw [name_injective (hj.trans h.symm)]

/-- The three marks of comments. They are never the token that decides whether a line goes
on. -/
def isComment : Kind → Bool
  | singleComment | flexCommentStart | flexCommentEnd => true
  | _ => false

/-- The three kinds that stand for line structure rather than for text. -/
def isLayout : Kind → Bool
  | newline | indent | dedent => true
  | _ => false

end Kind

end Offside
