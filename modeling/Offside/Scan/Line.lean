import Offside.Scan.Quote
import Offside.Scan.Sign
import Offside.Scan.Word
import Offside.Text.Blank

/-!
# `Offside.Scan.Line`: the lexemes of one line

A line is read from left to right in one of three modes: code, the arguments of a header, or
the inside of a block comment. `step` reads what a text begins with: one character that says
nothing (a blank, or a character of a comment) or one lexeme. `lexemes` repeats it to the end
of the line and answers the lexemes with their places and the mode at the end. Nothing here
depends on other lines except the mode at the beginning, nor on indentation, parentheses or
the settings other than the set of keywords; the marks of comments are always lexemes.

`step_suffix` says that every step moves on within the line, which is why reading ends.
-/

set_option autoImplicit false

namespace Offside.Scan

open Offside.Text

/-- What the characters of a line are part of. -/
inductive Mode where
  /-- Ordinary code. -/
  | code
  /-- The arguments behind the word of a header. -/
  | header
  /-- A block comment. -/
  | comment
deriving DecidableEq, Repr

/-- What one step of reading finds. -/
structure Step where
  /-- The lexeme that the text begins with, if its first character says anything. -/
  lexeme : Option Lexeme := none
  /-- The mode behind it. -/
  mode : Mode
  /-- The text behind it. -/
  rest : List Char

/-- Reads a quoted lexeme and stays in the given mode. -/
def stepQuote {α : Type} (mode : Mode) (lexeme : α → Lexeme)
    (r : Except Fault (α × List Char)) : Except Fault Step :=
  r.map (fun p => { lexeme := some (lexeme p.1), mode, rest := p.2 })

/-- Whether a character belongs to an unquoted word of a header. -/
def isHeaderChar (c : Char) : Bool := !isBlank c && c != '"' && c != '\''

/-- One step in code. -/
def stepCode (isKeyword : String → Bool) (c : Char) (text : List Char) : Except Fault Step :=
  if isBlank c then .ok { mode := .code, rest := text }
  else if c = '\'' then
    stepQuote .code (fun x => ⟨.character, some (.character x)⟩) (character (c :: text))
  else if c = '"' then
    stepQuote .code (fun s => ⟨.string, some (.string s)⟩) (string (c :: text))
  -- Everything behind a header's name is an argument of it.
  else if c = '#' then
    let name := text.takeWhile isHeaderChar
    if name.isEmpty then .error ⟨.emptyHeader, c :: text⟩
    else .ok
      { lexeme := some ⟨.header, some (.string (String.ofList name))⟩
        mode := .header, rest := text.dropWhile isHeaderChar }
  -- Comments come before the signs, which share their first characters.
  else if ['/', '/'].isPrefixOf (c :: text) then
    .ok { lexeme := some ⟨.singleComment, none⟩, mode := .code, rest := [] }
  else if ['/', '*'].isPrefixOf (c :: text) then
    .ok { lexeme := some ⟨.flexCommentStart, none⟩, mode := .comment, rest := text.tail }
  else if ['*', '/'].isPrefixOf (c :: text) then .error ⟨.rogueTerminator, c :: text⟩
  else if isWordChar c then
    (word isKeyword (c :: text)).map
      (fun p => { lexeme := some p.1, mode := .code, rest := p.2 })
  else
    match sign? (c :: text) with
    | some s =>
      .ok { lexeme := some s.lexeme, mode := .code, rest := (c :: text).drop s.spelling.length }
    | none => .error ⟨.illegalCharacter c, c :: text⟩

/-- One step among the arguments of a header. Every argument becomes a string. -/
def stepHeader (c : Char) (text : List Char) : Except Fault Step :=
  if isBlank c then .ok { mode := .header, rest := text }
  else if c = '\'' then
    stepQuote .header (fun x => ⟨.string, some (.string x.toString)⟩) (character (c :: text))
  else if c = '"' then
    stepQuote .header (fun s => ⟨.string, some (.string s)⟩) (string (c :: text))
  else .ok
    { lexeme := some ⟨.string, some (.string (String.ofList (c :: text.takeWhile isHeaderChar)))⟩
      mode := .header, rest := text.dropWhile isHeaderChar }

/-- One step inside a block comment. -/
def stepComment (c : Char) (text : List Char) : Step :=
  if ['*', '/'].isPrefixOf (c :: text) then
    { lexeme := some ⟨.flexCommentEnd, none⟩, mode := .code, rest := text.tail }
  else { mode := .comment, rest := text }

/-- Reads what a text begins with. -/
def step (isKeyword : String → Bool) (mode : Mode) (c : Char) (text : List Char) :
    Except Fault Step :=
  match mode with
  | .code => stepCode isKeyword c text
  | .header => stepHeader c text
  | .comment => .ok (stepComment c text)

/-! ### Every step moves on -/

/-- A quoted lexeme leaves what its reader leaves. -/
theorem stepQuote_suffix {α : Type} {mode : Mode} {lexeme : α → Lexeme}
    {r : Except Fault (α × List Char)} {text : List Char} {s : Step}
    (hr : ∀ a rest, r = .ok (a, rest) → rest <:+ text) (h : stepQuote mode lexeme r = .ok s) :
    s.rest <:+ text := by
  cases r with
  | error f => simp [stepQuote, Except.map] at h
  | ok p =>
    cases Except.ok.inj h
    exact hr p.1 p.2 rfl

/-- A step in code takes at least one character. -/
theorem stepCode_suffix {isKeyword : String → Bool} {c : Char} {text : List Char} {s : Step}
    (h : stepCode isKeyword c text = .ok s) : s.rest <:+ text := by
  unfold stepCode at h
  split at h
  · cases Except.ok.inj h
    exact List.suffix_rfl
  split at h
  · exact stepQuote_suffix (fun _ _ => character_suffix) h
  split at h
  · exact stepQuote_suffix (fun _ _ => string_suffix) h
  split at h
  · simp only at h
    split at h
    · simp at h
    · cases Except.ok.inj h
      exact List.dropWhile_suffix isHeaderChar
  split at h
  · cases Except.ok.inj h
    exact List.nil_suffix
  split at h
  · cases Except.ok.inj h
    exact List.tail_suffix text
  split at h
  · simp at h
  split at h
  · rename_i hc
    cases hw : word isKeyword (c :: text) with
    | error f => simp [hw, Except.map] at h
    | ok p =>
      rw [hw] at h
      cases Except.ok.inj h
      exact word_suffix hc hw
  · split at h
    · rename_i sign hs
      cases Except.ok.inj h
      exact sign?_suffix hs
    · simp at h

/-- A step in a header takes at least one character. -/
theorem stepHeader_suffix {c : Char} {text : List Char} {s : Step}
    (h : stepHeader c text = .ok s) : s.rest <:+ text := by
  unfold stepHeader at h
  split at h
  · cases Except.ok.inj h
    exact List.suffix_rfl
  split at h
  · exact stepQuote_suffix (fun _ _ => character_suffix) h
  split at h
  · exact stepQuote_suffix (fun _ _ => string_suffix) h
  · cases Except.ok.inj h
    exact List.dropWhile_suffix isHeaderChar

/-- A step in a comment takes at least one character. -/
theorem stepComment_suffix (c : Char) (text : List Char) :
    (stepComment c text).rest <:+ text := by
  unfold stepComment
  split
  · exact List.tail_suffix text
  · exact List.suffix_rfl

/-- A step takes at least one character and leaves an end of the line. -/
theorem step_suffix {isKeyword : String → Bool} {mode : Mode} {c : Char} {text : List Char}
    {s : Step} (h : step isKeyword mode c text = .ok s) : s.rest <:+ text := by
  -- Each mode has its own lemma.
  cases mode with
  | code => exact stepCode_suffix h
  | header => exact stepHeader_suffix h
  | comment =>
    cases Except.ok.inj h
    exact stepComment_suffix c text

/-! ### The whole line -/

/-- The lexemes of a text that begins in the given mode, and the mode at its end. -/
def lexemes (isKeyword : String → Bool) (mode : Mode) (text : List Char) :
    Except Fault (List Placed × Mode) :=
  match text with
  | [] => .ok ([], mode)
  | c :: text =>
    match _h : step isKeyword mode c text with
    | .error fault => .error fault
    | .ok s =>
      match lexemes isKeyword s.mode s.rest with
      | .error fault => .error fault
      | .ok (found, last) =>
        match s.lexeme with
        | some l => .ok (⟨l, c :: text⟩ :: found, last)
        | none => .ok (found, last)
termination_by text.length
decreasing_by
  have := (step_suffix _h).length_le
  simp only [List.length_cons]
  omega

end Offside.Scan
