import Offside.Scan.Layout
import Offside.Text.Lines

/-!
# `Offside.Scan.Program`: the tokens of a program

A program is a list of lines. Each contributes the tokens of the line break before it, then
its own; behind the last line the open indentation is closed and `EOF` follows. The first
fault ends the scan, and a scan that ends inside a block comment fails as well.

`scanLines` goes through the lines with an explicit state, so that a program may be cut
anywhere: `scanLines_append` says that scanning two halves in turn is scanning the whole.
-/

set_option autoImplicit false

namespace Offside.Scan

/-- Reads one more line: the state behind it and the tokens it adds. -/
def scanLine (settings : Settings) (s : State) (line : List Char) :
    Except Error (State × List Token) :=
  let number := s.lines + 1
  match boundary settings s line with
  | .error fault => .error (fault.error number line)
  | .ok (s, layout) =>
    match lexemes settings.isKeyword (if s.inComment then .comment else .code) line with
    | .error fault => .error (fault.error number line)
    | .ok (found, mode) =>
      let tokens := found.map (fun p => p.token number line)
      -- The marks of comments change no state, so they can be dropped at the end.
      let isShown (t : Token) : Bool := settings.emitComments || !t.kind.isComment
      .ok ({ s.seeAll tokens with
              lines := number, width := line.length, inComment := mode == .comment },
        layout ++ tokens.filter isShown)

/-- Reads lines in turn: the state behind them and the tokens they add. -/
def scanLines (settings : Settings) (s : State) :
    List (List Char) → Except Error (State × List Token)
  | [] => .ok (s, [])
  | line :: lines =>
    match scanLine settings s line with
    | .error e => .error e
    | .ok (s, tokens) =>
      match scanLines settings s lines with
      | .error e => .error e
      | .ok (s, more) => .ok (s, tokens ++ more)

/-- The tokens that end a program. They stand behind the last character of the last line, or
at the first column of line one if there is no line. -/
def State.close (s : State) : Except Error (List Token) :=
  if s.inComment then .error ⟨s.lines, none, .unterminatedComment⟩
  else
    let line := max s.lines 1
    let column := s.width + 1
    .ok (List.replicate s.depth ⟨.dedent, none, line, column⟩ ++ [⟨.eof, none, line, column⟩])

/-- The tokens of a program given by its lines. -/
def scan (settings : Settings) (lines : List (List Char)) : Except Error (List Token) :=
  match scanLines settings (State.start settings) lines with
  | .error e => .error e
  | .ok (s, tokens) =>
    match s.close with
    | .error e => .error e
    | .ok closing => .ok (tokens ++ closing)

/-- The tokens of a program given by its source text. -/
def scanSource (settings : Settings) (source : String) : Except Error (List Token) :=
  scan settings (Text.linesOf source)

/-- Scanning two runs of lines in turn is scanning them as one. -/
theorem scanLines_append (settings : Settings) (s : State) (xs ys : List (List Char)) :
    scanLines settings s (xs ++ ys) =
      match scanLines settings s xs with
      | .error e => .error e
      | .ok (s, tokens) =>
        match scanLines settings s ys with
        | .error e => .error e
        | .ok (s, more) => .ok (s, tokens ++ more) := by
  induction xs generalizing s with
  | nil =>
    simp only [List.nil_append, scanLines]
    cases scanLines settings s ys <;> rfl
  | cons line xs ih =>
    simp only [List.cons_append, scanLines]
    cases scanLine settings s line with
    | error e => rfl
    | ok p =>
      simp only [ih]
      cases scanLines settings p.1 xs with
      | error e => rfl
      | ok q =>
        simp only
        cases scanLines settings q.1 ys with
        | error e => rfl
        | ok r => simp [List.append_assoc]

end Offside.Scan
