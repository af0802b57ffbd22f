import Offside.Proofs.Scan.Indentation
import Offside.Proofs.Scan.PlainReading

/-!
# `Offside.Proofs.Scan.Places`: a place that a scan comes to

A line is read step by step, and `ReadsUpTo` names the places between the steps: what has been found
on the line before the place, the mode there, and the text from there on. `ScansUpTo` puts the line
behind others, so that it is a place in a program. What is read there is all that decides how the
program goes on:

* `ScansUpTo.yields`: where a step finds a lexeme, its token stands at that place in every program
  without fault that goes on with the line, and the scan comes to the place behind it.
* `ScansUpTo.failsAt`: where a step has a fault, every program that goes on with the line fails
  there.
* `ScansUpTo.readsBy`: so where a step is taken by a reader of literals or of words, what the reader
  answers says all about the place.

The other way round, a line that fails has such a place where it does (`ReadsUpTo.exists_step`).
-/

set_option autoImplicit false

namespace Offside.Scan

/-! ### Places on a line -/

/-- The reading of a line that begins in a mode comes to a place between two steps: the lexemes
found before it, the mode there, and the text from there on. -/
inductive ReadsUpTo (isKeyword : String → Bool) (first : Mode) (line : List Char) :
    List Placed → Mode → List Char → Prop
  | start : ReadsUpTo isKeyword first line [] first line
  | step {found : List Placed} {mode : Mode} {c : Char} {text : List Char} {s : Step} :
      ReadsUpTo isKeyword first line found mode (c :: text) →
      step isKeyword mode c text = .ok s →
      ReadsUpTo isKeyword first line (found ++ placeFirst s.lexeme (c :: text) []) s.mode s.rest

section

variable {isKeyword : String → Bool} {first mode : Mode} {line text : List Char} {c : Char}
  {found : List Placed}

/-- A line is what was found before a place and what is read from there on. -/
theorem ReadsUpTo.lexemes_eq (h : ReadsUpTo isKeyword first line found mode text) :
    lexemes isKeyword first line =
      (lexemes isKeyword mode text).map fun p => (found ++ p.1, p.2) := by
  induction h with
  | start => cases lexemes isKeyword first line <;> rfl
  | @step found mode c text s _ hs ih =>
    rw [ih, lexemes_cons, hs]
    simp only
    cases lexemes isKeyword s.mode s.rest with
    | error fault => rfl
    | ok p => cases s.lexeme <;> simp [Except.map, placeFirst]

/-- What was found before a place is what the line begins with. -/
theorem ReadsUpTo.prefix_of_lexemes {whole : List Placed} {last : Mode}
    (h : ReadsUpTo isKeyword first line found mode text)
    (hwhole : lexemes isKeyword first line = .ok (whole, last)) : found <+: whole := by
  rw [h.lexemes_eq] at hwhole
  cases hrest : lexemes isKeyword mode text with
  | error fault =>
    rw [hrest] at hwhole
    cases hwhole
  | ok p =>
    rw [hrest] at hwhole
    cases hwhole
    exact List.prefix_append found p.1

/-- A line fails where a step does. -/
theorem ReadsUpTo.lexemes_eq_error {fault : Fault}
    (h : ReadsUpTo isKeyword first line found mode (c :: text))
    (hfault : Scan.step isKeyword mode c text = .error fault) :
    lexemes isKeyword first line = .error fault := by
  rw [h.lexemes_eq, lexemes_cons, hfault]
  rfl

/-- A place on a line is what is left of the line there. -/
theorem ReadsUpTo.suffix (h : ReadsUpTo isKeyword first line found mode text) : text <:+ line := by
  induction h with
  | start => exact List.suffix_rfl
  | step _ hs ih => exact ((step_suffix hs).trans (List.suffix_cons _ _)).trans ih

/-- A line that fails does so at a step of its reading. -/
theorem ReadsUpTo.exists_step {fault : Fault}
    (h : ReadsUpTo isKeyword first line found mode text)
    (hfault : lexemes isKeyword mode text = .error fault) :
    ∃ found' mode' c rest, ReadsUpTo isKeyword first line found' mode' (c :: rest) ∧
      Scan.step isKeyword mode' c rest = .error fault := by
  induction mode, text using step_induction isKeyword generalizing found with
  | nil mode =>
    rw [lexemes] at hfault
    cases hfault
  | cons mode c text ih =>
    rcases lexemes_cons_eq_error hfault with hs | ⟨s, hs, hrest⟩
    · exact ⟨found, mode, c, text, h, hs⟩
    · exact ih s hs (h.step hs) hrest

end

/-! ### Places in a program -/

/-- The scan of a program comes to a place on a line behind others: these have no fault, nor has the
margin of the line, and the reading of the line comes to the place. -/
inductive ScansUpTo (settings : Settings) (front : List (List Char)) (line : List Char) :
    List Placed → Mode → List Char → Prop
  | mk {s s₁ : State} {before layout : List Token} {found : List Placed} {mode : Mode}
      {text : List Char} :
      scanLines settings (State.start settings) front = .ok (s, before) →
      Boundary settings s line s₁ layout →
      ReadsUpTo settings.isKeyword (if s.inComment then .comment else .code) line found mode
        text →
      ScansUpTo settings front line found mode text

/-- Every program that goes on with a line behind others fails on that line. -/
def FailsAt (settings : Settings) (front : List (List Char)) (line : List Char)
    (fault : Fault) : Prop :=
  ∀ more, scan settings (front ++ line :: more) = .error (fault.error (front.length + 1) line)

/-- The scan of a program finds a lexeme at a place on a line behind others. -/
structure Yields (settings : Settings) (front : List (List Char)) (line : List Char)
    (found : List Placed) (text : List Char) (l : Lexeme) (next : Mode) (rest : List Char) :
    Prop where
  /-- The scan goes on behind the lexeme. -/
  behind : ScansUpTo settings front line (found ++ [⟨l, text⟩]) next rest
  /-- The token of the lexeme stands at the place in every program without fault. -/
  token : ∀ more tokens, scan settings (front ++ line :: more) = .ok tokens →
    (⟨l, text⟩ : Placed).token (front.length + 1) line ∈ tokens

/-- What a reader says about the text at a place is what the scan does there. -/
structure ReadsBy {α : Type} (settings : Settings) (front : List (List Char)) (line : List Char)
    (found : List Placed) (mode : Mode) (text : List Char) (read : Except Fault (α × List Char))
    (lexeme : α → Lexeme) : Prop where
  /-- What is read is found, and the scan goes on behind it in the same mode. -/
  yields : ∀ a rest, read = .ok (a, rest) →
    Yields settings front line found text (lexeme a) mode rest
  /-- A fault is one of every program that goes on with the line. -/
  fails : ∀ fault, read = .error fault → FailsAt settings front line fault

section

variable {settings : Settings} {front : List (List Char)} {line text : List Char} {c : Char}
  {found : List Placed} {mode : Mode}

/-- The first line begins in code. -/
theorem scansUpTo_first (settings : Settings) (line : List Char) :
    ScansUpTo settings [] line [] .code line := .mk rfl (.joined (.inl rfl)) .start

theorem ScansUpTo.step {s : Step} (h : ScansUpTo settings front line found mode (c :: text))
    (hs : Scan.step settings.isKeyword mode c text = .ok s) :
    ScansUpTo settings front line (found ++ placeFirst s.lexeme (c :: text) []) s.mode s.rest := by
  obtain ⟨hrun, hboundary, hreads⟩ := h
  exact ⟨hrun, hboundary, hreads.step hs⟩

/-- What was found on a line is shown in every program without fault that goes on with it. -/
theorem ScansUpTo.shown_subset (h : ScansUpTo settings front line found mode text)
    {more : List (List Char)} {tokens : List Token}
    (hscan : scan settings (front ++ line :: more) = .ok tokens) :
    shown settings (lineTokens (front.length + 1) line found) ⊆ tokens := by
  obtain ⟨hrun, -, hreads⟩ := h
  -- The whole program is scanned through the state in front of the line.
  obtain ⟨s₃, all, hall, -, rfl⟩ := scan_eq_ok hscan
  obtain ⟨s₁, before, back, hbefore, hback, rfl⟩ := scanLines_append_eq_ok hall
  obtain ⟨s₂, own, behind, hline, -, rfl⟩ := scanLines_cons_eq_ok hback
  rw [hrun] at hbefore
  cases hbefore
  obtain ⟨s₀, layout, whole, last, -, hwhole, -, rfl⟩ := scanLine_eq_ok hline
  obtain ⟨rest, rfl⟩ := hreads.prefix_of_lexemes hwhole.lexemes_eq_ok
  rw [(run_lines hrun).1, lineTokens, lineTokens, List.map_append, shown_append]
  intro t ht
  simp [ht]

/-- A step that finds a lexeme of code finds it in the program. -/
theorem ScansUpTo.yields {l : Lexeme} {next : Mode} {rest : List Char}
    (h : ScansUpTo settings front line found mode (c :: text))
    (hs : Scan.step settings.isKeyword mode c text = .ok ⟨some l, next, rest⟩)
    (hcontent : l.kind.isComment = false) :
    Yields settings front line found (c :: text) l next rest := by
  have hbehind : ScansUpTo settings front line (found ++ [⟨l, c :: text⟩]) next rest := h.step hs
  refine ⟨hbehind, fun more tokens hscan => hbehind.shown_subset hscan ?_⟩
  refine List.mem_filter.2 ⟨?_, ?_⟩
  · exact List.mem_map.2 ⟨⟨l, c :: text⟩, by simp, rfl⟩
  · simp [Placed.token, hcontent]

/-- A step that has a fault is one where the program fails. -/
theorem ScansUpTo.failsAt {fault : Fault}
    (h : ScansUpTo settings front line found mode (c :: text))
    (hfault : Scan.step settings.isKeyword mode c text = .error fault) :
    FailsAt settings front line fault := by
  obtain ⟨hrun, hboundary, hreads⟩ := h
  intro more
  refine scan_eq_error hrun ?_
  rw [hboundary.scanLine_eq, readLine, hreads.lexemes_eq_error hfault, (run_lines hrun).1]
  rfl

/-- A step that is taken by a reader does what the reader says. -/
theorem ScansUpTo.readsBy {α : Type} {read : Except Fault (α × List Char)} {lexeme : α → Lexeme}
    (h : ScansUpTo settings front line found mode (c :: text))
    (hstep : Scan.step settings.isKeyword mode c text = stepQuote mode lexeme read)
    (hcontent : ∀ a rest, read = .ok (a, rest) → (lexeme a).kind.isComment = false) :
    ReadsBy settings front line found mode (c :: text) read lexeme := by
  constructor
  · rintro a rest rfl
    exact h.yields hstep (hcontent a rest rfl)
  · rintro fault rfl
    exact h.failsAt hstep

end

end Offside.Scan
