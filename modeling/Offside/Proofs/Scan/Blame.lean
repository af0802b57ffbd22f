import Offside.Proofs.Scan.Classification
import Offside.Proofs.Scan.Decoding

/-!
# `Offside.Proofs.Scan.Blame`: every error points at its cause

An error names a line and, unless a block comment never ends, a column of it. `Blames` lists what
stands there for each cause, and how the scan came to it: the character itself, the blank that is
neither a space nor a tab, the first character behind a margin that is uneven, the quote that opens
the literal, the backslash of a number without digits, the first digit of an integer that is too
great, and so on.

A line fails at its margin (`located_of_measure`) or at a step of its reading, which
`ReadsUpTo.exists_step` finds. A step fails at a literal, at a word or at its own first character
(`located_of_step`), and what literals and words do is known from `Offside.Proofs.Scan.Decoding` and
`Offside.Proofs.Scan.Classification`.

`errors_point_at_cause` is the result for whole programs.
-/

set_option autoImplicit false

namespace Offside.Scan

open Offside.Text

/-! ### Causes and their places -/

/-- A literal begins on a line behind others. `before` is the line up to its opening quote, and
`body` the line behind it. -/
structure OpensLiteral (settings : Settings) (front : List (List Char)) (before : List Char)
    (quote : Char) (body : List Char) : Prop where
  /-- It is in quotes. -/
  isQuote : quote = '\'' ∨ quote = '"'
  /-- The scan comes to the quote, in code or among the arguments of a header. -/
  place : ∃ found mode, mode ≠ .comment ∧
    ScansUpTo settings front (before ++ quote :: body) found mode (quote :: body)

/-- What a cause blames: the character that a text begins with, on a line behind others. `before`
is the line up to the text. -/
inductive Blames (settings : Settings) (front : List (List Char)) (before : List Char) :
    Cause → List Char → Prop
  /-- A character of code that begins no lexeme. -/
  | illegalCharacter {found : List Placed} {c : Char} {rest : List Char} :
      ScansUpTo settings front (before ++ c :: rest) found .code (c :: rest) →
      isBlank c = false → isWordChar c = false → sign? (c :: rest) = none →
      Blames settings front before (.illegalCharacter c) (c :: rest)
  /-- A blank that is neither a space nor a tab, with nothing else before it. -/
  | illegalWhitespace {c : Char} {rest : List Char} :
      (∀ d ∈ before, d = ' ' ∨ d = '\t') → isBlank c = true → c ≠ ' ' → c ≠ '\t' →
      Blames settings front before .illegalWhitespace (c :: rest)
  /-- The first character that is no blank, behind spaces that make up no whole steps of the width
  that is known on that line. -/
  | inconsistentIndentation {c : Char} {rest : List Char} {unit : Nat} :
      (∀ d ∈ before, d = ' ' ∨ d = '\t') → isBlank c = false →
      stepWidth settings front = some unit → ¬ unit ∣ before.count ' ' →
      Blames settings front before (.inconsistentIndentation (before.count ' ') unit) (c :: rest)
  /-- The quote that opens a character which the end of the line cuts off. -/
  | unterminatedCharacter {body : List Char} :
      OpensLiteral settings front before '\'' body →
      CharacterFault body ⟨.unterminatedCharacter, '\'' :: body⟩ →
      Blames settings front before .unterminatedCharacter ('\'' :: body)
  /-- The quote that opens a character with nothing in it. -/
  | emptyCharacter {body : List Char} :
      OpensLiteral settings front before '\'' body →
      CharacterFault body ⟨.emptyCharacter, '\'' :: body⟩ →
      Blames settings front before .emptyCharacter ('\'' :: body)
  /-- The quote that opens a character with more than one in it. -/
  | malformedCharacter {body : List Char} :
      OpensLiteral settings front before '\'' body →
      CharacterFault body ⟨.malformedCharacter, '\'' :: body⟩ →
      Blames settings front before .malformedCharacter ('\'' :: body)
  /-- The quote that opens a string which the end of the line cuts off. -/
  | unterminatedString {body : List Char} :
      OpensLiteral settings front before '"' body →
      StringFault body ⟨.unterminatedString, '"' :: body⟩ →
      Blames settings front before .unterminatedString ('"' :: body)
  /-- A letter, a digit or an underscore directly behind the closing quote of a literal. -/
  | illegalTrailing {quote c : Char} {start units xs rest : List Char} :
      OpensLiteral settings front start quote (units ++ quote :: c :: rest) →
      AreUnits quote units xs → before = start ++ quote :: (units ++ [quote]) →
      isWordChar c = true → Blames settings front before (.illegalTrailing c) (c :: rest)
  /-- The backslash of a number without four digits, behind whole units of a literal. -/
  | malformedUnicode {quote : Char} {start units xs rest : List Char} :
      OpensLiteral settings front start quote (units ++ '\\' :: 'u' :: rest) →
      AreUnits quote units xs → before = start ++ quote :: units →
      NoUnit quote ('\\' :: 'u' :: rest) →
      Blames settings front before .malformedUnicode ('\\' :: 'u' :: rest)
  /-- A letter or a further point behind the digits and the point of a decimal. -/
  | illegalDecimal {found : List Placed} {c : Char} {start whole part rest : List Char} :
      ScansUpTo settings front (before ++ c :: rest) found .code
        (whole ++ '.' :: (part ++ c :: rest)) →
      whole ≠ [] → (∀ d ∈ whole ++ part, d.isDigit = true) →
      before = start ++ (whole ++ '.' :: part) → isLetter c = true ∨ c = '.' →
      Blames settings front before (.illegalDecimal c) (c :: rest)
  /-- The first digit of an integer that is too great. -/
  | malformedNumber {found : List Placed} {digits after : List Char} :
      ScansUpTo settings front (before ++ (digits ++ after)) found .code (digits ++ after) →
      digits ≠ [] → (∀ d ∈ digits, d.isDigit = true) → StopsAt isWordChar after →
      2 ^ 63 - 1 < Nat.ofDigitChars 10 digits 0 →
      Blames settings front before (.malformedNumber (String.ofList digits)) (digits ++ after)
  /-- The end of a block comment in code. -/
  | rogueTerminator {found : List Placed} {rest : List Char} :
      ScansUpTo settings front (before ++ '*' :: '/' :: rest) found .code ('*' :: '/' :: rest) →
      Blames settings front before .rogueTerminator ('*' :: '/' :: rest)
  /-- A `#` that no name follows. -/
  | emptyHeader {found : List Placed} {rest : List Char} :
      ScansUpTo settings front (before ++ '#' :: rest) found .code ('#' :: rest) →
      StopsAt isHeaderChar rest → Blames settings front before .emptyHeader ('#' :: rest)

/-- A fault of a line stands where its cause says. -/
def Fault.Located (settings : Settings) (front : List (List Char)) (line : List Char)
    (fault : Fault) : Prop :=
  ∃ before, line = before ++ fault.text ∧ Blames settings front before fault.cause fault.text

section

variable {settings : Settings} {front : List (List Char)} {before : List Char}

/-- There is a character to blame. -/
theorem Blames.ne_nil {cause : Cause} {text : List Char}
    (h : Blames settings front before cause text) : text ≠ [] := by
  cases h with
  | malformedNumber _ hne _ _ _ => simp [hne]
  | _ => simp

theorem Blames.ne_unterminatedComment {cause : Cause} {text : List Char}
    (h : Blames settings front before cause text) : cause ≠ .unterminatedComment := by
  rintro rfl
  cases h

/-! ### Literals -/

theorem OpensLiteral.located_of_character {body : List Char} {fault : Fault}
    (h : OpensLiteral settings front before '\'' body)
    (hfault : character ('\'' :: body) = .error fault) :
    fault.Located settings front (before ++ '\'' :: body) := by
  cases character_eq_error_iff.1 hfault with
  | empty => exact ⟨before, rfl, .emptyCharacter h .empty⟩
  | cut => exact ⟨before, rfl, .unterminatedCharacter h .cut⟩
  | cutEscape => exact ⟨before, rfl, .unterminatedCharacter h .cutEscape⟩
  | unclosed hunit => exact ⟨before, rfl, .unterminatedCharacter h (.unclosed hunit)⟩
  | long hunit hc => exact ⟨before, rfl, .malformedCharacter h (.long hunit hc)⟩
  | @number rest hnone =>
    have hopens : OpensLiteral settings front before '\'' ([] ++ '\\' :: 'u' :: rest) := h
    exact ⟨before ++ ['\''], by simp, .malformedUnicode hopens .nil rfl hnone⟩
  | @glued body rest x c hunit hc =>
    refine ⟨before ++ '\'' :: (body ++ ['\'']), by simp, ?_⟩
    have hunits : AreUnits '\'' (body ++ []) [x] := .cons hunit .nil
    rw [List.append_nil] at hunits
    exact .illegalTrailing h hunits rfl hc

theorem OpensLiteral.located_of_string {body : List Char} {fault : Fault}
    (h : OpensLiteral settings front before '"' body)
    (hfault : string ('"' :: body) = .error fault) :
    fault.Located settings front (before ++ '"' :: body) := by
  cases string_eq_error_iff.1 hfault with
  | cut hunits => exact ⟨before, rfl, .unterminatedString h (.cut hunits)⟩
  | cutEscape hunits => exact ⟨before, rfl, .unterminatedString h (.cutEscape hunits)⟩
  | @number units xs rest hunits hnone =>
    exact ⟨before ++ '"' :: units, by simp, .malformedUnicode h hunits rfl hnone⟩
  | @glued units xs rest c hunits hc =>
    exact ⟨before ++ '"' :: (units ++ ['"']), by simp, .illegalTrailing h hunits rfl hc⟩

/-! ### Words -/

theorem located_of_decimal {found : List Placed} {whole part rest : List Char} {c : Char}
    (h : ScansUpTo settings front (before ++ (whole ++ '.' :: (part ++ c :: rest))) found .code
      (whole ++ '.' :: (part ++ c :: rest)))
    (hne : whole ≠ []) (hdigit : ∀ d ∈ whole ++ part, d.isDigit = true)
    (hc : isLetter c = true ∨ c = '.') :
    Fault.Located settings front (before ++ (whole ++ '.' :: (part ++ c :: rest)))
      ⟨.illegalDecimal c, c :: rest⟩ := by
  have hsplit : before ++ (whole ++ '.' :: (part ++ c :: rest)) =
      before ++ (whole ++ '.' :: part) ++ c :: rest := by simp
  rw [hsplit] at h ⊢
  exact ⟨_, rfl, .illegalDecimal h hne hdigit rfl hc⟩

/-- What is wrong with a run of letters and digits is wrong at its place. -/
theorem located_of_classified {found : List Placed} {run after : List Char} {fault : Fault}
    (h : ScansUpTo settings front (before ++ (run ++ after)) found .code (run ++ after))
    (hne : run ≠ []) (hstop : StopsAt isWordChar after)
    (hfault : Classified settings.isKeyword run after (.error fault)) :
    fault.Located settings front (before ++ (run ++ after)) := by
  cases hfault with
  | tooGreat hdigit _ hlt => exact ⟨before, rfl, .malformedNumber h hne hdigit hstop hlt⟩
  | letter hdigit hletter => exact located_of_decimal h hne hdigit (.inl hletter)
  | point hdigit => exact located_of_decimal h hne hdigit (.inr rfl)

theorem located_of_word {found : List Placed} {c : Char} {text : List Char} {fault : Fault}
    (h : ScansUpTo settings front (before ++ c :: text) found .code (c :: text))
    (hc : isWordChar c = true) (hfault : word settings.isKeyword (c :: text) = .error fault) :
    fault.Located settings front (before ++ c :: text) := by
  have hleft : ∀ d ∈ ([] : List Char).getLast?, isWordChar d = false := by simp
  have hmaximal := maximalRun_takeWhile text hc hleft
  have hsplit : (c :: text).takeWhile isWordChar ++ (c :: text).dropWhile isWordChar = c :: text :=
    List.takeWhile_append_dropWhile
  obtain ⟨r, hr⟩ := exists_classified settings.isKeyword hmaximal.all
    ((c :: text).dropWhile isWordChar)
  have hword := hr.word_eq hmaximal.ne_nil hmaximal.all hmaximal.right
  rw [hsplit, hfault] at hword
  subst hword
  rw [← hsplit] at h ⊢
  exact located_of_classified h hmaximal.ne_nil hmaximal.right hr

/-! ### Steps -/

theorem located_of_stepCode {found : List Placed} {c : Char} {text : List Char} {fault : Fault}
    (h : ScansUpTo settings front (before ++ c :: text) found .code (c :: text))
    (hfault : stepCode settings.isKeyword c text = .error fault) :
    fault.Located settings front (before ++ c :: text) := by
  unfold stepCode at hfault
  split at hfault
  · cases hfault
  rename_i hblank
  -- The two kinds of literals.
  split at hfault
  · rename_i hc
    subst hc
    have hopens : OpensLiteral settings front before '\'' text :=
      ⟨.inl rfl, found, .code, by decide, h⟩
    exact hopens.located_of_character (stepQuote_eq_error hfault)
  split at hfault
  · rename_i hc
    subst hc
    have hopens : OpensLiteral settings front before '"' text :=
      ⟨.inr rfl, found, .code, by decide, h⟩
    exact hopens.located_of_string (stepQuote_eq_error hfault)
  -- A header whose name is empty.
  split at hfault
  · rename_i hc
    subst hc
    simp only at hfault
    split at hfault
    · rename_i hname
      cases hfault
      have hstop := stopsAt_dropWhile isHeaderChar text
      have hsplit : text.takeWhile isHeaderChar ++ text.dropWhile isHeaderChar = text :=
        List.takeWhile_append_dropWhile
      rw [List.isEmpty_iff.1 hname, List.nil_append] at hsplit
      rw [hsplit] at hstop
      exact ⟨before, rfl, .emptyHeader h hstop⟩
    · cases hfault
  -- Of the marks of comments only the closing one is a fault here.
  split at hfault
  · cases hfault
  split at hfault
  · cases hfault
  split at hfault
  · rename_i hmark
    cases hfault
    obtain ⟨rest, hrest⟩ := List.isPrefixOf_iff_prefix.1 hmark
    obtain ⟨rfl, rfl⟩ := List.cons.inj hrest
    exact ⟨before, rfl, .rogueTerminator h⟩
  split at hfault
  · rename_i hc
    cases hword : word settings.isKeyword (c :: text) with
    | error f =>
      rw [hword] at hfault
      cases hfault
      exact located_of_word h hc hword
    | ok p =>
      rw [hword] at hfault
      cases hfault
  · rename_i hword
    split at hfault
    · cases hfault
    · rename_i hsign
      cases hfault
      exact ⟨before, rfl, .illegalCharacter h (by simpa using hblank) (by simpa using hword) hsign⟩

theorem located_of_stepHeader {found : List Placed} {c : Char} {text : List Char} {fault : Fault}
    (h : ScansUpTo settings front (before ++ c :: text) found .header (c :: text))
    (hfault : stepHeader c text = .error fault) :
    fault.Located settings front (before ++ c :: text) := by
  unfold stepHeader at hfault
  split at hfault
  · cases hfault
  split at hfault
  · rename_i hc
    subst hc
    have hopens : OpensLiteral settings front before '\'' text :=
      ⟨.inl rfl, found, .header, by decide, h⟩
    exact hopens.located_of_character (stepQuote_eq_error hfault)
  split at hfault
  · rename_i hc
    subst hc
    have hopens : OpensLiteral settings front before '"' text :=
      ⟨.inr rfl, found, .header, by decide, h⟩
    exact hopens.located_of_string (stepQuote_eq_error hfault)
  · cases hfault

/-- A step that fails has its fault where the cause says. -/
theorem located_of_step {found : List Placed} {mode : Mode} {c : Char} {text : List Char}
    {fault : Fault} (h : ScansUpTo settings front (before ++ c :: text) found mode (c :: text))
    (hfault : step settings.isKeyword mode c text = .error fault) :
    fault.Located settings front (before ++ c :: text) := by
  cases mode with
  | code => exact located_of_stepCode h hfault
  | header => exact located_of_stepHeader h hfault
  | comment => cases hfault

end

/-! ### Lines -/

section

variable {settings : Settings} {front : List (List Char)} {line : List Char} {fault : Fault}

/-- A line that cannot be measured has its fault where the cause says. -/
theorem located_of_measure (hvisible : allBlank line = false)
    (h : measure (stepWidth settings front) line = .error fault) :
    fault.Located settings front line := by
  rcases measure_eq_error_cases h with
    ⟨before, c, after, rfl, hbefore, hblank, htab, hspace, rfl⟩ |
    ⟨width, hwidth, hplain, hpart, rfl⟩
  · exact ⟨before, rfl,
      .illegalWhitespace (fun d hd => (hbefore d hd).symm) hblank hspace htab⟩
  · have hsplit : leadingBlanks line ++ line.dropWhile isBlank = line :=
      List.takeWhile_append_dropWhile
    have hstop := stopsAt_dropWhile isBlank line
    cases hrest : line.dropWhile isBlank with
    | nil =>
      -- Only a line of blanks has nothing behind them.
      rw [hrest, List.append_nil] at hsplit
      rw [allBlank, ← hsplit, List.all_eq_false] at hvisible
      obtain ⟨d, hd, hblank⟩ := hvisible
      exact absurd (all_of_mem_takeWhile d hd) hblank
    | cons c rest =>
      rw [hrest] at hsplit hstop
      exact ⟨leadingBlanks line, hsplit.symm, .inconsistentIndentation
        (fun d hd => (hplain d hd).symm) (stopsAt_cons.1 hstop) hwidth hpart⟩

/-- A line that fails behind others has a fault where the cause says. -/
theorem located_of_scanLine {s : State} {tokens : List Token} {e : Error}
    (hrun : scanLines settings (State.start settings) front = .ok (s, tokens))
    (h : scanLine settings s line = .error e) :
    ∃ fault : Fault, e = fault.error (front.length + 1) line ∧
      fault.Located settings front line := by
  obtain ⟨fault, rfl, hmargin | ⟨⟨s₁, layout, hboundary⟩, htext⟩⟩ := scanLine_eq_error h
  · obtain ⟨-, -, hvisible, hmeasure⟩ := boundary_eq_error_iff.1 hmargin
    rw [run_unit hrun] at hmeasure
    exact ⟨fault, by rw [(run_lines hrun).1], located_of_measure hvisible hmeasure⟩
  · obtain ⟨found, mode, c, rest, hreads, hstep⟩ := ReadsUpTo.start.exists_step htext
    obtain ⟨before, hbefore⟩ := hreads.suffix
    have hplace : ScansUpTo settings front line found mode (c :: rest) := ⟨hrun, hboundary, hreads⟩
    rw [← hbefore] at hplace ⊢
    exact ⟨fault, by rw [(run_lines hrun).1], located_of_step hplace hstep⟩

end

/-! ### Programs -/

/-- Every error points at its cause. It names a line of the program. It names no column exactly if a
block comment never ends, and then the line is the last one; and otherwise the column of a
character on that line, which is what `Blames` says for its cause. -/
theorem errors_point_at_cause {settings : Settings} {lines : List (List Char)} {e : Error}
    (h : scan settings lines = .error e) :
    1 ≤ e.line ∧ e.line ≤ lines.length ∧
    (e.column = none ↔ e.cause = .unterminatedComment) ∧
    (e.cause = .unterminatedComment → e.line = lines.length) ∧
    ∀ column, e.column = some column →
      ∃ line, lines[e.line - 1]? = some line ∧ 1 ≤ column ∧ column ≤ line.length ∧
        Blames settings (lines.take (e.line - 1)) (line.take (column - 1)) e.cause
          (line.drop (column - 1)) := by
  rcases scan_eq_error_cases h with hrun | ⟨s, tokens, hrun, hinside, rfl⟩
  · obtain ⟨front, line, rest, s, tokens, rfl, hfront, hline⟩ := scanLines_eq_error hrun
    obtain ⟨⟨cause, text⟩, rfl, before, rfl, hblames⟩ := located_of_scanLine hfront hline
    have hcause : cause ≠ .unterminatedComment := hblames.ne_unterminatedComment
    refine ⟨Nat.succ_pos _, ?_, ⟨fun hnone => (by cases hnone), fun hc => absurd hc hcause⟩,
      fun hc => absurd hc hcause, ?_⟩
    · show front.length + 1 ≤ _
      simp
    · intro column hcolumn
      have hplace : before.length + 1 = column := by
        rw [← column_append before text]
        exact Option.some.inj hcolumn
      subst hplace
      have hpos : 0 < text.length := List.length_pos_iff.2 hblames.ne_nil
      refine ⟨before ++ text, by simp [Fault.error], Nat.succ_pos _, ?_, ?_⟩
      · rw [List.length_append]
        omega
      · simpa [Fault.error] using hblames
  -- Only what has been opened on a line can be open at the end.
  · have hne : lines ≠ [] := by
      rintro rfl
      cases hrun
      cases hinside
    exact ⟨List.length_pos_iff.2 hne, le_rfl, ⟨fun _ => rfl, fun _ => rfl⟩, fun _ => rfl,
      fun _ hcolumn => (by cases hcolumn)⟩

/-- The character below has a number with two digits. Its backslash is the eighth character of the
line. -/
theorem errors_point_at_cause_number :
    let lines := ["a".toList, "  c = '\\u12'".toList]
    let e : Error := ⟨2, some 8, .malformedUnicode⟩
    scan {} lines = .error e ∧ 1 ≤ e.line ∧ e.line ≤ lines.length ∧
      Blames {} ["a".toList] "  c = '".toList .malformedUnicode "\\u12'".toList := by
  intro lines e
  have hscan : scan {} lines = .error e := by
    simp only [lines, e]
    cbv
  obtain ⟨hpos, hle, -, -, hplace⟩ := errors_point_at_cause hscan
  obtain ⟨line, hline, -, -, hblames⟩ := hplace 8 rfl
  cases hline
  exact ⟨hscan, hpos, hle, hblames⟩

end Offside.Scan
