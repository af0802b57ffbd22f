import Offside.Proofs.Scan.Failure
import Offside.Proofs.Scan.PlainReading
import Offside.Proofs.Text.OneLine

/-!
# `Offside.Proofs.Scan.Reports`: the report of an error is one line

Some causes repeat characters of the source as they are (`Cause.quotes`); everything else in a
report is fixed, a number or escaped. The readers of a line blame a character without escaping it
only if it goes on with a literal or a number, so it is one of words and numbers or a point
(`Fault.IsPlain`). Neither breaks a line, and so `oneLine_report` follows for every scan that
fails.
-/

set_option autoImplicit false

namespace Offside.Scan

/-! ### The wording of a cause -/

/-- The characters of the source that a cause repeats as they are. -/
def Cause.quotes : Cause → List Char
  | illegalTrailing c => [c]
  | illegalDecimal c => [c]
  | malformedNumber digits => digits.toList
  | _ => []

/-- A cause breaks no line if what it repeats does not. -/
theorem Cause.oneLine_message {cause : Cause} (h : OneLine cause.quotes) :
    OneLine cause.message.toList := by
  cases cause with
  | illegalCharacter c =>
    show OneLine ("Illegal character '" ++ String.ofList (Text.ascii.char c) ++ "'").toList
    have hc : OneLine (Text.ascii.char c) := Text.oneLine_ascii_char c
    simp [String.toList_append, hc]
  | inconsistentIndentation spaces unit =>
    show OneLine ("Inconsistent indentation: " ++ toString spaces ++
      " spaces is not a multiple of " ++ toString unit).toList
    simp only [String.toList_append, oneLine_append]
    exact ⟨⟨⟨by decide, oneLine_toString_nat spaces⟩, by decide⟩, oneLine_toString_nat unit⟩
  | illegalTrailing c =>
    show OneLine ("Illegal character '" ++ c.toString ++ "' after a literal").toList
    have hc : OneLine [c] := h
    simpa [String.toList_append] using hc
  | illegalDecimal c =>
    show OneLine ("Illegal character '" ++ c.toString ++ "' in decimal").toList
    have hc : OneLine [c] := h
    simpa [String.toList_append] using hc
  | malformedNumber digits =>
    show OneLine ("Malformed number literal '" ++ digits ++ "'").toList
    have hdigits : OneLine digits.toList := h
    simpa [String.toList_append] using hdigits
  | illegalWhitespace => decide
  | unterminatedCharacter => decide
  | emptyCharacter => decide
  | malformedCharacter => decide
  | unterminatedString => decide
  | malformedUnicode => decide
  | rogueTerminator => decide
  | unterminatedComment => decide
  | emptyHeader => decide

theorem Error.oneLine_text {e : Error} (h : OneLine e.cause.quotes) :
    OneLine e.text.toList := by
  have hmessage : OneLine e.cause.message.toList := Cause.oneLine_message h
  have hline : OneLine (toString e.line).toList := oneLine_toString_nat e.line
  unfold text
  cases e.column with
  | none =>
    simp only [String.toList_append, oneLine_append]
    exact ⟨⟨⟨⟨by decide, hline⟩, by decide⟩, by decide⟩, hmessage⟩
  | some c =>
    simp only [String.toList_append, oneLine_append]
    exact ⟨⟨⟨⟨by decide, hline⟩, by decide, oneLine_toString_nat c⟩, by decide⟩, hmessage⟩

/-! ### The faults of a line -/

/-- A fault repeats nothing but characters of words and numbers, and points. -/
def Fault.IsPlain (f : Fault) : Prop := ∀ c ∈ f.cause.quotes, isWordChar c = true ∨ c = '.'

theorem Fault.IsPlain.oneLine {f : Fault} (h : f.IsPlain) : OneLine f.cause.quotes := by
  intro c hc
  rcases h c hc with hword | rfl
  · exact isWordChar_induction (p := fun c => c ≠ '\n' ∧ c ≠ '\r') hword (by decide)
  · decide

theorem isPlain_of_quotes {f : Fault} (h : f.cause.quotes = []) : f.IsPlain := by
  simp [Fault.IsPlain, h]

theorem isPlain_of_behindLiteral {text : List Char} {f : Fault}
    (h : behindLiteral text = .error f) : f.IsPlain := by
  unfold behindLiteral at h
  split at h
  · split at h
    · rename_i hc
      cases h
      simpa [Fault.IsPlain, Cause.quotes] using Or.inl hc
    · cases h
  · cases h

theorem isPlain_of_unit {cut f : Fault} {text : List Char} (hcut : cut.IsPlain)
    (h : unit cut text = .error f) : f.IsPlain := by
  unfold unit at h
  split at h
  · cases h
    exact hcut
  · cases h
    exact hcut
  · split at h
    · cases h
    · cases h
      exact isPlain_of_quotes rfl
  · cases h
  · cases h

theorem isPlain_of_stringUnits {start text : List Char} {f : Fault}
    (h : stringUnits start text = .error f) : f.IsPlain := by
  induction hn : text.length using Nat.strongRecOn generalizing text with
  | _ n ih =>
    rw [stringUnits.eq_def] at h
    split at h
    · cases h
      exact isPlain_of_quotes rfl
    rename_i c text
    split at h
    · cases h
    split at h
    · rename_i fault hunit
      cases h
      exact isPlain_of_unit (isPlain_of_quotes rfl) hunit
    · rename_i x rest hunit
      have hlen : rest.length < n := by
        have := (unit_suffix hunit).length_le
        simp only [List.length_cons] at hn
        omega
      split at h
      · rename_i fault hrest
        cases h
        exact ih rest.length hlen hrest rfl
      · cases h

theorem isPlain_of_string {text : List Char} {f : Fault} (h : string text = .error f) :
    f.IsPlain := by
  simp only [string, bind, Except.bind, pure, Except.pure] at h
  split at h
  · rename_i fault hunits
    cases h
    exact isPlain_of_stringUnits hunits
  · split at h
    · rename_i fault hbehind
      cases h
      exact isPlain_of_behindLiteral hbehind
    · cases h

theorem isPlain_of_character {text : List Char} {f : Fault} (h : character text = .error f) :
    f.IsPlain := by
  simp only [character, bind, Except.bind, pure, Except.pure] at h
  split at h
  · cases h
    exact isPlain_of_quotes rfl
  · split at h
    · rename_i fault hunit
      cases h
      exact isPlain_of_unit (isPlain_of_quotes rfl) hunit
    · split at h
      · split at h
        · rename_i fault hbehind
          cases h
          exact isPlain_of_behindLiteral hbehind
        · cases h
      · cases h
        exact isPlain_of_quotes rfl
      · cases h
        exact isPlain_of_quotes rfl

theorem isPlain_of_word {isKeyword : String → Bool} {text : List Char} {f : Fault}
    (h : word isKeyword text = .error f) : f.IsPlain := by
  simp only [word] at h
  split at h
  · cases h
  split at h
  · split at h
    · cases h
    · split at h
      · rename_i hc
        cases h
        simpa [Fault.IsPlain, Cause.quotes] using hc
      · cases h
  · split at h
    · cases h
    · -- The digits are a run of characters of words and numbers.
      cases h
      intro c hc
      simp only [Cause.quotes, String.toList_ofList] at hc
      exact .inl (all_of_mem_takeWhile c hc)

theorem isPlain_of_stepCode {isKeyword : String → Bool} {c : Char} {text : List Char}
    {f : Fault} (h : stepCode isKeyword c text = .error f) : f.IsPlain := by
  unfold stepCode at h
  split at h
  · cases h
  split at h
  · exact isPlain_of_character (stepQuote_eq_error h)
  split at h
  · exact isPlain_of_string (stepQuote_eq_error h)
  split at h
  · simp only at h
    split at h
    · cases h
      exact isPlain_of_quotes rfl
    · cases h
  split at h
  · cases h
  split at h
  · cases h
  split at h
  · cases h
    exact isPlain_of_quotes rfl
  split at h
  · cases hw : word isKeyword (c :: text) with
    | error fault =>
      rw [hw] at h
      cases h
      exact isPlain_of_word hw
    | ok p =>
      rw [hw] at h
      cases h
  · split at h
    · cases h
    · cases h
      exact isPlain_of_quotes rfl

theorem isPlain_of_stepHeader {c : Char} {text : List Char} {f : Fault}
    (h : stepHeader c text = .error f) : f.IsPlain := by
  unfold stepHeader at h
  split at h
  · cases h
  split at h
  · exact isPlain_of_character (stepQuote_eq_error h)
  split at h
  · exact isPlain_of_string (stepQuote_eq_error h)
  · cases h

theorem isPlain_of_step {isKeyword : String → Bool} {mode : Mode} {c : Char}
    {text : List Char} {f : Fault} (h : step isKeyword mode c text = .error f) : f.IsPlain := by
  cases mode with
  | code => exact isPlain_of_stepCode h
  | header => exact isPlain_of_stepHeader h
  | comment => cases h

theorem isPlain_of_lexemes {isKeyword : String → Bool} {mode : Mode} {text : List Char}
    {f : Fault} (h : lexemes isKeyword mode text = .error f) : f.IsPlain := by
  induction mode, text using step_induction isKeyword with
  | nil mode =>
    rw [lexemes] at h
    cases h
  | cons mode c text ih =>
    rcases lexemes_cons_eq_error h with hstep | ⟨s, hstep, hrest⟩
    · exact isPlain_of_step hstep
    · exact ih s hstep hrest

theorem isPlain_of_boundary {settings : Settings} {s : State} {line : List Char} {f : Fault}
    (h : boundary settings s line = .error f) : f.IsPlain := by
  obtain ⟨-, -, -, hmeasure⟩ := boundary_eq_error_iff.mp h
  have hindentation := measure_eq_error hmeasure
  apply isPlain_of_quotes
  cases hcause : f.cause <;> simp_all [Cause.isIndentation, Cause.quotes]

/-! ### Programs -/

/-- **The report of a scan that fails is one line.** -/
theorem oneLine_report {settings : Settings} {lines : List (List Char)} {e : Error}
    (h : scan settings lines = .error e) : OneLine e.text.toList := by
  apply Error.oneLine_text
  rcases scan_eq_error_cases h with hrun | ⟨s, tokens, -, -, rfl⟩
  · obtain ⟨front, line, rest, s₁, tokens, -, -, hline⟩ := scanLines_eq_error hrun
    obtain ⟨fault, rfl, hboundary | ⟨-, hlexemes⟩⟩ := scanLine_eq_error hline
    · exact (isPlain_of_boundary hboundary).oneLine
    · exact (isPlain_of_lexemes hlexemes).oneLine
  · exact oneLine_nil

end Offside.Scan
