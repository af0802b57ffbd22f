import Offside.Proofs.Scan.Places

/-!
# `Offside.Proofs.Scan.Classification`: what a run of letters and digits is

A run of letters, digits and underscores is a word if it holds a letter, and a number otherwise, and
what follows a number decides which. `Classified` lists what a run can be and what can be wrong with
it, `classified_word` says that the reader of words answers just that, and `exists_classified` that
nothing is missing from the list.

`words_classified` is the result for every place where a word begins.
-/

set_option autoImplicit false

namespace Offside.Scan

/-- What a run of letters, digits and underscores is, given the text behind it, and where reading
goes on; or else what is wrong with it. -/
inductive Classified (isKeyword : String → Bool) (run : List Char) :
    List Char → Except Fault (Lexeme × List Char) → Prop
  | boolean {after : List Char} (b : Bool) :
      String.ofList run = toString b →
      Classified isKeyword run after (.ok (⟨.boolean, some (.boolean b)⟩, after))
  | null {after : List Char} :
      String.ofList run = "null" → Classified isKeyword run after (.ok (⟨.null, none⟩, after))
  | keyword {after : List Char} :
      (∃ c ∈ run, isLetter c = true) → String.ofList run ∉ literalWords →
      isKeyword (String.ofList run) = true →
      Classified isKeyword run after
        (.ok (⟨.keyword, some (.string (String.ofList run))⟩, after))
  | identifier {after : List Char} :
      (∃ c ∈ run, isLetter c = true) → String.ofList run ∉ literalWords →
      isKeyword (String.ofList run) = false →
      Classified isKeyword run after
        (.ok (⟨.identifier, some (.string (String.ofList run))⟩, after))
  | integer {after : List Char} :
      (∀ c ∈ run, c.isDigit = true) → after.head? ≠ some '.' →
      Nat.ofDigitChars 10 run 0 ≤ 2 ^ 63 - 1 →
      Classified isKeyword run after
        (.ok (⟨.integer, some (.integer (Nat.ofDigitChars 10 run 0))⟩, after))
  /-- An integer that is too great has its fault at the first digit. -/
  | tooGreat {after : List Char} :
      (∀ c ∈ run, c.isDigit = true) → after.head? ≠ some '.' →
      2 ^ 63 - 1 < Nat.ofDigitChars 10 run 0 →
      Classified isKeyword run after
        (.error ⟨.malformedNumber (String.ofList run), run ++ after⟩)
  | decimal {part rest : List Char} :
      (∀ c ∈ run ++ part, c.isDigit = true) → StopsAt isWordChar rest → rest.head? ≠ some '.' →
      Classified isKeyword run ('.' :: (part ++ rest))
        (.ok (⟨.decimal, some (.decimal (Decimal.ofDigits run part))⟩, rest))
  /-- The first letter behind the point of a decimal is a fault. -/
  | letter {digits rest : List Char} {c : Char} :
      (∀ d ∈ run ++ digits, d.isDigit = true) → isLetter c = true →
      Classified isKeyword run ('.' :: (digits ++ c :: rest))
        (.error ⟨.illegalDecimal c, c :: rest⟩)
  /-- And so is a further point. -/
  | point {part rest : List Char} :
      (∀ c ∈ run ++ part, c.isDigit = true) →
      Classified isKeyword run ('.' :: (part ++ '.' :: rest))
        (.error ⟨.illegalDecimal '.', '.' :: rest⟩)

/-! ### Numbers -/

theorem isWordChar_of_isLetter {c : Char} (h : isLetter c = true) : isWordChar c = true := by
  unfold isLetter at h
  unfold isWordChar Char.isAlphanum
  rw [Bool.or_eq_true] at h
  rcases h with h | h <;> simp [h]

section

variable {isKeyword : String → Bool} {run : List Char}

/-- Digits with no point behind them are an integer, if it is not too great. -/
theorem word_append_of_digits {after : List Char} (hdigit : ∀ c ∈ run, c.isDigit = true)
    (hstop : StopsAt isWordChar after) (hpoint : after.head? ≠ some '.') :
    word isKeyword (run ++ after) =
      if Nat.ofDigitChars 10 run 0 ≤ maxInteger then
        .ok (⟨.integer, some (.integer (Nat.ofDigitChars 10 run 0))⟩, after)
      else .error ⟨.malformedNumber (String.ofList run), run ++ after⟩ := by
  have hrun : ∀ c ∈ run, isWordChar c = true := fun c hc => isWordChar_of_isDigit (hdigit c hc)
  have hletter := (any_isLetter_eq_false_iff hrun).2 hdigit
  simp only [word, takeWhile_append_of_stopsAt hrun hstop,
    dropWhile_append_of_stopsAt hrun hstop, hletter]
  split
  · rename_i hfalse
    cases hfalse
  split
  · exact absurd rfl hpoint
  · rfl

/-- A point and digits behind digits make no decimal if a letter or a further point follows. -/
theorem word_append_of_illegal {digits more : List Char} {c : Char}
    (hdigit : ∀ d ∈ run ++ digits, d.isDigit = true) (hc : c.isDigit = false)
    (hillegal : isWordChar c = true ∨ c = '.') :
    word isKeyword (run ++ '.' :: (digits ++ c :: more)) =
      .error ⟨.illegalDecimal c, c :: more⟩ := by
  have hwhole : ∀ d ∈ run, d.isDigit = true := fun d hd => hdigit d (List.mem_append_left _ hd)
  have hpart : ∀ d ∈ digits, d.isDigit = true := fun d hd => hdigit d (List.mem_append_right _ hd)
  have hrun : ∀ d ∈ run, isWordChar d = true := fun d hd => isWordChar_of_isDigit (hwhole d hd)
  have hletter := (any_isLetter_eq_false_iff hrun).2 hwhole
  have hdot : StopsAt isWordChar ('.' :: (digits ++ c :: more)) := stopsAt_cons.2 rfl
  have hstop : StopsAt Char.isDigit (c :: more) := stopsAt_cons.2 hc
  simp only [word, takeWhile_append_of_stopsAt hrun hdot, dropWhile_append_of_stopsAt hrun hdot,
    hletter, dropWhile_append_of_stopsAt hpart hstop]
  simp [hillegal]

end

/-! ### Runs -/

section

variable {isKeyword : String → Bool} {run after : List Char}

/-- What a run is, the reader of words answers. -/
theorem Classified.word_eq {r : Except Fault (Lexeme × List Char)}
    (h : Classified isKeyword run after r) (hne : run ≠ [])
    (hrun : ∀ c ∈ run, isWordChar c = true) (hstop : StopsAt isWordChar after) :
    word isKeyword (run ++ after) = r := by
  have hmaximal : MaximalRun isWordChar [] run after := ⟨hne, hrun, by simp, hstop⟩
  have hmax : maxInteger = 2 ^ 63 - 1 := rfl
  cases h with
  | boolean b hb => exact word_eq_ok (.boolean b hmaximal hb)
  | null hnull => exact word_eq_ok (.null hmaximal hnull)
  | keyword hletter hword hkeyword =>
    exact word_eq_ok (.keyword hmaximal hletter hword hkeyword)
  | identifier hletter hword hkeyword =>
    exact word_eq_ok (.identifier hmaximal hletter hword hkeyword)
  | integer hdigit hpoint hle =>
    rw [word_append_of_digits hdigit hstop hpoint, hmax]
    exact if_pos hle
  | tooGreat hdigit hpoint hlt =>
    rw [word_append_of_digits hdigit hstop hpoint, hmax]
    exact if_neg (Nat.not_le.2 hlt)
  | decimal hdigit hrest hpoint => exact word_append_of_decimal hdigit hrest hpoint
  | letter hdigit hletter =>
    have hc := isWordChar_of_isLetter hletter
    have hno := isLetter_of_isWordChar hc
    rw [hletter, eq_comm, Bool.not_eq_true'] at hno
    exact word_append_of_illegal hdigit hno (.inl hc)
  | point hdigit => exact word_append_of_illegal hdigit (by decide) (.inr rfl)

/-- Digits with a point behind them are a decimal, or a letter or a further point is to blame. -/
theorem exists_classified_point (isKeyword : String → Bool)
    (hdigit : ∀ c ∈ run, c.isDigit = true) (behind : List Char) :
    ∃ r, Classified isKeyword run ('.' :: behind) r := by
  have hsplit : behind.takeWhile Char.isDigit ++ behind.dropWhile Char.isDigit = behind :=
    List.takeWhile_append_dropWhile
  have hdigits : ∀ c ∈ run ++ behind.takeWhile Char.isDigit, c.isDigit = true := by
    intro c hc
    rcases List.mem_append.1 hc with hc | hc
    · exact hdigit c hc
    · exact all_of_mem_takeWhile c hc
  have hno := stopsAt_dropWhile Char.isDigit behind
  rw [← hsplit]
  -- The character behind the digits decides.
  cases hrest : behind.dropWhile Char.isDigit with
  | nil => exact ⟨_, .decimal hdigits (by simp) (by simp)⟩
  | cons c rest =>
    rw [hrest, stopsAt_cons] at hno
    by_cases hword : isWordChar c = true
    · have hletter : isLetter c = true := by
        rw [isLetter_of_isWordChar hword, hno]
        rfl
      exact ⟨_, .letter hdigits hletter⟩
    · by_cases hpoint : c = '.'
      · rw [hpoint]
        exact ⟨_, .point hdigits⟩
      · exact ⟨_, .decimal hdigits (stopsAt_cons.2 (by simpa using hword)) (by simpa using hpoint)⟩

/-- Every run is something, or something is wrong with it. -/
theorem exists_classified (isKeyword : String → Bool) (hrun : ∀ c ∈ run, isWordChar c = true)
    (after : List Char) : ∃ r, Classified isKeyword run after r := by
  by_cases hletter : ∃ c ∈ run, isLetter c = true
  · by_cases hliteral : String.ofList run ∈ literalWords
    · simp only [literalWords, List.mem_cons, List.not_mem_nil, or_false] at hliteral
      rcases hliteral with htrue | hfalse | hnull
      · exact ⟨_, .boolean true htrue⟩
      · exact ⟨_, .boolean false hfalse⟩
      · exact ⟨_, .null hnull⟩
    · cases hkeyword : isKeyword (String.ofList run) with
      | true => exact ⟨_, .keyword hletter hliteral hkeyword⟩
      | false => exact ⟨_, .identifier hletter hliteral hkeyword⟩
  have hdigit : ∀ c ∈ run, c.isDigit = true :=
    (any_isLetter_eq_false_iff hrun).1 (by simpa using hletter)
  by_cases hpoint : after.head? = some '.'
  · obtain ⟨behind, rfl⟩ := List.head?_eq_some_iff.1 hpoint
    exact exists_classified_point isKeyword hdigit behind
  · rcases Nat.lt_or_ge (2 ^ 63 - 1) (Nat.ofDigitChars 10 run 0) with hlt | hle
    · exact ⟨_, .tooGreat hdigit hpoint hlt⟩
    · exact ⟨_, .integer hdigit hpoint hle⟩

end

/-! ### Places where a word begins -/

/-- A run of letters, digits and underscores is read by the reader of words. -/
theorem ScansUpTo.readsBy_word {settings : Settings} {front : List (List Char)}
    {line run after : List Char} {found : List Placed}
    (h : ScansUpTo settings front line found .code (run ++ after)) (hne : run ≠ [])
    (hrun : ∀ c ∈ run, isWordChar c = true) :
    ReadsBy settings front line found .code (run ++ after)
      (word settings.isKeyword (run ++ after)) id := by
  obtain ⟨c, tail, rfl⟩ := List.exists_cons_of_ne_nil hne
  have hc : isWordChar c = true := hrun c List.mem_cons_self
  refine h.readsBy (stepCode_of_isWordChar hc) fun l rest hread => ?_
  have hleft : ∀ d ∈ ([] : List Char).getLast?, isWordChar d = false := by simp
  obtain ⟨taken, -, hspells⟩ := spellsWord_of_word hc hleft hread
  exact isComment_of_isContent (Spells.word hspells).isContent_kind

/-- Words and numbers are classified exactly. Let a run of letters, digits and underscores that goes
no further begin at a place in code. The scan does what the reader of words answers, and that is
what `Classified` says about the run. A run of digits that a point follows has no fault but that of
a letter or a further point behind it. -/
theorem words_classified {settings : Settings} {front : List (List Char)} {line : List Char}
    {found : List Placed} {run after : List Char} (hne : run ≠ [])
    (hrun : ∀ c ∈ run, isWordChar c = true) (hstop : StopsAt isWordChar after) :
    (ScansUpTo settings front line found .code (run ++ after) →
      ReadsBy settings front line found .code (run ++ after)
        (word settings.isKeyword (run ++ after)) id) ∧
    (∀ r, word settings.isKeyword (run ++ after) = r ↔
      Classified settings.isKeyword run after r) ∧
    ((∀ c ∈ run, c.isDigit = true) → after.head? = some '.' → ∀ fault,
      word settings.isKeyword (run ++ after) = .error fault →
        ∃ c, fault.cause = .illegalDecimal c) := by
  obtain ⟨r, hr⟩ := exists_classified settings.isKeyword hrun after
  have hword := hr.word_eq hne hrun hstop
  refine ⟨fun h => h.readsBy_word hne hrun, fun r' => ⟨?_, fun h => h.word_eq hne hrun hstop⟩, ?_⟩
  · rintro rfl
    rwa [hword]
  · intro hdigit hpoint fault hfault
    rw [hword] at hfault
    subst hfault
    cases hr with
    | tooGreat _ hno _ => exact absurd hpoint hno
    | letter _ _ => exact ⟨_, rfl⟩
    | point _ => exact ⟨_, rfl⟩

/-- The line below holds a word, a point and a number that is too great by one. The point is left
unread by the word, and the number has its fault at its first digit, the fourth character. -/
theorem words_classified_member :
    let number := "9223372036854775808".toList
    let line := ['v', '1'] ++ '.' :: number
    Yields {} [] line [] line ⟨.identifier, some (.string "v1")⟩ .code ('.' :: number) ∧
      FailsAt {} [] line ⟨.malformedNumber "9223372036854775808", number⟩ := by
  intro number line
  have hchars : ∀ c ∈ ['v', '1'], isWordChar c = true := List.all_eq_true.1 (by decide)
  have hletter : ∃ c ∈ ['v', '1'], isLetter c = true := ⟨'v', by simp, by decide⟩
  have hpoint : StopsAt isWordChar ('.' :: number) := stopsAt_cons.2 rfl
  have hdigit : ∀ c ∈ number, c.isDigit = true := List.all_eq_true.1 (by decide)
  have hrun : ∀ c ∈ number, isWordChar c = true := fun c hc => isWordChar_of_isDigit (hdigit c hc)
  have hgreat : 2 ^ 63 - 1 < Nat.ofDigitChars 10 number 0 := by decide
  have hstart : ScansUpTo {} [] line [] .code (['v', '1'] ++ '.' :: number) :=
    scansUpTo_first {} line
  obtain ⟨hreads, hword, -⟩ := words_classified (by simp) hchars hpoint
  have hv := (hreads hstart).yields _ _ ((hword _).2 (.identifier hletter (by decide) (by decide)))
  refine ⟨hv, ?_⟩
  have hsign : Scan.step ({} : Settings).isKeyword .code '.' number =
      .ok ⟨some ⟨.dot, none⟩, .code, number⟩ := rfl
  have hplace := hv.behind.step hsign
  rw [← List.append_nil number] at hplace
  obtain ⟨hreads', hword', -⟩ := words_classified (by decide) hrun (stopsAt_nil _)
  exact (hreads' hplace).fails _ ((hword' _).2 (.tooGreat hdigit (by simp) hgreat))

end Offside.Scan
