import Offside.Proofs.Scan.Classification
import Offside.Proofs.Scan.Guarded.Following
import Offside.Scan.Layout

/-!
# `Offside.Proofs.Scan.Guarded.Readers`: what is read within a line, read with a cursor

One lemma for each reader of `Cursor`: in front of a text it follows the plain reader of that text.
Escapes, literals and margins follow their counterpart character by character. Words and numbers do
not: the plain reader cuts out the longest run of word characters and then looks at it, while the
rounds of `wordRound` decide on the way. So the text is cut first, and the lemmas
`wordLiteral_of_letter`, `wordLiteral_of_digits`, `wordLiteral_of_decimal` and
`wordLiteral_of_illegal` say what the rounds come to on each shape of it. Rounds over a stretch that
tells nothing new are taken together in `wordRounds_run`.

The look at four digits of an escape moves the cursor only if all four are there, and a unit of
indentation is never zero (`depthOf_follows`), because what is learned from a margin is its number
of spaces, which has been compared with zero before.
-/

set_option autoImplicit false

namespace Offside.Scan.Guarded.Row

open Offside.Text

variable {r : Row} {cursor place : Nat} {c : Char} {rest text start : List Char}

/-! ### Escapes -/

/-- A row with a character in it that is no digit has no value. -/
theorem hexValue?_eq_none {digits : List Char} (h : ∃ c ∈ digits, hexDigit? c = none) :
    hexValue? digits = none := by
  have key : ∀ (digits : List Char) (n : Nat), (∃ c ∈ digits, hexDigit? c = none) →
      digits.foldlM (fun n c => (hexDigit? c).map (16 * n + ·)) n = none := by
    intro digits
    induction digits with
    | nil =>
      intro n h
      simp at h
    | cons d digits ih =>
      intro n h
      rw [List.foldlM_cons]
      cases hd : hexDigit? d with
      | none => rfl
      | some v =>
        obtain ⟨c, hc, hnone⟩ := h
        rcases List.mem_cons.1 hc with rfl | hc
        · rw [hd] at hnone
          cases hnone
        · exact ih _ ⟨c, hc, hnone⟩
  exact key digits 0 h

/-- Four digits are found where the first four characters are digits. -/
theorem fourHex?_eq (text : List Char) :
    fourHex? text =
      let digits := (text.take 4).takeWhile (fun c => (hexDigit? c).isSome)
      if digits.length ≠ 4 then none else (hexValue? digits).bind charOfNat? := by
  show _ = if _ then _ else _
  by_cases hall : ∀ c ∈ text.take 4, (hexDigit? c).isSome = true
  · rw [List.takeWhile_eq_self_iff.2 hall, fourHex?]
    by_cases hlen : (text.take 4).length = 4 <;> simp only [hlen, if_true, if_false, ne_eq,
      not_true_eq_false, not_false_eq_true]
  · have hshort : ((text.take 4).takeWhile (fun c => (hexDigit? c).isSome)).length ≠ 4 := by
      intro hlen
      apply hall
      have hpre := List.takeWhile_prefix (fun c => (hexDigit? c).isSome) (l := text.take 4)
      have hle : (text.take 4).length ≤ 4 := by simp
      rw [← List.takeWhile_eq_self_iff]
      exact hpre.eq_of_length_le (by omega)
    have hnone : ∃ c ∈ text.take 4, hexDigit? c = none := by
      simpa using hall
    rw [if_pos hshort, fourHex?, hexValue?_eq_none hnone]
    simp

/-- A backslash at the end of the line cuts the literal off. -/
theorem unit_backslash (cut : Fault) : unit cut ['\\'] = .error cut := rfl

theorem unit_number (cut : Fault) (text : List Char) :
    unit cut ('\\' :: 'u' :: text) =
      match fourHex? text with
      | some c => .ok (c, text.drop 4)
      | none => .error ⟨.malformedUnicode, '\\' :: 'u' :: text⟩ := by
  cases text <;> rfl

theorem unit_escape (cut : Fault) {c : Char} (hc : c ≠ 'u') (text : List Char) :
    unit cut ('\\' :: c :: text) = .ok (escaped c, text) := by
  simp [unit]

theorem unit_plain (cut : Fault) {c : Char} (hc : c ≠ '\\') (text : List Char) :
    unit cut (c :: text) = .ok (c, text) := by
  simp [unit, hc]

theorem unicode_follows (hslash : r.At place ('\\' :: 'u' :: text)) (h : r.At cursor text)
    (cut : Fault) :
    Follows r.report r.Leaves (unit cut ('\\' :: 'u' :: text)) (r.unicode place cursor) := by
  rw [unit_number, fourHex?_eq]
  unfold unicode
  rw [h.drop_eq]
  show Follows _ _ (match (if _ then _ else _ : Option Char) with | some c => _ | none => _)
    (if _ then _ else _)
  generalize hdigits : (text.take 4).takeWhile (fun c => (hexDigit? c).isSome) = digits
  by_cases hlen : digits.length ≠ 4
  · rw [if_pos hlen, if_pos hlen]
    exact hslash.follows_fail _
  · -- There are four digits, so there are four characters.
    have hfour : (text.take 4).length = 4 := by
      have hle := (List.takeWhile_prefix (fun c => (hexDigit? c).isSome)
        (l := text.take 4)).length_le
      rw [hdigits] at hle
      have : (text.take 4).length ≤ 4 := by simp
      omega
    have hpiece : r.At cursor (text.take 4 ++ text.drop 4) := by
      rw [List.take_append_drop]
      exact h
    have hmove := hpiece.advance_eq
    have hbehind := hpiece.behind
    rw [hfour] at hmove hbehind
    rw [if_neg hlen, if_neg hlen, hmove, ok_bind]
    cases (hexValue? digits).bind charOfNat? with
    | none => exact hslash.follows_fail _
    | some x => exact .ok ⟨rfl, hbehind⟩

theorem escape_follows (hstart : r.At place start) (h : r.At cursor ('\\' :: text))
    (cut : Cause) :
    Follows r.report r.Leaves (unit ⟨cut, start⟩ ('\\' :: text)) (r.escape place cut cursor) := by
  unfold escape
  rw [h.advance_one, ok_bind, h.tail.peek_eq]
  cases text with
  | nil =>
    rw [unit_backslash]
    exact hstart.follows_fail cut
  | cons c text =>
    show Follows _ _ _ (r.advance (cursor + 1) 1 >>= _)
    rw [h.tail.advance_one, ok_bind]
    by_cases hc : c = 'u'
    · subst hc
      exact unicode_follows h h.tail.tail _
    · rw [unit_escape _ hc]
      show Follows _ _ _ (if c = 'u' then _ else _)
      rw [if_neg hc]
      exact .ok ⟨rfl, h.tail.tail⟩

/-- A unit is a character of its own or an escape. -/
theorem unitAt_follows (hstart : r.At place start) (h : r.At cursor (c :: text)) (cut : Cause) :
    Follows r.report r.Leaves (unit ⟨cut, start⟩ (c :: text)) (r.unitAt place cut cursor c) := by
  unfold unitAt
  by_cases hc : c = '\\'
  · subst hc
    exact escape_follows hstart h cut
  · rw [if_neg hc, unit_plain _ hc, h.advance_one, ok_bind]
    exact .ok ⟨rfl, h.tail⟩

/-! ### Literals -/

theorem checkTrailing_follows (h : r.At cursor text) :
    Follows r.report (fun rest _ => rest = text) (behindLiteral text) (r.checkTrailing cursor) := by
  unfold checkTrailing
  rw [h.peek_eq]
  cases text with
  | nil => exact .ok rfl
  | cons c text =>
    show Follows _ _ (if isWordChar c then _ else _) (if isWordChar c then _ else _)
    by_cases hc : isWordChar c = true
    · rw [if_pos hc, if_pos hc]
      exact h.follows_fail _
    · rw [if_neg hc, if_neg hc]
      exact .ok rfl

/-- What a character literal holds, unless it holds nothing. -/
theorem characterBody_follows (hstart : r.At place start) (h : r.At cursor text)
    (hquote : text.head? ≠ some '\'') :
    Follows r.report r.Leaves (unit ⟨.unterminatedCharacter, start⟩ text)
      (r.characterBody place cursor) := by
  unfold characterBody
  rw [h.peek_eq]
  cases text with
  | nil => exact hstart.follows_fail _
  | cons c text =>
    have hc : c ≠ '\'' := by simpa using hquote
    show Follows _ _ _ (if c = '\'' then _ else _)
    rw [if_neg hc]
    exact unitAt_follows hstart h _

/-- A character literal that holds something is its one unit, the closing quote and an end. -/
theorem character_of_head?_ne {body : List Char} {q : Char} (hquote : body.head? ≠ some '\'') :
    character (q :: body) = unit ⟨.unterminatedCharacter, q :: body⟩ body >>= fun p =>
      if p.2.head? = some '\'' then
        (behindLiteral p.2.tail).map fun rest => (p.1, rest)
      else if p.2.isEmpty then .error ⟨.unterminatedCharacter, q :: body⟩
      else .error ⟨.malformedCharacter, q :: body⟩ := by
  cases body with
  | nil => rfl
  | cons c body =>
    have hc : c ≠ '\'' := by simpa using hquote
    unfold character
    split
    · rename_i heq
      cases heq
      exact absurd rfl hc
    rw [List.tail_cons]
    cases unit ⟨.unterminatedCharacter, q :: c :: body⟩ (c :: body) with
    | error f => rfl
    | ok p =>
      obtain ⟨x, behind⟩ := p
      cases behind with
      | nil => rfl
      | cons d behind =>
        by_cases hd : d = '\''
        · subst hd
          simp only [ok_bind, List.head?_cons, if_true, List.tail_cons]
          cases behindLiteral behind <;> rfl
        · simp [ok_bind, hd]

theorem characterLiteral_follows (h : r.At cursor (c :: text)) :
    Follows r.report r.Leaves (character (c :: text)) (r.characterLiteral cursor) := by
  unfold characterLiteral
  rw [h.advance_one, ok_bind]
  by_cases hquote : text.head? = some '\''
  · -- A second quote directly behind the first one.
    obtain ⟨more, rfl⟩ := List.head?_eq_some_iff.1 hquote
    have hbody : r.characterBody cursor (cursor + 1) = r.fail cursor .emptyCharacter := by
      unfold characterBody
      rw [h.tail.peek_eq]
      rfl
    have hplain : character (c :: '\'' :: more) = .error ⟨.emptyCharacter, c :: '\'' :: more⟩ := rfl
    rw [hplain, hbody, h.fail_eq]
    exact .error _
  · rw [character_of_head?_ne hquote]
    refine (characterBody_follows h h.tail hquote).bind ?_
    rintro ⟨x, behind⟩ ⟨y, next⟩ ⟨rfl, hnext⟩
    simp only [hnext.peek_eq]
    cases behind with
    | nil => exact h.follows_fail _
    | cons d behind =>
      by_cases hd : d = '\''
      · subst hd
        simp only [List.head?_cons, if_true, hnext.advance_one, ok_bind, List.tail_cons]
        have hend := (checkTrailing_follows hnext.tail).andThen (S := fun rest p =>
          r.Leaves (x, rest) p) (g := fun _ => .ok (x, next + 1)) ?_
        · exact hend.map fun _ _ h => h
        · rintro _ _ rfl
          exact ⟨_, rfl, rfl, hnext.tail⟩
      · simp only [List.head?_cons, Option.some.injEq, hd, if_false, List.isEmpty_cons,
          Bool.false_eq_true]
        exact h.follows_fail _

/-- The units of a string are its first one and those behind it. -/
theorem stringUnits_cons (start : List Char) {c : Char} (hc : c ≠ '"') (text : List Char) :
    stringUnits start (c :: text) = (do
      let (x, rest) ← unit ⟨.unterminatedString, start⟩ (c :: text)
      let (xs, behind) ← stringUnits start rest
      return (x :: xs, behind)) := by
  rw [stringUnits, if_neg hc]
  split
  · rename_i hu
    rw [hu]
    rfl
  · rename_i x rest hu
    rw [hu, ok_bind]
    show _ = stringUnits start rest >>= _
    cases stringUnits start rest <;> rfl

/-- The rounds over a string read its units, behind those that are read already. -/
theorem stringRounds_follow (hstart : r.At place start) (value : List Char)
    (h : r.At cursor text) :
    Follows r.report (fun a b => value ++ a.1 = b.1 ∧ r.At b.2 a.2) (stringUnits start text)
      (loop Prod.snd r.chars.length (r.stringRound place) (value, cursor)) := by
  -- An escape takes more than one character, so the induction is on the length.
  induction hn : text.length using Nat.strongRecOn generalizing text cursor value with
  | _ n ih =>
    cases text with
    | nil =>
      have hround : r.stringRound place (value, cursor) = r.fail place .unterminatedString := by
        unfold stringRound
        rw [h.peek_eq]
        rfl
      rw [stringUnits, loop_of_error (hround.trans (hstart.fail_eq _))]
      exact .error _
    | cons c text =>
      have hround : r.stringRound place (value, cursor) =
          if c = '"' then r.advance cursor 1 >>= fun cursor => .ok (.leave (value, cursor))
          else r.unitAt place .unterminatedString cursor c >>= fun p =>
            .ok (.again (value ++ [p.1], p.2)) := by
        unfold stringRound
        rw [h.peek_eq]
        rfl
      by_cases hc : c = '"'
      · subst hc
        rw [if_pos rfl, h.advance_one, ok_bind] at hround
        rw [loop_of_leave hround, stringUnits, if_pos rfl]
        exact .ok ⟨List.append_nil value, h.tail⟩
      · rw [if_neg hc] at hround
        rw [stringUnits_cons start hc]
        refine Follows.loop (fun b => (value ++ [b.1], b.2)) hround
          (unitAt_follows hstart h _) ?_
        rintro ⟨x, rest⟩ ⟨_, next⟩ hu ⟨rfl, hnext⟩
        have hsuffix := unit_suffix hu
        have hlen : rest.length < n := by
          have := hsuffix.length_le
          simp only [List.length_cons] at hn
          omega
        refine ⟨h.lt_of_suffix hnext hsuffix, hnext.le, ?_⟩
        rw [← bind_pure (loop _ _ _ _)]
        refine (ih rest.length hlen (value ++ [x]) hnext rfl).bind ?_
        rintro ⟨xs, behind⟩ ⟨ys, last⟩ ⟨hys, hlast⟩
        refine .ok ⟨?_, hlast⟩
        rw [← hys]
        simp

theorem stringLiteral_follows (h : r.At cursor (c :: text)) :
    Follows r.report r.Leaves (string (c :: text)) (r.stringLiteral cursor) := by
  unfold stringLiteral string
  rw [h.advance_one, ok_bind]
  refine (stringRounds_follow h [] h.tail).bind ?_
  rintro ⟨xs, behind⟩ ⟨ys, next⟩ ⟨rfl, hnext⟩
  refine (checkTrailing_follows hnext).bind ?_
  rintro _ _ rfl
  exact .ok ⟨rfl, hnext⟩

/-! ### Words and numbers -/

section
variable {isKeyword : String → Bool} {run after : List Char} {hasLetter decimal : Bool}

/-- A round over a word where a character is left. -/
theorem At.wordRound_eq (h : r.At cursor (c :: rest)) (hasLetter decimal : Bool) :
    r.wordRound ⟨cursor, hasLetter, decimal⟩ =
      if !isWordChar c && c != '.' then .ok (.leave ⟨cursor, hasLetter, decimal⟩)
      else if decimal && ((hasLetter || isLetter c) || c == '.') then
        r.fail cursor (.illegalDecimal c)
      else if c == '.' && (hasLetter || isLetter c) then
        .ok (.leave ⟨cursor, hasLetter || isLetter c, decimal⟩)
      else .ok (.again ⟨cursor + 1, hasLetter || isLetter c, decimal || c == '.'⟩) := by
  unfold wordRound
  rw [h.peek_eq, List.head?_cons]
  simp only [h.advance_one, ok_bind]
  rfl

theorem ne_point_of_isWordChar (hc : isWordChar c = true) : (c == '.') = false := by
  rw [beq_eq_false_iff_ne]
  rintro rfl
  revert hc
  decide

/-- Rounds that learn nothing new move the cursor on. -/
theorem wordRounds_run (hknown : (decimal && hasLetter) = false)
    (hrun : ∀ c ∈ run, isWordChar c = true ∧ (hasLetter || isLetter c) = hasLetter)
    (h : r.At cursor (run ++ rest)) :
    loop WordScan.cursor r.chars.length r.wordRound ⟨cursor, hasLetter, decimal⟩ =
      loop WordScan.cursor r.chars.length r.wordRound
        ⟨cursor + run.length, hasLetter, decimal⟩ := by
  induction run generalizing cursor with
  | nil => rfl
  | cons c run ih =>
    obtain ⟨⟨hc, hletter⟩, hrun⟩ := List.forall_mem_cons.1 hrun
    rw [List.cons_append] at h
    have hround := h.wordRound_eq hasLetter decimal
    simp only [hc, hletter, ne_point_of_isWordChar hc, hknown, Bool.not_true, Bool.false_and,
      Bool.or_false, Bool.false_eq_true, if_false] at hround
    rw [loop_of_again hround (Nat.lt_succ_self cursor) h.tail.le, ih hrun h.tail,
      List.length_cons, Nat.add_assoc, Nat.add_comm 1]

/-- The rounds end where no word goes on. -/
theorem wordRounds_end (hstop : StopsAt isWordChar rest)
    (hpoint : hasLetter = true ∧ decimal = false ∨ rest.head? ≠ some '.')
    (h : r.At cursor rest) :
    loop WordScan.cursor r.chars.length r.wordRound ⟨cursor, hasLetter, decimal⟩ =
      .ok ⟨cursor, hasLetter, decimal⟩ := by
  apply loop_of_leave
  cases rest with
  | nil =>
    unfold wordRound
    rw [h.peek_eq]
    rfl
  | cons c rest =>
    rw [h.wordRound_eq, stopsAt_cons.1 hstop]
    by_cases hc : c = '.'
    · subst hc
      obtain ⟨rfl, rfl⟩ : hasLetter = true ∧ decimal = false := by simpa using hpoint
      rfl
    · simp [hc]

/-- Digits make no word of a number. -/
theorem digits_known (hdigit : ∀ c ∈ run, c.isDigit = true) :
    ∀ c ∈ run, isWordChar c = true ∧ (false || isLetter c) = false := by
  intro c hc
  have hword := isWordChar_of_isDigit (hdigit c hc)
  rw [isLetter_of_isWordChar hword, hdigit c hc]
  exact ⟨hword, rfl⟩

/-- A run with a letter in it is a word, whatever stands behind it. -/
theorem wordLiteral_of_letter (hrun : ∀ c ∈ run, isWordChar c = true)
    (hletter : run.any isLetter = true) (hstop : StopsAt isWordChar after)
    (h : r.At cursor (run ++ after)) :
    r.wordLiteral isKeyword cursor =
      .ok (wordLexeme isKeyword (String.ofList run), cursor + run.length) := by
  -- Up to its first letter the run could be a number.
  have hsplit := List.takeWhile_append_dropWhile (p := fun c => !isLetter c) (l := run)
  generalize hdigits : run.takeWhile (fun c => !isLetter c) = digits at hsplit
  have hnone : ∀ c ∈ digits, isLetter c = false := by
    intro c hc
    rw [← hdigits] at hc
    simpa using all_of_mem_takeWhile c hc
  have hfirst := stopsAt_dropWhile (fun c => !isLetter c) run
  cases hmore : run.dropWhile (fun c => !isLetter c) with
  | nil =>
    rw [List.dropWhile_eq_nil_iff] at hmore
    obtain ⟨c, hc, hl⟩ := List.any_eq_true.1 hletter
    simpa [hl] using hmore c hc
  | cons c more =>
    rw [hmore] at hsplit hfirst
    have hc : isLetter c = true := by simpa using hfirst
    subst hsplit
    have hdigits' : ∀ d ∈ digits, isWordChar d = true ∧ (false || isLetter d) = false :=
      fun d hd => ⟨hrun d (List.mem_append_left _ hd), by rw [hnone d hd]; rfl⟩
    have hmore' : ∀ d ∈ more, isWordChar d = true ∧ (true || isLetter d) = true :=
      fun d hd => ⟨hrun d (by simp [hd]), rfl⟩
    have hat : r.At cursor (digits ++ (c :: (more ++ after))) := by simpa using h
    have hround := hat.behind.wordRound_eq false false
    have hword : isWordChar c = true := isWordChar_of_isLetter hc
    simp only [hword, hc, ne_point_of_isWordChar hword, Bool.not_true, Bool.false_and,
      Bool.or_true, Bool.false_or, Bool.false_eq_true, if_false] at hround
    have hend : cursor + digits.length + 1 + more.length =
        cursor + (digits ++ c :: more).length := by
      simp only [List.length_append, List.length_cons]
      omega
    unfold wordLiteral
    rw [wordRounds_run rfl hdigits' hat,
      loop_of_again hround (Nat.lt_succ_self _) hat.behind.tail.le,
      wordRounds_run rfl hmore' hat.behind.tail,
      wordRounds_end hstop (.inl ⟨rfl, rfl⟩) hat.behind.tail.behind, ok_bind, hend,
      h.slice_eq h.behind, ok_bind]
    rfl

/-- Digits with no point behind them are an integer, if it is not too great. -/
theorem wordLiteral_of_digits (hdigit : ∀ c ∈ run, c.isDigit = true)
    (hstop : StopsAt isWordChar after) (hpoint : after.head? ≠ some '.')
    (h : r.At cursor (run ++ after)) :
    r.wordLiteral isKeyword cursor =
      if Nat.ofDigitChars 10 run 0 ≤ maxInteger then
        .ok (⟨.integer, some (.integer (Nat.ofDigitChars 10 run 0))⟩, cursor + run.length)
      else r.fail cursor (.malformedNumber (String.ofList run)) := by
  have hvalue : ∀ w : WordScan, w.hasLetter = false → w.decimal = false →
      r.wordValue isKeyword cursor w run =
        if Nat.ofDigitChars 10 run 0 ≤ maxInteger then
          .ok ⟨.integer, some (.integer (Nat.ofDigitChars 10 run 0))⟩
        else r.fail cursor (.malformedNumber (String.ofList run)) := by
    intro w hl hd
    unfold wordValue
    rw [hl, hd]
    rfl
  unfold wordLiteral
  rw [wordRounds_run rfl (digits_known hdigit) h, wordRounds_end hstop (.inr hpoint) h.behind,
    ok_bind, h.slice_eq h.behind, ok_bind, hvalue _ rfl rfl]
  split <;> rfl

/-- The rounds over digits and a point behind them. -/
theorem wordRounds_point (hdigit : ∀ c ∈ run, c.isDigit = true)
    (h : r.At cursor (run ++ '.' :: rest)) :
    loop WordScan.cursor r.chars.length r.wordRound ⟨cursor, false, false⟩ =
      loop WordScan.cursor r.chars.length r.wordRound ⟨cursor + run.length + 1, false, true⟩ := by
  have hround : r.wordRound ⟨cursor + run.length, false, false⟩ =
      .ok (.again ⟨cursor + run.length + 1, false, true⟩) := h.behind.wordRound_eq false false
  rw [wordRounds_run rfl (digits_known hdigit) h,
    loop_of_again hround (Nat.lt_succ_self _) h.behind.tail.le]

/-- Digits with a point and digits behind them are a decimal. -/
theorem wordLiteral_of_decimal {whole part : List Char}
    (hdigit : ∀ c ∈ whole ++ part, c.isDigit = true) (hstop : StopsAt isWordChar after)
    (hpoint : after.head? ≠ some '.') (h : r.At cursor (whole ++ '.' :: (part ++ after))) :
    r.wordLiteral isKeyword cursor =
      .ok (⟨.decimal, some (.decimal (Decimal.ofDigits whole part))⟩,
        cursor + whole.length + 1 + part.length) := by
  have hwhole : ∀ c ∈ whole, c.isDigit = true := fun c hc => hdigit c (List.mem_append_left _ hc)
  have hpart : ∀ c ∈ part, c.isDigit = true := fun c hc => hdigit c (List.mem_append_right _ hc)
  have hbehind : r.At (cursor + whole.length + 1 + part.length) after := h.behind.tail.behind
  have htext : r.At cursor ((whole ++ '.' :: part) ++ after) := by simpa using h
  -- The text is cut at its point again.
  have hno : ∀ c ∈ whole, (c != '.') = true := by
    intro c hc
    rw [bne, ne_point_of_isWordChar (isWordChar_of_isDigit (hwhole c hc))]
    rfl
  have hstopPoint : StopsAt (fun c => c != '.') ('.' :: part) := stopsAt_cons.2 rfl
  have hvalue : ∀ w : WordScan, w.hasLetter = false → w.decimal = true →
      r.wordValue isKeyword cursor w (whole ++ '.' :: part) =
        .ok ⟨.decimal, some (.decimal (Decimal.ofDigits whole part))⟩ := by
    intro w hl hd
    unfold wordValue
    rw [hl, hd, takeWhile_append_of_stopsAt hno hstopPoint,
      dropWhile_append_of_stopsAt hno hstopPoint]
    rfl
  unfold wordLiteral
  rw [wordRounds_point hwhole h, wordRounds_run rfl (digits_known hpart) h.behind.tail,
    wordRounds_end hstop (.inr hpoint) hbehind, ok_bind, htext.slice_eq hbehind, ok_bind,
    hvalue _ rfl rfl]
  rfl

/-- A letter or a further point behind the point of a decimal stops the rounds. -/
theorem wordLiteral_of_illegal {digits more : List Char}
    (hdigit : ∀ d ∈ run ++ digits, d.isDigit = true) (hc : c.isDigit = false)
    (hillegal : isWordChar c = true ∨ c = '.')
    (h : r.At cursor (run ++ '.' :: (digits ++ c :: more))) :
    r.wordLiteral isKeyword cursor =
      .error (.error (r.report ⟨.illegalDecimal c, c :: more⟩)) := by
  have hwhole : ∀ d ∈ run, d.isDigit = true := fun d hd => hdigit d (List.mem_append_left _ hd)
  have hpart : ∀ d ∈ digits, d.isDigit = true := fun d hd => hdigit d (List.mem_append_right _ hd)
  have hat := h.behind.tail.behind
  have hround : r.wordRound ⟨cursor + run.length + 1 + digits.length, false, true⟩ =
      r.fail (cursor + run.length + 1 + digits.length) (.illegalDecimal c) := by
    rw [hat.wordRound_eq]
    rcases hillegal with hword | rfl
    · have hletter := isLetter_of_isWordChar hword
      rw [hc] at hletter
      simp [hword, hletter]
    · rfl
  unfold wordLiteral
  rw [wordRounds_point hwhole h, wordRounds_run rfl (digits_known hpart) h.behind.tail,
    loop_of_error (hround.trans (hat.fail_eq _))]
  rfl

theorem wordLiteral_follows (h : r.At cursor (c :: text)) (hc : isWordChar c = true) :
    Follows r.report r.Leaves (word isKeyword (c :: text)) (r.wordLiteral isKeyword cursor) := by
  have hmaximal : MaximalRun isWordChar [] _ _ := maximalRun_takeWhile text hc (by simp)
  have hsplit := List.takeWhile_append_dropWhile (p := isWordChar) (l := c :: text)
  obtain ⟨-, hrun, -, hstop⟩ := hmaximal
  generalize (c :: text).takeWhile isWordChar = run at hsplit hrun
  generalize (c :: text).dropWhile isWordChar = after at hsplit hstop
  rw [← hsplit] at h ⊢
  by_cases hletter : run.any isLetter = true
  · rw [word_append_of_isLetter rfl after hrun hstop hletter,
      wordLiteral_of_letter hrun hletter hstop h]
    exact .ok ⟨rfl, h.behind⟩
  have hdigit := (any_isLetter_eq_false_iff hrun).1 (by simpa using hletter)
  by_cases hpoint : after.head? = some '.'
  · obtain ⟨behind, rfl⟩ := List.head?_eq_some_iff.1 hpoint
    have hsplit' := List.takeWhile_append_dropWhile (p := Char.isDigit) (l := behind)
    have hpart : ∀ d ∈ behind.takeWhile Char.isDigit, d.isDigit = true := fun d hd =>
      all_of_mem_takeWhile d hd
    have hno := stopsAt_dropWhile Char.isDigit behind
    generalize behind.takeWhile Char.isDigit = part at hsplit' hpart
    generalize behind.dropWhile Char.isDigit = rest at hsplit' hno
    subst hsplit'
    have hdigits : ∀ d ∈ run ++ part, d.isDigit = true := by
      intro d hd
      rcases List.mem_append.1 hd with hd | hd
      · exact hdigit d hd
      · exact hpart d hd
    -- The character behind the digits decides.
    by_cases hillegal : ∃ d more, rest = d :: more ∧ (isWordChar d = true ∨ d = '.')
    · obtain ⟨d, more, rfl, hd⟩ := hillegal
      rw [word_append_of_illegal hdigits (stopsAt_cons.1 hno) hd,
        wordLiteral_of_illegal hdigits (stopsAt_cons.1 hno) hd h]
      exact .error _
    · have hends : StopsAt isWordChar rest ∧ rest.head? ≠ some '.' := by
        cases rest with
        | nil => simp
        | cons d more => simpa using hillegal
      rw [word_append_of_decimal hdigits hends.1 hends.2,
        wordLiteral_of_decimal hdigits hends.1 hends.2 h]
      exact .ok ⟨rfl, h.behind.tail.behind⟩
  · rw [word_append_of_digits hdigit hstop hpoint, wordLiteral_of_digits hdigit hstop hpoint h]
    split
    · exact .ok ⟨rfl, h.behind⟩
    · exact h.follows_fail _

end

/-! ### Names of headers and margins -/

/-- The rounds over the name of a header read the characters that can be in it. -/
theorem nameRounds (h : r.At cursor text) :
    ∃ next, loop id r.chars.length r.nameRound cursor = .ok next ∧
      next = cursor + (text.takeWhile isHeaderChar).length ∧
      r.At next (text.dropWhile isHeaderChar) := by
  induction text generalizing cursor with
  | nil =>
    refine ⟨cursor, loop_of_leave ?_, rfl, h⟩
    unfold nameRound
    rw [h.peek_eq]
    rfl
  | cons c text ih =>
    have hround : r.nameRound cursor =
        if isHeaderChar c then .ok (.again (cursor + 1)) else .ok (.leave cursor) := by
      unfold nameRound
      rw [h.peek_eq, List.head?_cons]
      simp only [h.advance_one, ok_bind]
      rfl
    by_cases hc : isHeaderChar c = true
    · rw [if_pos hc] at hround
      obtain ⟨next, hloop, hnext, hat⟩ := ih h.tail
      rw [loop_of_again hround (Nat.lt_succ_self cursor) h.tail.le, hloop]
      refine ⟨next, rfl, ?_, by simpa [hc] using hat⟩
      rw [hnext]
      simp only [List.takeWhile_cons, hc, if_true, List.length_cons]
      omega
    · rw [if_neg hc] at hround
      refine ⟨cursor, loop_of_leave hround, by simp [hc], by simpa [hc] using h⟩

/-- What a margin is measured to be: its tabs and spaces, unless it holds something else. -/
theorem marginRounds_follow (tabs spaces : Nat) (h : r.At cursor text) :
    Follows r.report
      (fun rest m => m.tabs = tabs + (text.takeWhile isMargin).count '\t' ∧
        m.spaces = spaces + (text.takeWhile isMargin).count ' ' ∧ r.At m.cursor rest ∧
        rest = text.dropWhile isMargin)
      (if (text.dropWhile isMargin).head?.any isBlank then
        .error ⟨.illegalWhitespace, text.dropWhile isMargin⟩
      else .ok (text.dropWhile isMargin))
      (loop Margin.cursor r.chars.length r.marginRound ⟨cursor, tabs, spaces⟩) := by
  induction text generalizing cursor tabs spaces with
  | nil =>
    have hround : r.marginRound ⟨cursor, tabs, spaces⟩ = .ok (.leave ⟨cursor, tabs, spaces⟩) := by
      unfold marginRound
      rw [h.peek_eq]
      rfl
    rw [loop_of_leave hround]
    exact .ok ⟨rfl, rfl, h, rfl⟩
  | cons c text ih =>
    have hround : r.marginRound ⟨cursor, tabs, spaces⟩ =
        if isBlank c then
          if c = '\t' then .ok (.again ⟨cursor + 1, tabs + 1, spaces⟩)
          else if c = ' ' then .ok (.again ⟨cursor + 1, tabs, spaces + 1⟩)
          else r.fail cursor .illegalWhitespace
        else .ok (.leave ⟨cursor, tabs, spaces⟩) := by
      unfold marginRound
      rw [h.peek_eq, List.head?_cons]
      simp only [h.advance_one, ok_bind]
      rfl
    by_cases hmargin : isMargin c = true
    · rw [List.takeWhile_cons_of_pos hmargin, List.dropWhile_cons_of_pos hmargin]
      rw [if_pos (isBlank_of_isMargin hmargin)] at hround
      rcases isMargin_iff.1 hmargin with rfl | rfl
      · rw [if_neg (by decide), if_pos rfl] at hround
        rw [loop_of_again hround (Nat.lt_succ_self cursor) h.tail.le]
        refine (ih _ _ h.tail).imp ?_
        rintro rest m ⟨htabs, hspaces, hat⟩
        refine ⟨htabs, ?_, hat⟩
        rw [hspaces, List.count_cons_self]
        omega
      · rw [if_pos rfl] at hround
        rw [loop_of_again hround (Nat.lt_succ_self cursor) h.tail.le]
        refine (ih _ _ h.tail).imp ?_
        rintro rest m ⟨htabs, hspaces, hat⟩
        refine ⟨?_, hspaces, hat⟩
        rw [htabs, List.count_cons_self]
        omega
    · rw [List.takeWhile_cons_of_neg hmargin, List.dropWhile_cons_of_neg hmargin]
      rw [isMargin_iff, not_or] at hmargin
      rw [if_neg hmargin.1, if_neg hmargin.2] at hround
      show Follows _ _ (if isBlank c then _ else _) _
      by_cases hblank : isBlank c = true
      · rw [if_pos hblank] at hround ⊢
        rw [loop_of_error (hround.trans (h.fail_eq _))]
        exact .error _
      · rw [if_neg hblank] at hround ⊢
        rw [loop_of_leave hround]
        exact .ok ⟨rfl, rfl, h, rfl⟩

/-- A depth is measured with the unit that is known, or with the first margin that has spaces. No
unit is zero, so there is always something to divide by. -/
theorem depthOf_follows {unit : Option Nat} {m : Margin} (hunit : ∀ u ∈ unit, 0 < u)
    (h : r.At m.cursor rest) :
    Follows r.report (fun d d' => d = d' ∧ ∀ u ∈ d.2, 0 < u)
      (if m.spaces = 0 then .ok (m.tabs, unit)
      else if m.spaces % unit.getD m.spaces = 0 then
        .ok (m.tabs + m.spaces / unit.getD m.spaces, some (unit.getD m.spaces))
      else .error ⟨.inconsistentIndentation m.spaces (unit.getD m.spaces), rest⟩)
      (r.depthOf unit m) := by
  unfold depthOf
  by_cases hspaces : m.spaces = 0
  · rw [if_pos hspaces, if_pos hspaces]
    exact .ok ⟨rfl, hunit⟩
  · have hwidth : 0 < unit.getD m.spaces := by
      cases unit with
      | none => exact Nat.pos_of_ne_zero hspaces
      | some u => exact hunit u rfl
    have hdivide : divide m.spaces (unit.getD m.spaces) =
        .ok (m.spaces / unit.getD m.spaces, m.spaces % unit.getD m.spaces) :=
      if_neg (Nat.ne_of_gt hwidth)
    rw [if_neg hspaces, if_neg hspaces]
    show Follows _ _ _ (divide m.spaces (unit.getD m.spaces) >>= fun p =>
      if p.2 ≠ 0 then _ else .ok (m.tabs + p.1, some (unit.getD m.spaces)))
    rw [hdivide, ok_bind]
    by_cases hleft : m.spaces % unit.getD m.spaces = 0
    · rw [if_pos hleft, if_neg (not_not.2 hleft)]
      refine .ok ⟨rfl, ?_⟩
      intro u hu
      cases hu
      exact hwidth
    · rw [if_neg hleft, if_pos hleft]
      exact h.follows_fail _

/-- A line is measured: its margin and then its depth. -/
theorem measure_follows (r : Row) {unit : Option Nat} (hunit : ∀ u ∈ unit, 0 < u) :
    Follows r.report
      (fun d p => d = p.1 ∧ (∀ u ∈ d.2, 0 < u) ∧ r.At p.2 (r.chars.dropWhile isMargin))
      (measure unit r.chars)
      (loop Margin.cursor r.chars.length r.marginRound { cursor := 0 } >>= fun m =>
        r.depthOf unit m >>= fun d => .ok (d, m.cursor)) := by
  have hmeasure : measure unit r.chars =
      (if (r.chars.dropWhile isMargin).head?.any isBlank then
        .error ⟨.illegalWhitespace, r.chars.dropWhile isMargin⟩
      else .ok (r.chars.dropWhile isMargin)) >>= fun rest =>
        let tabs := (r.chars.takeWhile isMargin).count '\t'
        let spaces := (r.chars.takeWhile isMargin).count ' '
        if spaces = 0 then .ok (tabs, unit)
        else if spaces % unit.getD spaces = 0 then
          .ok (tabs + spaces / unit.getD spaces, some (unit.getD spaces))
        else .error ⟨.inconsistentIndentation spaces (unit.getD spaces), rest⟩ := by
    unfold measure
    simp only
    split <;> rfl
  rw [hmeasure]
  refine (marginRounds_follow 0 0 r.at_zero).bind ?_
  rintro rest m ⟨htabs, hspaces, hat, hrest⟩
  rw [Nat.zero_add] at htabs hspaces
  rw [← htabs, ← hspaces]
  refine (depthOf_follows hunit hat).andThen ?_
  rintro d d' ⟨rfl, hpos⟩
  exact ⟨_, rfl, rfl, hpos, hrest ▸ hat⟩

end Offside.Scan.Guarded.Row
