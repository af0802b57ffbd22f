import Offside.Proofs.Scan.Places
import Offside.Proofs.Scan.Writing

/-!
# `Offside.Proofs.Scan.Decoding`: what a literal means, and what is wrong with one

Behind its opening quote a literal is read unit by unit. `Offside.Proofs.Scan.Literals` says which
literals are read and what they mean. This file says what happens to all others. They are a row of
units and then something that begins with none (`stringUnits_eq_error_iff`): the end of the line, a
backslash before the end of the line, or `\u` without a number (`unit_eq_error_iff`). Or else they
close and run into a word. `StringFault` and `CharacterFault` list these cases with their faults.

`literals_decoded` is the result for every place where a literal begins.
-/

set_option autoImplicit false

namespace Offside.Scan

/-! ### Faults -/

/-- A text begins with no unit of a literal. -/
def NoUnit (quote : Char) (text : List Char) : Prop :=
  ∀ piece x rest, text = piece ++ rest → ¬ IsUnit quote piece x

/-- What is wrong with the text behind the opening quote of a string. -/
inductive StringFault : List Char → Fault → Prop
  /-- The line ends behind the units. -/
  | cut {body xs : List Char} :
      AreUnits '"' body xs → StringFault body ⟨.unterminatedString, '"' :: body⟩
  /-- The line ends behind a backslash. -/
  | cutEscape {body xs : List Char} :
      AreUnits '"' body xs →
      StringFault (body ++ ['\\']) ⟨.unterminatedString, '"' :: (body ++ ['\\'])⟩
  /-- A character by number has none. -/
  | number {body xs rest : List Char} :
      AreUnits '"' body xs → NoUnit '"' ('\\' :: 'u' :: rest) →
      StringFault (body ++ '\\' :: 'u' :: rest) ⟨.malformedUnicode, '\\' :: 'u' :: rest⟩
  /-- A word follows directly. -/
  | glued {body xs rest : List Char} {c : Char} :
      AreUnits '"' body xs → isWordChar c = true →
      StringFault (body ++ '"' :: c :: rest) ⟨.illegalTrailing c, c :: rest⟩

/-- What is wrong with the text behind the opening quote of a character. -/
inductive CharacterFault : List Char → Fault → Prop
  /-- The quote is closed at once. -/
  | empty {rest : List Char} :
      CharacterFault ('\'' :: rest) ⟨.emptyCharacter, '\'' :: '\'' :: rest⟩
  /-- The line ends behind the quote. -/
  | cut : CharacterFault [] ⟨.unterminatedCharacter, ['\'']⟩
  /-- The line ends behind a backslash. -/
  | cutEscape : CharacterFault ['\\'] ⟨.unterminatedCharacter, ['\'', '\\']⟩
  /-- A character by number has none. -/
  | number {rest : List Char} :
      NoUnit '\'' ('\\' :: 'u' :: rest) →
      CharacterFault ('\\' :: 'u' :: rest) ⟨.malformedUnicode, '\\' :: 'u' :: rest⟩
  /-- The line ends behind the unit. -/
  | unclosed {body : List Char} {x : Char} :
      IsUnit '\'' body x → CharacterFault body ⟨.unterminatedCharacter, '\'' :: body⟩
  /-- More than one unit follows. -/
  | long {body rest : List Char} {x c : Char} :
      IsUnit '\'' body x → c ≠ '\'' →
      CharacterFault (body ++ c :: rest) ⟨.malformedCharacter, '\'' :: (body ++ c :: rest)⟩
  /-- A word follows directly. -/
  | glued {body rest : List Char} {x c : Char} :
      IsUnit '\'' body x → isWordChar c = true →
      CharacterFault (body ++ '\'' :: c :: rest) ⟨.illegalTrailing c, c :: rest⟩

/-! ### Units that are none -/

/-- Where no unit is read, none begins. -/
theorem noUnit_of_unit_eq_error {quote : Char} {cut fault : Fault} {text : List Char}
    (h : unit cut text = .error fault) : NoUnit quote text := by
  rintro piece x rest rfl hunit
  rw [unit_eq_ok hunit] at h
  cases h

/-- `\u` without a number is a fault at its backslash. -/
theorem unit_of_noUnit {quote : Char} {rest : List Char} (hquote : quote ≠ '\\')
    (h : NoUnit quote ('\\' :: 'u' :: rest)) (cut : Fault) :
    unit cut ('\\' :: 'u' :: rest) = .error ⟨.malformedUnicode, '\\' :: 'u' :: rest⟩ := by
  cases hu : unit cut ('\\' :: 'u' :: rest) with
  | ok p =>
    obtain ⟨piece, hpiece, hunit⟩ := isUnit_of_unit hquote.symm hu
    exact absurd hunit (h piece p.1 p.2 hpiece)
  | error fault =>
    simp only [unit] at hu
    split at hu
    · cases hu
    · exact hu.symm

/-- No unit is read at the end of the line, before a backslash at the end of the line, and at a `\u`
without a number. -/
theorem unit_eq_error_iff {quote : Char} {cut fault : Fault} {text : List Char}
    (hquote : quote ≠ '\\') :
    unit cut text = .error fault ↔
      ((text = [] ∨ text = ['\\']) ∧ fault = cut) ∨
        ∃ rest, text = '\\' :: 'u' :: rest ∧ NoUnit quote text ∧
          fault = ⟨.malformedUnicode, text⟩ := by
  constructor
  · intro h
    have hnone : NoUnit quote text := noUnit_of_unit_eq_error h
    unfold unit at h
    split at h
    · cases h
      exact .inl ⟨.inl rfl, rfl⟩
    · cases h
      exact .inl ⟨.inr rfl, rfl⟩
    · split at h
      · cases h
      · cases h
        exact .inr ⟨_, rfl, hnone, rfl⟩
    · cases h
    · cases h
  · rintro (⟨rfl | rfl, rfl⟩ | ⟨rest, rfl, hnone, rfl⟩)
    · rfl
    · rfl
    · exact unit_of_noUnit hquote hnone cut

/-- A row of units in front of the units of a string. -/
theorem AreUnits.stringUnits_append {body xs : List Char} (h : AreUnits '"' body xs)
    (start text : List Char) :
    stringUnits start (body ++ text) =
      (stringUnits start text).map fun p => (xs ++ p.1, p.2) := by
  induction h with
  | nil =>
    rw [List.nil_append]
    cases stringUnits start text <;> rfl
  | cons hunit _ ih =>
    rw [List.append_assoc, Scan.stringUnits_append hunit, ih]
    cases stringUnits start text <;> rfl

/-- The units of a string end in a fault exactly where one of them is none. -/
theorem stringUnits_eq_error_iff {start text : List Char} {fault : Fault} :
    stringUnits start text = .error fault ↔
      ∃ body xs tail, text = body ++ tail ∧ AreUnits '"' body xs ∧ tail.head? ≠ some '"' ∧
        unit ⟨.unterminatedString, start⟩ tail = .error fault := by
  constructor
  · intro h
    induction hn : text.length using Nat.strongRecOn generalizing text with
    | _ n ih =>
      cases text with
      | nil =>
        rw [stringUnits] at h
        cases h
        exact ⟨[], [], [], rfl, .nil, by simp, rfl⟩
      | cons c text =>
        rw [stringUnits] at h
        split at h
        · cases h
        rename_i hc
        split at h
        · rename_i fault' hfault
          cases h
          exact ⟨[], [], c :: text, rfl, .nil, by simpa using hc, hfault⟩
        · rename_i x rest hu
          split at h
          · rename_i fault' hrest
            cases h
            obtain ⟨piece, htext, hpiece⟩ := isUnit_of_unit hc hu
            -- The unit takes at least one character.
            have hlen : rest.length < n := by
              have := (unit_suffix hu).length_le
              simp only [List.length_cons] at hn
              omega
            obtain ⟨body, xs, tail, rfl, hbody, htail, hfault⟩ := ih rest.length hlen hrest rfl
            exact ⟨piece ++ body, x :: xs, tail, by rw [htext, List.append_assoc],
              .cons hpiece hbody, htail, hfault⟩
          · cases h
  · rintro ⟨body, xs, tail, rfl, hbody, htail, hfault⟩
    rw [hbody.stringUnits_append]
    cases tail with
    | nil =>
      cases hfault
      rw [stringUnits]
      rfl
    | cons c tail =>
      have hc : c ≠ '"' := by simpa using htail
      rw [stringUnits, if_neg hc]
      split
      · rename_i fault' hfault'
        rw [hfault] at hfault'
        cases hfault'
        rfl
      · rename_i x rest hok
        rw [hfault] at hok
        cases hok

/-! ### Literals that are none -/

theorem behindLiteral_eq_error_iff {text : List Char} {fault : Fault} :
    behindLiteral text = .error fault ↔
      ∃ c rest, text = c :: rest ∧ isWordChar c = true ∧ fault = ⟨.illegalTrailing c, text⟩ := by
  constructor
  · intro h
    unfold behindLiteral at h
    split at h
    · rename_i c rest
      split at h
      · rename_i hc
        cases h
        exact ⟨c, rest, rfl, hc, rfl⟩
      · cases h
    · cases h
  · rintro ⟨c, rest, rfl, hc, rfl⟩
    exact if_pos hc

/-- The reader of strings fails exactly at the texts that are none, and says why. -/
theorem string_eq_error_iff {text : List Char} {fault : Fault} :
    string ('"' :: text) = .error fault ↔ StringFault text fault := by
  have hquote : '"' ≠ '\\' := by decide
  simp only [string, List.tail_cons, bind, Except.bind, pure, Except.pure]
  constructor
  · intro h
    split at h
    -- What stands behind some units is none.
    · rename_i fault' hunits
      cases h
      obtain ⟨body, xs, tail, rfl, hbody, -, hfault⟩ := stringUnits_eq_error_iff.1 hunits
      obtain ⟨rfl | rfl, rfl⟩ | ⟨rest, rfl, hnone, rfl⟩ := (unit_eq_error_iff hquote).1 hfault
      · rw [List.append_nil]
        exact .cut hbody
      · exact .cutEscape hbody
      · exact .number hbody hnone
    -- The units are closed, so what is wrong is what follows.
    · rename_i p hunits
      obtain ⟨xs, behind⟩ := p
      obtain ⟨body, rfl, hbody⟩ := stringUnits_eq_ok_iff.1 hunits
      split at h
      · rename_i fault' hbehind
        cases h
        obtain ⟨c, rest, rfl, hc, rfl⟩ := behindLiteral_eq_error_iff.1 hbehind
        exact .glued hbody hc
      · cases h
  · intro h
    -- All but the last case end in something that is no unit.
    have hfails {body xs tail : List Char} (htext : text = body ++ tail)
        (hbody : AreUnits '"' body xs) (htail : tail.head? ≠ some '"')
        (hfault : unit ⟨.unterminatedString, '"' :: text⟩ tail = .error fault) :
        stringUnits ('"' :: text) text = .error fault :=
      stringUnits_eq_error_iff.2 ⟨body, xs, tail, htext, hbody, htail, hfault⟩
    cases h with
    | cut hbody => rw [hfails (List.append_nil _).symm hbody (by simp) rfl]
    | cutEscape hbody => rw [hfails rfl hbody (by decide) rfl]
    | number hbody hnone => rw [hfails rfl hbody (by simp) (unit_of_noUnit hquote hnone _)]
    | @glued body xs rest c hbody hc =>
      have hunits : stringUnits ('"' :: (body ++ '"' :: c :: rest)) (body ++ '"' :: c :: rest) =
          .ok (xs, c :: rest) := stringUnits_eq_ok_iff.2 ⟨body, rfl, hbody⟩
      rw [hunits]
      simp only
      rw [behindLiteral_eq_error_iff.2 ⟨c, rest, rfl, hc, rfl⟩]

/-- Behind its unit a character literal closes, or it has a fault. -/
theorem character_append {body : List Char} {x : Char} (h : IsUnit '\'' body x)
    (behind : List Char) :
    character ('\'' :: (body ++ behind)) =
      match behind with
      | [] => .error ⟨.unterminatedCharacter, '\'' :: (body ++ behind)⟩
      | c :: rest =>
        if c = '\'' then (behindLiteral rest).map fun rest => (x, rest)
        else .error ⟨.malformedCharacter, '\'' :: (body ++ behind)⟩ := by
  have hunit := unit_eq_ok h ⟨.unterminatedCharacter, '\'' :: (body ++ behind)⟩ behind
  obtain ⟨d, tail, rfl, hd⟩ := h.head (by decide)
  rw [List.cons_append] at hunit ⊢
  unfold character
  simp only [List.tail_cons]
  split
  · rename_i rest heq
    exact absurd (List.cons.inj heq).1 hd
  simp only [hunit, bind, Except.bind]
  cases behind with
  | nil => rfl
  | cons c rest =>
    by_cases hc : c = '\''
    · subst hc
      simp only [if_true]
      cases behindLiteral rest <;> rfl
    · refine Eq.trans ?_ (if_neg hc).symm
      split
      · rename_i rest heq
        exact absurd (List.cons.inj heq).1 hc
      · rename_i heq
        cases heq
      · rfl

/-- What is wrong behind the unit of a character. -/
theorem IsUnit.characterFault {body behind : List Char} {x : Char} {fault : Fault}
    (hunit : IsUnit '\'' body x) (h : character ('\'' :: (body ++ behind)) = .error fault) :
    CharacterFault (body ++ behind) fault := by
  rw [character_append hunit] at h
  cases behind with
  | nil =>
    cases h
    rw [List.append_nil]
    exact .unclosed hunit
  | cons c rest =>
    by_cases hc : c = '\''
    · subst hc
      simp only [if_true] at h
      cases hbehind : behindLiteral rest with
      | ok rest' =>
        rw [hbehind] at h
        cases h
      | error fault' =>
        rw [hbehind] at h
        cases h
        obtain ⟨c, rest, rfl, hc, rfl⟩ := behindLiteral_eq_error_iff.1 hbehind
        exact .glued hunit hc
    · simp only [if_neg hc] at h
      cases h
      exact .long hunit hc

/-- If the quote is not closed at once, what is wrong with the unit is wrong with the character. -/
theorem character_of_unit_eq_error {text : List Char} {fault : Fault}
    (hopen : text.head? ≠ some '\'')
    (h : unit ⟨.unterminatedCharacter, '\'' :: text⟩ text = .error fault) :
    character ('\'' :: text) = .error fault := by
  unfold character
  simp only [List.tail_cons]
  split
  · exact absurd rfl hopen
  · simp only [h, bind, Except.bind]

/-- The reader of characters fails exactly at the texts that are none, and says why. -/
theorem character_eq_error_iff {text : List Char} {fault : Fault} :
    character ('\'' :: text) = .error fault ↔ CharacterFault text fault := by
  have hquote : '\'' ≠ '\\' := by decide
  constructor
  · intro h
    cases text with
    | nil =>
      cases h
      exact .cut
    | cons d text =>
      by_cases hd : d = '\''
      · subst hd
        cases h
        exact .empty
      have hopen : (d :: text).head? ≠ some '\'' := by simpa using hd
      cases hunit : unit ⟨.unterminatedCharacter, '\'' :: d :: text⟩ (d :: text) with
      | error fault' =>
        rw [character_of_unit_eq_error hopen hunit] at h
        cases h
        obtain ⟨htext | htext, rfl⟩ | ⟨rest, htext, hnone, rfl⟩ :=
          (unit_eq_error_iff hquote).1 hunit
        · cases htext
        · rw [htext]
          exact .cutEscape
        · rw [htext] at hnone ⊢
          exact .number hnone
      -- The unit is one, so what is wrong is what follows.
      | ok p =>
        obtain ⟨body, hbody, hx⟩ := isUnit_of_unit hd hunit
        rw [hbody] at h ⊢
        exact hx.characterFault h
  · intro h
    cases h with
    | empty => rfl
    | cut => rfl
    | cutEscape => rfl
    | number hnone =>
      exact character_of_unit_eq_error (by simp) (unit_of_noUnit hquote hnone _)
    | unclosed hunit =>
      have hread := character_append hunit []
      rwa [List.append_nil] at hread
    | long hunit hc =>
      rw [character_append hunit]
      exact if_neg hc
    | @glued body rest x c hunit hc =>
      rw [character_append hunit]
      refine (if_pos rfl).trans ?_
      rw [behindLiteral_eq_error_iff.2 ⟨c, rest, rfl, hc, rfl⟩]
      rfl

/-! ### Places where a literal begins -/

/-- The lexeme of a character literal. As an argument of a header it is a string. -/
def characterLexeme (mode : Mode) (x : Char) : Lexeme :=
  if mode = .header then ⟨.string, some (.string x.toString)⟩ else ⟨.character, some (.character x)⟩

section

variable {settings : Settings} {front : List (List Char)} {line text : List Char}
  {found : List Placed} {mode : Mode}

/-- A double quote begins a string, in code and among the arguments of a header. -/
theorem ScansUpTo.readsBy_string (h : ScansUpTo settings front line found mode ('"' :: text))
    (hmode : mode ≠ .comment) :
    ReadsBy settings front line found mode ('"' :: text) (string ('"' :: text))
      (fun s => ⟨.string, some (.string s)⟩) := by
  refine h.readsBy ?_ fun _ _ _ => rfl
  cases mode with
  | code => rfl
  | header => rfl
  | comment => exact absurd rfl hmode

/-- A single quote begins a character, in code and among the arguments of a header. -/
theorem ScansUpTo.readsBy_character (h : ScansUpTo settings front line found mode ('\'' :: text))
    (hmode : mode ≠ .comment) :
    ReadsBy settings front line found mode ('\'' :: text) (character ('\'' :: text))
      (characterLexeme mode) := by
  cases mode with
  | code => exact h.readsBy rfl fun _ _ _ => rfl
  | header => exact h.readsBy rfl fun _ _ _ => rfl
  | comment => exact absurd rfl hmode

end

theorem string_eq_ok_iff_units {text rest : List Char} {s : String} :
    string ('"' :: text) = .ok (s, rest) ↔
      ∃ body xs, text = body ++ '"' :: rest ∧ AreUnits '"' body xs ∧ s = String.ofList xs ∧
        StopsAt isWordChar rest := by
  rw [string_eq_ok_iff]
  constructor
  · rintro ⟨taken, htext, @⟨body, xs, hbody, hstop⟩⟩
    exact ⟨body, xs, by simpa using htext, hbody, rfl, hstop⟩
  · rintro ⟨body, xs, rfl, hbody, rfl, hstop⟩
    exact ⟨'"' :: (body ++ ['"']), by simp, .mk hbody hstop⟩

theorem character_eq_ok_iff_unit {text rest : List Char} {x : Char} :
    character ('\'' :: text) = .ok (x, rest) ↔
      ∃ body, text = body ++ '\'' :: rest ∧ IsUnit '\'' body x ∧ StopsAt isWordChar rest := by
  rw [character_eq_ok_iff]
  constructor
  · rintro ⟨taken, htext, @⟨body, _, hbody, hstop⟩⟩
    exact ⟨body, by simpa using htext, hbody, hstop⟩
  · rintro ⟨body, rfl, hbody, hstop⟩
    exact ⟨'\'' :: (body ++ ['\'']), by simp, .mk hbody hstop⟩

/-- Characters in double quotes are read as a string of these characters. -/
theorem string_quoted {rest : List Char} (hstop : StopsAt isWordChar rest) (s : String) :
    string (quoted '"' s.toList ++ rest) = .ok (s, rest) :=
  string_eq_ok_iff.2 ⟨quoted '"' s.toList, rfl, isString_quoted hstop s⟩

/-- A character in single quotes is read as that character. -/
theorem character_quoted {rest : List Char} (hstop : StopsAt isWordChar rest) (c : Char) :
    character (quoted '\'' [c] ++ rest) = .ok (c, rest) :=
  character_eq_ok_iff.2 ⟨quoted '\'' [c], rfl, isCharacter_quoted hstop c⟩

/-- Literals are decoded exactly. Wherever a literal begins, in code or among the arguments of a
header, the scan does what its reader says.

A string is read exactly if the text behind its quote is units up to the first quote that is part of
none, and no word follows; it means what the units mean, in their order. A character is read exactly
if one unit stands before the closing quote, and no word follows. Every other text has the fault of
`StringFault` or `CharacterFault`, at the place that these name. So characters in quotes, with a
backslash before each backslash and each closing quote, are read as what they were. -/
theorem literals_decoded {settings : Settings} {front : List (List Char)} {line : List Char}
    {found : List Placed} {mode : Mode} (hmode : mode ≠ .comment) (text : List Char) :
    (ScansUpTo settings front line found mode ('"' :: text) →
      ReadsBy settings front line found mode ('"' :: text) (string ('"' :: text))
        (fun s => ⟨.string, some (.string s)⟩)) ∧
    (∀ s rest, string ('"' :: text) = .ok (s, rest) ↔
      ∃ body xs, text = body ++ '"' :: rest ∧ AreUnits '"' body xs ∧ s = String.ofList xs ∧
        StopsAt isWordChar rest) ∧
    (∀ fault, string ('"' :: text) = .error fault ↔ StringFault text fault) ∧
    (ScansUpTo settings front line found mode ('\'' :: text) →
      ReadsBy settings front line found mode ('\'' :: text) (character ('\'' :: text))
        (characterLexeme mode)) ∧
    (∀ x rest, character ('\'' :: text) = .ok (x, rest) ↔
      ∃ body, text = body ++ '\'' :: rest ∧ IsUnit '\'' body x ∧ StopsAt isWordChar rest) ∧
    (∀ fault, character ('\'' :: text) = .error fault ↔ CharacterFault text fault) ∧
    ∀ rest, StopsAt isWordChar rest →
      (∀ s : String, string (quoted '"' s.toList ++ rest) = .ok (s, rest)) ∧
      ∀ c, character (quoted '\'' [c] ++ rest) = .ok (c, rest) := by
  refine ⟨fun h => h.readsBy_string hmode, fun _ _ => string_eq_ok_iff_units,
    fun _ => string_eq_error_iff, fun h => h.readsBy_character hmode,
    fun _ _ => character_eq_ok_iff_unit, fun _ => character_eq_error_iff, fun rest hstop => ?_⟩
  exact ⟨string_quoted hstop, character_quoted hstop⟩

/-- The three arguments of the header below begin with a quote. The first one holds a character by
number and an escape, the second one stands directly behind it, and the number of the third one is
cut off by the closing quote. -/
theorem literals_decoded_header :
    let third := "\\u12\"".toList
    let second := "\\t'".toList ++ '"' :: third
    let first := "a\\u0042\\n\"".toList ++ '\'' :: second
    let line := '#' :: 'h' :: ' ' :: '"' :: first
    let found : List Placed := [⟨⟨.header, some (.string "h")⟩, line⟩,
      ⟨⟨.string, some (.string "aB\n")⟩, '"' :: first⟩,
      ⟨⟨.string, some (.string "\t")⟩, '\'' :: second⟩]
    ScansUpTo {} [] line found .header ('"' :: third) ∧
      FailsAt {} [] line ⟨.malformedUnicode, third⟩ := by
  intro third second first line found
  have hmode : Mode.header ≠ .comment := by decide
  have hstart : ScansUpTo {} [] line [] .code line := .mk rfl (.joined (.inl rfl)) .start
  have hname : Scan.step ({} : Settings).isKeyword .code '#' ('h' :: ' ' :: '"' :: first) =
      .ok ⟨some ⟨.header, some (.string "h")⟩, .header, ' ' :: '"' :: first⟩ := by cbv
  have hblank : Scan.step ({} : Settings).isKeyword .header ' ' ('"' :: first) =
      .ok ⟨none, .header, '"' :: first⟩ := rfl
  have hheader := (hstart.step hname).step hblank
  have hfirst : string ('"' :: first) = .ok ("aB\n", '\'' :: second) := by
    simp only [first, second, third]
    cbv
  have hsecond : character ('\'' :: second) = .ok ('\t', '"' :: third) := rfl
  have hthird : string ('"' :: third) = .error ⟨.malformedUnicode, third⟩ := by cbv
  have htext := ((literals_decoded hmode first).1 hheader).yields _ _ hfirst
  have htab := ((literals_decoded hmode second).2.2.2.1 htext.behind).yields _ _ hsecond
  exact ⟨htab.behind, ((literals_decoded hmode third).1 htab.behind).fails _ hthird⟩

end Offside.Scan
