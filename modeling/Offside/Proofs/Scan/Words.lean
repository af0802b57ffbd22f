import Mathlib
import Offside.Proofs.Scan.Grammar

/-!
# `Offside.Proofs.Scan.Words`: the readers of words and signs accept what the grammar spells

A word or number is a maximal run, and cutting one off with `takeWhile` and `dropWhile` gives
exactly that: `takeWhile_append_of_stopsAt` and `dropWhile_append_of_stopsAt` for the one
direction, `maximalRun_takeWhile` for the other. The results:

* `spellsWord_of_word` and `word_eq_ok`: the reader of words and numbers reads what
  `SpellsWord` spells and nothing else.
* `isSign_of_sign?` and `sign?_eq_some`: the table of signs finds the sign that `IsSign`
  describes. That rests on the order of the table, `signs_sorted`, and on
  `eq_of_spelling_eq`: no two signs are spelled alike.
-/

set_option autoImplicit false

namespace Offside.Scan

open Offside.Text

/-! ### Classes of characters -/

theorem toNat_lt_of_isWordChar {c : Char} (h : isWordChar c = true) : c.toNat < 128 := by
  simp only [isWordChar, Char.isAlphanum, Char.isAlpha, Char.isUpper, Char.isLower,
    Char.isDigit, Bool.or_eq_true, Bool.and_eq_true, decide_eq_true_eq, beq_iff_eq,
    ge_iff_le, UInt32.le_iff_toNat_le] at h
  have hval : c.toNat = c.val.toNat := rfl
  rcases h with ((⟨-, h⟩ | ⟨-, h⟩) | ⟨-, h⟩) | rfl
  · exact hval ▸ Nat.lt_of_le_of_lt h (by decide)
  · exact hval ▸ Nat.lt_of_le_of_lt h (by decide)
  · exact hval ▸ Nat.lt_of_le_of_lt h (by decide)
  · decide

/-- What holds of the characters of ASCII that make words holds of all that do. -/
theorem isWordChar_induction {p : Char → Prop} {c : Char} (h : isWordChar c = true)
    (all : ∀ m < 128, isWordChar (Char.ofNat m) = true → p (Char.ofNat m)) : p c := by
  have hc := all c.toNat (toNat_lt_of_isWordChar h)
  rw [Char.ofNat_toNat] at hc
  exact hc h

theorem isBlank_of_isWordChar {c : Char} (h : isWordChar c = true) : isBlank c = false :=
  isWordChar_induction (p := fun c => isBlank c = false) h (by decide)

theorem isWordChar_of_isBlank {c : Char} (h : isBlank c = true) : isWordChar c = false := by
  cases hword : isWordChar c with
  | false => rfl
  | true =>
    rw [isBlank_of_isWordChar hword] at h
    cases h

/-- What makes a word is either a letter or a digit. -/
theorem isLetter_of_isWordChar {c : Char} (h : isWordChar c = true) :
    isLetter c = !c.isDigit :=
  isWordChar_induction (p := fun c => isLetter c = !c.isDigit) h (by decide)

theorem isWordChar_of_isDigit {c : Char} (h : c.isDigit = true) : isWordChar c = true := by
  simp [isWordChar, Char.isAlphanum, h]

/-- A run without a letter is a run of digits. -/
theorem any_isLetter_eq_false_iff {text : List Char} (h : ∀ c ∈ text, isWordChar c = true) :
    text.any isLetter = false ↔ ∀ c ∈ text, c.isDigit = true := by
  rw [List.any_eq_false]
  constructor
  · intro hno c hc
    have := isLetter_of_isWordChar (h c hc)
    simpa [hno c hc] using this
  · intro hd c hc
    rw [isLetter_of_isWordChar (h c hc), hd c hc]
    decide

/-! ### Runs -/

@[simp] theorem stopsAt_nil (p : Char → Bool) : StopsAt p [] := by simp [StopsAt]

@[simp] theorem stopsAt_cons {p : Char → Bool} {c : Char} {after : List Char} :
    StopsAt p (c :: after) ↔ p c = false := by simp [StopsAt]

/-- A run is cut off where its class ends. -/
theorem takeWhile_append_of_stopsAt {p : Char → Bool} {text after : List Char}
    (hall : ∀ c ∈ text, p c = true) (hstop : StopsAt p after) :
    (text ++ after).takeWhile p = text := by
  rw [List.takeWhile_append_of_pos hall]
  cases after with
  | nil => simp
  | cons c after => simp [stopsAt_cons.1 hstop]

/-- What is left behind a run begins where its class ends. -/
theorem dropWhile_append_of_stopsAt {p : Char → Bool} {text after : List Char}
    (hall : ∀ c ∈ text, p c = true) (hstop : StopsAt p after) :
    (text ++ after).dropWhile p = after := by
  rw [List.dropWhile_append_of_pos hall]
  cases after with
  | nil => simp
  | cons c after => simp [stopsAt_cons.1 hstop]

theorem stopsAt_dropWhile (p : Char → Bool) (text : List Char) :
    StopsAt p (text.dropWhile p) := by
  intro c hc
  have h := List.head?_dropWhile_not p text
  rw [Option.mem_def.1 hc] at h
  simpa using h

theorem all_of_mem_takeWhile {p : Char → Bool} {text : List Char} :
    ∀ c ∈ text.takeWhile p, p c = true :=
  List.all_eq_true.1 List.all_takeWhile

/-- A run that is cut off behind a character of another class is maximal. -/
theorem maximalRun_takeWhile {p : Char → Bool} {before : List Char} {c : Char}
    (text : List Char) (hc : p c = true) (hleft : ∀ d ∈ before.getLast?, p d = false) :
    MaximalRun p before ((c :: text).takeWhile p) ((c :: text).dropWhile p) where
  ne_nil := by simp [hc]
  all := all_of_mem_takeWhile
  left := hleft
  right := stopsAt_dropWhile p _

/-! ### Words and numbers -/

theorem any_isLetter_of_literalWords {text : List Char}
    (h : String.ofList text ∈ literalWords) : text.any isLetter = true := by
  have hw : ∀ w ∈ literalWords, w.toList.any isLetter = true := by decide
  simpa using hw _ h

theorem spellsWord_wordLexeme {isKeyword : String → Bool} {before text after : List Char}
    (hrun : MaximalRun isWordChar before text after) (hletter : text.any isLetter = true) :
    SpellsWord isKeyword before text after (wordLexeme isKeyword (String.ofList text)) := by
  unfold wordLexeme
  split
  · rename_i h
    exact .boolean true hrun h
  split
  · rename_i h
    exact .boolean false hrun h
  split
  · rename_i h
    exact .null hrun h
  rename_i htrue hfalse hnull
  have hword : String.ofList text ∉ literalWords := by simp [literalWords, *]
  split
  · rename_i hkey
    exact .keyword hrun (List.any_eq_true.1 hletter) hword hkey
  · rename_i hkey
    exact .identifier hrun (List.any_eq_true.1 hletter) hword (by simpa using hkey)

theorem word_append_of_isLetter {isKeyword : String → Bool} {text : List Char} {l : Lexeme}
    (hl : l = wordLexeme isKeyword (String.ofList text)) (after : List Char)
    (hrun : ∀ c ∈ text, isWordChar c = true) (hstop : StopsAt isWordChar after)
    (hletter : text.any isLetter = true) :
    word isKeyword (text ++ after) = .ok (l, after) := by
  simp only [word, takeWhile_append_of_stopsAt hrun hstop,
    dropWhile_append_of_stopsAt hrun hstop, if_pos hletter, hl]

/-- What is read as a word or number is spelled so. -/
theorem spellsWord_of_word {isKeyword : String → Bool} {before text rest : List Char}
    {c : Char} {l : Lexeme} (hc : isWordChar c = true)
    (hleft : ∀ d ∈ before.getLast?, isWordChar d = false)
    (h : word isKeyword (c :: text) = .ok (l, rest)) :
    ∃ taken, c :: text = taken ++ rest ∧ SpellsWord isKeyword before taken rest l := by
  have hrun := maximalRun_takeWhile text hc hleft
  have hsplit := (List.takeWhile_append_dropWhile (p := isWordChar) (l := c :: text)).symm
  simp only [word] at h
  split at h
  -- A letter makes it a word.
  · rename_i hletter
    cases h
    exact ⟨_, hsplit, spellsWord_wordLexeme hrun hletter⟩
  · rename_i hletter
    have hdigit := (any_isLetter_eq_false_iff hrun.all).1 (by simpa using hletter)
    split at h
    -- A point behind digits makes it a decimal.
    · rename_i behind hrest
      have hpart : ∀ d ∈ (c :: text).takeWhile isWordChar ++ behind.takeWhile Char.isDigit,
          d.isDigit = true := by
        intro d hd
        rcases List.mem_append.1 hd with hd | hd
        · exact hdigit d hd
        · exact all_of_mem_takeWhile d hd
      have htext : c :: text = ((c :: text).takeWhile isWordChar ++
          '.' :: behind.takeWhile Char.isDigit) ++ behind.dropWhile Char.isDigit := by
        rw [List.append_assoc, List.cons_append, List.takeWhile_append_dropWhile, ← hrest,
          List.takeWhile_append_dropWhile]
      split at h
      · rename_i hmore
        cases h
        rw [hmore] at htext
        exact ⟨_, htext, .decimal rfl hrun.ne_nil hpart hleft (by simp) (by simp)⟩
      · rename_i d more hmore
        split at h
        · simp at h
        · rename_i hd
          cases h
          rw [hmore] at htext
          simp only [Bool.or_eq_true, beq_iff_eq, not_or, Bool.not_eq_true] at hd
          exact ⟨_, htext, .decimal rfl hrun.ne_nil hpart hleft (stopsAt_cons.2 hd.1)
            (by simpa using hd.2)⟩
    -- Digits alone make it an integer.
    · rename_i hpoint
      split at h
      · rename_i hmax
        cases h
        refine ⟨_, hsplit, .integer hrun hdigit ?_ hmax⟩
        intro hhead
        obtain ⟨more, hmore⟩ := List.head?_eq_some_iff.1 hhead
        exact hpoint more hmore
      · simp at h

/-- A point behind digits, with or without more digits behind it, is read as a decimal. -/
theorem word_append_of_decimal {isKeyword : String → Bool} {whole part after : List Char}
    (hdigit : ∀ c ∈ whole ++ part, c.isDigit = true) (hstop : StopsAt isWordChar after)
    (hpoint : after.head? ≠ some '.') :
    word isKeyword (whole ++ '.' :: (part ++ after)) =
      .ok (⟨.decimal, some (.decimal (Decimal.ofDigits whole part))⟩, after) := by
  have hwhole : ∀ c ∈ whole, c.isDigit = true :=
    fun c hc => hdigit c (List.mem_append_left part hc)
  have hpart : ∀ c ∈ part, c.isDigit = true :=
    fun c hc => hdigit c (List.mem_append_right whole hc)
  have hrun : ∀ c ∈ whole, isWordChar c = true :=
    fun c hc => isWordChar_of_isDigit (hwhole c hc)
  have hletter := (any_isLetter_eq_false_iff hrun).2 hwhole
  have hdot : StopsAt isWordChar ('.' :: (part ++ after)) := stopsAt_cons.2 (by decide)
  -- No digit follows, since no character of words does.
  have hstopDigit : StopsAt Char.isDigit after := by
    intro c hc
    cases hd : c.isDigit with
    | false => rfl
    | true =>
      have hword := hstop c hc
      rw [isWordChar_of_isDigit hd] at hword
      cases hword
  simp only [word, takeWhile_append_of_stopsAt hrun hdot, dropWhile_append_of_stopsAt hrun hdot,
    hletter, takeWhile_append_of_stopsAt hpart hstopDigit,
    dropWhile_append_of_stopsAt hpart hstopDigit]
  cases after with
  | nil => rfl
  | cons d more =>
    have hd : (isWordChar d || d == '.') = false := by
      rw [stopsAt_cons.1 hstop, Bool.false_or]
      simpa using hpoint
    simp [hd]

/-- What is spelled as a word or number is read so. -/
theorem word_eq_ok {isKeyword : String → Bool} {before text after : List Char} {l : Lexeme}
    (h : SpellsWord isKeyword before text after l) :
    word isKeyword (text ++ after) = .ok (l, after) := by
  cases h with
  | boolean b hrun hw =>
    have hmem : String.ofList text ∈ literalWords := by
      rw [hw]
      cases b <;> decide
    refine word_append_of_isLetter ?_ after hrun.all hrun.right (any_isLetter_of_literalWords hmem)
    rw [hw]
    cases b <;> rfl
  | null hrun hw =>
    have hmem : String.ofList text ∈ literalWords := by
      rw [hw]
      decide
    refine word_append_of_isLetter ?_ after hrun.all hrun.right (any_isLetter_of_literalWords hmem)
    rw [hw]
    rfl
  | keyword hrun hletter hw hkey =>
    simp only [literalWords, List.mem_cons, List.not_mem_nil, or_false, not_or] at hw
    refine word_append_of_isLetter ?_ after hrun.all hrun.right (List.any_eq_true.2 hletter)
    simp [wordLexeme, hw, hkey]
  | identifier hrun hletter hw hkey =>
    simp only [literalWords, List.mem_cons, List.not_mem_nil, or_false, not_or] at hw
    refine word_append_of_isLetter ?_ after hrun.all hrun.right (List.any_eq_true.2 hletter)
    simp [wordLexeme, hw, hkey]
  | integer hrun hdigit hpoint hmax =>
    have hletter := (any_isLetter_eq_false_iff hrun.all).2 hdigit
    simp only [word, takeWhile_append_of_stopsAt hrun.all hrun.right,
      dropWhile_append_of_stopsAt hrun.all hrun.right, hletter]
    split
    · rename_i hfalse
      cases hfalse
    split
    · rename_i behind
      simp at hpoint
    · exact if_pos hmax
  | decimal htext _ hdigit _ hstop hpoint =>
    rw [htext, List.append_assoc, List.cons_append]
    exact word_append_of_decimal hdigit hstop hpoint

/-! ### Signs -/

theorem signs_sorted :
    signs.Pairwise (fun s t => t.spelling.length ≤ s.spelling.length) := by decide

theorem eq_of_spelling_eq {s t : Sign} (hs : s ∈ signs) (ht : t ∈ signs)
    (h : s.spelling = t.spelling) : s = t := by
  have hnodup : (signs.map Sign.spelling).Nodup := by decide
  exact List.inj_on_of_nodup_map hnodup hs ht h

/-- The sign that is found is the longest at its place. -/
theorem longest_of_sign? {text : List Char} {s : Sign} (h : sign? text = some s) :
    ∀ t ∈ signs, t.spelling <+: text → t.spelling.length ≤ s.spelling.length := by
  intro t ht hpre
  obtain ⟨-, front, back, hsigns, hfront⟩ := List.find?_eq_some_iff_append.1 h
  have hsorted := signs_sorted
  rw [hsigns] at ht hsorted
  rcases List.mem_append.1 ht with ht | ht
  -- Nothing in front of the sign is a beginning of the text.
  · have := hfront t ht
    simp [List.isPrefixOf_iff_prefix.2 hpre] at this
  · rcases List.mem_cons.1 ht with rfl | ht
    · exact Nat.le_refl _
    · exact (List.pairwise_cons.1 (List.pairwise_append.1 hsorted).2.1).1 t ht

/-- What is read as a sign is the spelling of the longest one. -/
theorem isSign_of_sign? {text : List Char} {s : Sign} (h : sign? text = some s)
    (hmark : ∀ mark ∈ commentMarks, ¬ mark <+: text) :
    text = s.spelling ++ text.drop s.spelling.length ∧
      IsSign (text.drop s.spelling.length) s.spelling s := by
  obtain ⟨hmem, hpre⟩ := sign?_mem h
  have htext : text = s.spelling ++ text.drop s.spelling.length := by
    obtain ⟨rest, rfl⟩ := hpre
    simp
  refine ⟨htext, hmem, rfl, ?_, ?_⟩
  · rw [← htext]
    exact longest_of_sign? h
  · rw [← htext]
    exact hmark

/-- What is spelled as a sign is found in the table. -/
theorem sign?_eq_some {text after : List Char} {s : Sign} (h : IsSign after text s) :
    sign? (text ++ after) = some s := by
  have hpre : s.spelling <+: text ++ after := h.spelling ▸ List.prefix_append text after
  cases hfound : sign? (text ++ after) with
  | none =>
    have := List.find?_eq_none.1 hfound s h.mem
    simp [List.isPrefixOf_iff_prefix.2 hpre] at this
  | some t =>
    obtain ⟨htmem, htpre⟩ := sign?_mem hfound
    -- Both are longest, so they are equally long.
    have hle := h.longest t htmem htpre
    have hge := longest_of_sign? hfound s h.mem hpre
    rw [← h.spelling] at hle
    have heq : t.spelling = s.spelling := by
      rcases List.prefix_or_prefix_of_prefix htpre hpre with hp | hp
      · exact hp.eq_of_length (by omega)
      · exact (hp.eq_of_length (by omega)).symm
    rw [eq_of_spelling_eq htmem h.mem heq]

end Offside.Scan
