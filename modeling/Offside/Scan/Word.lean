import Offside.Scan.Lexeme

/-!
# `Offside.Scan.Word`: words and numbers

A maximal run of letters, digits and underscores is a word if it holds a letter or an
underscore, wherever that stands, and a number otherwise. A point behind a word is not part
of it, so that member access is left to a parser; a point behind a number makes it a decimal,
whose digits after the point may be missing but must not run into a letter or a further
point. `word_suffix` says that a run takes at least its first character.
-/

set_option autoImplicit false

namespace Offside.Scan

/-- The greatest integer of the language. -/
def maxInteger : Nat := twoTo 63 - 1

/-- The lexeme of a run that holds a letter. -/
def wordLexeme (isKeyword : String → Bool) (word : String) : Lexeme :=
  if word = "true" then ⟨.boolean, some (.boolean true)⟩
  else if word = "false" then ⟨.boolean, some (.boolean false)⟩
  else if word = "null" then ⟨.null, none⟩
  else if isKeyword word then ⟨.keyword, some (.string word)⟩
  else ⟨.identifier, some (.string word)⟩

/-- Reads the word or number that a text begins with. -/
def word (isKeyword : String → Bool) (text : List Char) : Except Fault (Lexeme × List Char) :=
  let run := text.takeWhile isWordChar
  let rest := text.dropWhile isWordChar
  if run.any isLetter then .ok (wordLexeme isKeyword (String.ofList run), rest)
  else
    match rest with
    -- A point behind digits, with or without more digits behind it.
    | '.' :: behind =>
      let part := behind.takeWhile Char.isDigit
      let lexeme : Lexeme := ⟨.decimal, some (.decimal (Decimal.ofDigits run part))⟩
      match behind.dropWhile Char.isDigit with
      | [] => .ok (lexeme, [])
      | c :: more =>
        if isWordChar c || c == '.' then .error ⟨.illegalDecimal c, c :: more⟩
        else .ok (lexeme, c :: more)
    | _ =>
      let value := Decimal.digitsValue run
      if value ≤ maxInteger then .ok (⟨.integer, some (.integer value)⟩, rest)
      else .error ⟨.malformedNumber (String.ofList run), text⟩

/-- A run takes at least its first character. -/
theorem word_suffix {isKeyword : String → Bool} {c : Char} {text rest : List Char}
    {l : Lexeme} (hc : isWordChar c = true)
    (h : word isKeyword (c :: text) = .ok (l, rest)) : rest <:+ text := by
  -- The run holds at least `c`.
  have hdrop : (c :: text).dropWhile isWordChar <:+ text := by
    rw [List.dropWhile_cons, if_pos hc]
    exact List.dropWhile_suffix isWordChar
  simp only [word] at h
  split at h
  · obtain ⟨-, rfl⟩ := Prod.mk.inj (Except.ok.inj h)
    exact hdrop
  · split at h
    · rename_i behind heq
      rw [heq] at hdrop
      have hb : behind <:+ text := (List.suffix_cons '.' behind).trans hdrop
      split at h
      · obtain ⟨-, rfl⟩ := Prod.mk.inj (Except.ok.inj h)
        exact List.nil_suffix
      · rename_i d more hd
        split at h
        · simp at h
        · obtain ⟨-, rfl⟩ := Prod.mk.inj (Except.ok.inj h)
          exact (hd ▸ List.dropWhile_suffix Char.isDigit).trans hb
    · split at h
      · obtain ⟨-, rfl⟩ := Prod.mk.inj (Except.ok.inj h)
        exact hdrop
      · simp at h

end Offside.Scan
