import Offside.Scan.Lexeme

/-!
# `Offside.Scan.Quote`: character and string literals

Between its quotes a literal is a sequence of units: a plain character, a backslash with the
character it stands for, or `\u` with four hexadecimal digits. A character literal holds one
unit and a string literal any number of them, both end on the line they begin on, and no word
or number may follow directly. Faults name the opening quote, except that a bad `\u` names its
backslash and a trailing character names itself.

`unit_suffix`, `string_suffix` and `character_suffix` say that reading only ever moves on
within the line.
-/

set_option autoImplicit false

namespace Offside.Scan

/-! ### Units -/

/-- What a backslash makes of the character behind it. -/
def escaped : Char → Char
  | 'n' => '\n'
  | 'r' => '\r'
  | 't' => '\t'
  | 'f' => '\x0c'
  | 'b' => '\x08'
  | c => c

/-- The value of a hexadecimal digit. -/
def hexDigit? (c : Char) : Option Nat :=
  if '0' ≤ c ∧ c ≤ '9' then some (c.toNat - '0'.toNat)
  else if 'a' ≤ c ∧ c ≤ 'f' then some (c.toNat - 'a'.toNat + 10)
  else if 'A' ≤ c ∧ c ≤ 'F' then some (c.toNat - 'A'.toNat + 10)
  else none

/-- The value of a row of hexadecimal digits. -/
def hexValue? (digits : List Char) : Option Nat :=
  digits.foldlM (fun n c => (hexDigit? c).map (16 * n + ·)) 0

/-- The character with the given number, unless the number is a surrogate's or too large. -/
def charOfNat? (n : Nat) : Option Char :=
  if n.isValidChar then some (Char.ofNat n) else none

/-- The character that the first four characters of a text name in hexadecimal digits. -/
def fourHex? (text : List Char) : Option Char :=
  if (text.take 4).length = 4 then (hexValue? (text.take 4)).bind charOfNat? else none

/-- Reads one unit. The fault `cut` is the answer where the line ends before the unit does. -/
def unit (cut : Fault) : List Char → Except Fault (Char × List Char)
  | [] => .error cut
  | ['\\'] => .error cut
  | '\\' :: 'u' :: text =>
    match fourHex? text with
    | some c => .ok (c, text.drop 4)
    | none => .error ⟨.malformedUnicode, '\\' :: 'u' :: text⟩
  | '\\' :: c :: text => .ok (escaped c, text)
  | c :: text => .ok (c, text)

/-- A unit takes at least one character. -/
theorem unit_suffix {cut : Fault} {c : Char} {text rest : List Char} {x : Char}
    (h : unit cut (c :: text) = .ok (x, rest)) : rest <:+ text := by
  unfold unit at h
  split at h
  -- The line ends before the unit does.
  · simp at h
  · simp at h
  -- A character by number takes four more.
  · rename_i t heq
    obtain ⟨-, rfl⟩ := List.cons.inj heq
    split at h
    · obtain ⟨-, rfl⟩ := Prod.mk.inj (Except.ok.inj h)
      exact (List.drop_suffix 4 t).trans (List.suffix_cons 'u' t)
    · simp at h
  -- Any other escape takes one more, and a plain character none.
  · rename_i d t _ heq
    obtain ⟨-, rfl⟩ := List.cons.inj heq
    obtain ⟨-, rfl⟩ := Prod.mk.inj (Except.ok.inj h)
    exact List.suffix_cons d t
  · rename_i t _ _ _ heq
    obtain ⟨-, rfl⟩ := List.cons.inj heq
    obtain ⟨-, rfl⟩ := Prod.mk.inj (Except.ok.inj h)
    exact List.suffix_rfl

/-! ### Literals -/

/-- The text behind a literal, unless it begins with a character of words and numbers. -/
def behindLiteral (text : List Char) : Except Fault (List Char) :=
  match text with
  | c :: _ => if isWordChar c then .error ⟨.illegalTrailing c, text⟩ else .ok text
  | [] => .ok text

/-- What follows a literal is not touched. -/
theorem behindLiteral_eq {text rest : List Char} (h : behindLiteral text = .ok rest) :
    rest = text := by
  unfold behindLiteral at h
  split at h
  · split at h
    · simp at h
    · exact (Except.ok.inj h).symm
  · exact (Except.ok.inj h).symm

/-- The units up to the closing quote of a string, and the text behind that quote. `start`
is the string with its opening quote. -/
def stringUnits (start text : List Char) : Except Fault (List Char × List Char) :=
  match text with
  | [] => .error ⟨.unterminatedString, start⟩
  | c :: text =>
    if c = '"' then .ok ([], text)
    else
      match _h : unit ⟨.unterminatedString, start⟩ (c :: text) with
      | .error fault => .error fault
      | .ok (x, rest) =>
        match stringUnits start rest with
        | .error fault => .error fault
        | .ok (xs, behind) => .ok (x :: xs, behind)
termination_by text.length
decreasing_by
  have := (unit_suffix _h).length_le
  simp only [List.length_cons]
  omega

/-- The units of a string and its closing quote take at least one character. -/
theorem stringUnits_suffix {start : List Char} {c : Char} {text behind : List Char}
    {xs : List Char} (h : stringUnits start (c :: text) = .ok (xs, behind)) :
    behind <:+ text := by
  induction hn : text.length using Nat.strongRecOn generalizing c text xs with
  | _ n ih =>
    rw [stringUnits] at h
    split at h
    -- The closing quote.
    · obtain ⟨-, rfl⟩ := Prod.mk.inj (Except.ok.inj h)
      exact List.suffix_rfl
    · split at h
      · simp at h
      · rename_i x rest hu
        split at h
        · simp at h
        · rename_i ys b hs
          obtain ⟨-, rfl⟩ := Prod.mk.inj (Except.ok.inj h)
          have hsub := unit_suffix hu
          cases rest with
          -- Nothing behind the unit leaves the string open.
          | nil => simp [stringUnits] at hs
          | cons d more =>
            have hle := hsub.length_le
            simp only [List.length_cons] at hle
            exact (ih more.length (by omega) hs rfl).trans
              ((List.suffix_cons d more).trans hsub)

/-- Reads a string literal. The text begins at the opening quote. -/
def string (text : List Char) : Except Fault (String × List Char) := do
  let (xs, behind) ← stringUnits text text.tail
  let rest ← behindLiteral behind
  return (String.ofList xs, rest)

/-- Reads a character literal. The text begins at the opening quote. -/
def character (text : List Char) : Except Fault (Char × List Char) :=
  match text.tail with
  | '\'' :: _ => .error ⟨.emptyCharacter, text⟩
  -- A line that ends here is reported by the unit that is missing.
  | body => do
    let (x, behind) ← unit ⟨.unterminatedCharacter, text⟩ body
    match behind with
    | '\'' :: behind =>
      let rest ← behindLiteral behind
      return (x, rest)
    | [] => .error ⟨.unterminatedCharacter, text⟩
    | _ => .error ⟨.malformedCharacter, text⟩

/-- A string literal takes at least its opening quote. -/
theorem string_suffix {q : Char} {text rest : List Char} {s : String}
    (h : string (q :: text) = .ok (s, rest)) : rest <:+ text := by
  simp only [string, List.tail_cons, bind, Except.bind, pure, Except.pure] at h
  split at h
  · simp at h
  · rename_i p hs
    obtain ⟨xs, behind⟩ := p
    split at h
    · simp at h
    · rename_i r hr
      obtain ⟨-, rfl⟩ := Prod.mk.inj (Except.ok.inj h)
      cases behindLiteral_eq hr
      cases text with
      | nil => simp [stringUnits] at hs
      | cons c more => exact (stringUnits_suffix hs).trans (List.suffix_cons c more)

/-- A character literal takes at least its opening quote. -/
theorem character_suffix {q : Char} {text rest : List Char} {x : Char}
    (h : character (q :: text) = .ok (x, rest)) : rest <:+ text := by
  simp only [character, List.tail_cons, bind, Except.bind, pure, Except.pure] at h
  split at h
  · simp at h
  · split at h
    · simp at h
    · rename_i p hu
      obtain ⟨y, behind⟩ := p
      simp only at h
      split at h
      · rename_i behind' heq
        split at h
        · simp at h
        · rename_i r hr
          obtain ⟨-, rfl⟩ := Prod.mk.inj (Except.ok.inj h)
          cases behindLiteral_eq hr
          cases text with
          | nil => simp [unit] at hu
          | cons c more =>
            have := unit_suffix hu
            exact ((List.suffix_cons _ _).trans this).trans (List.suffix_cons c more)
      · simp at h
      · simp at h

end Offside.Scan
