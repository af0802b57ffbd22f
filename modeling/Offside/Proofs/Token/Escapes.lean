import Mathlib.Data.List.Nodup
import Offside.Proofs.Scan.Literals
import Offside.Proofs.Text.OneLine

/-!
# `Offside.Proofs.Token.Escapes`: reading escaped text back

Escaped text says which characters it stands for. A backslash announces an escape and is escaped
itself, the letter behind it says of which character, and a number in hexadecimal digits ends at
its brace. So the character that an escaped text begins with can be read off, whatever stands
behind it (`Escaping.read?_char_append`).

Between quotes, no character is written with the quote in front, so text ends where its closing
quote is (`flatMap_char_append_inj`), and quoted text is unambiguous (`enquote_inj`).
-/

set_option autoImplicit false

namespace Offside.Scan

/-! ### Hexadecimal digits -/

theorem hexValue?_concat (digits : List Char) (c : Char) :
    hexValue? (digits ++ [c]) =
      (hexValue? digits).bind fun n => (hexDigit? c).map (16 * n + ·) := by
  rw [hexValue?, List.foldlM_append]
  congr 1
  funext n
  rw [List.foldlM_cons]
  cases hexDigit? c <;> rfl

/-- The hexadecimal digits of a number have its value. -/
theorem hexValue?_toDigits (n : Nat) : hexValue? (Nat.toDigits 16 n) = some n := by
  have hdigit : ∀ d < 16, hexDigit? d.digitChar = some d := by decide
  induction n using Nat.strongRecOn with
  | _ n ih =>
    rw [Nat.toDigits_eq_if (by decide)]
    split
    · rename_i hn
      rw [← List.nil_append [n.digitChar], hexValue?_concat, hdigit n hn]
      show some (16 * 0 + n) = some n
      rw [Nat.mul_zero, Nat.zero_add]
    · have hlt : n / 16 < n := Nat.div_lt_self (by omega) (by decide)
      rw [hexValue?_concat, ih (n / 16) hlt, hdigit (n % 16) (Nat.mod_lt n (by decide))]
      show some (16 * (n / 16) + n % 16) = some n
      rw [Nat.div_add_mod]

end Offside.Scan

namespace Offside.Text

open Offside.Scan

/-! ### One character -/

/-- Reads the character that an escaped text begins with, and answers it with the text behind
it. -/
def Escaping.read? (e : Escaping) : List Char → Option (Char × List Char)
  | [] => none
  -- The number stands between braces.
  | '\\' :: 'u' :: text =>
    let number := (text.drop 1).takeWhile (· ≠ '}')
    ((hexValue? number).bind charOfNat?).map (fun c => (c, text.drop (number.length + 2)))
  | '\\' :: letter :: text =>
    (e.letters.find? (fun p => p.2 == letter)).map (fun p => (p.1, text))
  | c :: text => some (c, text)

/-- An escaping that can be told from what it is not: a backslash always announces an escape, and
its letter says of which character. -/
structure Escaping.Readable (e : Escaping) : Prop where
  /-- The backslash has a letter. -/
  backslash : '\\' ∈ e.letters.map Prod.fst
  /-- No letter announces a number. -/
  number : 'u' ∉ e.letters.map Prod.snd
  /-- No letter stands for two characters. -/
  nodup : (e.letters.map Prod.snd).Nodup

/-- A number between braces is read up to the closing one. -/
theorem Escaping.read?_byNumber_append (e : Escaping) (c : Char) (rest : List Char) :
    e.read? (byNumber c ++ rest) = some (c, rest) := by
  have hdigits : ∀ d ∈ Nat.toDigits 16 c.toNat, decide (d ≠ '}') = true :=
    of_mem_toDigits (by decide) (by decide) c.toNat
  have hnumber : (Nat.toDigits 16 c.toNat ++ '}' :: rest).takeWhile (· ≠ '}') =
      Nat.toDigits 16 c.toNat := by
    rw [List.takeWhile_append_of_pos hdigits]
    simp
  have hchar : charOfNat? c.toNat = some c := charOfNat?_eq_some_iff.2 rfl
  have htext : byNumber c ++ rest =
      '\\' :: 'u' :: '{' :: (Nat.toDigits 16 c.toNat ++ '}' :: rest) := by
    simp [byNumber]
  rw [htext, read?]
  simp only [List.drop_succ_cons, List.drop_zero, hnumber, hexValue?_toDigits, Option.bind_some,
    hchar, Option.map_some]
  simp

/-- A character that has been escaped is read back, whatever stands behind it. -/
theorem Escaping.read?_char_append {e : Escaping} (h : e.Readable) (c : Char)
    (rest : List Char) : e.read? (e.char c ++ rest) = some (c, rest) := by
  rw [char]
  cases hfind : e.letters.find? (fun p => p.1 == c) with
  | some p =>
    obtain ⟨d, letter⟩ := p
    have hmem : (d, letter) ∈ e.letters := List.mem_of_find?_eq_some hfind
    have hd : d = c := by simpa using List.find?_some hfind
    have hletter : letter ≠ 'u' := fun heq => h.number (heq ▸ List.mem_map_of_mem hmem)
    have hread : e.letters.find? (fun p => p.2 == letter) = some (d, letter) := by
      cases hback : e.letters.find? (fun p => p.2 == letter) with
      | none => simpa using List.find?_eq_none.1 hback (d, letter) hmem
      | some p =>
        have hp : p.2 = letter := by simpa using List.find?_some hback
        have hsame := List.inj_on_of_nodup_map h.nodup (List.mem_of_find?_eq_some hback) hmem hp
        rw [hsame]
    simp [read?, hread, hd]
  | none =>
    have hc : c ≠ '\\' := by
      rintro rfl
      obtain ⟨p, hp, heq⟩ := List.mem_map.1 h.backslash
      simpa [heq] using List.find?_eq_none.1 hfind p hp
    dsimp only
    split
    · simp [read?, hc]
    · exact e.read?_byNumber_append c rest

theorem Escaping.char_append_inj {e : Escaping} (h : e.Readable) {c d : Char}
    {rest rest' : List Char} (heq : e.char c ++ rest = e.char d ++ rest') :
    c = d ∧ rest = rest' := by
  have hread := e.read?_char_append h c rest
  rw [heq, e.read?_char_append h d rest', Option.some.injEq, Prod.mk.injEq] at hread
  exact ⟨hread.1.symm, hread.2.symm⟩

/-! ### Quoted text -/

/-- The quotes that text stands between. -/
def quotes : List Char := ['\'', '"']

variable {quote : Char}

theorem readable_quoted (h : quote ∈ quotes) : (quoted quote).Readable := by
  rcases List.mem_pair.1 h with rfl | rfl
  · exact ⟨by decide, by decide, by decide⟩
  · exact ⟨by decide, by decide, by decide⟩

/-- Escaped text never begins with the quote that it stands between. -/
theorem quote_cons_ne_char_append (h : quote ∈ quotes) (c : Char) (rest rest' : List Char) :
    quote :: rest ≠ (quoted quote).char c ++ rest' := by
  have hescaped : quote ≠ '\\' ∧ (quoted quote).char quote = ['\\', quote] := by
    rcases List.mem_pair.1 h with rfl | rfl
    · exact ⟨by decide, rfl⟩
    · exact ⟨by decide, rfl⟩
  obtain ⟨hquote, hchar⟩ := hescaped
  intro heq
  -- Read back, the quote would have to be the character.
  have hread : (quoted quote).read? (quote :: rest) = some (quote, rest) := by
    simp [Escaping.read?, hquote]
  rw [heq, Escaping.read?_char_append (readable_quoted h), Option.some.injEq,
    Prod.mk.injEq] at hread
  rw [hread.1, hchar] at heq
  exact hquote (List.cons.inj heq).1

/-- Escaped text ends at the quote, and what begins in the same way up to there is the same
text. -/
theorem flatMap_char_append_inj (h : quote ∈ quotes) {xs ys rest rest' : List Char}
    (heq : xs.flatMap (quoted quote).char ++ quote :: rest =
      ys.flatMap (quoted quote).char ++ quote :: rest') : xs = ys ∧ rest = rest' := by
  induction xs generalizing ys with
  | nil =>
    cases ys with
    | nil => exact ⟨rfl, (List.cons.inj heq).2⟩
    | cons y ys =>
      rw [List.flatMap_cons, List.append_assoc] at heq
      exact absurd heq (quote_cons_ne_char_append h y _ _)
  | cons x xs ih =>
    rw [List.flatMap_cons, List.append_assoc] at heq
    cases ys with
    | nil => exact absurd heq.symm (quote_cons_ne_char_append h x _ _)
    | cons y ys =>
      rw [List.flatMap_cons, List.append_assoc] at heq
      obtain ⟨rfl, hrest⟩ := Escaping.char_append_inj (readable_quoted h) heq
      obtain ⟨rfl, hbehind⟩ := ih hrest
      exact ⟨rfl, hbehind⟩

/-- Quoted text is unambiguous. -/
theorem enquote_inj (h : quote ∈ quotes) {xs ys : List Char}
    (heq : enquote quote xs = enquote quote ys) : xs = ys :=
  (flatMap_char_append_inj h (List.cons.inj heq).2).1

end Offside.Text
