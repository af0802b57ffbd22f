import Offside.Proofs.Scan.Grammar

/-!
# `Offside.Proofs.Scan.Literals`: the readers of literals accept what the grammar spells

The readers of `Offside.Scan.Quote` and the units of `Offside.Proofs.Scan.Grammar` describe
the same texts. Each reader has one equivalence, read forwards (what was read is spelled so)
and backwards (what is spelled so is read):

* `hexDigit?_eq_some_iff`, `fourHex?_eq_some_iff`: hexadecimal digits and the characters they
  number.
* `unit_eq_ok` and `isUnit_of_unit`: one unit.
* `stringUnits_eq_ok_iff`: the units up to the closing quote.
* `string_eq_ok_iff`, `character_eq_ok_iff`: whole literals.
-/

set_option autoImplicit false

namespace Offside.Scan

open Offside.Text

/-! ### Characters by number -/

theorem toNat_lt_of_hexDigit? {c : Char} {n : Nat} (h : hexDigit? c = some n) :
    c.toNat < 128 := by
  have below {d : Char} (hd : d.toNat < 128) (h : c ≤ d) : c.toNat < 128 :=
    Nat.lt_of_le_of_lt (UInt32.le_iff_toNat_le.1 (Char.le_def.1 h)) hd
  unfold hexDigit? at h
  split at h
  · rename_i hr
    exact below (by decide) hr.2
  split at h
  · rename_i hr
    exact below (by decide) hr.2
  split at h
  · rename_i hr
    exact below (by decide) hr.2
  · simp at h

instance (c : Char) (n : Nat) : Decidable (IsHexDigit c n) :=
  inferInstanceAs (Decidable (_ ∧ _))

/-- The reader of one hexadecimal digit knows exactly the sixteen digits. -/
theorem hexDigit?_eq_some_iff {c : Char} {n : Nat} :
    hexDigit? c = some n ↔ IsHexDigit c n := by
  constructor
  · intro h
    have all : ∀ m < 128, ∀ v ∈ hexDigit? (Char.ofNat m), IsHexDigit (Char.ofNat m) v := by
      decide
    have hc := all c.toNat (toNat_lt_of_hexDigit? h)
    rw [Char.ofNat_toNat] at hc
    exact hc n h
  · rintro ⟨hn, rfl | rfl⟩
    · revert n
      decide
    · revert n
      decide

theorem charOfNat?_eq_some_iff {n : Nat} {x : Char} :
    charOfNat? n = some x ↔ x.toNat = n := by
  unfold charOfNat?
  constructor
  · intro h
    split at h
    · rename_i hn
      obtain rfl := Option.some.inj h
      rw [Char.ofNat, dif_pos hn]
      rfl
    · simp at h
  · rintro rfl
    have hv : x.toNat.isValidChar := x.valid
    rw [if_pos hv, Char.ofNat_toNat]

theorem hexValue?_four_eq_some_iff {a b c d : Char} {n : Nat} :
    hexValue? [a, b, c, d] = some n ↔
      ∃ i j k l, IsHexDigit a i ∧ IsHexDigit b j ∧ IsHexDigit c k ∧ IsHexDigit d l ∧
        n = ((i * 16 + j) * 16 + k) * 16 + l := by
  simp only [hexValue?, List.foldlM_cons, List.foldlM_nil, bind, Option.bind_eq_some_iff,
    Option.map_eq_some_iff, hexDigit?_eq_some_iff, pure, Option.some.injEq]
  constructor
  · rintro ⟨_, ⟨i, hi, rfl⟩, _, ⟨j, hj, rfl⟩, _, ⟨k, hk, rfl⟩, _, ⟨l, hl, rfl⟩, rfl⟩
    exact ⟨i, j, k, l, hi, hj, hk, hl, by omega⟩
  · rintro ⟨i, j, k, l, hi, hj, hk, hl, rfl⟩
    exact ⟨_, ⟨i, hi, rfl⟩, _, ⟨j, hj, rfl⟩, _, ⟨k, hk, rfl⟩, _, ⟨l, hl, rfl⟩, by omega⟩

/-- A text names a character by number exactly when it begins with four hexadecimal digits
of that number. -/
theorem fourHex?_eq_some_iff {text : List Char} {x : Char} :
    fourHex? text = some x ↔
      ∃ a b c d i j k l rest, text = a :: b :: c :: d :: rest ∧
        IsHexDigit a i ∧ IsHexDigit b j ∧ IsHexDigit c k ∧ IsHexDigit d l ∧
        x.toNat = ((i * 16 + j) * 16 + k) * 16 + l := by
  constructor
  · intro h
    unfold fourHex? at h
    split at h
    · rename_i hlen
      obtain ⟨n, hn, hx⟩ := Option.bind_eq_some_iff.1 h
      match text, hlen with
      | a :: b :: c :: d :: rest, _ =>
        obtain ⟨i, j, k, l, ha, hb, hc, hd, rfl⟩ := hexValue?_four_eq_some_iff.1 hn
        exact ⟨a, b, c, d, i, j, k, l, rest, rfl, ha, hb, hc, hd,
          charOfNat?_eq_some_iff.1 hx⟩
    · simp at h
  · rintro ⟨a, b, c, d, i, j, k, l, rest, rfl, ha, hb, hc, hd, hx⟩
    have hvalue := hexValue?_four_eq_some_iff.2 ⟨i, j, k, l, ha, hb, hc, hd, rfl⟩
    rw [← hx] at hvalue
    simpa [fourHex?, hvalue] using charOfNat?_eq_some_iff.2 rfl

/-! ### Units -/

/-- What is read as a unit is one, unless it is the closing quote. -/
theorem isUnit_of_unit {quote : Char} {cut : Fault} {c x : Char} {text rest : List Char}
    (hc : c ≠ quote) (h : unit cut (c :: text) = .ok (x, rest)) :
    ∃ piece, c :: text = piece ++ rest ∧ IsUnit quote piece x := by
  unfold unit at h
  split at h
  -- The line ends before the unit does.
  · simp at h
  · simp at h
  -- A character by number.
  · rename_i t heq
    obtain ⟨rfl, rfl⟩ := List.cons.inj heq
    split at h
    · rename_i y hx
      obtain ⟨rfl, rfl⟩ := Prod.mk.inj (Except.ok.inj h)
      obtain ⟨a, b, c, d, i, j, k, l, rest, rfl, ha, hb, hc, hd, hn⟩ :=
        fourHex?_eq_some_iff.1 hx
      exact ⟨['\\', 'u', a, b, c, d], rfl, .number ha hb hc hd hn⟩
    · simp at h
  -- Any other escape.
  · rename_i d t hu heq
    obtain ⟨rfl, rfl⟩ := List.cons.inj heq
    obtain ⟨rfl, rfl⟩ := Prod.mk.inj (Except.ok.inj h)
    have hd : d ≠ 'u' := by
      rintro rfl
      exact hu rfl
    exact ⟨['\\', d], rfl, .escape hd⟩
  -- A plain character.
  · rename_i d t hend hnumber hescape heq
    obtain ⟨rfl, rfl⟩ := List.cons.inj heq
    obtain ⟨rfl, rfl⟩ := Prod.mk.inj (Except.ok.inj h)
    have hd : c ≠ '\\' := by
      rintro rfl
      cases text with
      | nil => exact hend rfl rfl
      | cons d t => exact hescape d t rfl rfl
    exact ⟨[c], rfl, .plain hd hc⟩

/-- A unit is read, whatever follows it. -/
theorem unit_eq_ok {quote : Char} {piece : List Char} {x : Char} (h : IsUnit quote piece x)
    (cut : Fault) (rest : List Char) : unit cut (piece ++ rest) = .ok (x, rest) := by
  cases h with
  | plain hc _ =>
    unfold unit
    split <;> simp_all
  | escape hc => simp [unit]
  | number ha hb hc hd hx =>
    have hfour := fourHex?_eq_some_iff.2 ⟨_, _, _, _, _, _, _, _, rest, rfl, ha, hb, hc, hd, hx⟩
    simp [unit, hfour]

/-- A unit is not empty and does not begin with the closing quote. -/
theorem IsUnit.head {quote : Char} {piece : List Char} {x : Char} (hq : quote ≠ '\\')
    (h : IsUnit quote piece x) : ∃ c text, piece = c :: text ∧ c ≠ quote := by
  cases h with
  | plain _ hc => exact ⟨_, _, rfl, hc⟩
  | escape _ => exact ⟨_, _, rfl, hq.symm⟩
  | number _ _ _ _ _ => exact ⟨_, _, rfl, hq.symm⟩

/-! ### Literals -/

theorem behindLiteral_eq_ok_iff {text rest : List Char} :
    behindLiteral text = .ok rest ↔ rest = text ∧ StopsAt isWordChar text := by
  unfold behindLiteral
  split
  · rename_i c text
    cases hc : isWordChar c with
    | true => simp [StopsAt, hc]
    | false =>
      have hstop : StopsAt isWordChar (c :: text) := by simpa [StopsAt] using hc
      simpa [hstop] using eq_comm
  · have hstop : StopsAt isWordChar [] := by simp [StopsAt]
    simp [hstop]

/-- One unit in front of the units of a string. -/
theorem stringUnits_append {start piece text : List Char} {x : Char}
    (h : IsUnit '"' piece x) :
    stringUnits start (piece ++ text) =
      (stringUnits start text).map (fun p => (x :: p.1, p.2)) := by
  obtain ⟨c, tail, rfl, hc⟩ := h.head (by decide)
  have hunit := unit_eq_ok h ⟨.unterminatedString, start⟩ text
  rw [List.cons_append] at hunit ⊢
  rw [stringUnits, if_neg hc]
  split
  · rename_i fault hf
    rw [hunit] at hf
    cases hf
  · rename_i y rest hr
    rw [hunit] at hr
    cases hr
    cases stringUnits start text <;> rfl

/-- The units of a string are read up to the first quote that is no part of a unit. -/
theorem stringUnits_eq_ok_iff {start text behind xs : List Char} :
    stringUnits start text = .ok (xs, behind) ↔
      ∃ body, text = body ++ '"' :: behind ∧ AreUnits '"' body xs := by
  constructor
  · intro h
    induction hn : text.length using Nat.strongRecOn generalizing text xs with
    | _ n ih =>
      cases text with
      | nil => simp [stringUnits] at h
      | cons c text =>
        rw [stringUnits] at h
        split at h
        -- The closing quote.
        · rename_i hc
          cases h
          exact ⟨[], by rw [hc]; rfl, .nil⟩
        · rename_i hc
          split at h
          · simp at h
          · rename_i x rest hu
            split at h
            · simp at h
            · rename_i ys b hs
              cases h
              obtain ⟨piece, htext, hpiece⟩ := isUnit_of_unit hc hu
              -- The unit takes at least one character.
              have hlen : rest.length < n := by
                have := (unit_suffix hu).length_le
                simp only [List.length_cons] at hn
                omega
              obtain ⟨body, rfl, hbody⟩ := ih rest.length hlen hs rfl
              exact ⟨piece ++ body, by rw [htext, List.append_assoc], .cons hpiece hbody⟩
  · rintro ⟨body, rfl, hbody⟩
    induction hbody with
    | nil => simp [stringUnits]
    | cons hunit _ ih => rw [List.append_assoc, stringUnits_append hunit, ih]; rfl

/-- The reader of strings reads exactly the string literals. -/
theorem string_eq_ok_iff {text rest : List Char} {s : String} :
    string ('"' :: text) = .ok (s, rest) ↔
      ∃ taken, '"' :: text = taken ++ rest ∧ IsString rest taken s := by
  constructor
  · intro h
    simp only [string, List.tail_cons, bind, Except.bind, pure, Except.pure] at h
    split at h
    · simp at h
    · rename_i p hs
      obtain ⟨xs, behind⟩ := p
      split at h
      · simp at h
      · rename_i r hr
        cases h
        obtain ⟨rfl, hstop⟩ := behindLiteral_eq_ok_iff.1 hr
        obtain ⟨body, rfl, hbody⟩ := stringUnits_eq_ok_iff.1 hs
        exact ⟨'"' :: (body ++ ['"']), by simp, .mk hbody hstop⟩
  · rintro ⟨taken, htext, ⟨hbody, hstop⟩⟩
    rename_i body xs
    have hrest : text = body ++ '"' :: rest := by simpa using htext
    have hs : stringUnits ('"' :: text) text = .ok (xs, rest) :=
      stringUnits_eq_ok_iff.2 ⟨body, hrest, hbody⟩
    have hb := behindLiteral_eq_ok_iff.2 ⟨rfl, hstop⟩
    simp only [string, List.tail_cons, bind, Except.bind, pure, Except.pure, hs, hb]

/-- The reader of characters reads exactly the character literals. -/
theorem character_eq_ok_iff {text rest : List Char} {x : Char} :
    character ('\'' :: text) = .ok (x, rest) ↔
      ∃ taken, '\'' :: text = taken ++ rest ∧ IsCharacter rest taken x := by
  constructor
  · intro h
    simp only [character, List.tail_cons, bind, Except.bind, pure, Except.pure] at h
    split at h
    · simp at h
    · rename_i hquote
      split at h
      · simp at h
      · rename_i p hu
        obtain ⟨y, behind⟩ := p
        simp only at h
        split at h
        · split at h
          · simp at h
          · rename_i r hr
            cases h
            obtain ⟨rfl, hstop⟩ := behindLiteral_eq_ok_iff.1 hr
            cases text with
            | nil => simp [unit] at hu
            | cons c text =>
              have hc : c ≠ '\'' := by
                rintro rfl
                exact hquote text rfl
              obtain ⟨body, htext, hbody⟩ := isUnit_of_unit hc hu
              exact ⟨'\'' :: (body ++ ['\'']), by simp [htext], .mk hbody hstop⟩
        · simp at h
        · simp at h
  · rintro ⟨taken, htext, ⟨hbody, hstop⟩⟩
    rename_i body
    have hrest : text = body ++ '\'' :: rest := by simpa using htext
    have hu := unit_eq_ok hbody ⟨.unterminatedCharacter, '\'' :: text⟩ ('\'' :: rest)
    have hb := behindLiteral_eq_ok_iff.2 ⟨rfl, hstop⟩
    obtain ⟨c, tail, rfl, hc⟩ := hbody.head (by decide)
    rw [hrest] at hu ⊢
    simp only [List.cons_append] at hu
    simp [character, bind, Except.bind, pure, Except.pure, hc, hu, hb]

end Offside.Scan
