import Offside.Proofs.Scan.Words
import Offside.Proofs.Token.Escapes

/-!
# `Offside.Proofs.Token.Printing`: what the text of a token tells

The text of a token is made of four parts: line, column, the name of the kind, and the payload in
parentheses. The first three are runs of characters that do not occur directly behind them, so they
can be told apart from what follows (`Token.text_parts_inj`).

The payload alone would not tell what sort it is of, but the kind does, if the token carries what
its kind calls for (`Token.Fits`). Payloads of one sort are told apart by their text
(`Literal.eq_of_text_eq`), where decimals are left aside. So a token that carries what its kind
calls for is known by its text (`Token.eq_of_text_eq`).
-/

set_option autoImplicit false

namespace Offside

open Offside.Scan

/-! ### Payloads -/

namespace Literal

/-- What sort of payload a literal is. -/
inductive Shape where
  /-- A truth value. -/
  | boolean
  /-- An integer. -/
  | integer
  /-- A decimal. -/
  | decimal
  /-- A character. -/
  | character
  /-- A text. -/
  | string
deriving DecidableEq, Repr

/-- The sort of a payload. -/
def shape : Literal → Shape
  | boolean _ => .boolean
  | integer _ => .integer
  | decimal _ => .decimal
  | character _ => .character
  | string _ => .string

/-- Two payloads of one sort, other than decimals, are the same if their texts are. -/
theorem eq_of_text_eq {l m : Literal} (hshape : l.shape = m.shape) (hne : l.shape ≠ .decimal)
    (h : l.text = m.text) : l = m := by
  cases l with
  | boolean b =>
    cases m with
    | boolean c =>
      revert h
      cases b <;> cases c <;> decide
    | integer _ | decimal _ | character _ | string _ => cases hshape
  | integer i =>
    cases m with
    | integer j =>
      rw [text, text, Int.toString_eq_repr, Int.toString_eq_repr] at h
      rw [Int.repr_inj.1 h]
    | boolean _ | decimal _ | character _ | string _ => cases hshape
  | decimal d => exact absurd rfl hne
  | character c =>
    cases m with
    | character d =>
      have hchars := Text.enquote_inj (by decide) (String.ofList_injective h)
      rw [(List.cons.inj hchars).1]
    | boolean _ | integer _ | decimal _ | string _ => cases hshape
  | string s =>
    cases m with
    | string s' =>
      have hchars := Text.enquote_inj (by decide) (String.ofList_injective h)
      rw [String.toList_inj.1 hchars]
    | boolean _ | integer _ | decimal _ | character _ => cases hshape

end Literal

/-- The sort of payload that a kind calls for, if it calls for any. -/
def Kind.payload : Kind → Option Literal.Shape
  | boolean => some .boolean
  | integer => some .integer
  | decimal => some .decimal
  | character | operator => some .character
  | setOperator | comparator | header | keyword | identifier | string => some .string
  | _ => none

theorem Kind.eq_decimal_of_payload {k : Kind} (h : k.payload = some .decimal) : k = .decimal := by
  revert h
  cases k <;> decide

/-- The token carries what its kind calls for. -/
def Token.Fits (t : Token) : Prop := t.literal.map Literal.shape = t.kind.payload

/-! ### Texts of tokens -/

/-- Runs of one class are the same if all is, where something else stands directly behind each. -/
theorem append_inj_of_stopsAt {p : Char → Bool} {xs ys rest rest' : List Char}
    (hxs : ∀ c ∈ xs, p c = true) (hys : ∀ c ∈ ys, p c = true) (hrest : StopsAt p rest)
    (hrest' : StopsAt p rest') (h : xs ++ rest = ys ++ rest') : xs = ys ∧ rest = rest' := by
  have hrun := takeWhile_append_of_stopsAt hxs hrest
  rw [h, takeWhile_append_of_stopsAt hys hrest'] at hrun
  rw [hrun] at h
  exact ⟨hrun.symm, List.append_cancel_left h⟩

/-- A number is known by its digits. -/
theorem toDigits_append_inj {m n : Nat} {rest rest' : List Char} (hrest : StopsAt Char.isDigit rest)
    (hrest' : StopsAt Char.isDigit rest')
    (h : Nat.toDigits 10 m ++ rest = Nat.toDigits 10 n ++ rest') : m = n ∧ rest = rest' := by
  have hdigit (n : Nat) : ∀ c ∈ Nat.toDigits 10 n, c.isDigit = true :=
    fun c hc => Nat.isDigit_of_mem_toDigits (by decide) (by decide) hc
  obtain ⟨hdigits, hbehind⟩ := append_inj_of_stopsAt (hdigit m) (hdigit n) hrest hrest' h
  have hvalue := congrArg (fun digits => Nat.ofDigitChars 10 digits 0) hdigits
  rw [Nat.ofDigitChars_ten_toDigits, Nat.ofDigitChars_ten_toDigits] at hvalue
  exact ⟨hvalue, hbehind⟩

namespace Token

/-- The payload in parentheses, if there is one. -/
def payloadText (t : Token) : List Char :=
  match t.literal with
  | some l => '(' :: (l.text.toList ++ [')'])
  | none => []

theorem toList_text (t : Token) : t.text.toList =
    Nat.toDigits 10 t.line ++ ':' ::
      (Nat.toDigits 10 t.column ++ ' ' :: (t.kind.name.toList ++ t.payloadText)) := by
  rw [text, payloadText]
  cases t.literal with
  | none => simp [Nat.toString_eq_repr]
  | some l => simp [Nat.toString_eq_repr]

/-- The four parts of a text can be told apart. -/
theorem text_parts_inj {t t' : Token} (h : t.text = t'.text) :
    t.line = t'.line ∧ t.column = t'.column ∧ t.kind = t'.kind ∧
      t.payloadText = t'.payloadText := by
  have hname (k : Kind) : ∀ c ∈ k.name.toList, (c != '(') = true := by
    rw [← List.all_eq_true]
    cases k <;> rfl
  have hstop (t : Token) : StopsAt (· != '(') t.payloadText := by
    rw [payloadText]
    cases t.literal with
    | none => exact nofun
    | some l => exact stopsAt_cons.2 (by decide)
  have htext := congrArg String.toList h
  rw [toList_text, toList_text] at htext
  obtain ⟨hline, htext⟩ := toDigits_append_inj (stopsAt_cons.2 (by decide))
    (stopsAt_cons.2 (by decide)) htext
  obtain ⟨hcolumn, htext⟩ := toDigits_append_inj (stopsAt_cons.2 (by decide))
    (stopsAt_cons.2 (by decide)) (List.cons.inj htext).2
  obtain ⟨hkind, hpayload⟩ := append_inj_of_stopsAt (hname t.kind) (hname t'.kind) (hstop t)
    (hstop t') (List.cons.inj htext).2
  exact ⟨hline, hcolumn, Kind.name_injective (String.toList_inj.1 hkind), hpayload⟩

/-- A token that carries what its kind calls for, other than a decimal, is known by its text. -/
theorem eq_of_text_eq {t t' : Token} (ht : t.Fits) (ht' : t'.Fits) (hne : t.kind ≠ .decimal)
    (h : t.text = t'.text) : t = t' := by
  obtain ⟨hline, hcolumn, hkind, hpayload⟩ := text_parts_inj h
  have hshape : t.literal.map Literal.shape = t'.literal.map Literal.shape := by
    rw [ht, ht', hkind]
  have hliteral : t.literal = t'.literal := by
    cases hl : t.literal with
    | none =>
      rw [hl] at hshape
      exact (Option.map_eq_none_iff.1 hshape.symm).symm
    | some l =>
      rw [hl] at hshape
      obtain ⟨m, hm, hsame⟩ := Option.map_eq_some_iff.1 hshape.symm
      have hdecimal : l.shape ≠ .decimal := by
        intro heq
        rw [Fits, hl, Option.map_some, heq] at ht
        exact hne (Kind.eq_decimal_of_payload ht.symm)
      have htext : l.text.toList = m.text.toList := by
        simpa [payloadText, hl, hm] using hpayload
      rw [hm, Literal.eq_of_text_eq hsame.symm hdecimal (String.toList_inj.1 htext)]
  obtain ⟨kind, literal, line, column⟩ := t
  cases hkind
  cases hliteral
  cases hline
  cases hcolumn
  rfl

-- The text of a string does not end before the token does, and stays on its line.
example : (⟨.string, some (.string "\")\n1:2 EOF"), 1, 1⟩ : Token).text =
    "1:1 STRING(\"\\\")\\n1:2 EOF\")" := by cbv

end Token

end Offside
