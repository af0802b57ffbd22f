import Mathlib.Data.String.Basic
import Mathlib.Tactic.SplitIfs
import Offside.Proofs.Text.Lines

/-!
# `Offside.Proofs.Text.ByteOrder`: the order of texts is the order of their bytes

Strings compare by the numbers of their characters. UTF-8 is made so that comparing bytes comes to
the same: where two characters differ, the first byte in which their encodings differ is less for
the character with the smaller number (`utf8EncodeChar_append_lt`), so that no encoding has to end
for the order to be decided. `Precedes` is the order of bytes and `precedes_of_lt` the result.
-/

set_option autoImplicit false

namespace Offside.Text

/-- A first byte decides unless it is equal. -/
theorem ofNat_cons_lt_ofNat_cons {a b : Nat} (ha : a < 256) (hb : b < 256) {xs ys : List UInt8}
    (hle : a ≤ b) (hrest : a = b → xs < ys) : UInt8.ofNat a :: xs < UInt8.ofNat b :: ys := by
  rw [List.cons_lt_cons_iff, UInt8.lt_iff_toNat_lt, ← UInt8.toNat_inj,
    UInt8.toNat_ofNat_of_lt' ha, UInt8.toNat_ofNat_of_lt' hb]
  exact (Nat.lt_or_eq_of_le hle).imp_right fun h => ⟨h, hrest h⟩

/-- The bytes of a character with a smaller number come first, whatever follows. -/
theorem utf8EncodeChar_append_lt {c d : Char} (h : c < d) (xs ys : List UInt8) :
    String.utf8EncodeChar c ++ xs < String.utf8EncodeChar d ++ ys := by
  have hlt : c.val.toNat < d.val.toNat := h
  have hmax : d.val.toNat < 1114112 := by
    rcases d.valid with h | h <;> omega
  unfold String.utf8EncodeChar
  generalize c.val.toNat = v at hlt
  generalize d.val.toNat = u at hlt hmax
  simp only
  split_ifs
  all_goals
    simp only [List.cons_append, List.nil_append]
    repeat refine ofNat_cons_lt_ofNat_cons (by omega) (by omega) (by omega) fun _ => ?_
    -- If all bytes were equal, so would the numbers be.
    omega

theorem utf8_lt_utf8 {xs ys : List Char} (h : xs < ys) : utf8 xs < utf8 ys := by
  induction xs generalizing ys with
  | nil =>
    cases ys with
    | nil => exact absurd h (List.not_lt_nil [])
    | cons d ys =>
      have hne : String.utf8EncodeChar d ≠ [] := String.utf8EncodeChar_ne_nil
      obtain ⟨b, bytes, hbytes⟩ := List.exists_cons_of_ne_nil hne
      rw [utf8_cons, hbytes]
      exact List.nil_lt_cons b _
  | cons c xs ih =>
    cases ys with
    | nil => exact absurd h (List.not_lt_nil _)
    | cons d ys =>
      rw [utf8_cons, utf8_cons]
      rcases List.cons_lt_cons_iff.1 h with hcd | ⟨rfl, hrest⟩
      · exact utf8EncodeChar_append_lt hcd _ _
      · exact List.append_left_lt (ih hrest)

/-- The bytes of one text come before those of the other. -/
def Precedes (x y : String) : Prop := x.toUTF8.data.toList < y.toUTF8.data.toList

/-- The order of texts is that of their bytes. -/
theorem precedes_of_lt {x y : String} (h : x < y) : Precedes x y := by
  rw [Precedes, toList_toUTF8, toList_toUTF8]
  exact utf8_lt_utf8 (String.lt_iff_toList_lt.1 h)

end Offside.Text
