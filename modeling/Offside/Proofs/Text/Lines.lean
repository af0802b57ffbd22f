import Mathlib.Data.List.Basic
import Mathlib.Data.List.TakeWhile
import Offside.Text.Lines

/-!
# `Offside.Proofs.Text.Lines`: the lines of characters and of bytes

`splitLines` cuts at one element after the other. What it answers is told by three cases: there is
nothing, or what is left has no terminator (`splitLines_of_not_mem`), or a first line ends at
one (`splitLines_line`). From these follow that a text can be cut in front of any line and that its
parts have the lines of the whole (`splitLines_append`), and that lines written one behind the other
are found again (`splitLines_flatMap`).

A prompt cuts bytes and a file is cut as characters. `splitLines_utf8` says that this is the same:
in UTF-8 the bytes of the two terminators stand for nothing else, so the lines of the bytes are the
bytes of the lines.
-/

set_option autoImplicit false

namespace Offside.Text

section
variable {α : Type} [DecidableEq α] {feed ret : α}

@[simp] theorem splitLines_nil : splitLines feed ret [] = [] := by
  rw [splitLines]
  rfl

/-- What has no terminator is one line, and a final `ret` belongs to it. -/
theorem splitLines_of_not_mem {text : List α} (hne : text ≠ []) (h : feed ∉ text) :
    splitLines feed ret text = [text] := by
  have hnil : text.dropWhile (· ≠ feed) = [] := by
    rw [List.dropWhile_eq_nil_iff]
    intro x hx
    simp only [decide_eq_true_eq]
    rintro rfl
    exact h hx
  rw [splitLines, if_neg hne]
  split
  · rfl
  · rename_i hcons
    rw [hnil] at hcons
    cases hcons

/-- A first line ends at the first terminator. -/
theorem splitLines_line {line : List α} (h : feed ∉ line) (rest : List α) :
    splitLines feed ret (line ++ feed :: rest) =
      dropFinal ret line :: splitLines feed ret rest := by
  have hline : ∀ x ∈ line, decide (x ≠ feed) = true := by
    intro x hx
    simp only [decide_eq_true_eq]
    rintro rfl
    exact h hx
  have htake : (line ++ feed :: rest).takeWhile (· ≠ feed) = line := by
    rw [List.takeWhile_append_of_pos hline]
    simp
  have hdrop : (line ++ feed :: rest).dropWhile (· ≠ feed) = feed :: rest := by
    rw [List.dropWhile_append_of_pos hline]
    simp
  rw [splitLines, if_neg (by simp)]
  split
  · rename_i hnil
    rw [hdrop] at hnil
    cases hnil
  · rename_i hcons
    rw [hdrop] at hcons
    cases hcons
    rw [htake]

omit [DecidableEq α] in
/-- What is left behind a first line is empty or ends as the whole does. -/
theorem eq_nil_or_getLast?_of_append {line rest : List α} {x : α}
    (h : (line ++ x :: rest).getLast? = some feed) : rest = [] ∨ rest.getLast? = some feed := by
  cases rest with
  | nil => exact .inl rfl
  | cons y rest =>
    right
    rw [List.getLast?_append_cons, List.getLast?_cons_cons] at h
    exact h

/-- A text that is cut in front of a line has the lines of its two parts. -/
theorem splitLines_append {xs : List α} (h : xs = [] ∨ xs.getLast? = some feed) (ys : List α) :
    splitLines feed ret (xs ++ ys) = splitLines feed ret xs ++ splitLines feed ret ys := by
  induction hn : xs.length using Nat.strongRecOn generalizing xs with
  | _ n ih =>
    rcases h with rfl | hlast
    · simp
    · -- There is a terminator, so there is a first one.
      obtain ⟨line, rest, rfl, hline⟩ :=
        List.eq_append_cons_of_mem (List.mem_of_getLast? hlast)
      have hrest : rest = [] ∨ rest.getLast? = some feed := eq_nil_or_getLast?_of_append hlast
      have hlen : rest.length < n := by
        simp only [List.length_append, List.length_cons] at hn
        omega
      rw [List.append_assoc, List.cons_append, splitLines_line hline, splitLines_line hline,
        ih rest.length hlen hrest rfl, List.cons_append]

/-- Lines that are written one behind the other are found again, less a final `ret`. -/
theorem splitLines_flatMap {lines : List (List α)} (h : ∀ line ∈ lines, feed ∉ line) :
    splitLines feed ret (lines.flatMap (· ++ [feed])) = lines.map (dropFinal ret) := by
  induction lines with
  | nil => simp
  | cons line lines ih =>
    rw [List.flatMap_cons, List.append_assoc, List.singleton_append,
      splitLines_line (h line List.mem_cons_self), List.map_cons,
      ih fun l hl => h l (List.mem_cons_of_mem line hl)]

/-- A line that does not end in `ret` stays as it is. -/
theorem dropFinal_of_ne {line : List α} (h : line.getLast? ≠ some ret) :
    dropFinal ret line = line := if_neg h

/-- A final `ret` is dropped. -/
@[simp] theorem dropFinal_concat (line : List α) : dropFinal ret (line ++ [ret]) = line := by
  simp [dropFinal]

end

/-! ### Bytes -/

/-- The bytes of characters in UTF-8. -/
def utf8 (text : List Char) : List UInt8 := text.flatMap String.utf8EncodeChar

@[simp] theorem utf8_nil : utf8 [] = [] := rfl

@[simp] theorem utf8_append (xs ys : List Char) : utf8 (xs ++ ys) = utf8 xs ++ utf8 ys :=
  List.flatMap_append

@[simp] theorem utf8_cons (c : Char) (text : List Char) :
    utf8 (c :: text) = String.utf8EncodeChar c ++ utf8 text := rfl

theorem utf8_ne_nil {text : List Char} (h : text ≠ []) : utf8 text ≠ [] := by
  obtain ⟨c, rest, rfl⟩ := List.exists_cons_of_ne_nil h
  simp [String.utf8EncodeChar_ne_nil]

/-- The bytes of a string are those of its characters. -/
theorem toList_toUTF8 (s : String) : s.toUTF8.data.toList = utf8 s.toList := by
  show s.toByteArray.data.toList = _
  rw [← String.utf8Encode_toList, List.utf8Encode, List.data_toByteArray]
  rfl

/-- What reads as a string is the bytes of that string, and the other way round. -/
theorem fromUTF8?_eq_some_iff {bytes : ByteArray} {s : String} :
    String.fromUTF8? bytes = some s ↔ bytes = s.toUTF8 := by
  rw [String.fromUTF8?]
  constructor
  · intro h
    split at h
    · cases h
      rfl
    · cases h
  · rintro rfl
    have h : s.toUTF8.IsValidUTF8 := s.isValidUTF8
    rw [dif_pos h]
    rfl

/-- The bytes of characters read as those characters. -/
theorem fromUTF8?_utf8 (text : List Char) :
    String.fromUTF8? ⟨(utf8 text).toArray⟩ = some (String.ofList text) := by
  rw [fromUTF8?_eq_some_iff]
  have h : (String.ofList text).toUTF8.data.toList = utf8 text := by
    rw [toList_toUTF8, String.toList_ofList]
  rw [← h]

/-- Only bytes that are those of no string read as none. -/
theorem fromUTF8?_eq_none_iff {bytes : List UInt8} :
    String.fromUTF8? ⟨bytes.toArray⟩ = none ↔ ∀ s : String, bytes ≠ s.toUTF8.data.toList := by
  constructor
  · rintro h s rfl
    rw [fromUTF8?_eq_some_iff.mpr rfl] at h
    cases h
  · intro h
    cases hread : String.fromUTF8? ⟨bytes.toArray⟩ with
    | none => rfl
    | some s => exact absurd (by rw [← fromUTF8?_eq_some_iff.mp hread]) (h s)

/-- A byte below 128 stands for the character of the same number, and for no part of another. -/
theorem toNat_of_mem_utf8EncodeChar {c : Char} {b : UInt8} (h : b ∈ String.utf8EncodeChar c)
    (hb : b.toNat < 128) : c.toNat = b.toNat := by
  have hv : c.val.toNat = c.toNat := rfl
  unfold String.utf8EncodeChar at h
  simp only [hv] at h
  split at h
  · rw [List.mem_singleton] at h
    subst h
    rw [UInt8.toNat_ofNat']
    omega
  · -- Every byte of a longer encoding has its highest bit set.
    exfalso
    split at h
    · simp only [List.mem_cons, List.not_mem_nil, or_false] at h
      rcases h with rfl | rfl <;> rw [UInt8.toNat_ofNat'] at hb <;> omega
    split at h
    · simp only [List.mem_cons, List.not_mem_nil, or_false] at h
      rcases h with rfl | rfl | rfl <;> rw [UInt8.toNat_ofNat'] at hb <;> omega
    · simp only [List.mem_cons, List.not_mem_nil, or_false] at h
      rcases h with rfl | rfl | rfl | rfl <;> rw [UInt8.toNat_ofNat'] at hb <;> omega

/-- A character has the number of a byte below 128 exactly when its encoding has the byte. -/
theorem mem_utf8_iff {text : List Char} {c : Char} {b : UInt8} (hc : c.toNat = b.toNat)
    (hb : b.toNat < 128) (hcode : String.utf8EncodeChar c = [b]) : b ∈ utf8 text ↔ c ∈ text := by
  rw [utf8, List.mem_flatMap]
  constructor
  · rintro ⟨d, hd, hmem⟩
    have hdc : d = c := Char.toNat_inj.mp ((toNat_of_mem_utf8EncodeChar hmem hb).trans hc.symm)
    exact hdc ▸ hd
  · intro h
    exact ⟨c, h, by simp [hcode]⟩

theorem feed_mem_utf8_iff {text : List Char} : 10 ∈ utf8 text ↔ '\n' ∈ text :=
  mem_utf8_iff rfl (by decide) (by decide)

/-- No character but the carriage return ends in its byte. -/
theorem getLast?_utf8EncodeChar_ne {c : Char} (h : c ≠ '\r') :
    (String.utf8EncodeChar c).getLast? ≠ some 13 := by
  intro hlast
  have hc : c.toNat = (13 : UInt8).toNat :=
    toNat_of_mem_utf8EncodeChar (List.mem_of_getLast? hlast) (by decide)
  exact h (Char.toNat_inj.mp hc)

/-- The final carriage return is dropped from the bytes as from the characters. -/
theorem dropFinal_utf8 (line : List Char) :
    dropFinal 13 (utf8 line) = utf8 (dropFinal '\r' line) := by
  rcases List.eq_nil_or_concat line with rfl | ⟨front, c, rfl⟩
  · rfl
  · rw [List.concat_eq_append]
    by_cases hc : c = '\r'
    · subst hc
      have hbytes : utf8 (front ++ ['\r']) = utf8 front ++ [13] := by
        rw [utf8_append]
        rfl
      rw [hbytes, dropFinal_concat, dropFinal_concat]
    · have hlast : (utf8 (front ++ [c])).getLast? ≠ some 13 := by
        rw [utf8_append, utf8_cons, utf8_nil, List.append_nil,
          List.getLast?_append_of_ne_nil _ String.utf8EncodeChar_ne_nil]
        exact getLast?_utf8EncodeChar_ne hc
      rw [dropFinal_of_ne hlast, dropFinal_of_ne (by simpa using hc)]

/-- **The lines of the bytes are the bytes of the lines.** -/
theorem splitLines_utf8 (text : List Char) :
    splitLines 10 13 (utf8 text) = (splitLines '\n' '\r' text).map utf8 := by
  induction hn : text.length using Nat.strongRecOn generalizing text with
  | _ n ih =>
    by_cases hfeed : '\n' ∈ text
    · obtain ⟨line, rest, rfl, hline⟩ := List.eq_append_cons_of_mem hfeed
      have hbytes : utf8 (line ++ '\n' :: rest) = utf8 line ++ 10 :: utf8 rest := by
        rw [utf8_append, utf8_cons]
        rfl
      have hlen : rest.length < n := by
        simp only [List.length_append, List.length_cons] at hn
        omega
      rw [hbytes, splitLines_line (mt feed_mem_utf8_iff.mp hline), splitLines_line hline,
        List.map_cons, dropFinal_utf8, ih rest.length hlen rest rfl]
    · cases text with
      | nil => simp
      | cons c text =>
        rw [splitLines_of_not_mem (utf8_ne_nil (List.cons_ne_nil c text))
            (mt feed_mem_utf8_iff.mp hfeed),
          splitLines_of_not_mem (List.cons_ne_nil c text) hfeed]
        rfl

/-- The lines of a string, as bytes. -/
theorem splitLines_toUTF8 (s : String) :
    splitLines 10 13 s.toUTF8.data.toList = (linesOf s).map utf8 := by
  rw [toList_toUTF8, splitLines_utf8, linesOf]

end Offside.Text
