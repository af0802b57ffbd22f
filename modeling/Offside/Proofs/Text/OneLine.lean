import Offside.Token.Basic

/-!
# `Offside.Proofs.Text.OneLine`: texts without a line break

Everything that is printed is made of parts that hold no line break: the digits of numbers, names,
decimals, and characters that are escaped. An escaping keeps a text on one line if it has letters
for both characters of a line break (`Escaping.oneLine_char`), and both that are in use do. The
main result is `Token.oneLine_text`: the text of a token is one line, whatever the token carries.
-/

set_option autoImplicit false

namespace Offside

/-! ### Line breaks -/

/-- Neither character of a line break occurs. -/
def OneLine (text : List Char) : Prop := ∀ c ∈ text, c ≠ '\n' ∧ c ≠ '\r'

instance (text : List Char) : Decidable (OneLine text) :=
  List.decidableBAll (fun c => c ≠ '\n' ∧ c ≠ '\r') text

@[simp] theorem oneLine_nil : OneLine [] := by simp [OneLine]

@[simp] theorem oneLine_cons {c : Char} {text : List Char} :
    OneLine (c :: text) ↔ (c ≠ '\n' ∧ c ≠ '\r') ∧ OneLine text := by simp [OneLine]

@[simp] theorem oneLine_append {xs ys : List Char} :
    OneLine (xs ++ ys) ↔ OneLine xs ∧ OneLine ys := by
  simp only [OneLine, List.forall_mem_append]

theorem OneLine.mono {xs ys : List Char} (h : OneLine ys) (hsub : xs ⊆ ys) : OneLine xs :=
  fun c hc => h c (hsub hc)

theorem oneLine_flatMap {α : Type} {xs : List α} {f : α → List Char}
    (h : ∀ x ∈ xs, OneLine (f x)) : OneLine (xs.flatMap f) := by
  intro c hc
  obtain ⟨x, hx, hmem⟩ := List.mem_flatMap.mp hc
  exact h x hx c hmem

/-- No line feed occurs, and no carriage return is at the end. -/
theorem OneLine.feed_not_mem {text : List Char} (h : OneLine text) : '\n' ∉ text :=
  fun hmem => (h '\n' hmem).1 rfl

theorem OneLine.getLast?_ne {text : List Char} (h : OneLine text) : text.getLast? ≠ some '\r' :=
  fun hlast => (h '\r' (List.mem_of_getLast? hlast)).2 rfl

/-! ### Numbers -/

theorem digitChar_ne : ∀ d < 16, d.digitChar ≠ '\n' ∧ d.digitChar ≠ '\r' := by decide

/-- What holds of the digits below a base holds of those of a number in that base. -/
theorem of_mem_toDigits {base : Nat} (hbase : 1 < base) {p : Char → Prop}
    (hp : ∀ d < base, p d.digitChar) (n : Nat) : ∀ c ∈ base.toDigits n, p c := by
  induction n using Nat.strongRecOn with
  | _ n ih =>
    rw [Nat.toDigits_eq_if hbase]
    split
    · rename_i hn
      exact List.forall_mem_singleton.2 (hp n hn)
    · have hlt : n / base < n := Nat.div_lt_self (by omega) hbase
      have hmod : n % base < base := Nat.mod_lt n (by omega)
      exact List.forall_mem_append.2
        ⟨ih (n / base) hlt, List.forall_mem_singleton.2 (hp (n % base) hmod)⟩

/-- The digits of a number, in any base that has digits. -/
theorem oneLine_toDigits {base : Nat} (hbase : 1 < base) (hdigits : base ≤ 16) (n : Nat) :
    OneLine (base.toDigits n) :=
  of_mem_toDigits hbase (fun d hd => digitChar_ne d (Nat.lt_of_lt_of_le hd hdigits)) n

theorem oneLine_toString_nat (n : Nat) : OneLine (toString n).toList := by
  rw [Nat.toString_eq_repr, Nat.toList_repr]
  exact oneLine_toDigits (by decide) (by decide) n

theorem oneLine_toString_int (i : Int) : OneLine (toString i).toList := by
  rw [Int.toString_eq_repr]
  cases i with
  | ofNat n => exact oneLine_toString_nat n
  | negSucc n =>
    show OneLine ("-" ++ n.succ.repr).toList
    rw [String.toList_append, oneLine_append]
    exact ⟨by decide, oneLine_toString_nat n.succ⟩

/-! ### Decimals -/

namespace Numeral

theorem oneLine_significant (n : Numeral) : OneLine n.significant := by
  have hdigits : OneLine (Nat.toDigits 10 n.digits) :=
    oneLine_toDigits (by decide) (by decide) n.digits
  refine hdigits.mono ?_
  intro c hc
  rw [significant, List.mem_reverse] at hc
  exact List.mem_reverse.mp (List.dropWhile_subset _ hc)

theorem oneLine_replicate_zero (n : Nat) : OneLine (List.replicate n '0') := by
  intro c hc
  rw [List.eq_of_mem_replicate hc]
  decide

theorem oneLine_positional (n : Numeral) : OneLine n.positional := by
  have hdigits := n.oneLine_significant
  unfold positional
  simp only
  split
  · simp [hdigits, oneLine_replicate_zero]
  · have htake : OneLine (n.significant.take (n.leading.toNat + 1)) :=
      hdigits.mono (List.take_subset _ _)
    have hdrop : OneLine (n.significant.drop (n.leading.toNat + 1)) :=
      hdigits.mono (List.drop_subset _ _)
    have hpart : OneLine (if (n.significant.drop (n.leading.toNat + 1)).isEmpty then ['0']
        else n.significant.drop (n.leading.toNat + 1)) := by
      split
      · decide
      · exact hdrop
    rw [oneLine_append, oneLine_append, oneLine_cons]
    exact ⟨⟨htake, oneLine_replicate_zero _⟩, by decide, hpart⟩

theorem oneLine_scientific (n : Numeral) : OneLine n.scientific := by
  have hdigits := n.oneLine_significant
  unfold scientific
  simp only
  rw [oneLine_append, oneLine_cons]
  refine ⟨?_, by decide, oneLine_toString_int n.leading⟩
  split
  · rename_i heq
    rw [heq] at hdigits
    simpa using hdigits
  · exact hdigits

end Numeral

theorem Decimal.Style.oneLine_positive (s : Style) (d : Decimal) : OneLine (s.positive d) := by
  unfold positive
  split
  · simpa using oneLine_toDigits (by decide) (by decide) d.magnitude
  split
  · exact d.shortest.oneLine_positional
  · exact d.shortest.oneLine_scientific

theorem Decimal.Style.oneLine_text (s : Style) (d : Decimal) : OneLine (s.text d).toList := by
  unfold text
  split
  · decide
  · have hmagnitude : OneLine (if !d.isFinite then ['i', 'n', 'f']
        else if d.significand = 0 then ['0', '.', '0'] else s.positive d) := by
      split
      · decide
      split
      · decide
      · exact s.oneLine_positive d
    simp only [String.toList_ofList]
    split
    · simpa using hmagnitude
    · exact hmagnitude

/-! ### Escaped characters -/

namespace Text

theorem oneLine_byNumber (c : Char) : OneLine (byNumber c) := by
  have hdigits : OneLine (Nat.toDigits 16 c.toNat) :=
    oneLine_toDigits (by decide) (by decide) c.toNat
  simp [byNumber, hdigits]

/-- Where both characters of a line break have a letter, and no letter is one of them, no
character is written with a line break. -/
theorem Escaping.oneLine_char {e : Escaping} (hletters : OneLine (e.letters.map Prod.snd))
    (hfeed : '\n' ∈ e.letters.map Prod.fst) (hreturn : '\r' ∈ e.letters.map Prod.fst)
    (c : Char) : OneLine (e.char c) := by
  unfold char
  split
  · rename_i letter hfind
    have hletter : letter ∈ e.letters.map Prod.snd :=
      List.mem_map_of_mem (List.mem_of_find?_eq_some hfind)
    simpa using hletters letter hletter
  · rename_i hfind
    have hc : c ∉ e.letters.map Prod.fst := by
      intro hmem
      obtain ⟨p, hp, rfl⟩ := List.mem_map.mp hmem
      simpa using List.find?_eq_none.mp hfind p hp
    split
    · have hne : c ≠ '\n' ∧ c ≠ '\r' :=
        ⟨fun h => hc (h ▸ hfeed), fun h => hc (h ▸ hreturn)⟩
      simpa using hne
    · exact oneLine_byNumber c

theorem oneLine_quoted_char {quote : Char} (hquote : quote ≠ '\n' ∧ quote ≠ '\r') (c : Char) :
    OneLine ((quoted quote).char c) :=
  Escaping.oneLine_char (by simp [quoted, hquote]) (by simp [quoted]) (by simp [quoted]) c

theorem oneLine_ascii_char (c : Char) : OneLine (ascii.char c) :=
  Escaping.oneLine_char (by decide) (by decide) (by decide) c

theorem oneLine_enquote {quote : Char} (hquote : quote ≠ '\n' ∧ quote ≠ '\r')
    (text : List Char) : OneLine (enquote quote text) := by
  have htext : OneLine (text.flatMap (quoted quote).char) :=
    oneLine_flatMap fun c _ => oneLine_quoted_char hquote c
  simp [enquote, hquote, htext]

end Text

/-! ### Tokens -/

theorem Literal.oneLine_text (l : Literal) : OneLine l.text.toList := by
  cases l with
  | boolean b => cases b <;> decide
  | integer i => exact oneLine_toString_int i
  | decimal d => exact Decimal.Style.token.oneLine_text d
  | character c =>
    rw [text, String.toList_ofList]
    exact Text.oneLine_enquote (by decide) [c]
  | string s =>
    rw [text, String.toList_ofList]
    exact Text.oneLine_enquote (by decide) s.toList

theorem Kind.oneLine_name (k : Kind) : OneLine k.name.toList := by
  cases k <;> decide

/-- The text of a token is one line. -/
theorem Token.oneLine_text (t : Token) : OneLine t.text.toList := by
  have hplace :
      OneLine (toString t.line ++ ":" ++ toString t.column ++ " " ++ t.kind.name).toList := by
    simp only [String.toList_append, oneLine_append]
    exact ⟨⟨⟨⟨oneLine_toString_nat t.line, by decide⟩, oneLine_toString_nat t.column⟩,
      by decide⟩, t.kind.oneLine_name⟩
  unfold text
  simp only
  rw [String.toList_append, oneLine_append]
  cases t.literal with
  | none => exact ⟨hplace, by decide⟩
  | some l =>
    have hl : OneLine l.text.toList := l.oneLine_text
    refine ⟨hplace, ?_⟩
    simp [String.toList_append, hl]

end Offside
