import Offside.Proofs.Scan.Run

/-!
# `Offside.Proofs.Scan.Writing`: how code is written

Every lexeme that code can hold, headers and decimals aside, has one spelling to write it
with: words and signs as they are, numbers in decimal digits, and literals in quotes, with a
backslash before each backslash and each closing quote. An `Atom` is such a lexeme, and the
words, the numbers and the signs among them are those the language has.

`Atom.exists_of_spells` says that these are all of them, and `Atom.spells` that the spelling of
an atom spells its lexeme wherever nothing but a blank stands on either side of it. From that
`lineReads_margin_code` reads a margin and a row of atoms with a blank between any two of them.
-/

set_option autoImplicit false

namespace Offside.Scan

open Offside.Text

/-! ### Atoms -/

/-- The text of an identifier or of a keyword. -/
structure Name where
  text : List Char
  chars : ∀ c ∈ text, isWordChar c = true
  letter : ∃ c ∈ text, isLetter c = true
  free : String.ofList text ∉ literalWords

/-- A lexeme of code that has one spelling. -/
inductive Atom where
  | name (n : Name)
  | boolean (b : Bool)
  | null
  | integer (n : Nat) (bound : n ≤ maxInteger)
  | character (c : Char)
  | string (s : String)
  | sign (s : Sign) (mem : s ∈ signs)

/-- A character between quotes. -/
def quotedUnit (quote c : Char) : List Char := if c = '\\' ∨ c = quote then ['\\', c] else [c]

/-- Characters in quotes. -/
def quoted (quote : Char) (cs : List Char) : List Char :=
  quote :: (cs.flatMap (quotedUnit quote) ++ [quote])

namespace Atom

/-- The lexeme of an atom. A name is a keyword where the settings reserve it. -/
def lexeme (isKeyword : String → Bool) : Atom → Lexeme
  | name n =>
    ⟨if isKeyword (String.ofList n.text) then .keyword else .identifier,
      some (.string (String.ofList n.text))⟩
  | boolean b => ⟨.boolean, some (.boolean b)⟩
  | null => ⟨.null, none⟩
  | integer n _ => ⟨.integer, some (.integer n)⟩
  | character c => ⟨.character, some (.character c)⟩
  | string s => ⟨.string, some (.string s)⟩
  | sign s _ => s.lexeme

/-- The spelling of an atom. -/
def spelling : Atom → List Char
  | name n => n.text
  | boolean b => (toString b).toList
  | null => "null".toList
  | integer n _ => Nat.toDigits 10 n
  | character c => quoted '\'' [c]
  | string s => quoted '"' s.toList
  | sign s _ => s.spelling

end Atom

/-- A row of atoms with a blank between any two of them. -/
def code : List Atom → List Char
  | [] => []
  | [a] => a.spelling
  | a :: b :: atoms => a.spelling ++ ' ' :: code (b :: atoms)

/-! ### Spellings -/

theorem stopsAt_of_isBlank {p : Char → Bool} {after : List Char}
    (hp : ∀ c, isBlank c = true → p c = false) (h : ∀ c ∈ after.head?, isBlank c = true) :
    StopsAt p after := fun c hc => hp c (h c hc)

theorem ne_point_of_isBlank {after : List Char} (h : ∀ c ∈ after.head?, isBlank c = true) :
    after.head? ≠ some '.' := by
  intro hpoint
  have := h '.' hpoint
  revert this
  decide

theorem isWordChar_of_mem_literalWord {w : String} (h : w ∈ literalWords) :
    ∀ c ∈ w.toList, isWordChar c = true := by
  have all : ∀ w ∈ literalWords, w.toList.all isWordChar = true := by decide
  exact List.all_eq_true.1 (all w h)

/-- A text without blanks in front of a text that ends or goes on with a blank begins with the
same characters as that text and what follows it. -/
theorem prefix_of_prefix_append {front text after : List Char}
    (hfront : front.any isBlank = false) (hafter : ∀ c ∈ after.head?, isBlank c = true)
    (h : front <+: text ++ after) : front <+: text := by
  rcases List.prefix_or_prefix_of_prefix h (List.prefix_append text after) with hle | hle
  · exact hle
  · obtain ⟨more, rfl⟩ := hle
    rw [List.prefix_append_right_inj] at h
    cases more with
    | nil => simp
    | cons c more =>
      obtain ⟨rest, rfl⟩ := h
      rw [List.any_append, List.any_cons, hafter c rfl, Bool.true_or, Bool.or_true] at hfront
      cases hfront

theorem isUnit_quotedUnit {quote : Char} (hquote : escaped quote = quote) (hu : quote ≠ 'u')
    (c : Char) : IsUnit quote (quotedUnit quote c) c := by
  unfold quotedUnit
  split
  · rename_i hc
    have hself : escaped c = c ∧ c ≠ 'u' := by
      rcases hc with rfl | rfl
      · decide
      · exact ⟨hquote, hu⟩
    have hunit : IsUnit quote ['\\', c] (escaped c) := .escape hself.2
    rwa [hself.1] at hunit
  · rename_i hc
    rw [not_or] at hc
    exact .plain hc.1 hc.2

theorem areUnits_quotedUnit {quote : Char} (hquote : escaped quote = quote) (hu : quote ≠ 'u')
    (cs : List Char) : AreUnits quote (cs.flatMap (quotedUnit quote)) cs := by
  induction cs with
  | nil => exact .nil
  | cons c cs ih => exact .cons (isUnit_quotedUnit hquote hu c) ih

/-- A character in quotes is that character. -/
theorem isCharacter_quoted {after : List Char} (h : StopsAt isWordChar after) (c : Char) :
    IsCharacter after (quoted '\'' [c]) c := by
  have hunit : IsUnit '\'' (quotedUnit '\'' c) c := isUnit_quotedUnit rfl (by decide) c
  rw [quoted, List.flatMap_singleton]
  exact .mk hunit h

/-- Characters in quotes are a string of these characters. -/
theorem isString_quoted {after : List Char} (h : StopsAt isWordChar after) (s : String) :
    IsString after (quoted '"' s.toList) s := by
  have hunits : AreUnits '"' (s.toList.flatMap (quotedUnit '"')) s.toList :=
    areUnits_quotedUnit rfl (by decide) s.toList
  have hstring : IsString after (quoted '"' s.toList) (String.ofList s.toList) := .mk hunits h
  rwa [String.ofList_toList] at hstring

theorem spelling_not_blank {s : Sign} (h : s ∈ signs) : s.spelling.any isBlank = false := by
  have all : ∀ t ∈ signs, t.spelling.any isBlank = false := by decide
  exact all s h

theorem mark_not_blank {mark : List Char} (h : mark ∈ commentMarks) :
    mark.any isBlank = false := by
  have all : ∀ mark ∈ commentMarks, mark.any isBlank = false := by decide
  exact all mark h

/-- A sign is spelled where a blank or nothing follows. -/
theorem isSign_spelling {s : Sign} {after : List Char} (hs : s ∈ signs)
    (hafter : ∀ c ∈ after.head?, isBlank c = true) : IsSign after s.spelling s where
  mem := hs
  spelling := rfl
  longest t ht hprefix :=
    (prefix_of_prefix_append (spelling_not_blank ht) hafter hprefix).length_le
  unmarked mark hmark hprefix := by
    have apart : ∀ s ∈ signs, ∀ mark ∈ commentMarks, ¬ mark <+: s.spelling := by decide
    exact apart s hs mark hmark (prefix_of_prefix_append (mark_not_blank hmark) hafter hprefix)

namespace Atom

/-- An atom is spelled between blanks or nothing. -/
theorem spells (isKeyword : String → Bool) (a : Atom) {before after : List Char}
    (hbefore : ∀ c ∈ before.getLast?, isBlank c = true)
    (hafter : ∀ c ∈ after.head?, isBlank c = true) :
    Spells isKeyword before a.spelling after (a.lexeme isKeyword) := by
  have hstop : StopsAt isWordChar after :=
    stopsAt_of_isBlank (fun _ => isWordChar_of_isBlank) hafter
  have hleft : ∀ c ∈ before.getLast?, isWordChar c = false :=
    fun c hc => isWordChar_of_isBlank (hbefore c hc)
  cases a with
  | name n =>
    obtain ⟨c, hc, -⟩ := n.letter
    have hrun : MaximalRun isWordChar before n.text after :=
      ⟨List.ne_nil_of_mem hc, n.chars, hleft, hstop⟩
    show Spells _ _ n.text _ ⟨if isKeyword (String.ofList n.text) then _ else _, _⟩
    cases hkeyword : isKeyword (String.ofList n.text) with
    | true => exact .word (.keyword hrun n.letter n.free hkeyword)
    | false => exact .word (.identifier hrun n.letter n.free hkeyword)
  | boolean b =>
    have hrun : MaximalRun isWordChar before (toString b).toList after :=
      ⟨by cases b <;> decide, isWordChar_of_mem_literalWord (by cases b <;> decide), hleft, hstop⟩
    exact .word (.boolean b hrun String.ofList_toList)
  | null =>
    have hrun : MaximalRun isWordChar before "null".toList after :=
      ⟨by decide, isWordChar_of_mem_literalWord (by decide), hleft, hstop⟩
    exact .word (.null hrun String.ofList_toList)
  | integer n bound =>
    have hdigit : ∀ c ∈ Nat.toDigits 10 n, c.isDigit = true :=
      fun c hc => Nat.isDigit_of_mem_toDigits (by decide) (by decide) hc
    have hvalue : Nat.ofDigitChars 10 (Nat.toDigits 10 n) 0 = n := Nat.ofDigitChars_ten_toDigits
    have hrun : MaximalRun isWordChar before (Nat.toDigits 10 n) after :=
      ⟨Nat.toDigits_ne_nil, fun c hc => isWordChar_of_isDigit (hdigit c hc), hleft, hstop⟩
    have hspells : SpellsWord isKeyword before (Nat.toDigits 10 n) after
        ⟨.integer, some (.integer (Nat.ofDigitChars 10 (Nat.toDigits 10 n) 0))⟩ :=
      .integer hrun hdigit (ne_point_of_isBlank hafter) (by rwa [hvalue])
    rw [hvalue] at hspells
    exact .word hspells
  | character c => exact .character (isCharacter_quoted hstop c)
  | string s => exact .string (isString_quoted hstop s)
  | sign s mem => exact .sign (isSign_spelling mem hafter)

/-- Every lexeme that code spells, headers and decimals aside, is that of an atom. -/
theorem exists_of_spells {isKeyword : String → Bool} {before text after : List Char}
    {l : Lexeme} (h : Spells isKeyword before text after l) (hheader : l.kind ≠ .header)
    (hdecimal : l.kind ≠ .decimal) : ∃ a : Atom, a.lexeme isKeyword = l := by
  cases h with
  | word hw =>
    cases hw with
    | boolean b _ _ => exact ⟨.boolean b, rfl⟩
    | null _ _ => exact ⟨.null, rfl⟩
    | keyword hrun hletter hfree hkeyword =>
      exact ⟨.name ⟨text, hrun.all, hletter, hfree⟩, by rw [lexeme, hkeyword]; rfl⟩
    | identifier hrun hletter hfree hkeyword =>
      exact ⟨.name ⟨text, hrun.all, hletter, hfree⟩, by rw [lexeme, hkeyword]; rfl⟩
    | integer _ _ _ hbound => exact ⟨.integer _ hbound, rfl⟩
    | decimal _ _ _ _ _ _ => exact absurd rfl hdecimal
  | @character x _ => exact ⟨.character x, rfl⟩
  | @string s _ => exact ⟨.string s, rfl⟩
  | @sign s hs => exact ⟨.sign s hs.mem, rfl⟩
  | header _ _ _ _ => exact absurd rfl hheader

theorem modeBehind_lexeme (isKeyword : String → Bool) (a : Atom) :
    (a.lexeme isKeyword).modeBehind = .code := by
  cases a with
  | name n =>
    show (if (if isKeyword (String.ofList n.text) then Kind.keyword else .identifier) = .header
      then Mode.header else .code) = .code
    cases isKeyword (String.ofList n.text) <;> rfl
  | sign s mem => exact (sign_ends mem).2
  | boolean _ => rfl
  | null => rfl
  | integer _ _ => rfl
  | character _ => rfl
  | string _ => rfl

theorem head_spelling (a : Atom) :
    ∃ c tail, a.spelling = c :: tail ∧ isBlank c = false := by
  have hspells : Spells (fun _ => false) [] a.spelling [] (a.lexeme fun _ => false) :=
    a.spells _ (by simp) (by simp)
  obtain ⟨c, tail, htext, hstep⟩ := hspells.step_eq_ok
  refine ⟨c, tail, htext, ?_⟩
  -- A blank would be stepped over without a lexeme.
  by_contra hblank
  rw [Bool.not_eq_false] at hblank
  simp [stepCode, hblank] at hstep

end Atom

/-! ### Lines -/

theorem head_code {atoms : List Atom} (h : atoms ≠ []) :
    ∃ c rest, code atoms = c :: rest ∧ isBlank c = false := by
  cases atoms with
  | nil => exact absurd rfl h
  | cons a atoms =>
    obtain ⟨c, tail, htext, hblank⟩ := a.head_spelling
    cases atoms with
    | nil => exact ⟨c, tail, htext, hblank⟩
    | cons b atoms =>
      refine ⟨c, tail ++ ' ' :: code (b :: atoms), ?_, hblank⟩
      rw [code, htext, List.cons_append]

/-- A row of atoms is read as their lexemes. -/
theorem lineReads_code (isKeyword : String → Bool) (atoms : List Atom) {before : List Char}
    (hbefore : ∀ c ∈ before.getLast?, isBlank c = true) :
    ∃ found, LineReads isKeyword before .code (code atoms) found .code ∧
      found.map Placed.lexeme = atoms.map (Atom.lexeme isKeyword) := by
  -- The blank behind an atom is what stands before the next one.
  induction atoms generalizing before with
  | nil => exact ⟨[], .nil, rfl⟩
  | cons a atoms ih =>
    cases atoms with
    | nil =>
      have hread : Reads isKeyword before .code a.spelling [] (some (a.lexeme isKeyword))
          (a.lexeme isKeyword).modeBehind := .lexeme (a.spells isKeyword hbefore (by simp))
      rw [a.modeBehind_lexeme] at hread
      have hline := LineReads.cons hread .nil
      rw [List.append_nil] at hline
      exact ⟨_, hline, rfl⟩
    | cons b atoms =>
      have hread : Reads isKeyword before .code a.spelling (' ' :: code (b :: atoms))
          (some (a.lexeme isKeyword)) (a.lexeme isKeyword).modeBehind :=
        .lexeme (a.spells isKeyword hbefore (by rintro c ⟨⟩; decide))
      rw [a.modeBehind_lexeme] at hread
      have hbehind : ∀ c ∈ (before ++ a.spelling ++ [' ']).getLast?, isBlank c = true := by
        rw [List.getLast?_concat]
        rintro c ⟨⟩
        decide
      obtain ⟨found, hfound, hlexemes⟩ := ih hbehind
      have hblank : LineReads isKeyword (before ++ a.spelling) .code
          ([' '] ++ code (b :: atoms)) found .code :=
        .cons (l := none) (.blank (by decide)) hfound
      refine ⟨_, .cons hread hblank, ?_⟩
      show a.lexeme isKeyword :: found.map Placed.lexeme = _
      rw [hlexemes]
      rfl

/-- A margin in front of a row of atoms says nothing. -/
theorem lineReads_margin_code (isKeyword : String → Bool) (atoms : List Atom)
    {before margin : List Char} (hbefore : ∀ c ∈ before.getLast?, isBlank c = true)
    (hmargin : ∀ c ∈ margin, isMargin c = true) :
    ∃ found, LineReads isKeyword before .code (margin ++ code atoms) found .code ∧
      found.map Placed.lexeme = atoms.map (Atom.lexeme isKeyword) := by
  induction margin generalizing before with
  | nil => exact lineReads_code isKeyword atoms hbefore
  | cons c margin ih =>
    have hblank : isBlank c = true := isBlank_of_isMargin (hmargin c (by simp))
    have hbehind : ∀ d ∈ (before ++ [c]).getLast?, isBlank d = true := by
      rw [List.getLast?_concat]
      rintro d ⟨⟩
      exact hblank
    obtain ⟨found, hfound, hlexemes⟩ := ih hbehind (fun d hd => hmargin d (by simp [hd]))
    have hline : LineReads isKeyword before .code ([c] ++ (margin ++ code atoms)) found .code :=
      .cons (l := none) (.blank hblank) hfound
    exact ⟨found, hline, hlexemes⟩

end Offside.Scan
