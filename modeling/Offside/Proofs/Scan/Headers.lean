import Offside.Proofs.Scan.JoinedLines
import Offside.Proofs.Scan.Tiling

/-!
# `Offside.Proofs.Scan.Headers`: a header that is written down is read back

A header is written as `#` with a name and its arguments behind it, each behind some blanks. An
argument that is a word (`IsBare`) may stand as it is, and any other stands in double quotes. `scan`
reads the line back (`header_round_trip`): the name, the arguments in their order, and nothing else,
each where its spelling begins.

`Argument.spells` is about one argument between its blanks, and `lineReads_arguments` follows by
induction on the arguments. What is carried along is the line up to the next argument, because that
is what its column counts.
-/

set_option autoImplicit false

namespace Offside.Scan

open Offside.Text

/-! ### Headers -/

/-- A text that needs no quotes in a header: it is not empty and holds neither blanks nor quotes.
The marks of comments, `#`, signs and backslashes are characters like any other. -/
structure IsBare (text : List Char) : Prop where
  /-- There is a character. -/
  ne_nil : text ≠ []
  /-- None of its characters is a blank or a quote. -/
  chars : ∀ c ∈ text, isBlank c = false ∧ c ≠ '"' ∧ c ≠ '\''

/-- An argument of a header with the blanks in front of it. -/
structure Argument where
  blanks : List Char
  text : String
  isQuoted : Bool

namespace Argument

/-- An argument as it stands on its line. -/
def spelling (a : Argument) : List Char :=
  if a.isQuoted then quoted '"' a.text.toList else a.text.toList

/-- An argument that stands on its line as it should. -/
structure IsWritten (a : Argument) : Prop where
  /-- It is apart from what stands before it. -/
  apart : a.blanks ≠ []
  /-- Nothing but blanks is in between. -/
  blank : ∀ c ∈ a.blanks, isBlank c = true
  /-- If there are no quotes, none are needed. -/
  bare : a.isQuoted = false → IsBare a.text.toList

end Argument

/-- Arguments with their blanks. -/
def argumentsText (arguments : List Argument) : List Char :=
  arguments.flatMap fun a => a.blanks ++ a.spelling

/-- The line of a header. -/
def headerLine (name : List Char) (arguments : List Argument) : List Char :=
  '#' :: name ++ argumentsText arguments

/-- The tokens of arguments that stand behind a text on a line. -/
def argumentTokens (number : Nat) (before : List Char) : List Argument → List Token
  | [] => []
  | a :: arguments =>
    ⟨.string, some (.string a.text), number, (before ++ a.blanks).length + 1⟩ ::
      argumentTokens number (before ++ a.blanks ++ a.spelling) arguments

/-- The tokens of a header that begins its line. -/
def headerTokens (number : Nat) (name : List Char) (arguments : List Argument) : List Token :=
  ⟨.header, some (.string (String.ofList name)), number, 1⟩ ::
    argumentTokens number ('#' :: name) arguments

/-! ### One argument -/

theorem isHeaderChar_iff {c : Char} :
    isHeaderChar c = true ↔ isBlank c = false ∧ c ≠ '"' ∧ c ≠ '\'' := by
  simp [isHeaderChar, and_assoc]

theorem isHeaderChar_of_isBlank {c : Char} (h : isBlank c = true) : isHeaderChar c = false := by
  simp [isHeaderChar, h]

/-- An argument is spelled between blanks or nothing. -/
theorem Argument.IsWritten.spells {a : Argument} {before after : List Char} (h : a.IsWritten)
    (hbefore : ∀ c ∈ before.getLast?, isBlank c = true)
    (hafter : ∀ c ∈ after.head?, isBlank c = true) :
    SpellsArgument before a.spelling after ⟨.string, some (.string a.text)⟩ := by
  cases hquoted : a.isQuoted with
  -- The closing quote ends it, as long as no word follows.
  | true =>
    have hstop : StopsAt isWordChar after :=
      stopsAt_of_isBlank (fun _ => isWordChar_of_isBlank) hafter
    rw [Argument.spelling, if_pos hquoted]
    exact .string (isString_quoted hstop a.text)
  -- The blanks on both sides end it.
  | false =>
    obtain ⟨hne, hchars⟩ := h.bare hquoted
    have hrun : MaximalRun isHeaderChar before a.text.toList after :=
      ⟨hne, fun c hc => isHeaderChar_iff.2 (hchars c hc),
        fun c hc => isHeaderChar_of_isBlank (hbefore c hc),
        stopsAt_of_isBlank (fun _ => isHeaderChar_of_isBlank) hafter⟩
    have hspells : SpellsArgument before a.text.toList after
        ⟨.string, some (.string (String.ofList a.text.toList))⟩ := .bare hrun
    rw [String.ofList_toList] at hspells
    rwa [Argument.spelling, hquoted]

/-! ### Whole headers -/

/-- What follows an argument begins with a blank. -/
theorem isBlank_head_argumentsText {arguments : List Argument}
    (h : ∀ a ∈ arguments, a.IsWritten) :
    ∀ c ∈ (argumentsText arguments).head?, isBlank c = true := by
  cases arguments with
  | nil => simp [argumentsText]
  | cons a arguments =>
    obtain ⟨hapart, hblank, -⟩ := h a (by simp)
    obtain ⟨b, blanks, hblanks⟩ := List.exists_cons_of_ne_nil hapart
    rintro c hc
    rw [argumentsText, List.flatMap_cons, hblanks] at hc
    cases hc
    exact hblank b (by simp [hblanks])

/-- Blanks in a header say nothing. -/
theorem lineReads_blanks {isKeyword : String → Bool} {before blanks text : List Char}
    {found : List Placed} {last : Mode} (hblanks : ∀ c ∈ blanks, isBlank c = true)
    (h : LineReads isKeyword (before ++ blanks) .header text found last) :
    LineReads isKeyword before .header (blanks ++ text) found last := by
  induction blanks generalizing before with
  | nil => rwa [List.append_nil] at h
  | cons b blanks ih =>
    rw [← List.singleton_append, ← List.append_assoc] at h
    have hrest : LineReads isKeyword (before ++ [b]) .header (blanks ++ text) found last :=
      ih (fun c hc => hblanks c (by simp [hc])) h
    have hblank : Reads isKeyword before .header [b] (blanks ++ text) none .header :=
      .argumentBlank (hblanks b (by simp))
    exact .cons hblank hrest

/-- Arguments are read as what they are, each where its spelling begins. -/
theorem lineReads_arguments (isKeyword : String → Bool) (number : Nat) (before : List Char)
    {arguments : List Argument} (h : ∀ a ∈ arguments, a.IsWritten) :
    ∃ found, LineReads isKeyword before .header (argumentsText arguments) found .header ∧
      lineTokens number (before ++ argumentsText arguments) found =
        argumentTokens number before arguments := by
  induction arguments generalizing before with
  | nil => exact ⟨[], .nil, rfl⟩
  | cons a arguments ih =>
    -- The argument stands between its own blanks and those of the next one.
    have ha := h a (by simp)
    have hrest : ∀ b ∈ arguments, b.IsWritten := fun b hb => h b (by simp [hb])
    have hbefore : ∀ c ∈ (before ++ a.blanks).getLast?, isBlank c = true := by
      rw [List.getLast?_append_of_ne_nil _ ha.apart]
      exact fun c hc => ha.blank c (List.mem_of_getLast? hc)
    have hread : Reads isKeyword (before ++ a.blanks) .header a.spelling
        (argumentsText arguments) (some ⟨.string, some (.string a.text)⟩) .header :=
      .argument (ha.spells hbefore (isBlank_head_argumentsText hrest))
    obtain ⟨found, hfound, htokens⟩ := ih (before ++ a.blanks ++ a.spelling) hrest
    have htext : argumentsText (a :: arguments) =
        a.blanks ++ (a.spelling ++ argumentsText arguments) := by
      simp [argumentsText]
    rw [htext]
    refine ⟨_, lineReads_blanks ha.blank (.cons hread hfound), ?_⟩
    rw [← List.append_assoc, lineTokens_placeFirst, ← List.append_assoc, htokens]
    rfl

/-- A header is read as its name and its arguments. -/
theorem lineReads_header (isKeyword : String → Bool) (number : Nat) {name : List Char}
    {arguments : List Argument} (hname : IsBare name) (h : ∀ a ∈ arguments, a.IsWritten) :
    ∃ found, LineReads isKeyword [] .code (headerLine name arguments) found .header ∧
      lineTokens number (headerLine name arguments) found =
        headerTokens number name arguments := by
  have hchars : ∀ c ∈ name, isHeaderChar c = true :=
    fun c hc => isHeaderChar_iff.2 (hname.chars c hc)
  have hstop : StopsAt isHeaderChar (argumentsText arguments) :=
    stopsAt_of_isBlank (fun _ => isHeaderChar_of_isBlank) (isBlank_head_argumentsText h)
  have hread : Reads isKeyword [] .code ('#' :: name) (argumentsText arguments)
      (some ⟨.header, some (.string (String.ofList name))⟩) .header :=
    .lexeme (.header rfl hname.ne_nil hchars hstop)
  obtain ⟨found, hfound, htokens⟩ := lineReads_arguments isKeyword number ('#' :: name) h
  refine ⟨_, .cons hread hfound, ?_⟩
  show lineTokens number ([] ++ ('#' :: name ++ argumentsText arguments)) (placeFirst _ _ _) = _
  rw [lineTokens_placeFirst, List.nil_append, htokens]
  rfl

/-- No token of a header marks a comment. -/
theorem isComment_headerTokens (number : Nat) (name : List Char) (arguments : List Argument) :
    ∀ kind ∈ (headerTokens number name arguments).map Token.kind, kind.isComment = false := by
  have hstring (before : List Char) :
      ∀ kind ∈ (argumentTokens number before arguments).map Token.kind,
        kind.isComment = false := by
    induction arguments generalizing before with
    | nil => simp [argumentTokens]
    | cons a arguments ih => exact List.forall_mem_cons.2 ⟨rfl, ih _⟩
  exact List.forall_mem_cons.2 ⟨rfl, hstring _⟩

/-- A program of one line that ends in no block comment is its tokens and the end. -/
theorem scan_singleton_of_reads {settings : Settings} {line : List Char} {found : List Placed}
    {mode : Mode} (hreads : LineReads settings.isKeyword [] .code line found mode)
    (hmode : mode ≠ .comment) :
    scan settings [line] =
      .ok (shown settings (lineTokens 1 line found) ++ [⟨.eof, none, 1, line.length + 1⟩]) := by
  have hboundary : Boundary settings (State.start settings) line (State.start settings) [] :=
    .joined (.inl rfl)
  have hline := scanLine_of_reads hboundary hreads
  rw [← scanLines_singleton, List.nil_append] at hline
  have houtside : (mode == .comment) = false := beq_eq_false_iff_ne.2 hmode
  -- No line was measured, so there is nothing to close.
  have hdepth : ((State.start settings).seeAll (lineTokens 1 line found)).depth = 0 := by
    rw [State.seeAll_eq]
    rfl
  rw [scan_of_run hline houtside]
  show Except.ok (_ ++ closing (State.depth (State.seeAll _ (lineTokens 1 line found))) 1 _) = _
  rw [hdepth]
  rfl

/-- A header that is written down is read back: its name, its arguments in their order, quoted or
not, and the end of the program, each at the column where its spelling begins. -/
theorem header_round_trip (settings : Settings) {name : List Char} {arguments : List Argument}
    (hname : IsBare name) (h : ∀ a ∈ arguments, a.IsWritten) :
    scan settings [headerLine name arguments] =
      .ok (headerTokens 1 name arguments ++
        [⟨.eof, none, 1, (headerLine name arguments).length + 1⟩]) := by
  obtain ⟨found, hreads, htokens⟩ := lineReads_header settings.isKeyword 1 hname h
  obtain ⟨hshown, -⟩ := shown_of_no_comment settings (isComment_headerTokens 1 name arguments)
  rw [scan_singleton_of_reads hreads (by decide), htokens, hshown]

/-- Two words full of marks that mean something in code, behind different blanks, a text that needs
its quotes, and an empty one. -/
theorem header_round_trip_marks :
    scan {} ["#load a//b\\\t #/*+ \"q\\\"\\\\ //\" \"\"".toList] = .ok
      [⟨.header, some (.string "load"), 1, 1⟩, ⟨.string, some (.string "a//b\\"), 1, 7⟩,
        ⟨.string, some (.string "#/*+"), 1, 14⟩, ⟨.string, some (.string "q\"\\ //"), 1, 19⟩,
        ⟨.string, some (.string ""), 1, 30⟩, ⟨.eof, none, 1, 32⟩] := by
  have bare {text : List Char} (hne : text ≠ [])
      (h : text.all (fun c => !isBlank c && c != '"' && c != '\'') = true) : IsBare text :=
    ⟨hne, fun c hc => isHeaderChar_iff.1 (List.all_eq_true.1 h c hc)⟩
  have path : Argument.IsWritten ⟨[' '], "a//b\\", false⟩ :=
    ⟨by decide, List.all_eq_true.1 (by decide), fun _ => bare (by decide) (by decide)⟩
  have marks : Argument.IsWritten ⟨['\t', ' '], "#/*+", false⟩ :=
    ⟨by decide, List.all_eq_true.1 (by decide), fun _ => bare (by decide) (by decide)⟩
  have needy : Argument.IsWritten ⟨[' '], "q\"\\ //", true⟩ :=
    ⟨by decide, List.all_eq_true.1 (by decide), by simp⟩
  have empty : Argument.IsWritten ⟨[' '], "", true⟩ :=
    ⟨by decide, List.all_eq_true.1 (by decide), by simp⟩
  have written := List.forall_mem_cons.2 ⟨path, List.forall_mem_cons.2
    ⟨marks, List.forall_mem_cons.2 ⟨needy, List.forall_mem_singleton.2 empty⟩⟩⟩
  have name : IsBare "load".toList := bare (by decide) (by decide)
  exact header_round_trip {} name written

end Offside.Scan
