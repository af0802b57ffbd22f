import Offside.Proofs.Scan.Comments
import Offside.Proofs.Scan.LineBreaks
import Offside.Proofs.Scan.PlainReading
import Offside.Proofs.Scan.Writing

/-!
# `Offside.Proofs.Scan.Continuing`: text that is added to a line

A line can be read before its last characters are known, as long as these begin with a blank. Every
piece of it stays the piece it is (`Reads.append`), because words, numbers and signs stop at a
blank, and what follows is read in the mode that the line has ended in (`lexemes_append_text`).
There are two exceptions, which take the rest of their line whatever it is: a header and a comment
to the end of the line.

`Continuable` says of a line behind others that it has neither, and `readLine_append` reads a
line that goes on. Where the line stands in the layout of the program is settled by its first
characters (`Boundary.append`).
-/

set_option autoImplicit false

namespace Offside.Scan

open Offside.Text

/-! ### Pieces in front of a blank -/

section Pieces

variable {isKeyword : String → Bool} {before text after more : List Char}

theorem StopsAt.append {p : Char → Bool} (h : StopsAt p after) (hmore : StopsAt p more) :
    StopsAt p (after ++ more) := by
  intro c hc
  cases after with
  | nil => exact hmore c hc
  | cons d after => exact h c hc

theorem MaximalRun.append {p : Char → Bool} (h : MaximalRun p before text after)
    (hmore : StopsAt p more) : MaximalRun p before text (after ++ more) :=
  ⟨h.ne_nil, h.all, h.left, h.right.append hmore⟩

theorem ne_point_append (h : after.head? ≠ some '.')
    (hmore : ∀ c ∈ more.head?, isBlank c = true) : (after ++ more).head? ≠ some '.' := by
  cases after with
  | nil => exact ne_point_of_isBlank hmore
  | cons d after => exact h

theorem SpellsWord.append {l : Lexeme} (h : SpellsWord isKeyword before text after l)
    (hmore : ∀ c ∈ more.head?, isBlank c = true) :
    SpellsWord isKeyword before text (after ++ more) l := by
  have hstop : StopsAt isWordChar more := stopsAt_of_isBlank (fun _ => isWordChar_of_isBlank) hmore
  cases h with
  | boolean b hrun hword => exact .boolean b (hrun.append hstop) hword
  | null hrun hword => exact .null (hrun.append hstop) hword
  | keyword hrun hletter hfree hkeyword =>
    exact .keyword (hrun.append hstop) hletter hfree hkeyword
  | identifier hrun hletter hfree hkeyword =>
    exact .identifier (hrun.append hstop) hletter hfree hkeyword
  | integer hrun hdigit hpoint hbound =>
    exact .integer (hrun.append hstop) hdigit (ne_point_append hpoint hmore) hbound
  | decimal htext hne hdigit hleft hright hpoint =>
    exact .decimal htext hne hdigit hleft (hright.append hstop) (ne_point_append hpoint hmore)

theorem IsSign.append {s : Sign} (h : IsSign after text s)
    (hmore : ∀ c ∈ more.head?, isBlank c = true) : IsSign (after ++ more) text s where
  mem := h.mem
  spelling := h.spelling
  longest t ht hprefix := by
    rw [← List.append_assoc] at hprefix
    exact h.longest t ht (prefix_of_prefix_append (spelling_not_blank ht) hmore hprefix)
  unmarked mark hmark hprefix := by
    rw [← List.append_assoc] at hprefix
    exact h.unmarked mark hmark (prefix_of_prefix_append (mark_not_blank hmark) hmore hprefix)

theorem IsCharacter.append {x : Char} (h : IsCharacter after text x)
    (hmore : StopsAt isWordChar more) : IsCharacter (after ++ more) text x := by
  cases h with
  | mk hbody hstop => exact .mk hbody (hstop.append hmore)

theorem IsString.append {s : String} (h : IsString after text s)
    (hmore : StopsAt isWordChar more) : IsString (after ++ more) text s := by
  cases h with
  | mk hbody hstop => exact .mk hbody (hstop.append hmore)

theorem Spells.append {l : Lexeme} (h : Spells isKeyword before text after l)
    (hmore : ∀ c ∈ more.head?, isBlank c = true) :
    Spells isKeyword before text (after ++ more) l := by
  have hstop : StopsAt isWordChar more := stopsAt_of_isBlank (fun _ => isWordChar_of_isBlank) hmore
  cases h with
  | word hw => exact .word (hw.append hmore)
  | character hx => exact .character (hx.append hstop)
  | string hs => exact .string (hs.append hstop)
  | sign hs => exact .sign (hs.append hmore)
  | header htext hne hall hright =>
    refine .header htext hne hall (hright.append (stopsAt_of_isBlank ?_ hmore))
    intro c hc
    simp [isHeaderChar, hc]

/-- Whether a kind leaves room for more code behind it on its line. A header and a comment to
the end of the line do not. -/
def leavesRoom (kind : Kind) : Bool := kind != .header && kind != .singleComment

/-- A piece of code or of a block comment is the same piece in front of a blank that is added to
its line. -/
theorem Reads.append {mode next : Mode} {l : Option Lexeme}
    (h : Reads isKeyword before mode text after l next) (hmode : mode ≠ .header)
    (hl : ∀ x ∈ l, leavesRoom x.kind = true) (hmore : ∀ c ∈ more.head?, isBlank c = true) :
    Reads isKeyword before mode text (after ++ more) l next ∧ next ≠ .header := by
  cases h with
  | blank hc => exact ⟨.blank hc, hmode⟩
  | @lexeme _ _ x hx =>
    refine ⟨.lexeme (hx.append hmore), ?_⟩
    have hkind : x.kind ≠ .header := by
      intro hk
      have hroom := hl x rfl
      rw [hk] at hroom
      cases hroom
    rw [Lexeme.modeBehind, if_neg hkind]
    exact fun hm => nomatch hm
  | lineComment => exact absurd (hl _ rfl) (by decide)
  | blockOpen => exact ⟨.blockOpen, fun hm => nomatch hm⟩
  | @blockBody c _ hopen =>
    refine ⟨.blockBody fun hprefix => hopen ?_, hmode⟩
    rw [← List.cons_append] at hprefix
    exact prefix_of_prefix_append (by decide) hmore hprefix
  | blockClose => exact ⟨.blockClose, fun hm => nomatch hm⟩
  | argumentBlank _ => exact absurd rfl hmode
  | argument _ => exact absurd rfl hmode

end Pieces

/-! ### Lines that go on -/

/-- A placed lexeme on a line with more text at its end. -/
def Placed.followedBy (more : List Char) (p : Placed) : Placed := ⟨p.lexeme, p.text ++ more⟩

/-- A line that goes on is read as it was, and then in the mode that it ended in. -/
theorem lexemes_append_text {isKeyword : String → Bool} {before text more : List Char}
    {mode last : Mode} {found : List Placed}
    (h : LineReads isKeyword before mode text found last) (hmode : mode ≠ .header)
    (hroom : ∀ p ∈ found, leavesRoom p.lexeme.kind = true)
    (hmore : ∀ c ∈ more.head?, isBlank c = true) :
    last ≠ .header ∧
      lexemes isKeyword mode (text ++ more) =
        (lexemes isKeyword last more).map
          (fun p => (found.map (Placed.followedBy more) ++ p.1, p.2)) := by
  induction h with
  | nil =>
    refine ⟨hmode, ?_⟩
    rw [List.nil_append]
    cases lexemes isKeyword _ more <;> rfl
  | @cons before text after mode next last l found hreads _ ih =>
    rw [placeFirst_append] at hroom
    have hl : ∀ x ∈ l, leavesRoom x.kind = true := by
      rintro x rfl
      exact hroom ⟨x, text ++ after⟩ (by simp [placeFirst])
    obtain ⟨hreads', hnext⟩ := hreads.append hmode hl hmore
    obtain ⟨hlast, hrest⟩ := ih hnext fun p hp => hroom p (by simp [hp])
    refine ⟨hlast, ?_⟩
    rw [List.append_assoc, lexemes_append hreads', hrest]
    cases lexemes isKeyword last more with
    | error fault => rfl
    | ok p => cases l <;> simp [Except.map, placeFirst, Placed.followedBy]

theorem column_append_text (line text more : List Char) :
    column (line ++ more) (text ++ more) = column line text := by
  simp only [column, List.length_append]
  omega

theorem lineTokens_followedBy (number : Nat) (line more : List Char) (found : List Placed) :
    lineTokens number (line ++ more) (found.map (Placed.followedBy more)) =
      lineTokens number line found := by
  rw [lineTokens, lineTokens, List.map_map]
  refine List.map_congr_left fun p _ => ?_
  show (⟨p.lexeme.kind, p.lexeme.literal, number, column (line ++ more) (p.text ++ more)⟩ : Token) =
    ⟨p.lexeme.kind, p.lexeme.literal, number, column line p.text⟩
  rw [column_append_text]

/-- What is added to a line adds its own tokens and decides the mode at the end. -/
theorem readLine_append {isKeyword : String → Bool} {line more : List Char} {mode last : Mode}
    {found : List Placed} (number : Nat) (h : LineReads isKeyword [] mode line found last)
    (hmode : mode ≠ .header) (hroom : ∀ p ∈ found, leavesRoom p.lexeme.kind = true)
    (hmore : ∀ c ∈ more.head?, isBlank c = true) :
    readLine isKeyword number mode (line ++ more) =
      match lexemes isKeyword last more with
      | .error fault => .error (fault.error number (line ++ more))
      | .ok (added, next) =>
        .ok (lineTokens number line found ++ lineTokens number (line ++ more) added, next) := by
  rw [readLine, (lexemes_append_text h hmode hroom hmore).2]
  cases lexemes isKeyword last more with
  | error fault => rfl
  | ok p =>
    simp only [Except.map]
    rw [← lineTokens_followedBy number line more found, lineTokens, lineTokens, lineTokens,
      List.map_append]

/-! ### The margin of a line that goes on -/

/-- The margin of a line that holds more than blanks ends on the line. -/
theorem margin_append {line : List Char} (hvisible : allBlank line = false) (more : List Char) :
    (line ++ more).takeWhile isMargin = line.takeWhile isMargin ∧
      (line ++ more).dropWhile isMargin = line.dropWhile isMargin ++ more ∧
      (line.dropWhile isMargin ++ more).head? = (line.dropWhile isMargin).head? := by
  have hline : line.takeWhile isMargin ++ line.dropWhile isMargin = line :=
    List.takeWhile_append_dropWhile
  have hne : line.dropWhile isMargin ≠ [] := by
    intro hnil
    rw [hnil, List.append_nil] at hline
    have hblank : allBlank line = true := by
      rw [← hline]
      exact List.all_eq_true.2 fun c hc => isBlank_of_isMargin (all_of_mem_takeWhile c hc)
    rw [hvisible] at hblank
    cases hblank
  have hhead : (line.dropWhile isMargin ++ more).head? = (line.dropWhile isMargin).head? :=
    List.head?_append_of_ne_nil _ hne
  have hstop : StopsAt isMargin (line.dropWhile isMargin ++ more) := by
    intro c hc
    rw [hhead] at hc
    exact stopsAt_dropWhile isMargin line c hc
  have hsplit : line ++ more =
      line.takeWhile isMargin ++ (line.dropWhile isMargin ++ more) := by
    rw [← List.append_assoc, hline]
  refine ⟨?_, ?_, hhead⟩
  · rw [hsplit]
    exact takeWhile_append_of_stopsAt all_of_mem_takeWhile hstop
  · rw [hsplit]
    exact dropWhile_append_of_stopsAt all_of_mem_takeWhile hstop

theorem measure_append {unit : Option Nat} {line : List Char} {r : Nat × Option Nat}
    (hvisible : allBlank line = false) (h : measure unit line = .ok r) (more : List Char) :
    measure unit (line ++ more) = .ok r := by
  obtain ⟨htake, hdrop, hhead⟩ := margin_append hvisible more
  unfold measure at h ⊢
  simp only [htake, hdrop, hhead] at h ⊢
  -- What is added shows in the faults only.
  split at h
  · cases h
  rename_i hblank
  rw [if_neg hblank]
  split at h
  · rename_i hspaces
    rw [if_pos hspaces]
    exact h
  rename_i hspaces
  rw [if_neg hspaces]
  split at h
  · rename_i hwhole
    rw [if_pos hwhole]
    exact h
  · cases h

/-- What happens before a line does not depend on how it goes on. -/
theorem Boundary.append {settings : Settings} {s s' : State} {line : List Char}
    {layout : List Token} (h : Boundary settings s line s' layout)
    (hvisible : allBlank line = false) (more : List Char) :
    Boundary settings s (line ++ more) s' layout := by
  cases h with
  | joined hjoin => exact .joined hjoin
  | blank _ _ hblank =>
    rw [hvisible] at hblank
    cases hblank
  | measured hlines hjoin _ hmeasure =>
    have hblank : allBlank (line ++ more) = false := by
      rw [allBlank, List.all_append]
      rw [allBlank] at hvisible
      rw [hvisible, Bool.false_and]
    exact .measured hlines hjoin hblank (measure_append hvisible hmeasure more)

/-! ### Lines of a program -/

/-- A line of a program that can go on. It has no fault and holds more than blanks, and among the
tokens on it, with the marks of comments shown, is neither a header nor a comment to the end of the
line. -/
structure Continuable (settings : Settings) (front : List (List Char)) (line : List Char) :
    Prop where
  /-- The line holds more than blanks. -/
  visible : allBlank line = false
  /-- All its tokens leave room. -/
  plain : ∃ tokens,
    emitted { settings with emitComments := true } (front ++ [line]) = .ok tokens ∧
      ∀ t ∈ tokens, t.line = front.length + 1 → leavesRoom t.kind = true

/-- A line that can go on, behind a state: what happens before it and what is read from it. -/
structure GoesOn (settings : Settings) (s : State) (line : List Char) (s₁ : State)
    (layout : List Token) (found : List Placed) (last : Mode) : Prop where
  visible : allBlank line = false
  boundary : Boundary settings s line s₁ layout
  reads : LineReads settings.isKeyword [] (if s.inComment then .comment else .code) line found
    last
  room : ∀ p ∈ found, leavesRoom p.lexeme.kind = true

/-- A run is the run that shows the marks of comments, with the tokens that are shown. -/
theorem scanLines_shown (settings : Settings) (s : State) (lines : List (List Char)) :
    scanLines settings s lines =
      (scanLines { settings with emitComments := true } s lines).map
        (fun p => (p.1, shown settings p.2)) := by
  obtain ⟨width, shows, keywords, continuations⟩ := settings
  cases shows with
  | false => exact scanLines_hidden ⟨width, false, keywords, continuations⟩ s lines
  | true =>
    have hall (tokens : List Token) :
        shown ⟨width, true, keywords, continuations⟩ tokens = tokens := by simp [shown]
    simp only [hall]
    cases scanLines ⟨width, true, keywords, continuations⟩ s lines <;> rfl

theorem Continuable.goesOn {settings : Settings} {front : List (List Char)} {line : List Char}
    (h : Continuable settings front line) :
    ∃ s before s₁ layout found last,
      scanLines settings (State.start settings) front = .ok (s, before) ∧
        GoesOn settings s line s₁ layout found last := by
  obtain ⟨tokens, hemitted, hroom⟩ := h.plain
  obtain ⟨s', hrun⟩ := emitted_eq_ok_iff.1 hemitted
  obtain ⟨s, before, own, hfront, hline, rfl⟩ := scanLines_concat_eq_ok hrun
  obtain ⟨s₁, layout, found, last, hboundary, hreads, -, rfl⟩ := scanLine_eq_ok hline
  refine ⟨s, shown settings before, s₁, layout, found, last, ?_, h.visible, ?_, hreads, ?_⟩
  · rw [scanLines_shown]
    exact congrArg (Except.map _) hfront
  -- A boundary takes no notice of whether marks are shown.
  · have hsame : boundary { settings with emitComments := true } s line =
        boundary settings s line := rfl
    rw [← boundary_eq_ok_iff, hsame] at hboundary
    exact boundary_eq_ok_iff.1 hboundary
  · intro p hp
    refine hroom (p.token (s.lines + 1) line) ?_ ?_
    · have hmem : p.token (s.lines + 1) line ∈ lineTokens (s.lines + 1) line found :=
        List.mem_map_of_mem hp
      simp [shown, hmem]
    · show s.lines + 1 = front.length + 1
      rw [(run_lines hfront).1]

namespace GoesOn

variable {settings : Settings} {s s₁ : State} {line more : List Char} {layout : List Token}
  {found : List Placed} {last : Mode}

theorem scanLine_eq (h : GoesOn settings s line s₁ layout found last) :
    scanLine settings s line = .ok
      ({ s₁.seeAll (lineTokens (s.lines + 1) line found) with
          lines := s.lines + 1, width := line.length, inComment := last == .comment },
        layout ++ shown settings (lineTokens (s.lines + 1) line found)) :=
  scanLine_of_reads h.boundary h.reads

theorem mode_ne_header (inside : Bool) : (if inside then Mode.comment else .code) ≠ .header := by
  cases inside <;> decide

theorem last_ne_header (h : GoesOn settings s line s₁ layout found last) : last ≠ .header := by
  have hnil : ∀ c ∈ ([] : List Char).head?, isBlank c = true := by simp
  exact (lexemes_append_text h.reads (mode_ne_header s.inComment) h.room hnil).1

/-- A line that goes on has the tokens that it had, and those of what is added. -/
theorem scanLine_append (h : GoesOn settings s line s₁ layout found last)
    (hmore : ∀ c ∈ more.head?, isBlank c = true) :
    scanLine settings s (line ++ more) =
      match lexemes settings.isKeyword last more with
      | .error fault => .error (fault.error (s.lines + 1) (line ++ more))
      | .ok (added, next) =>
        let tokens := lineTokens (s.lines + 1) line found ++
          lineTokens (s.lines + 1) (line ++ more) added
        .ok ({ s₁.seeAll tokens with
            lines := s.lines + 1, width := (line ++ more).length, inComment := next == .comment },
          layout ++ shown settings tokens) := by
  rw [(h.boundary.append h.visible more).scanLine_eq,
    readLine_append (s.lines + 1) h.reads (mode_ne_header s.inComment) h.room hmore]
  cases lexemes settings.isKeyword last more <;> rfl

end GoesOn

/-! ### Blanks -/

/-- What begins with a space can be added to a line. -/
theorem isBlank_of_head_space {more : List Char} (h : more.head? = some ' ') :
    ∀ c ∈ more.head?, isBlank c = true := by
  intro c hc
  rw [h] at hc
  cases hc
  decide

/-- A blank says nothing in any mode. -/
theorem lexemes_blank (isKeyword : String → Bool) (mode : Mode) {c : Char}
    (hc : isBlank c = true) (text : List Char) :
    lexemes isKeyword mode (c :: text) = lexemes isKeyword mode text := by
  have hreads : Reads isKeyword [] mode [c] text none mode := by
    cases mode with
    | code => exact .blank hc
    | header => exact .argumentBlank hc
    | comment =>
      refine .blockBody fun hmark => ?_
      rw [← (List.cons_prefix_cons.1 hmark).1] at hc
      exact absurd hc (by decide)
  have hfirst := lexemes_append hreads
  rw [List.singleton_append] at hfirst
  rw [hfirst]
  cases lexemes isKeyword mode text <;> rfl

theorem lexemes_space (isKeyword : String → Bool) (mode : Mode) (text : List Char) :
    lexemes isKeyword mode (' ' :: text) = lexemes isKeyword mode text :=
  lexemes_blank isKeyword mode (by decide) text

end Offside.Scan
