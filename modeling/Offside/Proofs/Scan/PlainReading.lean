import Offside.Proofs.Scan.Indentation

/-!
# `Offside.Proofs.Scan.PlainReading`: a program without its layout

`readText` reads lines as text alone. It knows the keywords and whether a block comment is open,
and has neither statements nor indentation. A scan is the plain reading with layout put between
its lines:

* `scan_eq_ok_reads`: where a scan succeeds, so does the reading, and the tokens of the scan that
  are no layout are those of the reading.
* `scan_eq_error_reads`: where a scan fails, the reading fails with the same error, unless it was
  the indentation that failed, on a line not behind the one where the reading fails.

The width of the indentation and the tokens that let a statement run on do not occur in `readText`,
so nothing but layout and its faults can depend on them. `layout_settings_neutral` says so for any
two settings that differ in these.
-/

set_option autoImplicit false

namespace Offside.Scan

open Offside.Text

/-! ### Reading lines as text alone -/

/-- Whether a cause is a fault of the indentation. -/
def Cause.isIndentation : Cause → Bool
  | illegalWhitespace | inconsistentIndentation _ _ => true
  | _ => false

/-- The tokens that are no layout. -/
def withoutLayout (tokens : List Token) : List Token :=
  tokens.filter (fun t => !t.kind.isLayout)

/-- Reads the line of a number: its tokens, the marks of comments among them, and the mode that it
ends in. -/
def readLine (isKeyword : String → Bool) (number : Nat) (mode : Mode) (line : List Char) :
    Except Error (List Token × Mode) :=
  match lexemes isKeyword mode line with
  | .error fault => .error (fault.error number line)
  | .ok (found, last) => .ok (lineTokens number line found, last)

/-- Reads lines in turn behind so many others that end in a mode. -/
def readLines (isKeyword : String → Bool) (number : Nat) (mode : Mode) :
    List (List Char) → Except Error (List Token × Mode)
  | [] => .ok ([], mode)
  | line :: lines =>
    match readLine isKeyword (number + 1) mode.carried line with
    | .error e => .error e
    | .ok (tokens, next) =>
      match readLines isKeyword (number + 1) next lines with
      | .error e => .error e
      | .ok (more, last) => .ok (tokens ++ more, last)

/-- Reads all lines of a program, which must not end inside a block comment, and `EOF`. -/
def readText (isKeyword : String → Bool) (lines : List (List Char)) :
    Except Error (List Token) :=
  match readLines isKeyword 0 .code lines with
  | .error e => .error e
  | .ok (tokens, mode) =>
    if mode = .comment then .error ⟨lines.length, none, .unterminatedComment⟩
    else .ok (tokens ++
      [⟨.eof, none, max lines.length 1, (lines.getLast?.getD []).length + 1⟩])

theorem LineReads.readLine_eq_ok {isKeyword : String → Bool} {mode last : Mode}
    {line : List Char} {found : List Placed}
    (h : LineReads isKeyword [] mode line found last) (number : Nat) :
    readLine isKeyword number mode line = .ok (lineTokens number line found, last) := by
  rw [readLine, h.lexemes_eq_ok]

/-- A line that fails names itself. -/
theorem line_of_readLine_eq_error {isKeyword : String → Bool} {number : Nat} {mode : Mode}
    {line : List Char} {e : Error} (h : readLine isKeyword number mode line = .error e) :
    e.line = number := by
  unfold readLine at h
  split at h
  · cases h
    rfl
  · cases h

theorem readLines_append_of_ok {isKeyword : String → Bool} {number : Nat} {mode next : Mode}
    {xs : List (List Char)} {front : List Token}
    (h : readLines isKeyword number mode xs = .ok (front, next)) (ys : List (List Char)) :
    readLines isKeyword number mode (xs ++ ys) =
      (readLines isKeyword (number + xs.length) next ys).map
        (fun p => (front ++ p.1, p.2)) := by
  induction xs generalizing number mode front with
  | nil =>
    cases h
    simp only [List.nil_append, List.length_nil, Nat.add_zero]
    cases readLines isKeyword number next ys <;> rfl
  | cons line xs ih =>
    rw [readLines] at h
    split at h
    · cases h
    · rename_i own middle hline
      split at h
      · cases h
      · rename_i more last hmore
        cases h
        rw [List.cons_append, readLines, hline]
        simp only [ih hmore, List.length_cons]
        rw [show number + 1 + xs.length = number + (xs.length + 1) by omega]
        cases readLines isKeyword (number + (xs.length + 1)) next ys with
        | error e => rfl
        | ok p => simp [Except.map]

/-- A reading fails on a line of its own. -/
theorem line_of_readLines_eq_error {isKeyword : String → Bool} {number : Nat} {mode : Mode}
    {lines : List (List Char)} {e : Error}
    (h : readLines isKeyword number mode lines = .error e) : number < e.line := by
  induction lines generalizing number mode with
  | nil => cases h
  | cons line lines ih =>
    rw [readLines] at h
    split at h
    · rename_i e' hline
      cases h
      rw [line_of_readLine_eq_error hline]
      exact Nat.lt_succ_self number
    · split at h
      · rename_i e' hlines
        cases h
        exact Nat.lt_of_succ_lt (ih hlines)
      · cases h

/-! ### Scans read their lines -/

/-- Measuring fails at the indentation. -/
theorem measure_eq_error {unit : Option Nat} {line : List Char} {fault : Fault}
    (h : measure unit line = .error fault) : fault.cause.isIndentation = true := by
  rcases measure_eq_error_cases h with ⟨_, _, _, _, _, _, _, _, rfl⟩ | ⟨_, _, _, _, rfl⟩ <;> rfl

theorem withoutLayout_append (xs ys : List Token) :
    withoutLayout (xs ++ ys) = withoutLayout xs ++ withoutLayout ys := List.filter_append xs ys

theorem Boundary.withoutLayout_eq_nil {settings : Settings} {s s' : State} {line : List Char}
    {layout : List Token} (h : Boundary settings s line s' layout) :
    withoutLayout layout = [] := by
  refine List.filter_eq_nil_iff.2 fun t ht => ?_
  simp [h.isLayout_of_mem ht]

/-- Behind its boundary a line is scanned by reading it. -/
theorem Boundary.scanLine_eq {settings : Settings} {s s₁ : State} {line : List Char}
    {layout : List Token} (h : Boundary settings s line s₁ layout) :
    scanLine settings s line =
      (readLine settings.isKeyword (s.lines + 1) (if s.inComment then .comment else .code)
        line).map (fun p => ({ s₁.seeAll p.1 with
          lines := s.lines + 1, width := line.length, inComment := p.2 == .comment },
        layout ++ shown settings p.1)) := by
  unfold scanLine readLine
  simp only [boundary_eq_ok_iff.2 h, h.inComment_eq]
  cases lexemes settings.isKeyword (if s.inComment then .comment else .code) line <;> rfl

/-- What is read from a line is no layout. -/
theorem LineReads.withoutLayout_shown {isKeyword : String → Bool} {mode last : Mode}
    {line : List Char} {found : List Placed}
    (h : LineReads isKeyword [] mode line found last) (settings : Settings) (number : Nat) :
    withoutLayout (shown settings (lineTokens number line found)) =
      shown settings (lineTokens number line found) := by
  refine List.filter_eq_self.2 fun t ht => ?_
  have htext := (h.of_mem_shown ht).1
  unfold isText at htext
  exact (Bool.and_eq_true_iff.1 htext).1

/-- The mode that a line begins in is what the mode at the end of the last one leaves. -/
theorem mode_carried (mode : Mode) :
    (if mode == .comment then Mode.comment else .code) = mode.carried := by
  cases mode <;> rfl

theorem shown_append (settings : Settings) (xs ys : List Token) :
    shown settings (xs ++ ys) = shown settings xs ++ shown settings ys := List.filter_append xs ys

/-- Lines that are scanned are read. -/
theorem readLines_of_scanLines {settings : Settings} {s s' : State} {mode : Mode}
    {lines : List (List Char)} {tokens : List Token} (hmode : s.inComment = (mode == .comment))
    (h : scanLines settings s lines = .ok (s', tokens)) :
    ∃ text last, readLines settings.isKeyword s.lines mode lines = .ok (text, last) ∧
      withoutLayout tokens = shown settings text ∧ s'.inComment = (last == .comment) := by
  induction lines generalizing s mode tokens with
  | nil =>
    cases h
    exact ⟨[], mode, rfl, rfl, hmode⟩
  | cons line lines ih =>
    obtain ⟨s₁, own, more, hline, hmore, rfl⟩ := scanLines_cons_eq_ok h
    obtain ⟨s₀, layout, found, next, hboundary, hreads, rfl, rfl⟩ := scanLine_eq_ok hline
    rw [hmode, mode_carried] at hreads
    obtain ⟨text, last, htext, hshown, hlast⟩ := ih rfl hmore
    refine ⟨lineTokens (s.lines + 1) line found ++ text, last, ?_, ?_, hlast⟩
    · rw [readLines, hreads.readLine_eq_ok]
      simp only [htext]
    · rw [withoutLayout_append, withoutLayout_append, hboundary.withoutLayout_eq_nil,
        hreads.withoutLayout_shown, hshown, shown_append]
      rfl

theorem readLines_of_run {settings : Settings} {lines : List (List Char)} {s : State}
    {tokens : List Token}
    (h : scanLines settings (State.start settings) lines = .ok (s, tokens)) :
    ∃ text last, readLines settings.isKeyword 0 .code lines = .ok (text, last) ∧
      withoutLayout tokens = shown settings text ∧ s.inComment = (last == .comment) := by
  have hstart : (State.start settings).inComment = (Mode.code == .comment) := rfl
  exact readLines_of_scanLines hstart h

/-- Where a run fails, the reading of its lines does, unless the indentation of a line failed
first. -/
theorem readLines_of_failed_run {settings : Settings} {lines : List (List Char)} {e : Error}
    (h : scanLines settings (State.start settings) lines = .error e) :
    readLines settings.isKeyword 0 .code lines = .error e ∨
      e.cause.isIndentation = true ∧
        ∀ f, readLines settings.isKeyword 0 .code lines = .error f → e.line ≤ f.line := by
  obtain ⟨front, line, rest, s, tokens, rfl, hfront, hline⟩ := scanLines_eq_error h
  obtain ⟨text, mode, htext, -, hmode⟩ := readLines_of_run hfront
  -- The reading passes the same lines without fault.
  have hsplit := readLines_append_of_ok htext (line :: rest)
  rw [Nat.zero_add, ← (run_lines hfront).1] at hsplit
  obtain ⟨fault, rfl, hboundary | ⟨-, hfault⟩⟩ := scanLine_eq_error hline
  · refine .inr ⟨measure_eq_error (boundary_eq_error_iff.1 hboundary).2.2.2, fun f hf => ?_⟩
    rw [hsplit] at hf
    cases hrest : readLines settings.isKeyword s.lines mode (line :: rest) with
    | ok p =>
      rw [hrest] at hf
      cases hf
    | error f' =>
      rw [hrest] at hf
      cases hf
      exact line_of_readLines_eq_error hrest
  · rw [hmode, mode_carried] at hfault
    refine .inl ?_
    rw [hsplit, readLines, readLine, hfault]
    rfl

/-! ### Programs -/

theorem withoutLayout_closing (depth line column : Nat) :
    withoutLayout (closing depth line column) = [⟨.eof, none, line, column⟩] := by
  have hsteps : withoutLayout (List.replicate depth ⟨.dedent, none, line, column⟩) = [] := by
    refine List.filter_eq_nil_iff.2 fun t ht => ?_
    rw [List.eq_of_mem_replicate ht]
    simp [Kind.isLayout]
  rw [closing, withoutLayout_append, hsteps]
  rfl

/-- What a scan finds besides layout is what its lines say as text alone. -/
theorem scan_eq_ok_reads {settings : Settings} {lines : List (List Char)}
    {tokens : List Token} (h : scan settings lines = .ok tokens) :
    ∃ text, readText settings.isKeyword lines = .ok text ∧
      withoutLayout tokens = shown settings text := by
  obtain ⟨s, front, hrun, houtside, rfl⟩ := scan_eq_ok h
  obtain ⟨text, mode, htext, hshown, hmode⟩ := readLines_of_run hrun
  obtain ⟨hcount, hwidth⟩ := run_lines hrun
  have hlast : mode ≠ .comment := by simpa [houtside] using hmode
  refine ⟨text ++ [⟨.eof, none, max lines.length 1, (lines.getLast?.getD []).length + 1⟩], ?_, ?_⟩
  · unfold readText
    rw [htext]
    exact if_neg hlast
  · rw [withoutLayout_append, hshown, withoutLayout_closing, shown_append, hcount, hwidth]
    simp [shown, Kind.isComment]

/-- A scan fails where its lines do as text alone, or before that at their indentation. -/
theorem scan_eq_error_reads {settings : Settings} {lines : List (List Char)} {e : Error}
    (h : scan settings lines = .error e) :
    readText settings.isKeyword lines = .error e ∨
      e.cause.isIndentation = true ∧
        ∀ f, readText settings.isKeyword lines = .error f → e.line ≤ f.line := by
  unfold readText
  rcases scan_eq_error_cases h with hrun | ⟨s, tokens, hrun, hinside, rfl⟩
  · rcases readLines_of_failed_run hrun with hreads | ⟨hcause, hfirst⟩
    · rw [hreads]
      exact .inl rfl
    · refine .inr ⟨hcause, fun f hf => ?_⟩
      split at hf
      · rename_i f' hreads
        cases hf
        exact hfirst f hreads
      -- The end of the input is behind every line.
      · split at hf
        · cases hf
          simpa [State.start] using (line_of_scanLines_eq_error hrun).2
        · cases hf
  · obtain ⟨text, mode, htext, -, hmode⟩ := readLines_of_run hrun
    have hlast : mode = .comment := by simpa [hinside] using hmode
    rw [htext]
    exact .inl (if_pos hlast)

/-- Settings of the layout never touch the text. Let two settings have the same keywords and show
the marks of comments alike. Where both scans succeed, their tokens are the same but for `NEWLINE`,
`INDENT` and `DEDENT`. Where one of them fails, and not at the indentation, the other one fails with
the same error, or at the indentation of a line not behind it. -/
theorem layout_settings_neutral {a b : Settings} (hmarks : a.emitComments = b.emitComments)
    (hkeywords : ∀ word, a.isKeyword word = b.isKeyword word) (lines : List (List Char)) :
    (∀ xs ys, scan a lines = .ok xs → scan b lines = .ok ys →
      xs.filter (fun t => !t.kind.isLayout) = ys.filter (fun t => !t.kind.isLayout)) ∧
    ∀ e, scan a lines = .error e → e.cause.isIndentation = false →
      ∃ f, scan b lines = .error f ∧
        (f = e ∨ f.cause.isIndentation = true ∧ f.line ≤ e.line) := by
  have hsame : a.isKeyword = b.isKeyword := funext hkeywords
  constructor
  · intro xs ys hxs hys
    obtain ⟨text, htext, hx⟩ := scan_eq_ok_reads hxs
    obtain ⟨text', htext', hy⟩ := scan_eq_ok_reads hys
    rw [hsame, htext'] at htext
    cases htext
    show withoutLayout xs = withoutLayout ys
    rw [hx, hy, shown, shown, hmarks]
  · intro e he hcause
    have hreads : readText b.isKeyword lines = .error e := by
      rw [← hsame]
      refine (scan_eq_error_reads he).resolve_right fun hindent => ?_
      rw [hindent.1] at hcause
      cases hcause
    cases hb : scan b lines with
    | ok ys =>
      obtain ⟨text, htext, -⟩ := scan_eq_ok_reads hb
      rw [hreads] at htext
      cases htext
    | error f =>
      refine ⟨f, rfl, ?_⟩
      rcases scan_eq_error_reads hb with hsame | ⟨hindent, hfirst⟩
      · rw [hreads] at hsame
        cases hsame
        exact .inl rfl
      · exact .inr ⟨hindent, hfirst e hreads⟩

/-- A comma that lets a statement run on takes the layout of the first two lines below away and
nothing else. Where the third line is bad in its text, steps of two spaces make it fail at its
margin. -/
theorem layout_settings_neutral_comma :
    let two : Settings := { indentWidth := some 2 }
    let comma : Settings := { indentWidth := some 1, extraContinuations := [.comma] }
    let text : List Token := [⟨.identifier, some (.string "a"), 1, 1⟩, ⟨.comma, none, 1, 2⟩,
      ⟨.identifier, some (.string "b"), 2, 3⟩]
    (∃ xs ys, scan two ["a,".toList, "  b".toList] = .ok xs ∧
      scan comma ["a,".toList, "  b".toList] = .ok ys ∧ xs ≠ ys ∧
      xs.filter (fun t => !t.kind.isLayout) = ys.filter (fun t => !t.kind.isLayout) ∧
      ys.filter (fun t => !t.kind.isLayout) = text ++ [⟨.eof, none, 2, 4⟩]) ∧
    scan comma ["a".toList, "   $".toList] = .error ⟨2, some 4, .illegalCharacter '$'⟩ ∧
    ∃ f, scan two ["a".toList, "   $".toList] = .error f ∧
      (f = ⟨2, some 4, .illegalCharacter '$'⟩ ∨ f.cause.isIndentation = true ∧ f.line ≤ 2) := by
  intro two comma text
  have hblock : scan two ["a,".toList, "  b".toList] = .ok
      [⟨.identifier, some (.string "a"), 1, 1⟩, ⟨.comma, none, 1, 2⟩, ⟨.newline, none, 1, 3⟩,
        ⟨.indent, none, 2, 1⟩, ⟨.identifier, some (.string "b"), 2, 3⟩,
        ⟨.dedent, none, 2, 4⟩, ⟨.eof, none, 2, 4⟩] := by cbv
  have hjoined : scan comma ["a,".toList, "  b".toList] =
      .ok (text ++ [⟨.eof, none, 2, 4⟩]) := by cbv
  have hbad : scan comma ["a".toList, "   $".toList] =
      .error ⟨2, some 4, .illegalCharacter '$'⟩ := by cbv
  exact ⟨⟨_, _, hblock, hjoined, by decide,
      (layout_settings_neutral (a := two) (b := comma) rfl (fun _ => rfl) _).1 _ _ hblock hjoined,
      rfl⟩,
    hbad, (layout_settings_neutral (a := comma) (b := two) rfl (fun _ => rfl) _).2 _ hbad rfl⟩

end Offside.Scan
