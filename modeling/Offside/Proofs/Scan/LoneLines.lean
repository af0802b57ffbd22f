import Offside.Proofs.Scan.Brackets
import Offside.Proofs.Scan.PlainReading

/-!
# `Offside.Proofs.Scan.LoneLines`: every line as a program of its own

A prompt scans each line as a program of one line, a file is scanned as a whole. Layout apart, the
two agree. Nothing comes before a line that stands alone, so it is not measured, and all that counts
is what is read from it (`readLine_of_alone`, `readLine_of_alone_error`). If it succeeds, it ends
outside of comments. The next line of a file then begins in code, as it does when it stands alone,
and the readings of the lines in turn are the reading of the whole (`readLines_of_alone`).

`lone_lines` is the result. Where every line can stand alone, the whole says what its lines say,
each under its own number, or its indentation is bad. The first line that cannot stand alone makes
the whole fail in the same way, or at the indentation of a line not behind it.
-/

set_option autoImplicit false

namespace Offside.Scan

/-- The tokens that stand for text: neither layout nor `EOF`. -/
def textOf (tokens : List Token) : List Token := tokens.filter (fun t => isText t.kind)

/-- A token moved to the line of a number. -/
def onLine (number : Nat) (t : Token) : Token := { t with line := number }

/-- Every line is a program of its own, with these tokens. -/
def ScannedAlone (settings : Settings) (lines : List (List Char)) (alone : List (List Token)) :
    Prop :=
  List.Forall₂ (fun line own => scan settings [line] = .ok own) lines alone

/-! ### The number of a line -/

/-- What is read from a line does not depend on its number. -/
theorem readLine_onLine {isKeyword : String → Bool} {number : Nat} {mode last : Mode}
    {line : List Char} {tokens : List Token}
    (h : readLine isKeyword number mode line = .ok (tokens, last)) (other : Nat) :
    readLine isKeyword other mode line = .ok (tokens.map (onLine other), last) := by
  unfold readLine at h ⊢
  cases hfound : lexemes isKeyword mode line with
  | error fault =>
    rw [hfound] at h
    cases h
  | ok p =>
    rw [hfound] at h
    cases h
    simp [lineTokens, onLine, Placed.token, Function.comp_def]

/-- Nor does what is wrong with it. -/
theorem readLine_error_onLine {isKeyword : String → Bool} {number : Nat} {mode : Mode}
    {line : List Char} {e : Error} (h : readLine isKeyword number mode line = .error e)
    (other : Nat) : readLine isKeyword other mode line = .error { e with line := other } := by
  unfold readLine at h ⊢
  cases hfound : lexemes isKeyword mode line with
  | error fault =>
    rw [hfound] at h
    cases h
    rfl
  | ok p =>
    rw [hfound] at h
    cases h

theorem shown_map_onLine (settings : Settings) (number : Nat) (tokens : List Token) :
    shown settings (tokens.map (onLine number)) = (shown settings tokens).map (onLine number) := by
  unfold shown
  rw [List.filter_map]
  rfl

/-! ### Scans and readings -/

/-- What a scan finds besides layout and `EOF` is what is read from its lines, and they end outside
of comments. -/
theorem readLines_of_scan {settings : Settings} {lines : List (List Char)} {tokens : List Token}
    (h : scan settings lines = .ok tokens) :
    ∃ text last, readLines settings.isKeyword 0 .code lines = .ok (text, last) ∧
      last ≠ .comment ∧ textOf tokens = shown settings text := by
  obtain ⟨s, front, hrun, houtside, rfl⟩ := scan_eq_ok h
  obtain ⟨text, last, htext, hshown, hlast⟩ := readLines_of_run hrun
  refine ⟨text, last, htext, by simpa [houtside] using hlast, ?_⟩
  have hfront : textOf front = withoutLayout front := by
    refine List.filter_congr fun t ht => ?_
    have heof : t.kind ≠ .eof := run_ne_eof hrun t ht
    simp [isText, heof]
  have hclosing : textOf (closing s.depth (max s.lines 1) (s.width + 1)) = [] := by
    refine List.filter_eq_nil_iff.2 fun t ht => ?_
    rcases (of_mem_closing ht).1 with hk | hk <;> simp [hk, isText, Kind.isLayout]
  show (front ++ closing _ _ _).filter _ = shown settings text
  rw [List.filter_append]
  show textOf front ++ textOf (closing _ _ _) = shown settings text
  rw [hfront, hclosing, hshown, List.append_nil]

/-- Where a scan fails, the reading of its lines fails in the same way or leaves a comment open,
unless the indentation of a line failed first. -/
theorem readLines_of_scan_error {settings : Settings} {lines : List (List Char)} {e : Error}
    (h : scan settings lines = .error e) :
    readLines settings.isKeyword 0 .code lines = .error e ∨
      (e.cause.isIndentation = true ∧
        ∀ f, readLines settings.isKeyword 0 .code lines = .error f → e.line ≤ f.line) ∨
      ∃ text, readLines settings.isKeyword 0 .code lines = .ok (text, .comment) := by
  rcases scan_eq_error_cases h with hrun | ⟨s, tokens, hrun, hinside, -⟩
  · rcases readLines_of_failed_run hrun with hreads | hindent
    · exact .inl hreads
    · exact .inr (.inl hindent)
  · obtain ⟨text, last, htext, -, hlast⟩ := readLines_of_run hrun
    have hcomment : last = .comment := by simpa [hinside] using hlast
    rw [hcomment] at htext
    exact .inr (.inr ⟨text, htext⟩)

/-! ### A line alone -/

theorem readLines_singleton (isKeyword : String → Bool) (line : List Char) :
    readLines isKeyword 0 .code [line] = readLine isKeyword 1 .code line := by
  show readLines isKeyword 0 .code [line] = readLine isKeyword (0 + 1) Mode.code.carried line
  rw [readLines]
  cases readLine isKeyword (0 + 1) Mode.code.carried line with
  | error e => rfl
  | ok p => simp [readLines]

/-- A line that can stand alone is read without fault and ends outside of comments. -/
theorem readLine_of_alone {settings : Settings} {line : List Char} {own : List Token}
    (h : scan settings [line] = .ok own) :
    ∃ text last, readLine settings.isKeyword 1 .code line = .ok (text, last) ∧
      last ≠ .comment ∧ textOf own = shown settings text := by
  have hreads := readLines_of_scan h
  rwa [readLines_singleton] at hreads

/-- What is wrong with a line alone is wrong with its text, unless it leaves a comment open. -/
theorem readLine_of_alone_error {settings : Settings} {line : List Char} {e : Error}
    (h : scan settings [line] = .error e) (hcause : e.cause ≠ .unterminatedComment) :
    readLine settings.isKeyword 1 .code line = .error e := by
  rcases scan_eq_error_cases h with hrun | ⟨s, tokens, -, -, rfl⟩
  · rw [scanLines] at hrun
    split at hrun
    · rename_i e' hline
      cases hrun
      obtain ⟨fault, rfl, hboundary | ⟨-, hfault⟩⟩ := scanLine_eq_error hline
      -- There is nothing before the first line.
      · exact absurd rfl (boundary_eq_error_iff.1 hboundary).1
      · show readLine settings.isKeyword 1
          (if (State.start settings).inComment then .comment else .code) line = _
        unfold readLine
        rw [hfault]
        rfl
    · cases hrun
  · exact absurd rfl hcause

/-! ### Lines that can stand alone -/

theorem carried_of_ne_comment {mode : Mode} (h : mode ≠ .comment) : mode.carried = .code :=
  if_neg h

/-- Behind so many lines that end outside of comments, lines that can stand alone say what they say
alone. -/
theorem readLines_of_alone {settings : Settings} {lines : List (List Char)}
    {alone : List (List Token)} (h : ScannedAlone settings lines alone) (number : Nat)
    {mode : Mode} (hmode : mode ≠ .comment) :
    ∃ text last, readLines settings.isKeyword number mode lines = .ok (text, last) ∧
      last ≠ .comment ∧
      shown settings text =
        (alone.mapIdx fun i own => (textOf own).map (onLine (number + i + 1))).flatten := by
  unfold ScannedAlone at h
  induction h generalizing number mode with
  | nil => exact ⟨[], mode, rfl, hmode, rfl⟩
  | @cons line own lines alone hline _ ih =>
    obtain ⟨first, middle, hfirst, hmiddle, hown⟩ := readLine_of_alone hline
    obtain ⟨text, last, htext, hlast, hshown⟩ := ih (number + 1) hmiddle
    refine ⟨first.map (onLine (number + 1)) ++ text, last, ?_, hlast, ?_⟩
    · rw [readLines, carried_of_ne_comment hmode, readLine_onLine hfirst]
      simp only [htext]
    · rw [shown_append, shown_map_onLine, hshown, ← hown, List.mapIdx_cons, List.flatten_cons]
      simp only [Nat.add_assoc, Nat.add_comm 1, Nat.add_zero]

/-- A program fails where its first line that cannot stand alone does. -/
theorem readLines_of_first_failure {settings : Settings} {front rest : List (List Char)}
    {line : List Char} {alone : List (List Token)} {e : Error}
    (hfront : ScannedAlone settings front alone) (hline : scan settings [line] = .error e)
    (hcause : e.cause ≠ .unterminatedComment) :
    readLines settings.isKeyword 0 .code (front ++ line :: rest) =
      .error { e with line := front.length + 1 } := by
  have hcode : Mode.code ≠ .comment := by decide
  obtain ⟨text, last, htext, hlast, -⟩ := readLines_of_alone hfront 0 hcode
  have hfault := readLine_error_onLine (readLine_of_alone_error hline hcause) (front.length + 1)
  rw [readLines_append_of_ok htext, Nat.zero_add, readLines, carried_of_ne_comment hlast, hfault]
  rfl

/-- Lines are scanned independently of their neighbours. Where every line can stand alone, a program
of these lines either succeeds, and besides layout and `EOF` its tokens are those of the lines
alone, one line behind the other and each under its own number; or it fails at its indentation.
Where `line` is the first one that cannot stand alone, and not because it leaves a comment open, the
program fails as `line` does, at the number of that line, or it fails at the indentation of a line
not behind it. -/
theorem lone_lines (settings : Settings) (lines : List (List Char)) :
    (∀ alone, ScannedAlone settings lines alone →
      (∃ tokens, scan settings lines = .ok tokens ∧
        textOf tokens =
          (alone.mapIdx fun i own => (textOf own).map (onLine (i + 1))).flatten) ∨
      ∃ e, scan settings lines = .error e ∧ e.cause.isIndentation = true) ∧
    ∀ front line rest alone e, lines = front ++ line :: rest →
      ScannedAlone settings front alone → scan settings [line] = .error e →
      e.cause ≠ .unterminatedComment →
      ∃ f, scan settings lines = .error f ∧
        (f = { e with line := front.length + 1 } ∨
          f.cause.isIndentation = true ∧ f.line ≤ front.length + 1) := by
  constructor
  · intro alone halone
    have hcode : Mode.code ≠ .comment := by decide
    obtain ⟨text, last, htext, hlast, hshown⟩ := readLines_of_alone halone 0 hcode
    cases hscan : scan settings lines with
    | ok tokens =>
      obtain ⟨text', last', htext', -, hown⟩ := readLines_of_scan hscan
      rw [htext] at htext'
      cases htext'
      refine .inl ⟨tokens, rfl, ?_⟩
      simpa using hown.trans hshown
    | error e =>
      refine .inr ⟨e, rfl, ?_⟩
      rcases readLines_of_scan_error hscan with hreads | ⟨hindent, -⟩ | ⟨text', hopen⟩
      · rw [htext] at hreads
        cases hreads
      · exact hindent
      · rw [htext] at hopen
        cases hopen
        exact absurd rfl hlast
  · intro front line rest alone e hlines hfront hline hcause
    have hreads : readLines settings.isKeyword 0 .code (front ++ line :: rest) =
        .error { e with line := front.length + 1 } :=
      readLines_of_first_failure hfront hline hcause
    rw [← hlines] at hreads
    cases hscan : scan settings lines with
    | ok tokens =>
      obtain ⟨text, last, htext, -⟩ := readLines_of_scan hscan
      rw [hreads] at htext
      cases htext
    | error f =>
      refine ⟨f, rfl, ?_⟩
      rcases readLines_of_scan_error hscan with hsame | ⟨hindent, hfirst⟩ | ⟨text, hopen⟩
      · rw [hreads] at hsame
        cases hsame
        exact .inl rfl
      · exact .inr ⟨hindent, hfirst _ hreads⟩
      · rw [hreads] at hopen
        cases hopen

/-- Three lines that can stand alone, with the mark of a comment shown. The program of them says the
same under other numbers, although the parenthesis of the second line takes the break before
the third away. A fourth line that closes a comment which nothing has opened cannot stand alone, and
the program fails with it. -/
theorem lone_lines_block :
    let settings : Settings := { emitComments := true }
    let lines := ["if a // c".toList, "  f(".toList, " 'b'".toList]
    let alone : List (List Token) :=
      [[⟨.keyword, some (.string "if"), 1, 1⟩, ⟨.identifier, some (.string "a"), 1, 4⟩,
          ⟨.singleComment, none, 1, 6⟩, ⟨.eof, none, 1, 10⟩],
        [⟨.identifier, some (.string "f"), 1, 3⟩, ⟨.lParen, none, 1, 4⟩, ⟨.eof, none, 1, 5⟩],
        [⟨.character, some (.character 'b'), 1, 2⟩, ⟨.eof, none, 1, 5⟩]]
    ScannedAlone settings lines alone ∧
      (∃ tokens, scan settings lines = .ok tokens ∧ textOf tokens =
        [⟨.keyword, some (.string "if"), 1, 1⟩, ⟨.identifier, some (.string "a"), 1, 4⟩,
          ⟨.singleComment, none, 1, 6⟩, ⟨.identifier, some (.string "f"), 2, 3⟩,
          ⟨.lParen, none, 2, 4⟩, ⟨.character, some (.character 'b'), 3, 2⟩]) ∧
      scan settings ["*/".toList] = .error ⟨1, some 1, .rogueTerminator⟩ ∧
      ∃ f, scan settings (lines ++ "*/".toList :: ["$".toList]) = .error f ∧
        (f = ⟨4, some 1, .rogueTerminator⟩ ∨ f.cause.isIndentation = true ∧ f.line ≤ 4) := by
  intro settings lines alone
  have halone : ScannedAlone settings lines alone :=
    .cons (by cbv) (.cons (by cbv) (.cons (by cbv) .nil))
  have hbad : scan settings ["*/".toList] = .error ⟨1, some 1, .rogueTerminator⟩ := by cbv
  have hmargins : ¬ ∃ e, scan settings lines = .error e ∧ e.cause.isIndentation = true := by
    have hscan : (scan settings lines).isOk = true := by cbv
    rintro ⟨e, he, -⟩
    rw [he] at hscan
    cases hscan
  exact ⟨halone, ((lone_lines settings lines).1 alone halone).resolve_right hmargins, hbad,
    (lone_lines settings _).2 lines _ _ alone _ rfl halone hbad (by decide)⟩

end Offside.Scan
