import Offside.Proofs.Scan.Continuing

/-!
# `Offside.Proofs.Scan.CommentsAsBlanks`: a comment behind code

Where the marks of comments are not shown, a comment behind code is as good as blanks in its
place. `lexemes_lineComment` and `lexemes_blockComment` say that nothing but its marks is read from
a comment, whatever its text looks like, and `GoesOn.scanLine_congr` that two ways to go on from a
line are the same line to the scan if they are equally long and read alike but for marks. Since the
lengths agree, all places on the line do, and the `NEWLINE` behind it.

`comment_as_blanks` is the result for whole programs.
-/

set_option autoImplicit false

namespace Offside.Scan

open Offside.Text

/-! ### Blanks and comments -/

theorem lexemes_spaces (isKeyword : String → Bool) (mode : Mode) (count : Nat)
    (text : List Char) :
    lexemes isKeyword mode (List.replicate count ' ' ++ text) = lexemes isKeyword mode text := by
  induction count with
  | zero => rfl
  | succ count ih => rw [List.replicate_succ, List.cons_append, lexemes_space, ih]

/-- A comment to the end of the line is its mark. -/
theorem lexemes_lineComment (isKeyword : String → Bool) (body : List Char) :
    lexemes isKeyword .code ('/' :: '/' :: body) =
      .ok ([⟨⟨.singleComment, none⟩, '/' :: '/' :: body⟩], .code) := by
  have hreads : Reads isKeyword [] .code ('/' :: '/' :: body) [] (some ⟨.singleComment, none⟩)
      .code := .lineComment
  have hline := LineReads.cons hreads .nil
  rw [List.append_nil] at hline
  exact hline.lexemes_eq_ok

/-- A block comment that is open goes on to its first closing mark. -/
theorem lexemes_blockBody (isKeyword : String → Bool) {body : List Char}
    (hbody : ¬ ['*', '/'] <:+: body) (text : List Char) :
    lexemes isKeyword .comment (body ++ '*' :: '/' :: text) =
      (lexemes isKeyword .code text).map
        (fun p => (⟨⟨.flexCommentEnd, none⟩, '*' :: '/' :: text⟩ :: p.1, p.2)) := by
  induction body with
  | nil =>
    have hclose : Reads isKeyword [] .comment ['*', '/'] text (some ⟨.flexCommentEnd, none⟩)
        .code := .blockClose
    exact lexemes_append hclose
  | cons c body ih =>
    -- No closing mark begins at `c`, not even across the end of the body.
    have hopen : ¬ ['*', '/'] <+: c :: (body ++ '*' :: '/' :: text) := by
      intro hprefix
      obtain ⟨rfl, hrest⟩ := List.cons_prefix_cons.1 hprefix
      cases body with
      | nil => exact absurd (List.cons_prefix_cons.1 hrest).1 (by decide)
      | cons d body =>
        obtain ⟨rfl, -⟩ := List.cons_prefix_cons.1 hrest
        exact hbody ⟨[], body, rfl⟩
    have hreads : Reads isKeyword [] .comment [c] (body ++ '*' :: '/' :: text) none .comment :=
      .blockBody hopen
    have hrest := ih fun hwithin => hbody (hwithin.trans (List.suffix_cons c body).isInfix)
    have hfirst := lexemes_append hreads
    rw [List.singleton_append, hrest] at hfirst
    rw [List.cons_append, hfirst]
    cases lexemes isKeyword .code text <;> rfl

/-- A block comment is its two marks. -/
theorem lexemes_blockComment (isKeyword : String → Bool) {body : List Char}
    (hbody : ¬ ['*', '/'] <:+: body) (text : List Char) :
    lexemes isKeyword .code ('/' :: '*' :: (body ++ '*' :: '/' :: text)) =
      (lexemes isKeyword .code text).map (fun p =>
        (⟨⟨.flexCommentStart, none⟩, '/' :: '*' :: (body ++ '*' :: '/' :: text)⟩ ::
          ⟨⟨.flexCommentEnd, none⟩, '*' :: '/' :: text⟩ :: p.1, p.2)) := by
  have hopen : Reads isKeyword [] .code ['/', '*'] (body ++ '*' :: '/' :: text)
      (some ⟨.flexCommentStart, none⟩) .comment := .blockOpen
  have hfirst := lexemes_append hopen
  rw [lexemes_blockBody isKeyword hbody] at hfirst
  refine hfirst.trans ?_
  cases lexemes isKeyword .code text <;> rfl

/-! ### Lines that differ in comments -/

/-- Lexemes without the marks of comments. -/
def unmarked (found : List Placed) : List Placed :=
  found.filter (fun p => !p.lexeme.kind.isComment)

/-- What a text says without the marks of comments. -/
def plainly (r : Except Fault (List Placed × Mode)) : Except Fault (List Placed × Mode) :=
  r.map (fun p => (unmarked p.1, p.2))

theorem shown_lineTokens {settings : Settings} (hhidden : settings.emitComments = false)
    (number : Nat) (line : List Char) (found : List Placed) :
    shown settings (lineTokens number line found) = lineTokens number line (unmarked found) := by
  rw [shown, lineTokens, lineTokens, unmarked, List.filter_map]
  simp only [hhidden, Bool.false_or]
  rfl

theorem plainly_spaces (isKeyword : String → Bool) (count : Nat) (text : List Char) :
    plainly (lexemes isKeyword .code (List.replicate count ' ' ++ text)) =
      plainly (lexemes isKeyword .code text) := by
  rw [lexemes_spaces]

theorem plainly_lineComment (isKeyword : String → Bool) (body : List Char) :
    plainly (lexemes isKeyword .code (' ' :: '/' :: '/' :: body)) =
      plainly (lexemes isKeyword .code []) := by
  rw [lexemes_space, lexemes_lineComment, lexemes]
  rfl

theorem plainly_blockComment (isKeyword : String → Bool) {body : List Char}
    (hbody : ¬ ['*', '/'] <:+: body) (text : List Char) :
    plainly (lexemes isKeyword .code (' ' :: '/' :: '*' :: (body ++ '*' :: '/' :: text))) =
      plainly (lexemes isKeyword .code text) := by
  rw [lexemes_space, lexemes_blockComment isKeyword hbody]
  cases lexemes isKeyword .code text <;> rfl

/-- The places of a line's tokens depend on the length of the line alone. -/
theorem lineTokens_congr {line line' : List Char} (h : line.length = line'.length) (number : Nat)
    (found : List Placed) : lineTokens number line found = lineTokens number line' found := by
  unfold lineTokens Placed.token column
  rw [h]

theorem error_congr {line line' : List Char} (h : line.length = line'.length) (number : Nat)
    (fault : Fault) : fault.error number line = fault.error number line' := by
  unfold Fault.error column
  rw [h]

/-- Two ways to go on from a line, equally long and alike but for the marks of comments, are the
same line to a scan that does not show these. -/
theorem GoesOn.scanLine_congr {settings : Settings} {s s₁ : State} {line xs ys : List Char}
    {layout : List Token} {found : List Placed} {last : Mode}
    (h : GoesOn settings s line s₁ layout found last) (hhidden : settings.emitComments = false)
    (hxs : ∀ c ∈ xs.head?, isBlank c = true) (hys : ∀ c ∈ ys.head?, isBlank c = true)
    (hlength : xs.length = ys.length)
    (hsame : plainly (lexemes settings.isKeyword last xs) =
      plainly (lexemes settings.isKeyword last ys)) :
    scanLine settings s (line ++ xs) = scanLine settings s (line ++ ys) := by
  have hline : (line ++ xs).length = (line ++ ys).length := by
    rw [List.length_append, List.length_append, hlength]
  rw [h.scanLine_append hxs, h.scanLine_append hys]
  cases hx : lexemes settings.isKeyword last xs with
  | error fault =>
    cases hy : lexemes settings.isKeyword last ys with
    | error fault' =>
      rw [hx, hy] at hsame
      cases hsame
      simp only [error_congr hline]
    | ok q =>
      rw [hx, hy] at hsame
      cases hsame
  | ok p =>
    cases hy : lexemes settings.isKeyword last ys with
    | error fault' =>
      rw [hx, hy] at hsame
      cases hsame
    | ok q =>
      rw [hx, hy] at hsame
      obtain ⟨hfound, hmode⟩ := Prod.mk.inj (Except.ok.inj hsame)
      have htokens : shown settings (lineTokens (s.lines + 1) line found ++
            lineTokens (s.lines + 1) (line ++ xs) p.1) =
          shown settings (lineTokens (s.lines + 1) line found ++
            lineTokens (s.lines + 1) (line ++ ys) q.1) := by
        rw [shown_append, shown_append, shown_lineTokens hhidden _ (line ++ xs),
          shown_lineTokens hhidden _ (line ++ ys), lineTokens_congr hline, hfound]
      -- The state takes no notice of marks, so it is the same, too.
      have hstate := congrArg s₁.seeAll htokens
      rw [State.seeAll_shown, State.seeAll_shown] at hstate
      simp only [htokens, hstate, hline, hmode]

/-! ### Programs -/

/-- Lines that are the same to a scan can stand for each other. -/
theorem scan_congr_line {settings : Settings} {front : List (List Char)} {s : State}
    {before : List Token} {line line' : List Char}
    (hfront : scanLines settings (State.start settings) front = .ok (s, before))
    (hline : scanLine settings s line = scanLine settings s line') (rest : List (List Char)) :
    scan settings (front ++ [line] ++ rest) = scan settings (front ++ [line'] ++ rest) := by
  have hrun : scanLines settings s (line :: rest) = scanLines settings s (line' :: rest) := by
    rw [scanLines, scanLines, hline]
  unfold scan
  rw [List.append_assoc, List.append_assoc, scanLines_append_of_ok hfront,
    scanLines_append_of_ok hfront, List.singleton_append, List.singleton_append, hrun]

/-- A comment behind code is exactly blanks. Let the marks of comments not be shown, and let a
program end in a line that can go on. Then a comment to the end of that line, or a block comment
with more code behind it, gives the same scan as a blank for each of its characters, whatever lines
follow: the same tokens in the same places, or the same error. -/
theorem comment_as_blanks {settings : Settings} {front : List (List Char)} {line : List Char}
    {tokens : List Token} (hhidden : settings.emitComments = false)
    (hscan : scan settings (front ++ [line]) = .ok tokens)
    (hline : Continuable settings front line) (rest : List (List Char)) :
    (∀ comment : List Char,
      scan settings (front ++ [line ++ " //".toList ++ comment] ++ rest) =
        scan settings (front ++ [line ++ List.replicate (3 + comment.length) ' '] ++ rest)) ∧
    ∀ comment code : List Char, ¬ "*/".toList <:+: comment →
      scan settings (front ++ [line ++ " /*".toList ++ comment ++ "*/".toList ++ code] ++ rest) =
        scan settings
          (front ++ [line ++ List.replicate (5 + comment.length) ' ' ++ code] ++ rest) := by
  obtain ⟨s, before, s₁, layout, found, last, hfront, hgoes⟩ := hline.goesOn
  -- The program ends outside of comments, so the line ends in code.
  have hlast : last = .code := by
    obtain ⟨s', own, hrun, houtside, -⟩ := scan_eq_ok hscan
    rw [scanLines_append_of_ok hfront, scanLines, hgoes.scanLine_eq] at hrun
    cases hrun
    have hne : last ≠ .header := hgoes.last_ne_header
    cases last with
    | code => rfl
    | header => exact absurd rfl hne
    | comment => cases houtside
  subst hlast
  have swap (xs ys : List Char) (hxs : xs.head? = some ' ') (hys : ys.head? = some ' ')
      (hlength : xs.length = ys.length)
      (hsame : plainly (lexemes settings.isKeyword .code xs) =
        plainly (lexemes settings.isKeyword .code ys)) :
      scan settings (front ++ [line ++ xs] ++ rest) =
        scan settings (front ++ [line ++ ys] ++ rest) :=
    scan_congr_line hfront (hgoes.scanLine_congr hhidden (isBlank_of_head_space hxs)
      (isBlank_of_head_space hys) hlength hsame) rest
  constructor
  · intro comment
    rw [List.append_assoc line]
    refine swap (' ' :: '/' :: '/' :: comment) _ rfl (by simp [List.head?_replicate]) ?_ ?_
    · simp only [List.length_cons, List.length_replicate]
      omega
    · have hspaces := plainly_spaces settings.isKeyword (3 + comment.length) []
      rw [List.append_nil] at hspaces
      rw [plainly_lineComment, hspaces]
  · intro comment code hcomment
    have hnot : ¬ ['*', '/'] <:+: comment := hcomment
    have htext : line ++ " /*".toList ++ comment ++ "*/".toList ++ code =
        line ++ (' ' :: '/' :: '*' :: (comment ++ '*' :: '/' :: code)) := by simp
    rw [htext, List.append_assoc line]
    refine swap _ _ rfl (by simp [List.head?_replicate]) ?_ ?_
    · simp only [List.length_cons, List.length_append, List.length_replicate]
      omega
    · rw [plainly_blockComment settings.isKeyword hnot, plainly_spaces]

/-- The line below closes a parenthesis of the line before it and runs on into the next. A comment
behind it may look like anything, and what follows a block comment fails where it would behind
blanks. -/
theorem comment_as_blanks_continued :
    (∃ tokens, scan {} (["f(a,".toList] ++ ["  b) =".toList]) = .ok tokens) ∧
      Continuable {} ["f(a,".toList] "  b) =".toList ∧
      scan {} (["f(a,".toList] ++ ["  b) =".toList ++ " //".toList ++ "/* '#".toList] ++
          ["\t1".toList]) =
        scan {} (["f(a,".toList] ++ ["  b) =".toList ++
          List.replicate (3 + "/* '#".toList.length) ' '] ++ ["\t1".toList]) ∧
      ¬ "*/".toList <:+: "/ // '*".toList ∧
      scan {} (["f(a,".toList] ++ ["  b) =".toList ++ " /*".toList ++ "/ // '*".toList ++
          "*/".toList ++ " 1$".toList] ++ ["\t1".toList]) =
        .error ⟨2, some 21, .illegalCharacter '$'⟩ := by
  have hscan : scan {} (["f(a,".toList] ++ ["  b) =".toList]) = .ok
      [⟨.identifier, some (.string "f"), 1, 1⟩, ⟨.lParen, none, 1, 2⟩,
        ⟨.identifier, some (.string "a"), 1, 3⟩, ⟨.comma, none, 1, 4⟩,
        ⟨.identifier, some (.string "b"), 2, 3⟩, ⟨.rParen, none, 2, 4⟩,
        ⟨.assign, none, 2, 6⟩, ⟨.eof, none, 2, 7⟩] := by cbv
  have hemitted : emitted { emitComments := true } (["f(a,".toList] ++ ["  b) =".toList]) = .ok
      [⟨.identifier, some (.string "f"), 1, 1⟩, ⟨.lParen, none, 1, 2⟩,
        ⟨.identifier, some (.string "a"), 1, 3⟩, ⟨.comma, none, 1, 4⟩,
        ⟨.identifier, some (.string "b"), 2, 3⟩, ⟨.rParen, none, 2, 4⟩,
        ⟨.assign, none, 2, 6⟩] := by cbv
  have hline : Continuable {} ["f(a,".toList] "  b) =".toList := ⟨by decide, _, hemitted, by decide⟩
  have hcomment : ¬ "*/".toList <:+: "/ // '*".toList := by simp [List.infix_cons_iff]
  have hblanks : scan {} (["f(a,".toList] ++ ["  b) =".toList ++
      List.replicate (5 + "/ // '*".toList.length) ' ' ++ " 1$".toList] ++ ["\t1".toList]) =
        .error ⟨2, some 21, .illegalCharacter '$'⟩ := by cbv
  obtain ⟨hlast, hblock⟩ := comment_as_blanks rfl hscan hline ["\t1".toList]
  exact ⟨⟨_, hscan⟩, hline, hlast _, hcomment, (hblock _ _ hcomment).trans hblanks⟩

end Offside.Scan
