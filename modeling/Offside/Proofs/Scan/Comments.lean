import Offside.Proofs.Scan.Run

/-!
# `Offside.Proofs.Scan.Comments`: showing the marks of comments

Whether the marks of comments become tokens makes no difference to anything else. The scan that
shows them and the scan that does not go through the lines in the same states, marks leave no trace
in a state even where the settings let them continue a statement, and the tokens differ in the
marks alone (`scanLine_hidden`, `scanLines_hidden`).

Where the marks stand among the tokens is kept by every line:

* `Paired`: an opening mark has its closing mark directly behind it, for nothing inside a comment
  becomes a token, not even a line break. It is composed by `Paired.append`, and a run is paired
  up to the comment it ends in (`run_paired`).
* `Ends`: behind the mark of a comment to the end of the line there is no more text of that line
  (`run_ends`).

`comments_neutral` is the result for whole programs.
-/

set_option autoImplicit false

namespace Offside.Scan

/-! ### Two scans in step -/

/-- Tokens without the marks of comments. -/
def withoutMarks (tokens : List Token) : List Token :=
  tokens.filter (fun t => !t.kind.isComment)

theorem withoutMarks_append (xs ys : List Token) :
    withoutMarks (xs ++ ys) = withoutMarks xs ++ withoutMarks ys := List.filter_append xs ys

theorem withoutMarks_eq_self {tokens : List Token} (h : ∀ t ∈ tokens, t.kind.isComment = false) :
    withoutMarks tokens = tokens :=
  List.filter_eq_self.2 fun t ht => by rw [h t ht]; rfl

theorem isComment_of_isLayout {kind : Kind} (h : kind.isLayout = true) :
    kind.isComment = false := by
  revert h
  cases kind <;> decide

/-- A line that shows no marks adds what it adds otherwise, but for the marks. -/
theorem scanLine_hidden (settings : Settings) (s : State) (line : List Char) :
    scanLine { settings with emitComments := false } s line =
      (scanLine { settings with emitComments := true } s line).map
        (fun p => (p.1, withoutMarks p.2)) := by
  have hsame : boundary { settings with emitComments := false } s line =
      boundary { settings with emitComments := true } s line := rfl
  unfold scanLine
  rw [hsame]
  cases hboundary : boundary { settings with emitComments := true } s line with
  | error fault => rfl
  | ok p =>
    obtain ⟨s₁, layout⟩ := p
    have hlayout : withoutMarks layout = layout := withoutMarks_eq_self fun t ht =>
      isComment_of_isLayout ((boundary_eq_ok_iff.1 hboundary).isLayout_of_mem ht)
    have hkeyword (shows : Bool) :
        ({ settings with emitComments := shows } : Settings).isKeyword = settings.isKeyword := rfl
    simp only [hkeyword]
    cases lexemes settings.isKeyword (if s₁.inComment then .comment else .code) line with
    | error fault => rfl
    | ok q =>
      simp only [Except.map, withoutMarks_append, hlayout, Bool.true_or, Bool.false_or,
        List.filter_true]
      rfl

theorem scanLines_hidden (settings : Settings) (s : State) (lines : List (List Char)) :
    scanLines { settings with emitComments := false } s lines =
      (scanLines { settings with emitComments := true } s lines).map
        (fun p => (p.1, withoutMarks p.2)) := by
  induction lines generalizing s with
  | nil => rfl
  | cons line lines ih =>
    rw [scanLines, scanLines, scanLine_hidden]
    cases scanLine { settings with emitComments := true } s line with
    | error e => rfl
    | ok p =>
      simp only [Except.map, ih]
      cases scanLines { settings with emitComments := true } p.1 lines with
      | error e => rfl
      | ok q => simp only [withoutMarks_append]

/-! ### Marks in pairs -/

/-- A row of tokens, begun and ended inside a block comment or outside, in which every opening mark
has its closing mark directly behind it. -/
inductive Paired : Bool → List Token → Bool → Prop
  | nil {inside : Bool} : Paired inside [] inside
  | opening {t : Token} {rest : List Token} {last : Bool} :
      t.kind = .flexCommentStart → Paired true rest last → Paired false (t :: rest) last
  | closing {t : Token} {rest : List Token} {last : Bool} :
      t.kind = .flexCommentEnd → Paired false rest last → Paired true (t :: rest) last
  | other {t : Token} {rest : List Token} {last : Bool} :
      t.kind ≠ .flexCommentStart → t.kind ≠ .flexCommentEnd → Paired false rest last →
      Paired false (t :: rest) last

namespace Paired

variable {first middle last : Bool} {xs ys : List Token}

theorem append (hxs : Paired first xs middle) (hys : Paired middle ys last) :
    Paired first (xs ++ ys) last := by
  induction hxs with
  | nil => exact hys
  | opening ht _ ih => exact .opening ht (ih hys)
  | closing ht _ ih => exact .closing ht (ih hys)
  | other hstart hend _ ih => exact .other hstart hend (ih hys)

/-- Tokens in pairs can be taken apart anywhere. -/
theorem split (h : Paired first (xs ++ ys) last) :
    ∃ middle, Paired first xs middle ∧ Paired middle ys last := by
  induction xs generalizing first with
  | nil => exact ⟨first, .nil, h⟩
  | cons t xs ih =>
    cases h with
    | opening ht hrest =>
      obtain ⟨middle, hxs, hys⟩ := ih hrest
      exact ⟨middle, .opening ht hxs, hys⟩
    | closing ht hrest =>
      obtain ⟨middle, hxs, hys⟩ := ih hrest
      exact ⟨middle, .closing ht hxs, hys⟩
    | other hstart hend hrest =>
      obtain ⟨middle, hxs, hys⟩ := ih hrest
      exact ⟨middle, .other hstart hend hxs, hys⟩

theorem of_no_mark (h : ∀ t ∈ xs, t.kind.isComment = false) : Paired false xs false := by
  induction xs with
  | nil => exact .nil
  | cons t xs ih =>
    have ht := h t List.mem_cons_self
    refine .other ?_ ?_ (ih fun u hu => h u (List.mem_cons_of_mem t hu))
    · intro hk
      rw [hk] at ht
      cases ht
    · intro hk
      rw [hk] at ht
      cases ht

/-- Outside of comments, what follows an opening mark is its closing mark. -/
theorem closing_follows {t : Token} (h : Paired first (t :: ys) false)
    (ht : t.kind = .flexCommentStart) :
    ∃ u rest, ys = u :: rest ∧ u.kind = .flexCommentEnd := by
  cases h with
  | opening _ hrest =>
    cases hrest with
    | closing hu _ => exact ⟨_, _, rfl, hu⟩
  | closing hend _ =>
    rw [ht] at hend
    cases hend
  | other hstart _ _ => exact absurd ht hstart

/-- What ends inside a comment ends in an opening mark. -/
theorem opening_ends (h : Paired false xs true) :
    ∃ front u, xs = front ++ [u] ∧ u.kind = .flexCommentStart := by
  rcases List.eq_nil_or_concat xs with rfl | ⟨front, u, rfl⟩
  · cases h
  · rw [List.concat_eq_append] at h ⊢
    obtain ⟨middle, -, hu⟩ := h.split
    cases hu with
    | opening hstart _ => exact ⟨front, u, rfl, hstart⟩
    | closing _ hrest => cases hrest
    | other _ _ hrest => cases hrest

/-- A closing mark stands inside a comment. -/
theorem inside_of_closing {t : Token} (h : Paired first (t :: ys) last)
    (ht : t.kind = .flexCommentEnd) : first = true := by
  cases h with
  | opening hstart _ =>
    rw [ht] at hstart
    cases hstart
  | closing _ _ => rfl
  | other _ hend _ => exact absurd ht hend

end Paired

/-- A piece of a line opens or closes a comment as its mark does. -/
theorem Reads.paired {isKeyword : String → Bool} {before text after : List Char}
    {mode next : Mode} {l : Option Lexeme} (h : Reads isKeyword before mode text after l next)
    (number : Nat) (line place : List Char) :
    Paired (mode == .comment) (lineTokens number line (placeFirst l place []))
      (next == .comment) := by
  have content {k : Lexeme} (hk : isContent k.kind = true) :
      Paired false (lineTokens number line [⟨k, place⟩]) false := by
    refine .of_no_mark fun t ht => ?_
    rw [List.mem_singleton.1 ht]
    exact isComment_of_isContent hk
  cases h with
  | blank _ => exact .nil
  | @lexeme _ _ k hl =>
    have hmode : (k.modeBehind == Mode.comment) = false := by
      unfold Lexeme.modeBehind
      split <;> rfl
    rw [hmode]
    exact content hl.isContent_kind
  | lineComment => exact .other (fun hk => nomatch hk) (fun hk => nomatch hk) .nil
  | blockOpen => exact .opening rfl .nil
  | blockBody _ => exact .nil
  | blockClose => exact .closing rfl .nil
  | argumentBlank _ => exact .nil
  | argument hl => exact content hl.isContent_kind

theorem placeFirst_append (l : Option Lexeme) (place : List Char) (found : List Placed) :
    placeFirst l place found = placeFirst l place [] ++ found := by
  cases l <;> rfl

theorem LineReads.paired {isKeyword : String → Bool} {before text : List Char}
    {mode last : Mode} {found : List Placed}
    (h : LineReads isKeyword before mode text found last) (number : Nat) (line : List Char) :
    Paired (mode == .comment) (lineTokens number line found) (last == .comment) := by
  induction h with
  | nil => exact .nil
  | cons hreads _ ih =>
    rw [placeFirst_append, lineTokens, List.map_append]
    exact (hreads.paired number line _).append ih

/-- A line that shows the marks leads from the comment that it begins in to the one that it
ends in. -/
theorem scanLine_paired {settings : Settings} {s s' : State} {line : List Char}
    {tokens : List Token} (hshow : settings.emitComments = true)
    (h : scanLine settings s line = .ok (s', tokens)) :
    Paired s.inComment tokens s'.inComment := by
  obtain ⟨s₁, layout, found, mode, hboundary, hreads, rfl, rfl⟩ := scanLine_eq_ok h
  have hshown : shown settings (lineTokens (s.lines + 1) line found) =
      lineTokens (s.lines + 1) line found := by
    simp [shown, hshow]
  -- Inside a comment, there is nothing between the lines.
  have hlayout : Paired s.inComment layout s.inComment := by
    rcases hboundary.layout_cases with ⟨-, rfl⟩ | ⟨-, hjoin, -⟩
    · exact .nil
    · have houtside : s.inComment = false := by
        cases hc : s.inComment with
        | false => rfl
        | true => simp [State.joinsNext, hc] at hjoin
      rw [houtside]
      exact .of_no_mark fun t ht => isComment_of_isLayout (hboundary.isLayout_of_mem ht)
  have hline := hreads.paired (s.lines + 1) line
  have hmode : ((if s.inComment then Mode.comment else .code) == .comment) = s.inComment := by
    cases s.inComment <;> rfl
  rw [hmode] at hline
  rw [hshown]
  exact hlayout.append hline

/-- A run that shows the marks has them in pairs, but for the one that opens the comment it ends
in. -/
theorem run_paired {settings : Settings} {lines : List (List Char)} {s : State}
    {tokens : List Token} (hshow : settings.emitComments = true)
    (h : scanLines settings (State.start settings) lines = .ok (s, tokens)) :
    Paired false tokens s.inComment := by
  refine scanLines_induction (motive := fun _ s tokens => Paired false tokens s.inComment)
    .nil ?_ h
  intro lines s tokens line s' more _ ih hline
  exact ih.append (scanLine_paired hshow hline)

/-! ### Marks at the end of a line -/

/-- Behind the mark of a comment to the end of the line, tokens for text stand on later lines. -/
def Ends (tokens : List Token) : Prop :=
  tokens.Pairwise (fun t u => t.kind = .singleComment → isText u.kind = true → t.line < u.line)

theorem Ends.append {xs ys : List Token} (hxs : Ends xs) (hys : Ends ys)
    (h : ∀ t ∈ xs, t.kind = .singleComment → ∀ u ∈ ys, isText u.kind = true → t.line < u.line) :
    Ends (xs ++ ys) :=
  List.pairwise_append.2 ⟨hxs, hys, fun t ht u hu hk htext => h t ht hk u hu htext⟩

theorem Ends.of_no_text {tokens : List Token} (h : ∀ t ∈ tokens, isText t.kind = false) :
    Ends tokens := by
  induction tokens with
  | nil => exact .nil
  | cons t tokens ih =>
    refine List.pairwise_cons.2 ⟨fun u hu _ htext => ?_,
      ih fun u hu => h u (List.mem_cons_of_mem t hu)⟩
    rw [h u (List.mem_cons_of_mem t hu)] at htext
    cases htext

/-- On a line, nothing stands behind the mark of a comment to its end. -/
theorem LineReads.last_of_singleComment {isKeyword : String → Bool} {before text : List Char}
    {mode last : Mode} {found : List Placed}
    (h : LineReads isKeyword before mode text found last) :
    found.Pairwise (fun p _ => p.lexeme.kind ≠ .singleComment) := by
  have content {k : Lexeme} (hk : isContent k.kind = true) : k.kind ≠ .singleComment := by
    intro h
    rw [h] at hk
    cases hk
  induction h with
  | nil => exact .nil
  | @cons _ _ _ _ _ _ l found hreads hrest ih =>
    cases l with
    | none => exact ih
    | some k =>
      refine List.pairwise_cons.2 ⟨fun q hq => ?_, ih⟩
      cases hreads with
      | lexeme hl => exact content hl.isContent_kind
      | lineComment =>
        -- The comment took the rest of the line.
        have hnil := hrest.lexemes_eq_ok
        rw [lexemes] at hnil
        cases hnil
        cases hq
      | blockOpen =>
        show Kind.flexCommentStart ≠ .singleComment
        decide
      | blockClose =>
        show Kind.flexCommentEnd ≠ .singleComment
        decide
      | argument hl => exact content hl.isContent_kind

/-- Tokens for text stand on lines of the run, and behind a comment to the end of a line they stand
on later lines. -/
theorem run_ends {settings : Settings} {lines : List (List Char)} {s : State}
    {tokens : List Token}
    (h : scanLines settings (State.start settings) lines = .ok (s, tokens)) :
    (∀ t ∈ tokens, isText t.kind = true → t.line ≤ s.lines) ∧ Ends tokens := by
  refine scanLines_induction (motive := fun _ s tokens =>
    (∀ t ∈ tokens, isText t.kind = true → t.line ≤ s.lines) ∧ Ends tokens)
    ⟨fun t ht => (nomatch ht), .nil⟩ ?_ h
  rintro lines s tokens line s' more - ⟨hlines, hends⟩ hline
  obtain ⟨s₁, layout, found, mode, hboundary, hreads, rfl, rfl⟩ := scanLine_eq_ok hline
  -- What the line adds for text stands on it.
  have hnumber : ∀ t ∈ layout ++ shown settings (lineTokens (s.lines + 1) line found),
      isText t.kind = true → t.line = s.lines + 1 := by
    intro t ht htext
    rcases List.mem_append.1 ht with ht | ht
    · rw [isText_of_isLayout (hboundary.isLayout_of_mem ht)] at htext
      cases htext
    · exact (hreads.of_mem_shown ht).2
  have hshown : Ends (shown settings (lineTokens (s.lines + 1) line found)) := by
    refine List.Pairwise.sublist List.filter_sublist ?_
    rw [lineTokens, List.pairwise_map]
    exact hreads.last_of_singleComment.imp fun hne hk => absurd hk hne
  constructor
  · intro t ht htext
    show t.line ≤ s.lines + 1
    rcases List.mem_append.1 ht with ht | ht
    · exact Nat.le_succ_of_le (hlines t ht htext)
    · exact Nat.le_of_eq (hnumber t ht htext)
  · have hlayout : ∀ t ∈ layout, t.kind.isLayout = true := fun t ht => hboundary.isLayout_of_mem ht
    refine hends.append (.append (.of_no_text fun t ht => isText_of_isLayout (hlayout t ht))
      hshown fun t ht hk => ?_) fun t ht hk u hu htext => ?_
    · have hkind := hlayout t ht
      rw [hk] at hkind
      cases hkind
    · rw [hnumber u hu htext]
      exact Nat.lt_succ_of_le (hlines t ht (by rw [hk]; rfl))

/-! ### Programs -/

/-- The tokens that close a program are no marks and stand for no text. -/
theorem hidden_of_mem_closing {depth line column : Nat} {t : Token}
    (h : t ∈ closing depth line column) : t.kind.isComment = false ∧ isText t.kind = false := by
  rcases (of_mem_closing h).1 with hk | hk <;> rw [hk] <;> exact ⟨rfl, rfl⟩

/-- A scan that shows no marks gives what it gives otherwise, but for the marks. -/
theorem scan_hidden (settings : Settings) (lines : List (List Char)) :
    scan { settings with emitComments := false } lines =
      (scan { settings with emitComments := true } lines).map withoutMarks := by
  have hrun := scanLines_hidden settings (State.start settings) lines
  unfold scan
  rw [show scanLines { settings with emitComments := false }
    (State.start { settings with emitComments := false }) lines = _ from hrun]
  rw [show State.start { settings with emitComments := true } = State.start settings from rfl]
  cases scanLines { settings with emitComments := true } (State.start settings) lines with
  | error e => rfl
  | ok p =>
    obtain ⟨s, tokens⟩ := p
    have hlast : withoutMarks (closing s.depth (max s.lines 1) (s.width + 1)) = closing _ _ _ :=
      withoutMarks_eq_self fun t ht => (hidden_of_mem_closing ht).1
    simp only [Except.map, State.close]
    cases s.inComment with
    | true => rfl
    | false =>
      show Except.ok (withoutMarks tokens ++ closing s.depth (max s.lines 1) (s.width + 1)) =
        .ok (withoutMarks (tokens ++ closing s.depth (max s.lines 1) (s.width + 1)))
      rw [withoutMarks_append, hlast]

/-- A program that shows the marks has them in pairs. -/
theorem scan_paired {settings : Settings} {lines : List (List Char)} {tokens : List Token}
    (hshow : settings.emitComments = true) (h : scan settings lines = .ok tokens) :
    Paired false tokens false := by
  obtain ⟨s, front, hrun, houtside, rfl⟩ := scan_eq_ok h
  have hfront := run_paired hshow hrun
  rw [houtside] at hfront
  exact hfront.append (.of_no_mark fun t ht => (hidden_of_mem_closing ht).1)

theorem scan_ends {settings : Settings} {lines : List (List Char)} {tokens : List Token}
    (h : scan settings lines = .ok tokens) : Ends tokens := by
  obtain ⟨s, front, hrun, -, rfl⟩ := scan_eq_ok h
  refine (run_ends hrun).2.append (.of_no_text fun t ht => (hidden_of_mem_closing ht).2)
    fun t _ _ u hu htext => ?_
  rw [(hidden_of_mem_closing hu).2] at htext
  cases htext

/-- Showing the marks of comments changes nothing else: the scan without them is the scan with them
but for the marks, and fails where it fails and for the same reason. Where they are shown, the two
marks of a block comment stand side by side, and the mark of a comment to the end of a line is the
last of what the line has. -/
theorem comments_neutral (settings : Settings) (lines : List (List Char)) :
    scan { settings with emitComments := false } lines =
      (scan { settings with emitComments := true } lines).map
        (List.filter (fun t => !t.kind.isComment)) ∧
    ∀ tokens, scan { settings with emitComments := true } lines = .ok tokens →
      ∀ before t after, tokens = before ++ t :: after →
        (t.kind = .flexCommentStart → ∃ u rest, after = u :: rest ∧ u.kind = .flexCommentEnd) ∧
        (t.kind = .flexCommentEnd →
          ∃ front u, before = front ++ [u] ∧ u.kind = .flexCommentStart) ∧
        (t.kind = .singleComment → ∀ u ∈ after, isText u.kind = true → u.line ≠ t.line) := by
  refine ⟨scan_hidden settings lines, fun tokens h before t after hsplit => ?_⟩
  have hpaired := scan_paired rfl h
  have hends := scan_ends h
  rw [hsplit] at hpaired hends
  obtain ⟨middle, hbefore, hafter⟩ := hpaired.split
  refine ⟨fun ht => hafter.closing_follows ht, fun ht => ?_, fun ht u hu htext => ?_⟩
  · rw [hafter.inside_of_closing ht] at hbefore
    exact hbefore.opening_ends
  · have hlater := (List.pairwise_cons.1 (List.pairwise_append.1 hends).2.1).1 u hu ht htext
    exact Nat.ne_of_gt hlater

/-- Marks named as continuations leave no trace in a scan: the first break below is inside a
comment, but the one behind the mark of the second line is a `NEWLINE`. -/
theorem comments_neutral_interleaved :
    let settings : Settings := { extraContinuations := [.singleComment, .flexCommentEnd] }
    let lines := ["a /* x".toList, "*/ b // c".toList, "d".toList]
    let before : List Token := [⟨.identifier, some (.string "a"), 1, 1⟩,
      ⟨.flexCommentStart, none, 1, 3⟩, ⟨.flexCommentEnd, none, 2, 1⟩,
      ⟨.identifier, some (.string "b"), 2, 4⟩]
    let after : List Token := [⟨.newline, none, 2, 10⟩,
      ⟨.identifier, some (.string "d"), 3, 1⟩, ⟨.eof, none, 3, 2⟩]
    scan { settings with emitComments := true } lines =
        .ok (before ++ ⟨.singleComment, none, 2, 6⟩ :: after) ∧
      scan { settings with emitComments := false } lines =
        .ok ([⟨.identifier, some (.string "a"), 1, 1⟩,
          ⟨.identifier, some (.string "b"), 2, 4⟩] ++ after) ∧
      ∀ u ∈ after, isText u.kind = true → u.line ≠ 2 := by
  intro settings lines before after
  have hscan : scan { settings with emitComments := true } lines =
      .ok (before ++ ⟨.singleComment, none, 2, 6⟩ :: after) := by cbv
  obtain ⟨hidden, placed⟩ := comments_neutral settings lines
  refine ⟨hscan, ?_, (placed _ hscan before _ after rfl).2.2 rfl⟩
  rw [hidden, hscan]
  rfl

end Offside.Scan
