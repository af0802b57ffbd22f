import Mathlib.Data.List.Induction
import Offside.Proofs.Scan.Reading
import Offside.Scan.Program

/-!
# `Offside.Proofs.Scan.Run`: what one line adds to a run, and what every run keeps

Everything about whole programs goes through three statements:

* `boundary_eq_ok_iff`: what happens between two lines is one of three things, the rules of
  `Boundary`. The break is part of a statement, or the next line is blank, or it is measured.
* `scanLine_eq_ok`: a line contributes the tokens of its boundary and then its own lexemes,
  read by the grammar.
* `scanLines_induction`: what holds before the first line and is kept by every line holds of
  every run.

The last section compares the state of a run with what can be seen from outside, its lines
and its tokens: `run_lines`, `run_parens`, `run_last` and `run_linesEnd`.
-/

set_option autoImplicit false

namespace Offside.Scan

open Offside.Text

/-- A place in two rows of tokens is in the first or in the second. -/
theorem append_eq_append_cons {α : Type} {xs ys before after : List α} {t : α}
    (h : xs ++ ys = before ++ t :: after) :
    (∃ middle, xs = before ++ t :: middle ∧ after = middle ++ ys) ∨
      ∃ middle, before = xs ++ middle ∧ ys = middle ++ t :: after := by
  rcases List.append_eq_append_iff.1 h with ⟨middle, hbefore, hys⟩ | ⟨middle, hxs, hback⟩
  · exact .inr ⟨middle, hbefore, hys⟩
  · cases middle with
    | nil => exact .inr ⟨[], by simpa using hxs.symm, by simpa using hback.symm⟩
    | cons u middle =>
      obtain ⟨rfl, rfl⟩ := List.cons.inj hback
      exact .inl ⟨middle, hxs, rfl⟩

/-! ### The state behind a row of tokens -/

/-- The number of open parentheses behind a token of a kind. A closing one without an opening
one changes nothing. -/
def parenStep (open_ : Nat) (kind : Kind) : Nat :=
  match kind with
  | .lParen => open_ + 1
  | .rParen => open_ - 1
  | _ => open_

/-- The number of parentheses that a row of tokens leaves open. -/
def openParens (tokens : List Token) : Nat := (tokens.map Token.kind).foldl parenStep 0

/-- The kind of the last token that is no mark of a comment. -/
def lastKind (tokens : List Token) : Option Kind :=
  (tokens.filter (fun t => !t.kind.isComment)).getLast?.map Token.kind

/-- The tokens of a line that are shown: marks of comments only on demand. -/
def shown (settings : Settings) (tokens : List Token) : List Token :=
  tokens.filter (fun t => settings.emitComments || !t.kind.isComment)

namespace State

@[simp] theorem seeAll_nil (s : State) : s.seeAll [] = s := rfl

@[simp] theorem seeAll_cons (s : State) (t : Token) (tokens : List Token) :
    s.seeAll (t :: tokens) = (s.see t.kind).seeAll tokens := rfl

theorem seeAll_append (s : State) (xs ys : List Token) :
    s.seeAll (xs ++ ys) = (s.seeAll xs).seeAll ys := List.foldl_append

theorem see_eq (s : State) (kind : Kind) :
    s.see kind = { s with parens := (s.see kind).parens, last := (s.see kind).last } := by
  unfold see
  split <;> rfl

/-- Tokens change nothing but the parentheses and the last kind. -/
theorem seeAll_eq (s : State) (tokens : List Token) :
    s.seeAll tokens =
      { s with parens := (s.seeAll tokens).parens, last := (s.seeAll tokens).last } := by
  induction tokens generalizing s with
  | nil => rfl
  | cons t tokens ih =>
    rw [seeAll_cons, ih, see_eq]

theorem seeAll_parens (s : State) (tokens : List Token) :
    (s.seeAll tokens).parens = (tokens.map Token.kind).foldl parenStep s.parens := by
  induction tokens generalizing s with
  | nil => rfl
  | cons t tokens ih =>
    rw [seeAll_cons, ih, List.map_cons, List.foldl_cons]
    congr 1
    unfold see parenStep
    cases t.kind <;> rfl

theorem seeAll_last (s : State) (tokens : List Token) :
    (s.seeAll tokens).last = (lastKind tokens).or s.last := by
  induction tokens generalizing s with
  | nil => rfl
  | cons t tokens ih =>
    rw [seeAll_cons, ih]
    unfold see lastKind
    cases hc : t.kind.isComment with
    | true => simp [hc]
    -- The token counts, so it is the last one unless another one behind it is.
    | false =>
      simp only [hc, List.filter_cons, Bool.not_false, if_true, Bool.false_eq_true, if_false]
      cases h : tokens.filter (fun t => !t.kind.isComment) with
      | nil => rfl
      | cons u rest => simp [List.getLast?_cons]

/-- Marks of comments leave no trace in the state. -/
theorem seeAll_shown (s : State) (settings : Settings) (tokens : List Token) :
    s.seeAll (shown settings tokens) = s.seeAll tokens := by
  induction tokens generalizing s with
  | nil => rfl
  | cons t tokens ih =>
    by_cases hs : (settings.emitComments || !t.kind.isComment) = true
    · simp only [shown, List.filter_cons, if_pos hs, seeAll_cons]
      exact ih _
    · have hc : t.kind.isComment = true := by
        simp only [Bool.or_eq_true, Bool.not_eq_true', not_or, Bool.not_eq_false] at hs
        exact hs.2
      have hsee : s.see t.kind = s := if_pos hc
      simp only [shown, List.filter_cons, if_neg hs, seeAll_cons, hsee]
      exact ih _

end State

/-! ### One line -/

/-- What happens between the lines that led to a state and the line that follows: the state
and the tokens between them. -/
inductive Boundary (settings : Settings) (s : State) (line : List Char) :
    State → List Token → Prop
  | joined :
      s.lines = 0 ∨ s.joinsNext settings = true → Boundary settings s line s []
  | blank :
      s.lines ≠ 0 → s.joinsNext settings = false → allBlank line = true →
      Boundary settings s line (s.see .newline) [s.newline]
  | measured {depth : Nat} {unit : Option Nat} :
      s.lines ≠ 0 → s.joinsNext settings = false → allBlank line = false →
      measure s.unit line = .ok (depth, unit) →
      Boundary settings s line
        { s.seeAll (s.newline :: depthTokens (s.lines + 1) s.depth depth) with depth, unit }
        (s.newline :: depthTokens (s.lines + 1) s.depth depth)

theorem boundary_eq_ok_iff {settings : Settings} {s s' : State} {line : List Char}
    {tokens : List Token} :
    boundary settings s line = .ok (s', tokens) ↔ Boundary settings s line s' tokens := by
  constructor
  · intro h
    unfold boundary at h
    split at h
    · rename_i hjoin
      cases h
      exact .joined hjoin
    rename_i hjoin
    simp only [not_or, Bool.not_eq_true] at hjoin
    split at h
    · rename_i hblank
      cases h
      exact .blank hjoin.1 hjoin.2 hblank
    · rename_i hblank
      split at h
      · simp at h
      · rename_i depth unit hmeasure
        cases h
        exact .measured hjoin.1 hjoin.2 (by simpa using hblank) hmeasure
  · intro h
    cases h with
    | joined hjoin => exact if_pos hjoin
    | blank hlines hjoin hblank => simp [boundary, hlines, hjoin, hblank]
    | measured hlines hjoin hblank hmeasure =>
      simp [boundary, hlines, hjoin, hblank, hmeasure]

/-- A change of depth is a row of equal tokens. -/
theorem depthTokens_eq_replicate (number before after : Nat) :
    ∃ count kind, (kind = .indent ∨ kind = .dedent) ∧
      depthTokens number before after = List.replicate count ⟨kind, none, number, 1⟩ := by
  unfold depthTokens
  split
  · exact ⟨_, .indent, .inl rfl, rfl⟩
  · exact ⟨_, .dedent, .inr rfl, rfl⟩

/-- A boundary has no tokens, or a `NEWLINE` with a row of equal steps behind it. -/
theorem Boundary.layout_cases {settings : Settings} {s s' : State} {line : List Char}
    {layout : List Token} (h : Boundary settings s line s' layout) :
    ((s.lines = 0 ∨ s.joinsNext settings = true) ∧ layout = []) ∨
      (s.lines ≠ 0 ∧ s.joinsNext settings = false ∧
        ∃ count kind, (kind = .indent ∨ kind = .dedent) ∧
          layout = s.newline :: List.replicate count ⟨kind, none, s.lines + 1, 1⟩) := by
  cases h with
  | joined hjoin => exact .inl ⟨hjoin, rfl⟩
  | blank hlines hjoin _ => exact .inr ⟨hlines, hjoin, 0, .indent, .inl rfl, rfl⟩
  | @measured depth _ hlines hjoin _ _ =>
    obtain ⟨count, kind, hkind, hsteps⟩ := depthTokens_eq_replicate (s.lines + 1) s.depth depth
    exact .inr ⟨hlines, hjoin, count, kind, hkind, by rw [hsteps]⟩

/-- All tokens of a boundary are signs of layout. -/
theorem Boundary.isLayout_of_mem {settings : Settings} {s s' : State} {line : List Char}
    {layout : List Token} (h : Boundary settings s line s' layout) {t : Token} (ht : t ∈ layout) :
    t.kind.isLayout = true := by
  rcases h.layout_cases with ⟨-, rfl⟩ | ⟨-, -, n, kind, hkind, rfl⟩
  · cases ht
  · rcases List.mem_cons.1 ht with rfl | ht
    · rfl
    · rw [List.eq_of_mem_replicate ht]
      rcases hkind with rfl | rfl <;> rfl

/-- A boundary changes the indentation and, by its tokens, what every token changes. -/
theorem Boundary.state_eq {settings : Settings} {s s' : State} {line : List Char}
    {layout : List Token} (h : Boundary settings s line s' layout) :
    s' = { s.seeAll layout with depth := s'.depth, unit := s'.unit } := by
  cases h with
  | joined _ => rfl
  | blank _ _ _ => rfl
  | measured _ _ _ _ => rfl

theorem Boundary.inComment_eq {settings : Settings} {s s' : State} {line : List Char}
    {layout : List Token} (h : Boundary settings s line s' layout) :
    s'.inComment = s.inComment := by
  rw [h.state_eq, State.seeAll_eq]

/-- The tokens of a line's lexemes, marks of comments included. -/
def lineTokens (number : Nat) (line : List Char) (found : List Placed) : List Token :=
  found.map (fun p => p.token number line)

/-- A line adds the tokens of its boundary and those of its lexemes. -/
theorem scanLine_eq_ok {settings : Settings} {s s' : State} {line : List Char}
    {tokens : List Token} (h : scanLine settings s line = .ok (s', tokens)) :
    ∃ s₁ layout found mode,
      Boundary settings s line s₁ layout ∧
      LineReads settings.isKeyword [] (if s.inComment then .comment else .code) line found
        mode ∧
      s' = { s₁.seeAll (lineTokens (s.lines + 1) line found) with
              lines := s.lines + 1, width := line.length, inComment := mode == .comment } ∧
      tokens = layout ++ shown settings (lineTokens (s.lines + 1) line found) := by
  unfold scanLine at h
  simp only at h
  split at h
  · simp at h
  · rename_i s₁ layout hboundary
    -- The line is read in the mode that the last one left, which no boundary changes.
    split at h
    · simp at h
    · rename_i found mode hfound
      cases h
      have hrules := boundary_eq_ok_iff.1 hboundary
      rw [hrules.inComment_eq] at hfound
      exact ⟨s₁, layout, found, mode, hrules, lexemes_eq_ok_iff.1 hfound, rfl, rfl⟩

/-- A line whose boundary and lexemes have no fault is added. -/
theorem scanLine_of_reads {settings : Settings} {s s₁ : State} {line : List Char}
    {layout : List Token} {found : List Placed} {mode : Mode}
    (hboundary : Boundary settings s line s₁ layout)
    (hreads : LineReads settings.isKeyword [] (if s.inComment then .comment else .code) line
      found mode) :
    scanLine settings s line = .ok
      ({ s₁.seeAll (lineTokens (s.lines + 1) line found) with
          lines := s.lines + 1, width := line.length, inComment := mode == .comment },
        layout ++ shown settings (lineTokens (s.lines + 1) line found)) := by
  rw [← hboundary.inComment_eq] at hreads
  unfold scanLine
  simp only [boundary_eq_ok_iff.2 hboundary, hreads.lexemes_eq_ok]
  rfl

/-- Whether a kind stands for text of a line, not for its place between lines. -/
def isText (kind : Kind) : Bool := !kind.isLayout && kind != .eof

theorem isText_ne {kind : Kind} (h : isText kind = true) :
    kind ≠ .newline ∧ kind ≠ .indent ∧ kind ≠ .dedent ∧ kind ≠ .eof := by
  revert h
  cases kind <;> decide

theorem isText_of_isLayout {kind : Kind} (h : kind.isLayout = true) : isText kind = false := by
  simp [isText, h]

/-- Whether a kind stands for text that is no comment. -/
def isContent (kind : Kind) : Bool := isText kind && !kind.isComment

theorem isContent_of_isLayout {kind : Kind} (h : kind.isLayout = true) :
    isContent kind = false := by
  rw [isContent, isText_of_isLayout h, Bool.false_and]

theorem isComment_of_isContent {kind : Kind} (h : isContent kind = true) :
    kind.isComment = false := by
  simpa using (Bool.and_eq_true_iff.1 h).2

theorem Spells.isContent_kind {isKeyword : String → Bool} {before text after : List Char}
    {l : Lexeme} (h : Spells isKeyword before text after l) : isContent l.kind = true := by
  have hsigns : ∀ s ∈ signs, isContent s.lexeme.kind = true := by decide
  cases h with
  | word hw => cases hw <;> rfl
  | character _ => rfl
  | string _ => rfl
  | sign hs => exact hsigns _ hs.mem
  | header _ _ _ _ => rfl

theorem SpellsArgument.isContent_kind {before text after : List Char} {l : Lexeme}
    (h : SpellsArgument before text after l) : isContent l.kind = true := by
  cases h <;> rfl

theorem Reads.isText_kind {isKeyword : String → Bool} {before text after : List Char}
    {mode next : Mode} {l : Option Lexeme} (h : Reads isKeyword before mode text after l next) :
    ∀ x ∈ l, isText x.kind = true := by
  have content {k : Kind} (hk : isContent k = true) : isText k = true :=
    (Bool.and_eq_true_iff.1 hk).1
  rintro x hx
  cases h with
  | blank _ => cases hx
  | lexeme hl => cases hx; exact content hl.isContent_kind
  | lineComment => cases hx; rfl
  | blockOpen => cases hx; rfl
  | blockBody _ => cases hx
  | blockClose => cases hx; rfl
  | argumentBlank _ => cases hx
  | argument hl => cases hx; exact content hl.isContent_kind

/-- What holds of every lexeme that a piece of a line can be holds of all lexemes of a line. -/
theorem LineReads.forall_lexeme {isKeyword : String → Bool} {p : Lexeme → Prop}
    (hp : ∀ {before mode text after l next}, Reads isKeyword before mode text after (some l) next →
      p l)
    {before text : List Char} {mode last : Mode} {found : List Placed}
    (h : LineReads isKeyword before mode text found last) : ∀ x ∈ found, p x.lexeme := by
  induction h with
  | nil => simp
  | @cons _ _ _ _ _ _ l _ hreads _ ih =>
    cases l with
    | none => exact ih
    | some l => exact List.forall_mem_cons.2 ⟨hp hreads, ih⟩

theorem LineReads.isText_kind {isKeyword : String → Bool} {before text : List Char}
    {mode last : Mode} {found : List Placed}
    (h : LineReads isKeyword before mode text found last) :
    ∀ p ∈ found, isText p.lexeme.kind = true :=
  h.forall_lexeme fun hreads => hreads.isText_kind _ rfl

/-- The tokens of a line's lexemes are no signs of layout and stand on that line. -/
theorem LineReads.of_mem_shown {isKeyword : String → Bool} {mode last : Mode}
    {line : List Char} {found : List Placed} {settings : Settings} {number : Nat} {t : Token}
    (h : LineReads isKeyword [] mode line found last)
    (ht : t ∈ shown settings (lineTokens number line found)) :
    isText t.kind = true ∧ t.line = number := by
  obtain ⟨p, hp, rfl⟩ := List.mem_map.1 (List.mem_filter.1 ht).1
  exact ⟨h.isText_kind p hp, rfl⟩

/-! ### Runs of lines -/

theorem scanLines_append_eq_ok {settings : Settings} {s s' : State}
    {xs ys : List (List Char)} {tokens : List Token}
    (h : scanLines settings s (xs ++ ys) = .ok (s', tokens)) :
    ∃ s₁ front back, scanLines settings s xs = .ok (s₁, front) ∧
      scanLines settings s₁ ys = .ok (s', back) ∧ tokens = front ++ back := by
  rw [scanLines_append] at h
  split at h
  · simp at h
  · rename_i s₁ front hfront
    split at h
    · simp at h
    · rename_i s₂ back hback
      cases h
      exact ⟨s₁, front, back, hfront, hback, rfl⟩

theorem scanLines_concat_eq_ok {settings : Settings} {s s' : State} {lines : List (List Char)}
    {line : List Char} {tokens : List Token}
    (h : scanLines settings s (lines ++ [line]) = .ok (s', tokens)) :
    ∃ s₁ front back, scanLines settings s lines = .ok (s₁, front) ∧
      scanLine settings s₁ line = .ok (s', back) ∧ tokens = front ++ back := by
  obtain ⟨s₁, front, back, hfront, hback, rfl⟩ := scanLines_append_eq_ok h
  simp only [scanLines] at hback
  split at hback
  · simp at hback
  · rename_i s₂ only hline
    cases hback
    exact ⟨s₁, front, only, hfront, hline, by simp⟩

/-- The tokens that close a program at a place: what is left of its depth, and `EOF`. -/
def closing (depth line column : Nat) : List Token :=
  List.replicate depth ⟨.dedent, none, line, column⟩ ++ [⟨.eof, none, line, column⟩]

theorem of_mem_closing {depth line column : Nat} {t : Token}
    (h : t ∈ closing depth line column) :
    (t.kind = .dedent ∨ t.kind = .eof) ∧ t.line = line ∧ t.column = column := by
  rcases List.mem_append.1 h with h | h
  · rw [List.eq_of_mem_replicate h]
    exact ⟨.inl rfl, rfl, rfl⟩
  · rw [List.mem_singleton.1 h]
    exact ⟨.inr rfl, rfl, rfl⟩

/-- A program is a run that ends outside of comments, and the tokens that close it. -/
theorem scan_eq_ok {settings : Settings} {lines : List (List Char)} {tokens : List Token}
    (h : scan settings lines = .ok tokens) :
    ∃ s front, scanLines settings (State.start settings) lines = .ok (s, front) ∧
      s.inComment = false ∧ tokens = front ++ closing s.depth (max s.lines 1) (s.width + 1) := by
  unfold scan at h
  split at h
  · simp at h
  · rename_i s front hfront
    unfold State.close at h
    cases hc : s.inComment with
    | true => simp [hc] at h
    | false =>
      simp only [hc, Bool.false_eq_true, if_false] at h
      cases h
      exact ⟨s, front, hfront, hc, rfl⟩

/-- A run that ends outside of comments is closed. -/
theorem scan_of_run {settings : Settings} {lines : List (List Char)} {s : State}
    {tokens : List Token}
    (h : scanLines settings (State.start settings) lines = .ok (s, tokens))
    (houtside : s.inComment = false) :
    scan settings lines = .ok (tokens ++ closing s.depth (max s.lines 1) (s.width + 1)) := by
  unfold scan State.close
  simp only [h, houtside, Bool.false_eq_true, if_false]
  rfl

/-- What holds before the first line and is kept by every line holds of every run. -/
theorem scanLines_induction {settings : Settings}
    {motive : List (List Char) → State → List Token → Prop}
    (start : motive [] (State.start settings) [])
    (step : ∀ lines s tokens line s' more,
      scanLines settings (State.start settings) lines = .ok (s, tokens) →
      motive lines s tokens → scanLine settings s line = .ok (s', more) →
      motive (lines ++ [line]) s' (tokens ++ more))
    {lines : List (List Char)} {s : State} {tokens : List Token}
    (h : scanLines settings (State.start settings) lines = .ok (s, tokens)) :
    motive lines s tokens := by
  -- Lines are added at the end, so the induction takes the last one off.
  induction lines using List.reverseRecOn generalizing s tokens with
  | nil =>
    cases h
    exact start
  | append_singleton lines line ih =>
    obtain ⟨s₁, front, back, hfront, hline, rfl⟩ := scanLines_concat_eq_ok h
    exact step lines s₁ front line s back hfront (ih hfront) hline

/-! ### The state of a run -/

/-- The open parentheses and the last kind behind a line are those behind its tokens. -/
theorem scanLine_seen {settings : Settings} {s s' : State} {line : List Char}
    {tokens : List Token} (h : scanLine settings s line = .ok (s', tokens)) :
    s'.parens = (s.seeAll tokens).parens ∧ s'.last = (s.seeAll tokens).last := by
  obtain ⟨s₁, layout, found, mode, hboundary, -, rfl, rfl⟩ := scanLine_eq_ok h
  rw [State.seeAll_append, State.seeAll_shown, State.seeAll_parens (s.seeAll layout),
    State.seeAll_last (s.seeAll layout)]
  have hs₁ := hboundary.state_eq
  constructor
  · show (s₁.seeAll _).parens = _
    rw [State.seeAll_parens, hs₁]
  · show (s₁.seeAll _).last = _
    rw [State.seeAll_last, hs₁]

theorem run_lines {settings : Settings} {lines : List (List Char)} {s : State}
    {tokens : List Token}
    (h : scanLines settings (State.start settings) lines = .ok (s, tokens)) :
    s.lines = lines.length ∧ s.width = (lines.getLast?.getD []).length := by
  refine scanLines_induction (motive := fun lines s _ =>
    s.lines = lines.length ∧ s.width = (lines.getLast?.getD []).length) ⟨rfl, rfl⟩ ?_ h
  intro lines s tokens line s' more _ ih hline
  obtain ⟨s₁, layout, found, mode, -, -, rfl, -⟩ := scanLine_eq_ok hline
  simp [ih.1]

theorem run_parens {settings : Settings} {lines : List (List Char)} {s : State}
    {tokens : List Token}
    (h : scanLines settings (State.start settings) lines = .ok (s, tokens)) :
    s.parens = openParens tokens := by
  refine scanLines_induction (motive := fun _ s tokens => s.parens = openParens tokens)
    rfl ?_ h
  intro lines s tokens line s' more _ ih hline
  rw [(scanLine_seen hline).1, State.seeAll_parens, ih, openParens, openParens, List.map_append,
    List.foldl_append]

theorem lastKind_append (xs ys : List Token) :
    lastKind (xs ++ ys) = (lastKind ys).or (lastKind xs) := by
  rw [lastKind, List.filter_append, List.getLast?_append, Option.map_or]
  rfl

theorem run_last {settings : Settings} {lines : List (List Char)} {s : State}
    {tokens : List Token}
    (h : scanLines settings (State.start settings) lines = .ok (s, tokens)) :
    s.last = lastKind tokens := by
  refine scanLines_induction (motive := fun _ s tokens => s.last = lastKind tokens) rfl ?_ h
  intro lines s tokens line s' more _ ih hline
  rw [(scanLine_seen hline).2, State.seeAll_last, ih, lastKind_append]

/-- A run knows whether its lines end inside a block comment. -/
theorem run_linesEnd {settings : Settings} {lines : List (List Char)} {s : State}
    {tokens : List Token}
    (h : scanLines settings (State.start settings) lines = .ok (s, tokens)) :
    ∃ mode, LinesEnd settings.isKeyword lines mode ∧ s.inComment = (mode == .comment) := by
  refine scanLines_induction (motive := fun lines s _ =>
    ∃ mode, LinesEnd settings.isKeyword lines mode ∧ s.inComment = (mode == .comment))
    ⟨.code, .nil, rfl⟩ ?_ h
  rintro lines s tokens line s' more - ⟨mode, hend, hcomment⟩ hline
  obtain ⟨s₁, layout, found, last, -, hreads, rfl, -⟩ := scanLine_eq_ok hline
  have hcarried : (if s.inComment then Mode.comment else .code) = mode.carried := by
    rw [hcomment]
    cases mode <;> rfl
  rw [hcarried] at hreads
  exact ⟨last, .concat hend hreads, rfl⟩

/-- A run ends inside a block comment exactly when the text of its lines does. -/
theorem run_inComment_iff {settings : Settings} {lines : List (List Char)} {s : State}
    {tokens : List Token}
    (h : scanLines settings (State.start settings) lines = .ok (s, tokens)) :
    s.inComment = true ↔ LinesEnd settings.isKeyword lines .comment := by
  obtain ⟨mode, hend, hcomment⟩ := run_linesEnd h
  rw [hcomment, beq_iff_eq]
  constructor
  · rintro rfl
    exact hend
  · exact linesEnd_unique hend

end Offside.Scan
