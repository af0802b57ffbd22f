import Mathlib.Data.Prod.Lex
import Offside.Proofs.Scan.Brackets
import Offside.Proofs.Scan.Failure

/-!
# `Offside.Proofs.Scan.Positions`: tokens stand in order and on their lines

The tokens of a program are in the order of their positions, and those that stand for text are all
at different ones. Lexemes are found from left to right (`LineReads.descending`), a boundary stands
between the lines that it parts (`Boundary.inOrder`), and what closes a program stands behind all of
it. `InOrder` says of a row of tokens that it is in order up to a position, with nothing but layout
at that position, so that two rows can be put together (`InOrder.append`).

`OnLine` is about single tokens: each stands on one of the lines, at a character of it or directly
behind the last one.

`tokens_in_order` is the result for whole programs.
-/

set_option autoImplicit false

namespace Offside.Scan

/-! ### Positions -/

/-- Where a token stands. Positions are compared by lines and then by columns. -/
def position (t : Token) : Nat ×ₗ Nat := toLex (t.line, t.column)

/-- The tokens that stand for text. -/
def textTokens (tokens : List Token) : List Token := tokens.filter fun t => isText t.kind

/-- Tokens in order up to a position, where nothing stands but layout. -/
structure InOrder (last : Nat ×ₗ Nat) (tokens : List Token) : Prop where
  /-- No token stands before the one in front of it. -/
  sorted : tokens.Pairwise fun t u => position t ≤ position u
  /-- No two tokens that stand for text stand at one position. -/
  strict : (textTokens tokens).Pairwise fun t u => position t < position u
  /-- No token stands behind the last position. -/
  upTo : ∀ t ∈ tokens, position t ≤ last
  /-- What stands for text stands before it. -/
  text : ∀ t ∈ tokens, isText t.kind = true → position t < last

theorem textTokens_append (xs ys : List Token) :
    textTokens (xs ++ ys) = textTokens xs ++ textTokens ys := List.filter_append ..

/-- Two rows of tokens, the second not before the last position of the first. -/
theorem InOrder.append {middle last : Nat ×ₗ Nat} {xs ys : List Token} (hxs : InOrder middle xs)
    (hys : InOrder last ys) (hbehind : ∀ u ∈ ys, middle ≤ position u) (hle : middle ≤ last) :
    InOrder last (xs ++ ys) where
  sorted := List.pairwise_append.2
    ⟨hxs.sorted, hys.sorted, fun t ht u hu => (hxs.upTo t ht).trans (hbehind u hu)⟩
  strict := by
    rw [textTokens_append]
    refine List.pairwise_append.2 ⟨hxs.strict, hys.strict, fun t ht u hu => ?_⟩
    obtain ⟨ht, htext⟩ := List.mem_filter.1 ht
    exact (hxs.text t ht htext).trans_le (hbehind u (List.mem_filter.1 hu).1)
  upTo t ht := by
    rcases List.mem_append.1 ht with ht | ht
    · exact (hxs.upTo t ht).trans hle
    · exact hys.upTo t ht
  text t ht htext := by
    rcases List.mem_append.1 ht with ht | ht
    · exact (hxs.text t ht htext).trans_le hle
    · exact hys.text t ht htext

/-- Tokens that stand for no text are in order if their positions are. -/
theorem inOrder_of_not_text {last : Nat ×ₗ Nat} {tokens : List Token}
    (hsorted : tokens.Pairwise fun t u => position t ≤ position u)
    (hupTo : ∀ t ∈ tokens, position t ≤ last) (hno : ∀ t ∈ tokens, isText t.kind = false) :
    InOrder last tokens where
  sorted := hsorted
  strict := by
    have hnil : textTokens tokens = [] :=
      List.filter_eq_nil_iff.2 fun t ht => by simp [hno t ht]
    rw [hnil]
    exact List.Pairwise.nil
  upTo := hupTo
  text t ht htext := by
    rw [hno t ht] at htext
    cases htext

/-! ### One line -/

/-- Lexemes are found from left to right: each begins at a character of the line, behind the
beginning of the one before. -/
theorem LineReads.descending {isKeyword : String → Bool} {before text : List Char}
    {mode last : Mode} {found : List Placed}
    (h : LineReads isKeyword before mode text found last) :
    found.Pairwise (fun p q => q.text.length < p.text.length) ∧
      ∀ p ∈ found, 0 < p.text.length ∧ p.text.length ≤ text.length := by
  induction h with
  | nil => simp
  | @cons _ text after _ _ _ l found hreads _ ih =>
    obtain ⟨hsorted, hwithin⟩ := ih
    -- No piece is empty, so what is found behind one begins further to the right.
    obtain ⟨c, tail, rfl, -⟩ := hreads.step_eq_ok
    have hshorter : after.length < (c :: tail ++ after).length := by simp
    have hrest : ∀ p ∈ found, 0 < p.text.length ∧ p.text.length < (c :: tail ++ after).length :=
      fun p hp => ⟨(hwithin p hp).1, (hwithin p hp).2.trans_lt hshorter⟩
    cases l with
    | none => exact ⟨hsorted, fun p hp => ⟨(hrest p hp).1, (hrest p hp).2.le⟩⟩
    | some l =>
      refine ⟨List.pairwise_cons.2 ⟨fun p hp => (hrest p hp).2, hsorted⟩, fun p hp => ?_⟩
      rcases List.mem_cons.1 hp with rfl | hp
      · exact ⟨Nat.zero_lt_of_lt hshorter, le_rfl⟩
      · exact ⟨(hrest p hp).1, (hrest p hp).2.le⟩

/-- The tokens of a line's lexemes stand on that line, at its characters. -/
theorem LineReads.place_of_mem_shown {isKeyword : String → Bool} {mode last : Mode}
    {line : List Char} {found : List Placed} {settings : Settings} {number : Nat} {t : Token}
    (h : LineReads isKeyword [] mode line found last)
    (ht : t ∈ shown settings (lineTokens number line found)) :
    t.line = number ∧ 1 ≤ t.column ∧ t.column ≤ line.length := by
  obtain ⟨p, hp, rfl⟩ := List.mem_map.1 (List.mem_filter.1 ht).1
  have := h.descending.2 p hp
  refine ⟨rfl, ?_⟩
  show 1 ≤ line.length + 1 - p.text.length ∧ line.length + 1 - p.text.length ≤ line.length
  omega

/-- The tokens of a line's lexemes stand in order before the end of the line. -/
theorem LineReads.shown_inOrder {isKeyword : String → Bool} {mode last : Mode} {line : List Char}
    {found : List Placed} (h : LineReads isKeyword [] mode line found last) (settings : Settings)
    (number : Nat) :
    InOrder (toLex (number, line.length + 1)) (shown settings (lineTokens number line found)) := by
  obtain ⟨hsorted, hwithin⟩ := h.descending
  have hstrict : (shown settings (lineTokens number line found)).Pairwise
      fun t u => position t < position u := by
    refine List.Pairwise.filter _ (List.pairwise_map.2 ?_)
    refine hsorted.imp_of_mem fun {p q} hp hq hlt => ?_
    have := hwithin p hp
    have := hwithin q hq
    refine Prod.Lex.toLex_lt_toLex.2 (.inr ⟨rfl, ?_⟩)
    show line.length + 1 - p.text.length < line.length + 1 - q.text.length
    omega
  have hlt : ∀ t ∈ shown settings (lineTokens number line found),
      position t < toLex (number, line.length + 1) := by
    intro t ht
    obtain ⟨hline, -, hcolumn⟩ := h.place_of_mem_shown ht
    exact Prod.Lex.toLex_lt_toLex.2 (.inr ⟨hline, Nat.lt_succ_of_le hcolumn⟩)
  exact ⟨hstrict.imp le_of_lt, hstrict.filter _, fun t ht => (hlt t ht).le, fun t ht _ => hlt t ht⟩

/-- A boundary stands between the end of one line and the beginning of the next. -/
theorem Boundary.inOrder {settings : Settings} {s s₁ : State} {line : List Char}
    {layout : List Token} (h : Boundary settings s line s₁ layout) :
    InOrder (toLex (s.lines + 1, 1)) layout ∧
      ∀ t ∈ layout, toLex (s.lines, s.width + 1) ≤ position t := by
  have hno : ∀ t ∈ layout, isText t.kind = false :=
    fun t ht => isText_of_isLayout (h.isLayout_of_mem ht)
  rcases h.layout_cases with ⟨-, rfl⟩ | ⟨-, -, count, kind, -, rfl⟩
  · exact ⟨inOrder_of_not_text List.Pairwise.nil (by simp) hno, by simp⟩
  -- The break stands on the line before, and the steps stand on this one.
  have hbreak : position s.newline < toLex (s.lines + 1, 1) :=
    Prod.Lex.toLex_lt_toLex.2 (.inl (Nat.lt_succ_self s.lines))
  have hstep : ∀ t ∈ List.replicate count (⟨kind, none, s.lines + 1, 1⟩ : Token),
      position t = toLex (s.lines + 1, 1) := by
    intro t ht
    rw [List.eq_of_mem_replicate ht]
    rfl
  have hbehind : ∀ t ∈ List.replicate count (⟨kind, none, s.lines + 1, 1⟩ : Token),
      position s.newline ≤ position t := fun t ht => (hstep t ht).symm ▸ hbreak.le
  refine ⟨inOrder_of_not_text ?_ ?_ hno, ?_⟩
  · exact List.pairwise_cons.2 ⟨hbehind, List.pairwise_replicate.2 (.inr le_rfl)⟩
  · exact List.forall_mem_cons.2 ⟨hbreak.le, fun t ht => (hstep t ht).le⟩
  · exact List.forall_mem_cons.2 ⟨le_rfl, hbehind⟩

/-- A line adds tokens that stand in order up to its end and behind the end of the line before. -/
theorem scanLine_inOrder {settings : Settings} {s s' : State} {line : List Char}
    {tokens : List Token} (h : scanLine settings s line = .ok (s', tokens)) :
    InOrder (toLex (s'.lines, s'.width + 1)) tokens ∧
      ∀ t ∈ tokens, toLex (s.lines, s.width + 1) ≤ position t := by
  obtain ⟨s₁, layout, found, mode, hboundary, hreads, rfl, rfl⟩ := scanLine_eq_ok h
  obtain ⟨hlayout, hbehind⟩ := hboundary.inOrder
  have hshown := hreads.shown_inOrder settings (s.lines + 1)
  have hstart : ∀ t ∈ shown settings (lineTokens (s.lines + 1) line found),
      toLex (s.lines + 1, 1) ≤ position t := by
    intro t ht
    obtain ⟨hline, hcolumn, -⟩ := hreads.place_of_mem_shown ht
    exact Prod.Lex.toLex_le_toLex.2 (.inr ⟨hline.symm, hcolumn⟩)
  have hnext : toLex (s.lines, s.width + 1) ≤ toLex (s.lines + 1, 1) :=
    Prod.Lex.toLex_le_toLex.2 (.inl (Nat.lt_succ_self s.lines))
  constructor
  · exact hlayout.append hshown hstart (Prod.Lex.toLex_le_toLex.2 (.inr ⟨rfl, by simp⟩))
  · intro t ht
    rcases List.mem_append.1 ht with ht | ht
    · exact hbehind t ht
    · exact hnext.trans (hstart t ht)

/-! ### Runs -/

/-- The tokens of a run stand in order up to the end of its last line. -/
theorem run_inOrder {settings : Settings} {lines : List (List Char)} {s : State}
    {tokens : List Token}
    (h : scanLines settings (State.start settings) lines = .ok (s, tokens)) :
    InOrder (toLex (s.lines, s.width + 1)) tokens := by
  refine scanLines_induction (motive := fun _ s tokens =>
    InOrder (toLex (s.lines, s.width + 1)) tokens) ?_ ?_ h
  · exact inOrder_of_not_text List.Pairwise.nil (by simp) (by simp)
  · intro lines s tokens line s' more _ ih hline
    obtain ⟨hmore, hbehind⟩ := scanLine_inOrder hline
    have hlines : s.lines < s'.lines := by
      rw [scanLine_lines hline]
      exact Nat.lt_succ_self s.lines
    exact ih.append hmore hbehind (Prod.Lex.toLex_le_toLex.2 (.inl hlines))

/-- The number of characters of a line. The first line has number one. -/
def lineLength (lines : List (List Char)) (number : Nat) : Nat :=
  (lines[number - 1]?.getD []).length

/-- A token stands at a character of a line or directly behind the last one. A program without
lines counts as one line without characters. -/
structure OnLine (lines : List (List Char)) (t : Token) : Prop where
  line_pos : 1 ≤ t.line
  line_le : t.line ≤ max 1 lines.length
  column_pos : 1 ≤ t.column
  column_le : t.column ≤ lineLength lines t.line + 1

theorem lineLength_append_le (lines more : List (List Char)) (number : Nat) :
    lineLength lines number ≤ lineLength (lines ++ more) number := by
  unfold lineLength
  rcases Nat.lt_or_ge (number - 1) lines.length with hlt | hge
  · rw [List.getElem?_append_left hlt]
  · rw [List.getElem?_eq_none hge]
    exact Nat.zero_le _

theorem OnLine.append {lines : List (List Char)} {t : Token} (h : OnLine lines t)
    (more : List (List Char)) : OnLine (lines ++ more) t where
  line_pos := h.line_pos
  line_le := by
    have := h.line_le
    rw [List.length_append]
    omega
  column_pos := h.column_pos
  column_le := h.column_le.trans (Nat.succ_le_succ (lineLength_append_le lines more t.line))

/-- The last line is the one that a run has the width of. -/
theorem lineLength_last (lines : List (List Char)) :
    lineLength lines (max 1 lines.length) = (lines.getLast?.getD []).length := by
  have hlast : max 1 lines.length - 1 = lines.length - 1 := by omega
  rw [lineLength, hlast, List.getLast?_eq_getElem?]

/-- What stands directly behind the last character of a program stands on its last line. -/
theorem onLine_last {lines : List (List Char)} {t : Token} (hline : t.line = max 1 lines.length)
    (hcolumn : t.column = (lines.getLast?.getD []).length + 1) : OnLine lines t where
  line_pos := hline ▸ Nat.le_max_left 1 lines.length
  line_le := hline.le
  column_pos := hcolumn ▸ Nat.succ_pos _
  column_le := by rw [hline, lineLength_last, hcolumn]

/-- What stands on the line behind others. -/
theorem onLine_concat {lines : List (List Char)} {line : List Char} {t : Token}
    (hline : t.line = lines.length + 1) (hpos : 1 ≤ t.column) (hle : t.column ≤ line.length + 1) :
    OnLine (lines ++ [line]) t where
  line_pos := hline ▸ Nat.succ_pos _
  line_le := by
    rw [hline, List.length_append, List.length_singleton]
    exact Nat.le_max_right 1 _
  column_pos := hpos
  column_le := by
    have hlength : lineLength (lines ++ [line]) (lines.length + 1) = line.length := by
      simp [lineLength]
    rwa [hline, hlength]

theorem run_onLine {settings : Settings} {lines : List (List Char)} {s : State}
    {tokens : List Token}
    (h : scanLines settings (State.start settings) lines = .ok (s, tokens)) :
    ∀ t ∈ tokens, OnLine lines t := by
  refine scanLines_induction (motive := fun lines _ tokens => ∀ t ∈ tokens, OnLine lines t)
    (by simp) ?_ h
  intro lines s tokens line s' more hrun ih hline t ht
  obtain ⟨hlines, hwidth⟩ := run_lines hrun
  rcases List.mem_append.1 ht with ht | ht
  · exact (ih t ht).append [line]
  obtain ⟨s₁, layout, found, mode, hboundary, hreads, -, rfl⟩ := scanLine_eq_ok hline
  rcases List.mem_append.1 ht with ht | ht
  · rcases hboundary.layout_cases with ⟨-, rfl⟩ | ⟨hbegun, -, count, kind, -, rfl⟩
    · cases ht
    -- The break ends the line before, and the steps begin this one.
    rcases List.mem_cons.1 ht with rfl | ht
    · have hlast : s.lines = max 1 lines.length := by omega
      exact (onLine_last hlast (congrArg (· + 1) hwidth)).append [line]
    · rw [List.eq_of_mem_replicate ht]
      exact onLine_concat (congrArg (· + 1) hlines) le_rfl (Nat.succ_pos _)
  · obtain ⟨hnumber, hpos, hle⟩ := hreads.place_of_mem_shown ht
    exact onLine_concat (hlines ▸ hnumber) hpos (Nat.le_succ_of_le hle)

/-! ### Programs -/

/-- All that closes a program stands at one position. -/
theorem closing_inOrder (depth line column : Nat) :
    InOrder (toLex (line, column)) (closing depth line column) ∧
      ∀ t ∈ closing depth line column, position t = toLex (line, column) := by
  have hplace : ∀ t ∈ closing depth line column, position t = toLex (line, column) := by
    intro t ht
    obtain ⟨-, hline, hcolumn⟩ := of_mem_closing ht
    rw [position, hline, hcolumn]
  refine ⟨inOrder_of_not_text ?_ (fun t ht => (hplace t ht).le) fun t ht => ?_, hplace⟩
  · refine List.pairwise_of_forall_mem_list fun t ht u hu => ?_
    rw [hplace t ht, hplace u hu]
  · rcases (of_mem_closing ht).1 with hkind | hkind <;> rw [hkind] <;> rfl

/-- Tokens stand in order and on their lines. The positions of a program's tokens never go back,
layout included, and those that stand for text are all at different positions. Every token stands at
a character of a line or directly behind its last one, and the only `EOF`, at the end, stands
directly behind the last line. -/
theorem tokens_in_order {settings : Settings} {lines : List (List Char)} {tokens : List Token}
    (h : scan settings lines = .ok tokens) :
    tokens.Pairwise (fun t u => position t ≤ position u) ∧
    (textTokens tokens).Pairwise (fun t u => position t < position u) ∧
    (∀ t ∈ tokens, OnLine lines t) ∧
    ∃ front, (∀ t ∈ front, t.kind ≠ .eof) ∧ tokens = front ++
      [⟨.eof, none, max 1 lines.length, lineLength lines (max 1 lines.length) + 1⟩] := by
  obtain ⟨s, front, hrun, -, rfl⟩ := scan_eq_ok h
  obtain ⟨hlines, hwidth⟩ := run_lines hrun
  have hline : max s.lines 1 = max 1 lines.length := by rw [hlines, Nat.max_comm]
  rw [hline]
  -- A program without lines is closed on line one, and any other one on its last line.
  obtain ⟨hclosing, hplace⟩ := closing_inOrder s.depth (max 1 lines.length) (s.width + 1)
  have hle : toLex (s.lines, s.width + 1) ≤ toLex (max 1 lines.length, s.width + 1) := by
    rw [Prod.Lex.toLex_le_toLex]
    omega
  have hall := (run_inOrder hrun).append hclosing (fun t ht => (hplace t ht).symm ▸ hle) hle
  refine ⟨hall.sorted, hall.strict, fun t ht => ?_, ?_⟩
  · rcases List.mem_append.1 ht with ht | ht
    · exact run_onLine hrun t ht
    · obtain ⟨-, htline, htcolumn⟩ := of_mem_closing ht
      exact onLine_last htline (by rw [htcolumn, hwidth])
  · rw [closing, lineLength_last, hwidth, ← List.append_assoc]
    refine ⟨_, fun t ht => ?_, rfl⟩
    rcases List.mem_append.1 ht with ht | ht
    · exact run_ne_eof hrun t ht
    · rw [List.eq_of_mem_replicate ht]
      simp

/-- An empty line, a comment over two lines that is shown, and a line of blanks: what closes the
program stands behind the blanks. -/
theorem tokens_in_order_comment :
    let lines := ["".toList, "  /* y".toList, "*/ z".toList, "\t".toList]
    let tokens : List Token := [⟨.newline, none, 1, 1⟩, ⟨.indent, none, 2, 1⟩,
      ⟨.flexCommentStart, none, 2, 3⟩, ⟨.flexCommentEnd, none, 3, 1⟩,
      ⟨.identifier, some (.string "z"), 3, 4⟩, ⟨.newline, none, 3, 5⟩, ⟨.dedent, none, 4, 2⟩,
      ⟨.eof, none, 4, 2⟩]
    scan { emitComments := true } lines = .ok tokens ∧
      tokens.Pairwise (fun t u => position t ≤ position u) ∧
      (textTokens tokens).Pairwise (fun t u => position t < position u) ∧
      (∀ t ∈ tokens, OnLine lines t) ∧
      ∃ front, (∀ t ∈ front, t.kind ≠ .eof) ∧ tokens = front ++
        [⟨.eof, none, max 1 lines.length, lineLength lines (max 1 lines.length) + 1⟩] := by
  intro lines tokens
  have hscan : scan { emitComments := true } lines = .ok tokens := by
    simp only [lines, tokens]
    cbv
  exact ⟨hscan, tokens_in_order hscan⟩

end Offside.Scan
