import Offside.Proofs.Scan.Brackets
import Offside.Proofs.Scan.Failure

/-!
# `Offside.Proofs.Scan.Incremental`: lines that are added at the end

A program can be scanned as it grows. What the tokens of some lines are does not depend on what
follows them, with the exception of those that stand for the end of the input: the `EOF` and the
`DEDENT`s in its place. `unclosed` is the program without these, and `unclosed_append_closing`
says that this takes away just what closing the program has added. No `DEDENT` of a line stands
in the place of `EOF`, because a step is taken in the first column of a line that holds
something (`run_dedent`).

`scan_incremental` is the result: the tokens of a program begin with those of its first lines,
and an error in its first lines is an error of the whole, and the other way round.
-/

set_option autoImplicit false

namespace Offside.Scan

open Offside.Text

/-- Whether a token stands for the end of a program that ends in the given `EOF`. -/
def standsForEnd (eof t : Token) : Bool :=
  t.kind == .eof || (t.kind == .dedent && t.line == eof.line && t.column == eof.column)

/-- A program without its `EOF` and without the `DEDENT`s in the place of that. -/
def unclosed (tokens : List Token) : List Token :=
  match tokens.getLast? with
  | some eof => tokens.filter (fun t => !standsForEnd eof t)
  | none => []

/-! ### The steps that close a program -/

/-- A step to the left before the text of a line is taken in its first column, and the line holds
something. -/
theorem Boundary.dedent {settings : Settings} {s s' : State} {line : List Char}
    {layout : List Token} (h : Boundary settings s line s' layout) {t : Token} (ht : t ∈ layout)
    (hk : t.kind = .dedent) : t.line = s.lines + 1 ∧ t.column = 1 ∧ 0 < line.length := by
  cases h with
  | joined _ => cases ht
  | blank _ _ _ =>
    rw [List.mem_singleton.1 ht] at hk
    cases hk
  | @measured depth _ _ _ hvisible _ =>
    have hline : 0 < line.length := by
      rw [List.length_pos_iff]
      rintro rfl
      cases hvisible
    obtain ⟨count, kind, -, hsteps⟩ := depthTokens_eq_replicate (s.lines + 1) s.depth depth
    rw [hsteps] at ht
    rcases List.mem_cons.1 ht with rfl | ht
    · cases hk
    · rw [List.eq_of_mem_replicate ht]
      exact ⟨rfl, rfl, hline⟩

/-- The steps to the left of a run stand in the first column of lines that hold something. -/
theorem run_dedent {settings : Settings} {lines : List (List Char)} {s : State}
    {tokens : List Token}
    (h : scanLines settings (State.start settings) lines = .ok (s, tokens)) :
    ∀ t ∈ tokens, t.kind = .dedent →
      t.line ≤ s.lines ∧ t.column = 1 ∧ (t.line = s.lines → 0 < s.width) := by
  refine scanLines_induction (motive := fun _ s tokens => ∀ t ∈ tokens, t.kind = .dedent →
    t.line ≤ s.lines ∧ t.column = 1 ∧ (t.line = s.lines → 0 < s.width)) (by simp) ?_ h
  intro lines s tokens line s' more _ ih hline t ht hk
  obtain ⟨s₁, layout, found, mode, hboundary, hreads, rfl, rfl⟩ := scanLine_eq_ok hline
  show t.line ≤ s.lines + 1 ∧ t.column = 1 ∧ (t.line = s.lines + 1 → 0 < line.length)
  rcases List.mem_append.1 ht with ht | ht
  -- A step of an earlier line is not on this one.
  · obtain ⟨hle, hcolumn, -⟩ := ih t ht hk
    exact ⟨by omega, hcolumn, fun heq => by omega⟩
  rcases List.mem_append.1 ht with ht | ht
  · obtain ⟨hnumber, hcolumn, hpos⟩ := hboundary.dedent ht hk
    exact ⟨by omega, hcolumn, fun _ => hpos⟩
  · exact absurd hk (isText_ne (hreads.of_mem_shown ht).1).2.2.1

/-- What closing a run adds is what `unclosed` takes away. -/
theorem unclosed_append_closing {settings : Settings} {lines : List (List Char)} {s : State}
    {tokens : List Token}
    (h : scanLines settings (State.start settings) lines = .ok (s, tokens)) :
    unclosed (tokens ++ closing s.depth (max s.lines 1) (s.width + 1)) = tokens := by
  have hfront : ∀ t ∈ tokens,
      standsForEnd ⟨.eof, none, max s.lines 1, s.width + 1⟩ t = false := by
    intro t ht
    have heof : t.kind ≠ .eof := run_ne_eof h t ht
    by_cases hk : t.kind = .dedent
    · obtain ⟨hle, hcolumn, hpos⟩ := run_dedent h t ht hk
      -- In the first column of the last line, `EOF` has no text before it, but a step has.
      have hplace : t.line = max s.lines 1 → t.column ≠ s.width + 1 := by
        intro hline
        have hwidth := hpos (by omega)
        omega
      simpa [standsForEnd, heof, hk] using hplace
    · simp [standsForEnd, heof, hk]
  have hback : ∀ t ∈ closing s.depth (max s.lines 1) (s.width + 1),
      standsForEnd ⟨.eof, none, max s.lines 1, s.width + 1⟩ t = true := by
    intro t ht
    obtain ⟨hk, hline, hcolumn⟩ := of_mem_closing ht
    rcases hk with hk | hk <;> simp [standsForEnd, hk, hline, hcolumn]
  have hlast : (tokens ++ closing s.depth (max s.lines 1) (s.width + 1)).getLast? =
      some ⟨.eof, none, max s.lines 1, s.width + 1⟩ := by
    rw [closing, ← List.append_assoc, List.getLast?_concat]
  unfold unclosed
  simp only [hlast, List.filter_append]
  rw [List.filter_eq_self.2 (fun t ht => by simp [hfront t ht]),
    List.filter_eq_nil_iff.2 (fun t ht => by simp [hback t ht]), List.append_nil]

/-! ### Lines at the end -/

/-- Scanning is incremental. The tokens of a program begin with those of its first lines, as far
as these do not stand for the end. An error in its first lines is the same with further lines
behind them, unless it is that a block comment is still open; and an error of the whole that lies on
one of its first lines is an error of these alone. -/
theorem scan_incremental (settings : Settings) (xs ys : List (List Char)) :
    (∀ tokens all, scan settings xs = .ok tokens → scan settings (xs ++ ys) = .ok all →
      unclosed tokens <+: all) ∧
    (∀ e, scan settings xs = .error e → e.cause ≠ .unterminatedComment →
      scan settings (xs ++ ys) = .error e) ∧
    ∀ e, scan settings (xs ++ ys) = .error e → e.line ≤ xs.length →
      scan settings xs = .error e := by
  refine ⟨?_, ?_, ?_⟩
  · intro tokens all hfront hall
    obtain ⟨s, own, hown, -, rfl⟩ := scan_eq_ok hfront
    obtain ⟨s', found, hfound, -, rfl⟩ := scan_eq_ok hall
    obtain ⟨s₁, before, more, hbefore, -, rfl⟩ := scanLines_append_eq_ok hfound
    -- The whole run has passed through the state in which the first lines are closed.
    rw [hown] at hbefore
    cases hbefore
    rw [unclosed_append_closing hown, List.append_assoc]
    exact List.prefix_append own _
  · intro e hfront hcause
    rcases scan_eq_error_cases hfront with hrun | ⟨s, tokens, -, -, rfl⟩
    · exact scan_of_failed_run (scanLines_append_of_error hrun ys)
    · exact absurd rfl hcause
  · intro e hall hle
    rcases scan_eq_error_cases hall with hrun | ⟨s, tokens, hrun, hinside, rfl⟩
    · cases hfront : scanLines settings (State.start settings) xs with
      | error e' =>
        rw [scanLines_append_of_error hfront] at hrun
        cases hrun
        exact scan_of_failed_run hfront
      -- Otherwise the error lies on one of the lines that follow.
      | ok p =>
        obtain ⟨s, tokens⟩ := p
        rw [scanLines_append_of_ok hfront] at hrun
        cases hmore : scanLines settings s ys with
        | ok q =>
          rw [hmore] at hrun
          cases hrun
        | error e' =>
          rw [hmore] at hrun
          cases hrun
          have hline := (line_of_scanLines_eq_error hmore).1
          rw [(run_lines hfront).1] at hline
          omega
    -- The end of the input is on one of the first lines only if there are no others.
    · have hnil : ys = [] := by
        have hlength : xs.length + ys.length ≤ xs.length := by simpa using hle
        exact List.eq_nil_of_length_eq_zero (by omega)
      rwa [hnil, List.append_nil] at hall ⊢

/-- The first two lines of a block keep their tokens when a third is added, but for the `EOF` and
the `DEDENT` before it. A second line with a fault decides about both. -/
theorem scan_incremental_block :
    let before : List Token := [⟨.keyword, some (.string "if"), 1, 1⟩,
      ⟨.identifier, some (.string "a"), 1, 4⟩, ⟨.newline, none, 1, 5⟩, ⟨.indent, none, 2, 1⟩,
      ⟨.identifier, some (.string "b"), 2, 3⟩]
    let all := before ++ [⟨.newline, none, 2, 4⟩, ⟨.identifier, some (.string "c"), 3, 3⟩,
      ⟨.dedent, none, 3, 4⟩, ⟨.eof, none, 3, 4⟩]
    scan {} ["if a".toList, "  b".toList] =
        .ok (before ++ [⟨.dedent, none, 2, 4⟩, ⟨.eof, none, 2, 4⟩]) ∧
      scan {} (["if a".toList, "  b".toList] ++ ["  c".toList]) = .ok all ∧
      before <+: all ∧
      scan {} (["if a".toList, "  $".toList] ++ ["  c".toList]) =
        .error ⟨2, some 3, .illegalCharacter '$'⟩ ∧
      scan {} ["if a".toList, "  ?".toList] = .error ⟨2, some 3, .illegalCharacter '?'⟩ := by
  intro before all
  have hfront : scan {} ["if a".toList, "  b".toList] =
      .ok (before ++ [⟨.dedent, none, 2, 4⟩, ⟨.eof, none, 2, 4⟩]) := by cbv
  have hall : scan {} (["if a".toList, "  b".toList] ++ ["  c".toList]) = .ok all := by cbv
  have hbad : scan {} ["if a".toList, "  $".toList] =
      .error ⟨2, some 3, .illegalCharacter '$'⟩ := by cbv
  have hworse : scan {} (["if a".toList, "  ?".toList] ++ ["  c".toList]) =
      .error ⟨2, some 3, .illegalCharacter '?'⟩ := by cbv
  exact ⟨hfront, hall, (scan_incremental {} _ _).1 _ all hfront hall,
    (scan_incremental {} _ _).2.1 _ hbad (by decide),
    (scan_incremental {} _ _).2.2 _ hworse (by decide)⟩

end Offside.Scan
