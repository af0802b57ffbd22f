import Offside.Proofs.Scan.CommentLines

/-!
# `Offside.Proofs.Scan.BlankLines`: a line of blanks between others

A line of blanks says nothing in any mode (`Boundary.scanLine_blank`), so all it can add is the
layout before it. Inside a statement there is none, and the lines behind it find the state that they
would find without it. Behind a statement there is one `NEWLINE`, and that becomes the last token.
The next line is measured either way, and what the last token was does not matter to it: states in a
pause between statements go on alike as long as they agree in the width of a step and in the depth
(`Resting.scanLine_congr` for one line, `Resting.outline_closed` for the rest of a program).

`blank_line` is the result for whole programs.
-/

set_option autoImplicit false

namespace Offside.Scan

open Offside.Text

section

variable {settings : Settings} {unit : Option Nat} {depth : Nat} {s s₁ t : State}
  {line : List Char} {layout : List Token}

/-! ### Pauses between statements -/

/-- Behind the end of a statement, what happens before a line does not depend on the last token. -/
theorem boundary_last (hbegun : s.lines ≠ 0) (hended : s.joinsNext settings = false)
    {last : Option Kind} (hended' : ({ s with last } : State).joinsNext settings = false)
    (line : List Char) :
    boundary settings { s with last } line = boundary settings s line := by
  have hends : ¬ (s.lines = 0 ∨ s.joinsNext settings = true) := by simp [hbegun, hended]
  have hends' : ¬ (s.lines = 0 ∨ ({ s with last } : State).joinsNext settings = true) := by
    simp [hbegun, hended']
  unfold boundary
  exact (if_neg hends').trans (if_neg hends).symm

/-- Two pauses at the same depth and with the same width of a step go on alike. -/
theorem Resting.scanLine_congr (hs : Resting settings unit depth s)
    (ht : Resting settings unit depth t) (line : List Char) :
    SameRun (scanLine settings s line) (scanLine settings t line) := by
  obtain ⟨hinside, hparens, hlast⟩ := State.joinsNext_eq_false.1 hs.ended
  obtain ⟨hinside', hparens', -⟩ := State.joinsNext_eq_false.1 ht.ended
  -- With the last token of the one, the other differs in places only.
  have halike : Alike s { t with last := s.last } :=
    ⟨iff_of_false hs.begun ht.begun, hs.unit.trans ht.unit.symm, hs.depth.trans ht.depth.symm,
      hinside.trans hinside'.symm, hparens.trans hparens'.symm, rfl⟩
  have hended : ({ t with last := s.last } : State).joinsNext settings = false :=
    State.joinsNext_eq_false.2 ⟨hinside', hparens', hlast⟩
  have hboundary := boundary_last ht.begun ht.ended hended line
  have hline : scanLine settings { t with last := s.last } line = scanLine settings t line := by
    unfold scanLine
    rw [hboundary]
  rw [← hline]
  exact scanLine_alike halike settings line

/-- What follows two such pauses is the same to the end of the program. -/
theorem Resting.outline_closed (hs : Resting settings unit depth s)
    (ht : Resting settings unit depth t) (rest : List (List Char)) :
    outline (closed (scanLines settings s rest)) =
      outline (closed (scanLines settings t rest)) := by
  cases rest with
  | nil =>
    unfold scanLines closed State.close
    simp only [hs.outside, ht.outside, Bool.false_eq_true, if_false, List.nil_append, outline,
      List.map_append, List.map_replicate, hs.depth, ht.depth]
    rfl
  | cons line rest =>
    have hrest : SameRun (scanLines settings s (line :: rest))
        (scanLines settings t (line :: rest)) :=
      (hs.scanLine_congr ht line).andThen fun s t hst => scanLines_alike hst settings rest
    exact hrest.outline_closed

/-! ### Blank lines -/

/-- A line of blanks adds the layout before it. -/
theorem Boundary.scanLine_blank (h : Boundary settings s line s₁ layout)
    (hblank : allBlank line = true) :
    scanLine settings s line =
      .ok ({ s₁ with lines := s.lines + 1, width := line.length }, layout) := by
  have hread (mode : Mode) : lexemes settings.isKeyword mode line = .ok ([], mode) := by
    have hskip := lexemes_blanks settings.isKeyword mode (List.all_eq_true.1 hblank) []
    rwa [List.append_nil, lexemes] at hskip
  have hmode : ((if s.inComment then Mode.comment else .code) == Mode.comment) = s₁.inComment := by
    rw [h.inComment_eq]
    cases s.inComment <;> rfl
  rw [h.scanLine_eq, readLine, hread]
  show Except.ok ({ s₁ with
      lines := s.lines + 1, width := line.length,
      inComment := (if s.inComment then Mode.comment else .code) == Mode.comment },
    layout ++ []) = _
  rw [hmode, List.append_nil]

/-- Inside a statement a blank line leaves the state as it is, and the rest of the program, too. -/
theorem outline_closed_of_joined (hbegun : s.lines ≠ 0) (count : Nat) (rest : List (List Char)) :
    outline (closed (scanLines settings
        { s with lines := s.lines + 1, width := count } rest)) =
      outline (closed (scanLines settings s rest)) := by
  have halike : Alike { s with lines := s.lines + 1, width := count } s :=
    ⟨iff_of_false (Nat.succ_ne_zero _) hbegun, rfl, rfl, rfl, rfl, rfl⟩
  exact (scanLines_alike halike settings rest).outline_closed

/-- The `NEWLINE` of a blank line leaves the rest of the program as it is. -/
theorem outline_closed_of_ended (hbegun : s.lines ≠ 0) (hended : s.joinsNext settings = false)
    (hnewline : settings.continues .newline = false) (count : Nat) (rest : List (List Char)) :
    outline (closed (scanLines settings
        { s.see .newline with lines := s.lines + 1, width := count } rest)) =
      outline (closed (scanLines settings s rest)) := by
  obtain ⟨hinside, hparens, -⟩ := State.joinsNext_eq_false.1 hended
  have hlast : ∀ kind ∈ (s.see .newline).last, settings.continues kind = false := by
    rintro kind ⟨⟩
    exact hnewline
  have hpause : Resting settings s.unit s.depth
      { s.see .newline with lines := s.lines + 1, width := count } :=
    ⟨Nat.succ_ne_zero _, State.joinsNext_eq_false.2 ⟨hinside, hparens, hlast⟩, rfl, rfl⟩
  exact hpause.outline_closed ⟨hbegun, hended, rfl, rfl⟩ rest

end

/-! ### Programs -/

/-- A blank line adds nothing but a `NEWLINE`. Let a `NEWLINE` not let a statement run on, and let a
line of blanks stand behind others, at least one, that have no fault. If these do not end a
statement, then whatever lines follow, the scan gives the same kinds and literals without the blank
line, or it fails for the same cause. If they do, then there is exactly one `NEWLINE` more, directly
behind the tokens of the lines before, or the scan fails for the same cause. -/
theorem blank_line {settings : Settings} {front : List (List Char)} {line : List Char}
    {before : List Token} (hnewline : settings.continues .newline = false) (hfront : front ≠ [])
    (hemitted : emitted settings front = .ok before) (hblank : allBlank line = true)
    (rest : List (List Char)) :
    (¬ EndsStatement settings front before →
      outline (scan settings (front ++ [line] ++ rest)) =
        outline (scan settings (front ++ rest))) ∧
    (EndsStatement settings front before → ∃ behind : Except Cause (List Lexeme),
      outline (scan settings (front ++ rest)) = behind.map (before.map lexemeOf ++ ·) ∧
      outline (scan settings (front ++ [line] ++ rest)) =
        behind.map (before.map lexemeOf ++ [⟨.newline, none⟩] ++ ·)) := by
  obtain ⟨s, hrun⟩ := emitted_eq_ok_iff.1 hemitted
  have hbegun : s.lines ≠ 0 := by
    rw [(run_lines hrun).1]
    exact fun hzero => hfront (List.eq_nil_of_length_eq_zero hzero)
  have hthrough {s' : State} {layout : List Token}
      (hline : scanLine settings s line = .ok (s', layout)) :
      scanLines settings (State.start settings) (front ++ [line]) =
        .ok (s', before ++ layout) := by
    rw [scanLines_append_of_ok hrun, scanLines_singleton, hline]
    rfl
  rw [outline_scan_append hrun, ← joinsNext_eq_false_iff hrun, Bool.not_eq_false]
  constructor
  · intro hjoins
    have hboundary : Boundary settings s line s [] := .joined (.inr hjoins)
    rw [outline_scan_append (hthrough (hboundary.scanLine_blank hblank)), List.append_nil,
      outline_closed_of_joined hbegun]
  · intro hended
    have hboundary : Boundary settings s line (s.see .newline) [s.newline] :=
      .blank hbegun hended hblank
    refine ⟨_, rfl, ?_⟩
    rw [outline_scan_append (hthrough (hboundary.scanLine_blank hblank)), List.map_append,
      outline_closed_of_ended hbegun hended hnewline]
    rfl

/-- Behind the second line below a statement ends, and a blank line adds its `NEWLINE` inside the
block. Behind the third one a parenthesis is open, and a blank line adds nothing, not even where the
next line fails. -/
theorem blank_line_in_block :
    let front := ["a".toList, "  b".toList]
    let more := front ++ ["  c(".toList]
    let blank := "\t \u00a0".toList
    let before : List Token := [⟨.identifier, some (.string "a"), 1, 1⟩, ⟨.newline, none, 1, 2⟩,
      ⟨.indent, none, 2, 1⟩, ⟨.identifier, some (.string "b"), 2, 3⟩]
    let after : List Lexeme := [⟨.newline, none⟩, ⟨.identifier, some (.string "c")⟩,
      ⟨.dedent, none⟩, ⟨.eof, none⟩]
    (emitted {} front = .ok before ∧ EndsStatement {} front before ∧
      outline (scan {} (front ++ ["  c".toList])) = .ok (before.map lexemeOf ++ after) ∧
      outline (scan {} (front ++ [blank] ++ ["  c".toList])) =
        .ok (before.map lexemeOf ++ [⟨.newline, none⟩] ++ after)) ∧
    (∃ tokens, emitted {} more = .ok tokens ∧ ¬ EndsStatement {} more tokens ∧
      outline (scan {} (more ++ [blank] ++ [" 1) $".toList])) =
        .error (.illegalCharacter '$')) := by
  intro front more blank before after
  have hblank : allBlank blank = true := by decide
  have hnewline : ({} : Settings).continues .newline = false := by decide
  have hemitted : emitted {} front = .ok before := by cbv
  have hends : EndsStatement {} front before := by
    have hm : Measured {} front "c".toList := by decide +kernel
    obtain ⟨tokens, hfound, hends⟩ := hm.ends
    rw [hemitted] at hfound
    cases hfound
    exact hends
  have hscan : outline (scan {} (front ++ ["  c".toList])) =
      .ok (before.map lexemeOf ++ after) := by cbv
  refine ⟨⟨hemitted, hends, hscan, ?_⟩, ?_⟩
  · obtain ⟨behind, hwithout, hwith⟩ :=
      (blank_line hnewline (by decide) hemitted hblank ["  c".toList]).2 hends
    rw [hwith]
    rw [hwithout] at hscan
    cases behind with
    | error cause => cases hscan
    | ok rest =>
      have hrest : rest = after := List.append_cancel_left (Except.ok.inj hscan)
      rw [hrest]
      rfl
  · have hopen : emitted {} more = .ok (before ++ [⟨.newline, none, 2, 4⟩,
        ⟨.identifier, some (.string "c"), 3, 3⟩, ⟨.lParen, none, 3, 4⟩]) := by cbv
    have hjoins : ¬ EndsStatement {} more (before ++ [⟨.newline, none, 2, 4⟩,
        ⟨.identifier, some (.string "c"), 3, 3⟩, ⟨.lParen, none, 3, 4⟩]) :=
      fun hends => absurd hends.closed (by decide)
    refine ⟨_, hopen, hjoins, ?_⟩
    rw [(blank_line hnewline (by decide) hopen hblank _).1 hjoins]
    cbv

end Offside.Scan
