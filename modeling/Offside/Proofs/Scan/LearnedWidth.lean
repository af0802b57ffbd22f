import Offside.Proofs.Scan.Indentation
import Offside.Proofs.Scan.JoinedLines
import Offside.Proofs.Scan.PlainReading

/-!
# `Offside.Proofs.Scan.LearnedWidth`: a width that is forced and one that is learned

Where the settings force no width, the first measured line that is indented by spaces decides it
(`learnedWidth`). To force this width from the beginning changes nothing. Before that line the two
runs differ in their states, but only in the width: one knows it and the other does not, and no line
that is measured there has any spaces to divide by it.

`State.force` is that difference. `measure_force` says that measuring does not see it, as long as
the width is the one that is known already or else the one that this very line decides, and
`Boundary.force`, `scanLine_force` and `scanLines_force` say the same of what measuring is a part
of. The condition is carried along the run by `scanLine_unit`: what a run knows together with what
the lines to come decide is the same before and behind every line.

`forced_width` is the result for whole programs.
-/

set_option autoImplicit false

namespace Offside.Scan

open Offside.Text

/-! ### The width that is learned -/

/-- The width that a line decides if it is measured while none is known: its spaces, if it has any
and nothing but tabs beside them. A line that another blank indents is not measured to the end. -/
def ownWidth (line : List Char) : Option Nat :=
  if (leadingBlanks line).all isMargin then [spaces line].find? (· ≠ 0) else none

/-- The width that some lines behind others decide: that of the first measured one that has any. -/
def learnedFrom (settings : Settings) (front lines : List (List Char)) : Option Nat :=
  (measuredFrom settings front lines).findSome? ownWidth

/-- The width that a scan learns: the first number of spaces, other than zero, that it measures. -/
def learnedWidth (settings : Settings) (lines : List (List Char)) : Option Nat :=
  learnedFrom settings [] lines

theorem learnedFrom_append (settings : Settings) (front xs ys : List (List Char)) :
    learnedFrom settings front (xs ++ ys) =
      (learnedFrom settings front xs).or (learnedFrom settings (front ++ xs) ys) := by
  rw [learnedFrom, measuredFrom_append, List.findSome?_append]
  rfl

theorem learnedFrom_of_measured {settings : Settings} {front : List (List Char)}
    {line : List Char} (h : Measured settings front line) :
    learnedFrom settings front [line] = ownWidth line := by
  rw [learnedFrom, measuredFrom, if_pos h]
  exact List.findSome?_singleton

theorem learnedFrom_of_not_measured {settings : Settings} {front : List (List Char)}
    {line : List Char} (h : ¬ Measured settings front line) :
    learnedFrom settings front [line] = none := by
  rw [learnedFrom, measuredFrom, if_neg h]
  rfl

/-- A width that is learned is not zero. -/
theorem learnedWidth_pos {settings : Settings} {lines : List (List Char)} {width : Nat}
    (h : learnedWidth settings lines = some width) : 0 < width := by
  obtain ⟨line, -, hown⟩ := List.exists_of_findSome?_eq_some h
  unfold ownWidth at hown
  split at hown
  · have hne := List.find?_some hown
    exact Nat.pos_of_ne_zero (by simpa using hne)
  · cases hown

/-! ### One line with the width forced -/

/-- A state with its width forced. -/
def State.force (s : State) (width : Nat) : State := { s with unit := some width }

/-- What a run leads to, with the width of its state forced. -/
def forceRun (width : Nat) (p : State × List Token) : State × List Token :=
  (p.1.force width, p.2)

theorem State.seeAll_force (s : State) (width : Nat) (tokens : List Token) :
    (s.force width).seeAll tokens = (s.seeAll tokens).force width := by
  rw [State.seeAll_eq, State.seeAll_parens, State.seeAll_last, State.seeAll_eq s,
    State.seeAll_parens s, State.seeAll_last s]
  rfl

section

variable {unit : Option Nat} {width : Nat} {line : List Char}

/-- Where the margin of a line ends at no other blank, its spaces are what the line decides. -/
theorem ownWidth_of_margin (h : (line.dropWhile isMargin).head?.any isBlank = false) :
    ownWidth line = [(line.takeWhile isMargin).count ' '].find? (· ≠ 0) := by
  rw [ownWidth, spaces, leadingBlanks_eq_takeWhile h]
  exact if_pos (List.all_eq_true.2 fun _ => all_of_mem_takeWhile _)

/-- Measuring with a width forced is measuring, if the width is the one that is known, or the one
that the line decides where none is. -/
theorem measure_force (h : ∀ u ∈ unit.or (ownWidth line), u = width) :
    measure (some width) line = (measure unit line).map fun p => (p.1, some width) := by
  unfold measure
  simp only
  split
  · rfl
  rename_i hrest
  rw [ownWidth_of_margin (by simpa using hrest)] at h
  split
  · rfl
  rename_i hspaces
  -- Both divide by the same width.
  have hwidth : unit.getD ((line.takeWhile isMargin).count ' ') = width := by
    cases unit with
    | none => exact h _ (by simpa using hspaces)
    | some u => exact h u rfl
  rw [hwidth, Option.getD_some]
  split <;> rfl

/-- Measuring keeps a width that is known and else knows the one that the line decides. -/
theorem measure_unit {next : Option Nat} {depth : Nat} (h : measure unit line = .ok (depth, next)) :
    next = unit.or (ownWidth line) := by
  obtain ⟨hnext, hdepth⟩ := measure_eq_ok h
  rw [hnext, ownWidth, if_pos]
  exact List.all_eq_true.2 fun c hc => isMargin_iff.2 (hdepth.plain c hc).symm

end

section

variable {settings : Settings} {front : List (List Char)} {s : State} {before : List Token}
  {line : List Char} {width : Nat}

/-- A boundary keeps a width that is known, and else knows the one that its line decides. With the
width behind it forced, it is the same boundary. -/
theorem Boundary.force {s₁ : State} {layout : List Token}
    (hrun : scanLines settings (State.start settings) front = .ok (s, before))
    (h : Boundary settings s line s₁ layout) :
    s₁.unit = s.unit.or (learnedFrom settings front [line]) ∧
      ∀ width, (∀ u ∈ s₁.unit, u = width) →
        Boundary settings (s.force width) line (s₁.force width) layout := by
  cases h with
  | joined hjoins =>
    rw [learnedFrom_of_not_measured (not_measured_of_joined hrun hjoins), Option.or_none]
    exact ⟨rfl, fun _ _ => .joined hjoins⟩
  | blank hlines hended hblank =>
    rw [learnedFrom_of_not_measured (not_measured_of_blank hblank), Option.or_none]
    exact ⟨by rw [State.see_eq], fun _ _ => .blank hlines hended hblank⟩
  | @measured depth next hlines hended hvisible hmeasure =>
    have hm : Measured settings front line :=
      (measured_iff_of_run line hrun).2 ⟨hlines, hended, hvisible⟩
    rw [learnedFrom_of_measured hm]
    have hnext : next = s.unit.or (ownWidth line) := measure_unit hmeasure
    refine ⟨hnext, fun width hforced => ?_⟩
    have hforce : measure (s.force width).unit line = .ok (depth, some width) := by
      rw [State.force, measure_force (hnext ▸ hforced), hmeasure]
      rfl
    have hboundary : Boundary settings (s.force width) line
        { (s.force width).seeAll (s.newline :: depthTokens (s.lines + 1) s.depth depth) with
          depth, unit := some width }
        (s.newline :: depthTokens (s.lines + 1) s.depth depth) :=
      .measured hlines hended hvisible hforce
    rwa [State.seeAll_force] at hboundary

/-- A line that cannot be measured cannot be measured with the width forced. -/
theorem boundary_force_eq_error {fault : Fault}
    (hrun : scanLines settings (State.start settings) front = .ok (s, before))
    (h : ∀ u ∈ s.unit.or (learnedFrom settings front [line]), u = width)
    (hfault : boundary settings s line = .error fault) :
    boundary settings (s.force width) line = .error fault := by
  obtain ⟨hlines, hended, hvisible, hmeasure⟩ := boundary_eq_error_iff.1 hfault
  have hm : Measured settings front line :=
    (measured_iff_of_run line hrun).2 ⟨hlines, hended, hvisible⟩
  rw [learnedFrom_of_measured hm] at h
  have hforce : measure (s.force width).unit line = .error fault := by
    rw [State.force, measure_force h, hmeasure]
    rfl
  exact boundary_eq_error_iff.2 ⟨hlines, hended, hvisible, hforce⟩

/-- A line with the width forced has the same tokens or the same error, and behind it the width is
forced still. -/
theorem scanLine_force (hrun : scanLines settings (State.start settings) front = .ok (s, before))
    (h : ∀ u ∈ s.unit.or (learnedFrom settings front [line]), u = width) :
    scanLine settings (s.force width) line =
      (scanLine settings s line).map (forceRun width) := by
  cases hboundary : boundary settings s line with
  | error fault =>
    simp only [scanLine, hboundary, boundary_force_eq_error hrun h hboundary]
    rfl
  | ok p =>
    have hrules := boundary_eq_ok_iff.1 hboundary
    obtain ⟨hunit, hforce⟩ := hrules.force hrun
    rw [hrules.scanLine_eq, (hforce width (hunit ▸ h)).scanLine_eq]
    -- Both read the line from the same mode.
    show (readLine settings.isKeyword (s.lines + 1) (if s.inComment then .comment else .code)
      line).map _ = _
    cases readLine settings.isKeyword (s.lines + 1) (if s.inComment then .comment else .code)
        line with
    | error e => rfl
    | ok q =>
      simp only [Except.map, State.seeAll_force]
      rfl

/-- Behind a line a run knows the width that it has known before, or else the one that the line
decides. -/
theorem scanLine_unit {s' : State} {tokens : List Token}
    (hrun : scanLines settings (State.start settings) front = .ok (s, before))
    (hline : scanLine settings s line = .ok (s', tokens)) :
    s'.unit = s.unit.or (learnedFrom settings front [line]) := by
  obtain ⟨s₁, layout, found, mode, hboundary, -, rfl, -⟩ := scanLine_eq_ok hline
  rw [State.seeAll_eq]
  exact (hboundary.force hrun).1

/-- Where no width is forced, a run knows the one that it has learned. -/
theorem run_learnedWidth (hfree : settings.indentWidth = none)
    (hrun : scanLines settings (State.start settings) front = .ok (s, before)) :
    s.unit = learnedWidth settings front := by
  refine scanLines_induction (motive := fun front s _ => s.unit = learnedWidth settings front)
    ?_ ?_ hrun
  · rw [State.start, hfree]
    rfl
  · intro front s before line s' tokens hrun ih hline
    rw [scanLine_unit hrun hline, ih, learnedWidth, learnedWidth, learnedFrom_append]
    rfl

/-- A run of lines with the width forced has the same tokens or the same error, if the width is the
one that is known before it, or the one that the lines decide where none is. -/
theorem scanLines_force {lines : List (List Char)}
    (hrun : scanLines settings (State.start settings) front = .ok (s, before))
    (h : ∀ u ∈ s.unit.or (learnedFrom settings front lines), u = width) :
    scanLines settings (s.force width) lines =
      (scanLines settings s lines).map (forceRun width) := by
  -- The lines in front grow by one at a time, and what a line decides moves from the condition on
  -- the lines to come into the state.
  induction lines generalizing front s before with
  | nil => rfl
  | cons line lines ih =>
    rw [← List.singleton_append, learnedFrom_append, ← Option.or_assoc] at h
    have hown : ∀ u ∈ s.unit.or (learnedFrom settings front [line]), u = width := by
      intro u hu
      refine h u ?_
      rw [Option.mem_def.1 hu]
      rfl
    rw [scanLines, scanLines, scanLine_force hrun hown]
    cases hline : scanLine settings s line with
    | error e => rfl
    | ok p =>
      have hthrough : scanLines settings (State.start settings) (front ++ [line]) =
          .ok (p.1, before ++ p.2) := by
        rw [scanLines_append_of_ok hrun, scanLines_singleton, hline]
        rfl
      rw [← scanLine_unit hrun hline] at h
      simp only [Except.map, forceRun]
      rw [ih hthrough h]
      cases scanLines settings p.1 lines <;> rfl

end

/-! ### Programs -/

/-- The width that the settings force decides where a run starts, and nothing behind that. -/
theorem scanLines_indentWidth (settings : Settings) (width : Option Nat) (s : State)
    (lines : List (List Char)) :
    scanLines { settings with indentWidth := width } s lines = scanLines settings s lines := by
  induction lines generalizing s with
  | nil => rfl
  | cons line lines ih =>
    have hline : scanLine { settings with indentWidth := width } s line =
        scanLine settings s line := rfl
    simp only [scanLines, hline, ih]

/-- How a run closes does not depend on the width. -/
theorem closed_force (r : Except Error (State × List Token)) (width : Nat) :
    closed (r.map (forceRun width)) = closed r := by
  cases r <;> rfl

/-- A width that is not zero may be forced if it is the one that is learned, or if none is. -/
theorem scan_force {settings : Settings} {lines : List (List Char)} {width : Nat}
    (hpos : 0 < width)
    (h : ∀ u ∈ learnedWidth { settings with indentWidth := none } lines, u = width) :
    scan { settings with indentWidth := some width } lines =
      scan { settings with indentWidth := none } lines := by
  have hstart : State.start { settings with indentWidth := some width } =
      (State.start { settings with indentWidth := none }).force width := by
    unfold State.start State.force
    simp [hpos]
  have hempty : scanLines { settings with indentWidth := none }
      (State.start { settings with indentWidth := none }) [] = .ok (_, []) := rfl
  rw [scan_eq_closed, scan_eq_closed, hstart, scanLines_indentWidth,
    ← scanLines_indentWidth settings none, scanLines_force hempty h, closed_force]

/-- To force an indentation width is to know before what would be learned. A width of zero is as
good as none. If a scan without a width learns one, then forcing that one gives the same result,
token for token or error for error. If it learns none, then so does forcing any width but zero. -/
theorem forced_width (settings : Settings) (lines : List (List Char)) :
    scan { settings with indentWidth := some 0 } lines =
      scan { settings with indentWidth := none } lines ∧
    (∀ width, learnedWidth { settings with indentWidth := none } lines = some width →
      scan { settings with indentWidth := some width } lines =
        scan { settings with indentWidth := none } lines) ∧
    (learnedWidth { settings with indentWidth := none } lines = none → ∀ width, 0 < width →
      scan { settings with indentWidth := some width } lines =
        scan { settings with indentWidth := none } lines) := by
  refine ⟨?_, ?_, ?_⟩
  · have hstart : State.start { settings with indentWidth := some 0 } =
        State.start { settings with indentWidth := none } := rfl
    rw [scan_eq_closed, scan_eq_closed, hstart]
    simp only [scanLines_indentWidth]
  · intro width hlearned
    refine scan_force (learnedWidth_pos hlearned) fun u hu => ?_
    rw [hlearned] at hu
    exact (Option.some.inj hu).symm
  · intro hnone width hpos
    refine scan_force hpos fun u hu => ?_
    rw [hnone] at hu
    cases hu

/-- The width of the first program below is four. The spaces of its second line are not measured,
since a parenthesis is open, and the third line begins with a tab; the last line then has half a
step too many, whether the four spaces are forced or learned. The second program learns no width,
for its last line is not measured to the end, and seven spaces may be forced as well. -/
theorem forced_width_late :
    let late := ["a = (".toList, "   1)".toList, "\tb".toList, "    c".toList, "      d".toList]
    let never := ["a".toList, "\tb".toList, "  \u00a0c".toList]
    learnedWidth {} late = some 4 ∧
    scan { indentWidth := some 4 } late =
      .error ⟨5, some 7, .inconsistentIndentation 6 4⟩ ∧
    learnedWidth {} never = none ∧
    scan { indentWidth := some 7 } never = .error ⟨3, some 3, .illegalWhitespace⟩ := by
  intro late never
  have hlate : learnedWidth {} late = some 4 := by decide +kernel
  have hnever : learnedWidth {} never = none := by decide +kernel
  refine ⟨hlate, ((forced_width {} late).2.1 4 hlate).trans ?_, hnever,
    ((forced_width {} never).2.2 hnever 7 (by decide)).trans ?_⟩
  · cbv
  · cbv

end Offside.Scan
