import Offside.Proofs.Scan.Brackets
import Offside.Proofs.Scan.Failure
import Offside.Proofs.Scan.LineBreaks

/-!
# `Offside.Proofs.Scan.Indentation`: how deep a line stands

A line is `Measured` if a statement ends before it and it holds anything but blanks. One step
of indentation is `stepWidth` spaces or one tab: the width is forced by the settings, or else
decided by the first measured line that begins with any spaces. `HasDepth` says by how many
steps a line is indented, and that these are whole steps.

* `measure_eq_ok`, `measure_eq_illegal` and `measure_eq_inconsistent` say what measuring a line
  answers, from the blanks that the line begins with.
* `run_unit`: the width that a run has come to know is that of its lines.
* `indentation_exact` is the result for whole programs. Where a scan succeeds, every measured
  line stands at its depth and no other line changes the depth. Where a measured line is not
  indented by whole steps, the scan fails there.
-/

set_option autoImplicit false

namespace Offside.Scan

open Offside.Text

/-! ### The blanks at the beginning of a line -/

/-- The blanks that a line begins with. -/
def leadingBlanks (line : List Char) : List Char := line.takeWhile isBlank

/-- The number of spaces among the blanks that a line begins with. -/
def spaces (line : List Char) : Nat := (leadingBlanks line).count ' '

/-- The number of tabs among the blanks that a line begins with. -/
def tabs (line : List Char) : Nat := (leadingBlanks line).count '\t'

/-- A line is indented by whole steps, so many in all, where a step is a tab or as many spaces
as the width says. Without a width there are no spaces. -/
structure HasDepth (width : Option Nat) (line : List Char) (depth : Nat) : Prop where
  /-- Nothing but tabs and spaces indents the line. -/
  plain : ∀ c ∈ leadingBlanks line, c = '\t' ∨ c = ' '
  /-- The spaces are whole steps. -/
  whole : ∀ w ∈ width, w ∣ spaces line
  /-- Spaces have a width. -/
  known : spaces line ≠ 0 → width ≠ none
  /-- Tabs and steps of spaces add up. -/
  total : depth = tabs line + spaces line / width.getD 1

/-- Where the margin ends at no other blank, it is all the blanks of the line's beginning. -/
theorem leadingBlanks_eq_takeWhile {line : List Char}
    (h : (line.dropWhile isMargin).head?.any isBlank = false) :
    leadingBlanks line = line.takeWhile isMargin := by
  have hstop : StopsAt isBlank (line.dropWhile isMargin) := by
    intro c hc
    rw [Option.mem_def.1 hc] at h
    exact h
  have hblank : ∀ c ∈ line.takeWhile isMargin, isBlank c = true :=
    fun c hc => isBlank_of_isMargin (all_of_mem_takeWhile c hc)
  calc leadingBlanks line
      = (line.takeWhile isMargin ++ line.dropWhile isMargin).takeWhile isBlank := by
        rw [List.takeWhile_append_dropWhile, leadingBlanks]
    _ = line.takeWhile isMargin := takeWhile_append_of_stopsAt hblank hstop

theorem margin_of_plain {line : List Char}
    (h : ∀ c ∈ leadingBlanks line, c = '\t' ∨ c = ' ') :
    line.takeWhile isMargin = leadingBlanks line ∧
      line.dropWhile isMargin = line.dropWhile isBlank := by
  have hmargin : ∀ c ∈ leadingBlanks line, isMargin c = true :=
    fun c hc => isMargin_iff.2 (h c hc).symm
  have hstop : StopsAt isMargin (line.dropWhile isBlank) := by
    intro c hc
    have hblank := stopsAt_dropWhile isBlank line c hc
    by_contra hm
    rw [isBlank_of_isMargin (by simpa using hm)] at hblank
    cases hblank
  have hline : leadingBlanks line ++ line.dropWhile isBlank = line :=
    List.takeWhile_append_dropWhile
  constructor
  · conv_lhs => rw [← hline]
    exact takeWhile_append_of_stopsAt hmargin hstop
  · conv_lhs => rw [← hline]
    exact dropWhile_append_of_stopsAt hmargin hstop

/-! ### Measuring -/

/-- A margin that no blank of another kind ends is all the blanks before the first other
character. -/
theorem plain_of_margin {line : List Char}
    (h : (line.dropWhile isMargin).head?.any isBlank = false) :
    ∀ c ∈ leadingBlanks line, c = '\t' ∨ c = ' ' := by
  rw [leadingBlanks_eq_takeWhile h]
  exact fun c hc => (isMargin_iff.1 (all_of_mem_takeWhile c hc)).symm

/-- A line that can be measured stands at its depth, in steps of the width that is known behind
it: the one that was known before it, or else the number of its own spaces. -/
theorem measure_eq_ok {unit next : Option Nat} {line : List Char} {depth : Nat}
    (h : measure unit line = .ok (depth, next)) :
    next = unit.or ([spaces line].find? (· ≠ 0)) ∧ HasDepth next line depth := by
  unfold measure at h
  simp only at h
  split at h
  · simp at h
  rename_i hrest
  rw [Bool.not_eq_true] at hrest
  rw [← leadingBlanks_eq_takeWhile hrest] at h
  have hplain := plain_of_margin hrest
  split at h
  · rename_i hspaces
    have hspaces : spaces line = 0 := hspaces
    cases h
    refine ⟨by simp [hspaces], hplain, ?_, fun hne => absurd hspaces hne, ?_⟩
    · intro w _
      rw [hspaces]
      exact Nat.dvd_zero w
    · rw [hspaces, Nat.zero_div, Nat.add_zero, tabs]
  · rename_i hspaces
    have hspaces : spaces line ≠ 0 := hspaces
    split at h
    · rename_i hwhole
      cases h
      refine ⟨?_, hplain, ?_, fun _ => by simp, rfl⟩
      · cases unit with
        | none =>
          rw [Option.none_or, List.find?_singleton, if_pos (by simpa using hspaces)]
          rfl
        | some w => rfl
      · rintro w ⟨⟩
        exact Nat.dvd_of_mod_eq_zero hwhole
    · simp at h

/-- The first blank of a line's beginning that is neither tab nor space is illegal. -/
theorem measure_eq_illegal (unit : Option Nat) {before after : List Char} {c : Char}
    (hbefore : ∀ x ∈ before, x = '\t' ∨ x = ' ') (hblank : isBlank c = true)
    (htab : c ≠ '\t') (hspace : c ≠ ' ') :
    measure unit (before ++ c :: after) = .error ⟨.illegalWhitespace, c :: after⟩ := by
  have hmargin : ∀ x ∈ before, isMargin x = true :=
    fun x hx => isMargin_iff.2 (hbefore x hx).symm
  have hstop : StopsAt isMargin (c :: after) := by
    rw [stopsAt_cons, ← Bool.not_eq_true, isMargin_iff]
    exact fun h => h.elim hspace htab
  unfold measure
  simp only [dropWhile_append_of_stopsAt hmargin hstop]
  rw [if_pos (by simpa using hblank)]

theorem head_dropWhile_isBlank (line : List Char) :
    (line.dropWhile isBlank).head?.any isBlank = false := by
  rw [Option.any_eq_false]
  exact fun c hc => by simpa using stopsAt_dropWhile isBlank line c hc

/-- A line that stands at a depth in the width that is known behind it can be measured. -/
theorem measure_of_hasDepth {unit next : Option Nat} {line : List Char} {depth : Nat}
    (hnext : next = unit.or ([spaces line].find? (· ≠ 0))) (h : HasDepth next line depth) :
    measure unit line = .ok (depth, next) := by
  obtain ⟨htake, hdrop⟩ := margin_of_plain h.plain
  have htotal := h.total
  unfold measure
  simp only [htake, hdrop, head_dropWhile_isBlank]
  show (if spaces line = 0 then Except.ok (tabs line, unit) else _) = _
  by_cases hspaces : spaces line = 0
  · rw [if_pos hspaces]
    rw [hspaces, Nat.zero_div, Nat.add_zero] at htotal
    rw [hspaces] at hnext
    rw [htotal, hnext]
    simp
  · have hwidth : next = some (unit.getD (spaces line)) := by
      rw [hnext, List.find?_singleton, if_pos (by simpa using hspaces)]
      cases unit <;> rfl
    rw [hwidth] at h htotal ⊢
    have hmod : spaces line % unit.getD (spaces line) = 0 := Nat.mod_eq_zero_of_dvd (h.whole _ rfl)
    rw [if_neg hspaces, htotal]
    exact if_pos hmod

/-- Where no width is known, there are no spaces. -/
theorem HasDepth.spaces_eq_zero {line : List Char} {depth : Nat} (h : HasDepth none line depth) :
    spaces line = 0 := by
  by_contra hne
  exact h.known hne rfl

/-- A depth in steps of a width that is known is the depth that is measured, and the width stays. -/
theorem HasDepth.measure_eq {width : Option Nat} {line : List Char} {depth : Nat}
    (h : HasDepth width line depth) : measure width line = .ok (depth, width) := by
  refine measure_of_hasDepth ?_ h
  cases width with
  | some w => rfl
  | none => simp [h.spaces_eq_zero]

/-- A line that can be measured stands at its depth in a width that was known before it, or its
spaces decide the width. -/
theorem measure_eq_ok_cases {unit next : Option Nat} {line : List Char} {depth : Nat}
    (h : measure unit line = .ok (depth, next)) :
    HasDepth unit line depth ∨ unit = none ∧ next = some (spaces line) ∧ spaces line ≠ 0 := by
  obtain ⟨hnext, hdepth⟩ := measure_eq_ok h
  cases unit with
  | some w =>
    rw [Option.some_or] at hnext
    exact .inl (hnext ▸ hdepth)
  | none =>
    rw [Option.none_or, List.find?_singleton] at hnext
    by_cases hspaces : spaces line = 0
    · rw [if_neg (by simpa using hspaces)] at hnext
      exact .inl (hnext ▸ hdepth)
    · rw [if_pos (by simpa using hspaces)] at hnext
      exact .inr ⟨rfl, hnext, hspaces⟩

/-- Spaces that are no whole steps are inconsistent. -/
theorem measure_eq_inconsistent {width : Nat} {line : List Char}
    (hplain : ∀ c ∈ leadingBlanks line, c = '\t' ∨ c = ' ') (hpart : ¬ width ∣ spaces line) :
    measure (some width) line =
      .error ⟨.inconsistentIndentation (spaces line) width, line.dropWhile isBlank⟩ := by
  obtain ⟨htake, hdrop⟩ := margin_of_plain hplain
  have hrest := head_dropWhile_isBlank line
  have hspaces : spaces line ≠ 0 := fun h => hpart (h ▸ Nat.dvd_zero width)
  have hmod : spaces line % width ≠ 0 := fun h => hpart (Nat.dvd_of_mod_eq_zero h)
  unfold measure
  simp only [htake, hdrop, hrest]
  show (if spaces line = 0 then _ else if spaces line % width = 0 then _ else _) = _
  rw [if_neg hspaces, if_neg hmod]
  rfl

/-- Nothing else is wrong with a line that cannot be measured. -/
theorem measure_eq_error_cases {unit : Option Nat} {line : List Char} {fault : Fault}
    (h : measure unit line = .error fault) :
    (∃ before c after, line = before ++ c :: after ∧ (∀ x ∈ before, x = '\t' ∨ x = ' ') ∧
      isBlank c = true ∧ c ≠ '\t' ∧ c ≠ ' ' ∧ fault = ⟨.illegalWhitespace, c :: after⟩) ∨
    ∃ width, unit = some width ∧ (∀ c ∈ leadingBlanks line, c = '\t' ∨ c = ' ') ∧
      ¬ width ∣ spaces line ∧
      fault = ⟨.inconsistentIndentation (spaces line) width, line.dropWhile isBlank⟩ := by
  unfold measure at h
  simp only at h
  split at h
  · rename_i hrest
    cases h
    obtain ⟨c, hc, hblank⟩ := (Option.any_eq_true _ _).1 hrest
    obtain ⟨after, hafter⟩ := List.head?_eq_some_iff.1 hc
    have hstop := stopsAt_dropWhile isMargin line c hc
    have hother : c ≠ ' ' ∧ c ≠ '\t' := by
      rw [← not_or, ← isMargin_iff, hstop]
      exact Bool.false_ne_true
    have hsplit : line.takeWhile isMargin ++ line.dropWhile isMargin = line :=
      List.takeWhile_append_dropWhile
    rw [hafter] at hsplit ⊢
    exact .inl ⟨_, c, after, hsplit.symm,
      fun x hx => (isMargin_iff.1 (all_of_mem_takeWhile x hx)).symm, hblank, hother.2, hother.1,
      rfl⟩
  rename_i hrest
  rw [Bool.not_eq_true] at hrest
  have hplain := plain_of_margin hrest
  obtain ⟨htake, hdrop⟩ := margin_of_plain hplain
  rw [htake, hdrop] at h
  split at h
  · cases h
  split at h
  · cases h
  · rename_i hmod
    cases h
    -- The spaces of a line always make up one step of their own number.
    cases unit with
    | none => exact absurd (Nat.mod_self _) hmod
    | some width =>
      exact .inr ⟨width, rfl, hplain, fun hdvd => hmod (Nat.mod_eq_zero_of_dvd hdvd), rfl⟩

/-- A depth in steps of one width is one in steps of any width that is known later. -/
theorem HasDepth.mono {width later : Option Nat} {line : List Char} {depth : Nat}
    (h : HasDepth width line depth) (hlater : width = none ∨ width = later) :
    HasDepth later line depth := by
  rcases hlater with rfl | rfl
  · have hspaces := h.spaces_eq_zero
    refine ⟨h.plain, ?_, fun hne => absurd hspaces hne, ?_⟩
    · intro w _
      rw [hspaces]
      exact Nat.dvd_zero w
    · rw [h.total, hspaces, Nat.zero_div, Nat.zero_div]
  · exact h

/-! ### Measured lines -/

/-- A line behind others is measured if a statement ends before it, so that a `NEWLINE` stands
there, and it holds anything but blanks. -/
structure Measured (settings : Settings) (front : List (List Char)) (line : List Char) :
    Prop where
  /-- It is not the first line. -/
  behind : front ≠ []
  /-- The lines before it have no fault and end a statement. -/
  ends : ∃ tokens, emitted settings front = .ok tokens ∧ EndsStatement settings front tokens
  /-- It holds more than blanks. -/
  visible : allBlank line = false

/-- The state of a run decides whether the next line is measured. -/
theorem measured_iff_of_run {settings : Settings} {front : List (List Char)} {s : State}
    {tokens : List Token} (line : List Char)
    (h : scanLines settings (State.start settings) front = .ok (s, tokens)) :
    Measured settings front line ↔
      s.lines ≠ 0 ∧ s.joinsNext settings = false ∧ allBlank line = false := by
  have hlines : s.lines ≠ 0 ↔ front ≠ [] := by
    rw [(run_lines h).1]
    exact not_congr List.length_eq_zero_iff
  have hemitted : emitted settings front = .ok tokens := emitted_eq_ok_iff.2 ⟨s, h⟩
  rw [hlines, joinsNext_eq_false_iff h]
  constructor
  · rintro ⟨hne, ⟨found, hfound, hends⟩, hvisible⟩
    rw [hemitted] at hfound
    cases hfound
    exact ⟨hne, hends, hvisible⟩
  · rintro ⟨hne, hends, hvisible⟩
    exact ⟨hne, ⟨tokens, hemitted, hends⟩, hvisible⟩

/-- A line that a statement runs on into is not measured. -/
theorem not_measured_of_joined {settings : Settings} {front : List (List Char)} {s : State}
    {tokens : List Token} {line : List Char}
    (h : scanLines settings (State.start settings) front = .ok (s, tokens))
    (hjoins : s.lines = 0 ∨ s.joinsNext settings = true) : ¬ Measured settings front line := by
  intro hm
  obtain ⟨hlines, hended, -⟩ := (measured_iff_of_run line h).1 hm
  simp [hlines, hended] at hjoins

theorem not_measured_of_blank {settings : Settings} {front : List (List Char)} {line : List Char}
    (hblank : allBlank line = true) : ¬ Measured settings front line := by
  intro hm
  rw [hm.visible] at hblank
  cases hblank

/-- A measured line follows a run. -/
theorem Measured.run {settings : Settings} {front : List (List Char)} {line : List Char}
    (h : Measured settings front line) :
    ∃ s tokens, scanLines settings (State.start settings) front = .ok (s, tokens) := by
  obtain ⟨tokens, hemitted, -⟩ := h.ends
  obtain ⟨s, hrun⟩ := emitted_eq_ok_iff.1 hemitted
  exact ⟨s, tokens, hrun⟩

instance (settings : Settings) (front : List (List Char)) (line : List Char) :
    Decidable (Measured settings front line) :=
  match h : scanLines settings (State.start settings) front with
  | .ok (_, _) => decidable_of_iff _ (measured_iff_of_run line h).symm
  | .error _ => isFalse fun hm => by
    obtain ⟨s, tokens, hrun⟩ := hm.run
    rw [h] at hrun
    cases hrun

/-- The measured ones of some lines behind others. -/
def measuredFrom (settings : Settings) (front : List (List Char)) :
    List (List Char) → List (List Char)
  | [] => []
  | line :: lines =>
    (if Measured settings front line then [line] else []) ++
      measuredFrom settings (front ++ [line]) lines

/-- The measured lines of a program. -/
def measuredLines (settings : Settings) (lines : List (List Char)) : List (List Char) :=
  measuredFrom settings [] lines

/-- The spaces in one step of a program's indentation: the width that the settings force,
unless it is zero, or else the number of spaces in the first measured line that begins with
any. -/
def stepWidth (settings : Settings) (lines : List (List Char)) : Option Nat :=
  (settings.indentWidth.filter (0 < ·)).or
    (((measuredLines settings lines).map spaces).find? (· ≠ 0))

theorem measuredFrom_append (settings : Settings) (front xs ys : List (List Char)) :
    measuredFrom settings front (xs ++ ys) =
      measuredFrom settings front xs ++ measuredFrom settings (front ++ xs) ys := by
  induction xs generalizing front with
  | nil => simp [measuredFrom]
  | cons line xs ih => simp only [List.cons_append, measuredFrom, ih, List.append_assoc,
      List.nil_append]

/-- Lines further on decide the width only if no line before them did. -/
theorem stepWidth_append (settings : Settings) (xs ys : List (List Char)) :
    stepWidth settings (xs ++ ys) =
      (stepWidth settings xs).or (((measuredFrom settings xs ys).map spaces).find? (· ≠ 0)) := by
  unfold stepWidth measuredLines
  rw [measuredFrom_append, List.map_append, List.find?_append, Option.or_assoc]
  rfl

theorem stepWidth_concat_of_measured {settings : Settings} {lines : List (List Char)}
    {line : List Char} (h : Measured settings lines line) :
    stepWidth settings (lines ++ [line]) =
      (stepWidth settings lines).or ([spaces line].find? (· ≠ 0)) := by
  rw [stepWidth_append, measuredFrom, if_pos h]
  rfl

theorem stepWidth_concat_of_not_measured {settings : Settings} {lines : List (List Char)}
    {line : List Char} (h : ¬ Measured settings lines line) :
    stepWidth settings (lines ++ [line]) = stepWidth settings lines := by
  rw [stepWidth_append, measuredFrom, if_neg h]
  exact Option.or_none

/-- A width that some lines decide is that of every program beginning with them. -/
theorem stepWidth_eq_of_prefix (settings : Settings) {front lines : List (List Char)}
    (h : front <+: lines) :
    stepWidth settings front = none ∨ stepWidth settings front = stepWidth settings lines := by
  obtain ⟨rest, rfl⟩ := h
  rw [stepWidth_append]
  cases stepWidth settings front with
  | none => exact .inl rfl
  | some w => exact .inr rfl

/-! ### Runs -/

/-- What a boundary does about indentation. A measured line stands at its depth, and its spaces
may decide the width. Before any other line there are no steps. -/
theorem Boundary.indentation {settings : Settings} {lines : List (List Char)} {s s' : State}
    {line : List Char} {tokens layout : List Token}
    (hrun : scanLines settings (State.start settings) lines = .ok (s, tokens))
    (hunit : s.unit = stepWidth settings lines)
    (h : Boundary settings s line s' layout) :
    s'.unit = stepWidth settings (lines ++ [line]) ∧
      (Measured settings lines line ↔
        (∃ t ∈ layout, t.kind = .newline) ∧ allBlank line = false) ∧
      (Measured settings lines line → HasDepth s'.unit line s'.depth) ∧
      (¬ Measured settings lines line →
        ∀ t ∈ layout, t.kind ≠ .indent ∧ t.kind ≠ .dedent) := by
  cases h with
  | joined hjoin =>
    have hnot : ¬ Measured settings lines line := not_measured_of_joined hrun hjoin
    rw [stepWidth_concat_of_not_measured hnot]
    exact ⟨hunit, by simp [hnot], fun hm => absurd hm hnot, by simp⟩
  | blank _ _ hblank =>
    have hnot : ¬ Measured settings lines line := not_measured_of_blank hblank
    rw [stepWidth_concat_of_not_measured hnot, State.see_eq]
    exact ⟨hunit, by simp [hnot, hblank], fun hm => absurd hm hnot, by simp [State.newline]⟩
  | measured hlines hjoin hblank hmeasure =>
    have hm : Measured settings lines line :=
      (measured_iff_of_run line hrun).2 ⟨hlines, hjoin, hblank⟩
    obtain ⟨hnext, hdepth⟩ := measure_eq_ok hmeasure
    rw [stepWidth_concat_of_measured hm, ← hunit]
    exact ⟨hnext, by simp [hm, hblank, State.newline], fun _ => hdepth,
      fun hnot => absurd hm hnot⟩

/-- The width that a run has come to know is that of its lines. -/
theorem run_unit {settings : Settings} {lines : List (List Char)} {s : State}
    {tokens : List Token}
    (h : scanLines settings (State.start settings) lines = .ok (s, tokens)) :
    s.unit = stepWidth settings lines := by
  refine scanLines_induction (motive := fun lines s _ => s.unit = stepWidth settings lines)
    ?_ ?_ h
  · simp [stepWidth, measuredLines, measuredFrom, State.start]
  · intro lines s tokens line s' more hrun ih hline
    obtain ⟨s₁, layout, found, mode, hboundary, -, rfl, -⟩ := scanLine_eq_ok hline
    rw [State.seeAll_eq]
    exact (hboundary.indentation hrun ih).1

/-- The depth of a run behind a boundary is the number of steps that were not taken back. -/
theorem Boundary.depth_eq {settings : Settings} {lines : List (List Char)} {s s' : State}
    {line : List Char} {tokens layout : List Token}
    (hrun : scanLines settings (State.start settings) lines = .ok (s, tokens))
    (h : Boundary settings s line s' layout) :
    indents (tokens ++ layout) = dedents (tokens ++ layout) + s'.depth := by
  have hbalance := ((run_climbs hrun).append h.climbs).balance
  omega

/-- A program is what stands before a line of it, the line, and what stands behind. -/
theorem eq_take_append_cons {α : Type} {xs : List α} {k : Nat} {x : α} (h : xs[k]? = some x) :
    xs = xs.take k ++ x :: xs.drop (k + 1) := by
  obtain ⟨hk, rfl⟩ := List.getElem?_eq_some_iff.1 h
  rw [List.getElem_cons_drop, List.take_append_drop]

theorem take_succ_of_getElem? {α : Type} {xs : List α} {k : Nat} {x : α}
    (h : xs[k]? = some x) : xs.take (k + 1) = xs.take k ++ [x] := by
  rw [List.take_add_one, h]
  rfl

/-- A scan stops once before each of its lines, and goes on with the line's boundary and its
text. -/
theorem scan_eq_ok_at {settings : Settings} {lines : List (List Char)} {tokens : List Token}
    {k : Nat} {line : List Char} (h : scan settings lines = .ok tokens)
    (hline : lines[k]? = some line) :
    ∃ s s' before layout content,
      scanLines settings (State.start settings) (lines.take k) = .ok (s, before) ∧
      Boundary settings s line s' layout ∧
      emitted settings (lines.take (k + 1)) = .ok (before ++ layout ++ content) ∧
      before ++ layout ++ content <+: tokens ∧ ∀ t ∈ content, isText t.kind = true := by
  obtain ⟨last, found, hrun, -, rfl⟩ := scan_eq_ok h
  rw [eq_take_append_cons hline, List.append_cons] at hrun
  obtain ⟨s₁, front, back, hfront, -, rfl⟩ := scanLines_append_eq_ok hrun
  obtain ⟨s, before, more, hbefore, hnext, rfl⟩ := scanLines_concat_eq_ok hfront
  obtain ⟨s', layout, found, mode, hboundary, hreads, -, rfl⟩ := scanLine_eq_ok hnext
  refine ⟨s, s', before, layout, shown settings (lineTokens (s.lines + 1) line found), hbefore,
    hboundary, ?_, ?_, fun t ht => (hreads.of_mem_shown ht).1⟩
  · rw [take_succ_of_getElem? hline, List.append_assoc]
    exact emitted_eq_ok_iff.2 ⟨s₁, hfront⟩
  · simp

/-- A program fails at the first line that does. -/
theorem scan_eq_error {settings : Settings} {front rest : List (List Char)} {line : List Char}
    {s : State} {tokens : List Token} {e : Error}
    (hrun : scanLines settings (State.start settings) front = .ok (s, tokens))
    (hline : scanLine settings s line = .error e) :
    scan settings (front ++ line :: rest) = .error e := by
  refine scan_of_failed_run ?_
  rw [scanLines_append_of_ok hrun, scanLines, hline]
  rfl

/-- A measured line that cannot be measured ends the scan. -/
theorem Measured.scan_eq_error {settings : Settings} {front : List (List Char)}
    {line : List Char} {fault : Fault} (h : Measured settings front line)
    (hfault : measure (stepWidth settings front) line = .error fault)
    (rest : List (List Char)) :
    scan settings (front ++ line :: rest) = .error (fault.error (front.length + 1) line) := by
  obtain ⟨s, tokens, hrun⟩ := h.run
  obtain ⟨hlines, hjoin, hvisible⟩ := (measured_iff_of_run line hrun).1 h
  have hboundary : boundary settings s line = .error fault := by
    rw [← run_unit hrun] at hfault
    exact boundary_eq_error_iff.2 ⟨hlines, hjoin, hvisible, hfault⟩
  refine Scan.scan_eq_error hrun ?_
  simp only [scanLine, hboundary, (run_lines hrun).1]

theorem column_append (before after : List Char) :
    column (before ++ after) after = before.length + 1 := by
  rw [column, List.length_append]
  omega

theorem column_dropWhile_isBlank (line : List Char) :
    column line (line.dropWhile isBlank) = (leadingBlanks line).length + 1 := by
  have h := column_append (leadingBlanks line) (line.dropWhile isBlank)
  rwa [leadingBlanks, List.takeWhile_append_dropWhile] at h

/-- Spaces that are no whole steps of a program's width do not decide the width. -/
theorem Measured.width_known {settings : Settings} {front lines : List (List Char)}
    {line : List Char} {width : Nat} (h : Measured settings front line)
    (hpre : front ++ [line] <+: lines) (hwidth : stepWidth settings lines = some width)
    (hpart : ¬ width ∣ spaces line) : stepWidth settings front = some width := by
  have hspaces : spaces line ≠ 0 := fun hzero => hpart (hzero ▸ Nat.dvd_zero width)
  have hfront := stepWidth_eq_of_prefix settings
    ((List.prefix_append front [line]).trans hpre)
  have hbehind := stepWidth_eq_of_prefix settings hpre
  rw [stepWidth_concat_of_measured h, hwidth] at hbehind
  rcases hfront with hnone | hsome
  -- Otherwise the width would be the number of the line's own spaces.
  · rw [hnone] at hbehind
    simp only [List.find?_singleton, hspaces, ne_eq, not_false_eq_true, decide_true, if_true,
      Option.none_or, reduceCtorEq, false_or, Option.some.injEq] at hbehind
    exact absurd (hbehind ▸ Nat.dvd_refl (spaces line)) hpart
  · rw [hsome, hwidth]

/-- Indentation is exact. If a scan succeeds, every measured line is indented by whole steps
and stands at its depth: as many `INDENT`s as that are not taken back by `DEDENT`s up to the
text of the line. No other line has any. A line is measured exactly if it holds more than
blanks and a `NEWLINE` stands before it.

If a measured line begins with a blank that is neither tab nor space, the scan fails at the
first of these; and if its spaces are no multiple of the width, behind its blanks. -/
theorem indentation_exact (settings : Settings) (lines : List (List Char)) :
    (∀ tokens, scan settings lines = .ok tokens → ∀ k line, lines[k]? = some line →
      ∃ before layout content,
        emitted settings (lines.take k) = .ok before ∧
        emitted settings (lines.take (k + 1)) = .ok (before ++ layout ++ content) ∧
        before ++ layout ++ content <+: tokens ∧
        (∀ t ∈ content, isText t.kind = true) ∧
        (Measured settings (lines.take k) line ↔
          (∃ t ∈ layout, t.kind = .newline) ∧ allBlank line = false) ∧
        (Measured settings (lines.take k) line →
          ∃ depth, HasDepth (stepWidth settings lines) line depth ∧
            indents (before ++ layout) = dedents (before ++ layout) + depth) ∧
        (¬ Measured settings (lines.take k) line →
          ∀ t ∈ layout, t.kind ≠ .indent ∧ t.kind ≠ .dedent)) ∧
    (∀ k line, lines[k]? = some line → Measured settings (lines.take k) line →
      (∀ before c after, line = before ++ c :: after → (∀ x ∈ before, x = '\t' ∨ x = ' ') →
        isBlank c = true → c ≠ '\t' → c ≠ ' ' →
        scan settings lines = .error ⟨k + 1, some (before.length + 1), .illegalWhitespace⟩) ∧
      ((∀ c ∈ leadingBlanks line, c = '\t' ∨ c = ' ') →
        ∀ width, stepWidth settings lines = some width → ¬ width ∣ spaces line →
          scan settings lines = .error ⟨k + 1, some ((leadingBlanks line).length + 1),
            .inconsistentIndentation (spaces line) width⟩)) := by
  constructor
  · intro tokens hscan k line hline
    obtain ⟨s, s', before, layout, content, hrun, hboundary, hthrough, hpre, htext⟩ :=
      scan_eq_ok_at hscan hline
    obtain ⟨hunit, hiff, hdepth, hnone⟩ := hboundary.indentation hrun (run_unit hrun)
    refine ⟨before, layout, content, emitted_eq_ok_iff.2 ⟨s, hrun⟩, hthrough, hpre, htext,
      hiff, fun hm => ⟨s'.depth, (hdepth hm).mono ?_, hboundary.depth_eq hrun⟩, hnone⟩
    rw [hunit, ← take_succ_of_getElem? hline]
    exact stepWidth_eq_of_prefix settings (List.take_prefix (k + 1) lines)
  · intro k line hline hm
    have hk := (List.getElem?_eq_some_iff.1 hline).1
    have hlength : (lines.take k).length = k := List.length_take_of_le (by omega)
    have hfails {fault : Fault}
        (hfault : measure (stepWidth settings (lines.take k)) line = .error fault) :
        scan settings lines = .error (fault.error (k + 1) line) := by
      have hscan := hm.scan_eq_error hfault (lines.drop (k + 1))
      rwa [← eq_take_append_cons hline, hlength] at hscan
    constructor
    · rintro before c after rfl hbefore hblank htab hspace
      rw [hfails (measure_eq_illegal _ hbefore hblank htab hspace), Fault.error, column_append]
    · intro hplain width hwidth hpart
      have hpre : lines.take k ++ [line] <+: lines :=
        take_succ_of_getElem? hline ▸ List.take_prefix (k + 1) lines
      have hfault := measure_eq_inconsistent hplain hpart
      rw [← hm.width_known hpre hwidth hpart] at hfault
      rw [hfails hfault, Fault.error, column_dropWhile_isBlank]

/-- A tab is one step and so are the two spaces of the second line, so the third line below
stands two steps deep. Three spaces in its place, or a no-break space, end the scan. -/
theorem indentation_exact_mixed :
    (∃ before layout content,
      emitted {} (["a".toList, "  b".toList, "\t  c".toList].take 3) =
        .ok (before ++ layout ++ content) ∧
      HasDepth (some 2) "\t  c".toList 2 ∧
      indents (before ++ layout) = dedents (before ++ layout) + 2) ∧
    scan {} ["a".toList, "  b".toList, "   c".toList] =
      .error ⟨3, some 4, .inconsistentIndentation 3 2⟩ ∧
    scan {} ["a".toList, "  b".toList, " \u00a0c".toList] =
      .error ⟨3, some 2, .illegalWhitespace⟩ := by
  have hm (line : List Char) (h : allBlank line = false) :
      Measured {} ["a".toList, "  b".toList] line := by
    have hfront : Measured {} ["a".toList, "  b".toList] "c".toList := by decide +kernel
    exact ⟨hfront.behind, hfront.ends, h⟩
  have hwidth (line : List Char) (h : allBlank line = false) :
      stepWidth {} ["a".toList, "  b".toList, line] = some 2 := by
    have hfront : stepWidth {} ["a".toList, "  b".toList] = some 2 := by decide +kernel
    exact (stepWidth_concat_of_measured (hm line h)).trans (by rw [hfront]; rfl)
  refine ⟨?_, ?_, ?_⟩
  · obtain ⟨tokens, hscan⟩ :
        ∃ tokens, scan {} ["a".toList, "  b".toList, "\t  c".toList] = .ok tokens :=
      ⟨[⟨.identifier, some (.string "a"), 1, 1⟩, ⟨.newline, none, 1, 2⟩,
        ⟨.indent, none, 2, 1⟩, ⟨.identifier, some (.string "b"), 2, 3⟩,
        ⟨.newline, none, 2, 4⟩, ⟨.indent, none, 3, 1⟩,
        ⟨.identifier, some (.string "c"), 3, 4⟩, ⟨.dedent, none, 3, 5⟩,
        ⟨.dedent, none, 3, 5⟩, ⟨.eof, none, 3, 5⟩], by cbv⟩
    obtain ⟨before, layout, content, -, hthrough, -, -, -, hdepth, -⟩ :=
      (indentation_exact {} _).1 tokens hscan 2 "\t  c".toList rfl
    obtain ⟨depth, hstands, hcount⟩ := hdepth (hm _ rfl)
    rw [hwidth _ rfl] at hstands
    have htwo : depth = 2 := hstands.total.trans (by decide)
    rw [htwo] at hstands hcount
    exact ⟨before, layout, content, hthrough, hstands, hcount⟩
  · have hplain : ∀ c ∈ [' ', ' ', ' '], c = '\t' ∨ c = ' ' := by simp
    exact ((indentation_exact {} ["a".toList, "  b".toList, "   c".toList]).2 2 _ rfl
      (hm _ rfl)).2 hplain 2 (hwidth _ rfl) (by decide)
  · exact ((indentation_exact {} ["a".toList, "  b".toList, " \u00a0c".toList]).2 2 _ rfl
      (hm _ rfl)).1 [' '] '\u00a0' ['c'] rfl (by simp) (by decide) (by decide) (by decide)

end Offside.Scan
