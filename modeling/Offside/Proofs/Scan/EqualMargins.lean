import Offside.Proofs.Scan.Indentation

/-!
# `Offside.Proofs.Scan.EqualMargins`: lines that are indented alike

Two statements that begin with the same blanks stand equally deep. The depth of a line depends on
its own blanks and on the width of a step (`HasDepth.congr`), and a program has one width.

The first line of a program is the exception. It begins a statement, but it is not measured: it has
no depth, whatever it begins with, while another line that begins with any blanks does
(`HasDepth.eq_zero_iff`). `equal_margins` is the result, and `not_equal_margins_first_line` a
program that shows that it needs the exception.
-/

set_option autoImplicit false

namespace Offside.Scan

open Offside.Text

/-- The steps to the right among tokens, less the steps to the left. -/
def netDepth (tokens : List Token) : Int := indents tokens - dedents tokens

theorem netDepth_append (xs ys : List Token) :
    netDepth (xs ++ ys) = netDepth xs + netDepth ys := by
  simp only [netDepth, indents_append, dedents_append]
  omega

/-- The tokens of a program up to the end of one of its lines: those of the lines before it, the
layout before its text, and its text. -/
structure LineAt (settings : Settings) (lines : List (List Char)) (k : Nat)
    (before layout text : List Token) : Prop where
  /-- The lines before it add these. -/
  ahead : emitted settings (lines.take k) = .ok before
  /-- Behind them it adds its own. -/
  through : emitted settings (lines.take (k + 1)) = .ok (before ++ layout ++ text)
  /-- The layout comes first. -/
  first : ∀ t ∈ layout, t.kind.isLayout = true
  /-- All that follows is text. -/
  rest : ∀ t ∈ text, isText t.kind = true

/-- A line begins a statement if it is the first one or there is a `NEWLINE` in the layout before
its text. -/
def BeginsStatement (k : Nat) (layout : List Token) : Prop :=
  k = 0 ∨ ∃ t ∈ layout, t.kind = .newline

/-! ### Depths and blanks -/

section HasDepth

variable {width : Option Nat} {line other : List Char} {depth : Nat}

/-- Lines that begin with the same blanks have the same depth. -/
theorem HasDepth.congr (h : HasDepth width line depth)
    (hsame : leadingBlanks line = leadingBlanks other) : HasDepth width other depth := by
  have hspaces : spaces line = spaces other := congrArg (List.count ' ') hsame
  have htabs : tabs line = tabs other := congrArg (List.count '\t') hsame
  exact ⟨hsame ▸ h.plain, hspaces ▸ h.whole, hspaces ▸ h.known, by
    rw [h.total, hspaces, htabs]⟩

/-- A line has no depth exactly if it begins with no blank. -/
theorem HasDepth.eq_zero_iff (h : HasDepth width line depth) :
    depth = 0 ↔ leadingBlanks line = [] := by
  rw [h.total]
  constructor
  · intro hzero
    have hspaces : spaces line = 0 := by
      by_contra hne
      obtain ⟨w, rfl⟩ := Option.ne_none_iff_exists'.1 (h.known hne)
      have hsteps : spaces line / w = 0 := (Nat.add_eq_zero_iff.1 hzero).2
      exact hne (Nat.eq_zero_of_dvd_of_div_eq_zero (h.whole w rfl) hsteps)
    have htabs : tabs line = 0 := (Nat.add_eq_zero_iff.1 hzero).1
    rw [List.eq_nil_iff_forall_not_mem]
    intro c hc
    rcases h.plain c hc with rfl | rfl
    · exact List.count_eq_zero.1 htabs hc
    · exact List.count_eq_zero.1 hspaces hc
  · intro hnil
    simp [tabs, spaces, hnil]

end HasDepth

/-! ### Lines of a program -/

/-- The tokens at a line are what they are: its layout is all that is layout. -/
theorem LineAt.unique {settings : Settings} {lines : List (List Char)} {k : Nat}
    {before layout text before' layout' text' : List Token}
    (h : LineAt settings lines k before layout text)
    (h' : LineAt settings lines k before' layout' text') :
    before' = before ∧ layout' = layout := by
  have hahead : before' = before := Except.ok.inj (h'.ahead.symm.trans h.ahead)
  subst hahead
  have hown := Except.ok.inj (h'.through.symm.trans h.through)
  rw [List.append_assoc, List.append_assoc, List.append_cancel_left_eq] at hown
  have hfilter {xs ys : List Token} (hxs : ∀ t ∈ xs, t.kind.isLayout = true)
      (hys : ∀ t ∈ ys, isText t.kind = true) :
      (xs ++ ys).filter (fun t => t.kind.isLayout) = xs := by
    rw [List.filter_append, List.filter_eq_self.2 hxs, List.filter_eq_nil_iff.2, List.append_nil]
    intro t ht hlayout
    have htext := hys t ht
    rw [isText_of_isLayout hlayout] at htext
    cases htext
  refine ⟨rfl, ?_⟩
  rw [← hfilter h'.first h'.rest, hown, hfilter h.first h.rest]

/-- Before the first line of a program that is scanned without fault there are no tokens. Another
line that begins a statement stands at its depth, if it is not blank. -/
theorem LineAt.depth_of_scan {settings : Settings} {lines : List (List Char)} {all : List Token}
    {k : Nat} {line : List Char} {before layout text : List Token}
    (h : LineAt settings lines k before layout text) (hscan : scan settings lines = .ok all)
    (hline : lines[k]? = some line) :
    (k = 0 → before ++ layout = []) ∧
      ((∃ t ∈ layout, t.kind = .newline) → allBlank line = false →
        ∃ depth : Nat, HasDepth (stepWidth settings lines) line depth ∧
          netDepth (before ++ layout) = depth) := by
  obtain ⟨s, s', front, own, content, hrun, hboundary, hthrough, -, hcontent⟩ :=
    scan_eq_ok_at hscan hline
  have hat : LineAt settings lines k front own content :=
    ⟨emitted_eq_ok_iff.2 ⟨s, hrun⟩, hthrough, fun _ => hboundary.isLayout_of_mem, hcontent⟩
  obtain ⟨rfl, rfl⟩ := h.unique hat
  constructor
  · rintro rfl
    cases hrun
    rcases hboundary.layout_cases with ⟨-, rfl⟩ | ⟨hlines, -⟩
    · rfl
    · exact absurd rfl hlines
  · intro hnewline hvisible
    obtain ⟨hunit, hiff, hdepth, -⟩ := hboundary.indentation hrun (run_unit hrun)
    have hstands : HasDepth s'.unit line s'.depth := hdepth (hiff.2 ⟨hnewline, hvisible⟩)
    refine ⟨s'.depth, hstands.mono ?_, ?_⟩
    · rw [hunit, ← take_succ_of_getElem? hline]
      exact stepWidth_eq_of_prefix settings (List.take_prefix (k + 1) lines)
    · have hbalance := hboundary.depth_eq hrun
      rw [netDepth]
      omega

/-- Lines further on add their tokens behind those of the lines before them. -/
theorem emitted_prefix {settings : Settings} {xs ys : List (List Char)} {front all : List Token}
    (h : xs <+: ys) (hxs : emitted settings xs = .ok front) (hys : emitted settings ys = .ok all) :
    front <+: all := by
  obtain ⟨rest, rfl⟩ := h
  obtain ⟨s, hrun⟩ := emitted_eq_ok_iff.1 hys
  obtain ⟨s₁, before, back, hbefore, -, rfl⟩ := scanLines_append_eq_ok hrun
  rw [emitted_eq_ok_iff.2 ⟨s₁, hbefore⟩] at hxs
  cases hxs
  exact List.prefix_append _ _

/-- Of two lines, the further one has its layout behind that of the nearer one. -/
theorem LineAt.between {settings : Settings} {lines : List (List Char)} {i j : Nat}
    {before layout text before' layout' text' : List Token}
    (h : LineAt settings lines i before layout text)
    (h' : LineAt settings lines j before' layout' text') (hij : i < j) :
    ∃ between, before' ++ layout' = before ++ layout ++ between := by
  have htake : lines.take (i + 1) <+: lines.take j := List.take_prefix_take_left hij
  obtain ⟨rest, rfl⟩ := emitted_prefix htake h.through h'.ahead
  exact ⟨text ++ rest ++ layout', by simp⟩

/-- Two lines of a program that begin with the same blanks and each begin a statement stand at the
same depth, if neither is blank, and all steps between them are taken back. The one exception is the
first line of a program: it has no depth even if it begins with a blank, and then the other line
does not stand where it does. -/
theorem equal_margins {settings : Settings} {lines : List (List Char)} {tokens : List Token}
    (hscan : scan settings lines = .ok tokens) {i j : Nat} {line other : List Char} (hij : i < j)
    (hline : lines[i]? = some line) (hother : lines[j]? = some other)
    (hvisible : allBlank line = false) (hvisible' : allBlank other = false)
    (hsame : leadingBlanks line = leadingBlanks other)
    {before layout text before' layout' text' : List Token}
    (hat : LineAt settings lines i before layout text)
    (hat' : LineAt settings lines j before' layout' text')
    (hbegins : BeginsStatement i layout) (hbegins' : BeginsStatement j layout') :
    (i = 0 → netDepth (before ++ layout) = 0) ∧
    ((i = 0 → leadingBlanks line = []) →
      netDepth (before ++ layout) = netDepth (before' ++ layout') ∧
        ∃ between, before' ++ layout' = before ++ layout ++ between ∧ netDepth between = 0) ∧
    (i = 0 → leadingBlanks line ≠ [] →
      netDepth (before ++ layout) ≠ netDepth (before' ++ layout')) := by
  obtain ⟨hfirst, hdepth⟩ := hat.depth_of_scan hscan hline
  obtain ⟨-, hdepth'⟩ := hat'.depth_of_scan hscan hother
  obtain ⟨deep', hstands', hnet'⟩ := hdepth' (hbegins'.resolve_left (by omega)) hvisible'
  have hnone : i = 0 → netDepth (before ++ layout) = 0 := by
    intro hi
    rw [hfirst hi]
    rfl
  refine ⟨hnone, ?_, ?_⟩
  · intro hmargin
    have hequal : netDepth (before ++ layout) = netDepth (before' ++ layout') := by
      by_cases hi : i = 0
      -- The first line has no depth, and without blanks the other one has none either.
      · have hzero : deep' = 0 := hstands'.eq_zero_iff.2 (hsame ▸ hmargin hi)
        rw [hnone hi, hnet', hzero]
        rfl
      · obtain ⟨deep, hstands, hnet⟩ := hdepth (hbegins.resolve_left hi) hvisible
        rw [hnet, hnet', hstands.total, (hstands'.congr hsame.symm).total]
    obtain ⟨between, hbetween⟩ := hat.between hat' hij
    refine ⟨hequal, between, hbetween, ?_⟩
    rw [hbetween, netDepth_append (before ++ layout)] at hequal
    omega
  · intro hi hmargin hequal
    rw [hnone hi, hnet'] at hequal
    have hzero : deep' = 0 := by omega
    exact hmargin (hsame ▸ hstands'.eq_zero_iff.1 hzero)

/-- The second line below decides the width of a step, and the fourth stands where it does, although
the block of the third line comes between. -/
theorem equal_margins_across_block :
    let lines := ["a".toList, "  b".toList, "\t\tc".toList, "  d".toList]
    let a : Token := ⟨.identifier, some (.string "a"), 1, 1⟩
    let b : Token := ⟨.identifier, some (.string "b"), 2, 3⟩
    let c : Token := ⟨.identifier, some (.string "c"), 3, 3⟩
    let d : Token := ⟨.identifier, some (.string "d"), 4, 3⟩
    let block : List Token := [⟨.newline, none, 1, 2⟩, ⟨.indent, none, 2, 1⟩]
    let inner : List Token := [⟨.newline, none, 2, 4⟩, ⟨.indent, none, 3, 1⟩]
    let outer : List Token := [⟨.newline, none, 3, 4⟩, ⟨.dedent, none, 4, 1⟩]
    (∃ tokens, scan {} lines = .ok tokens) ∧
      LineAt {} lines 1 [a] block [b] ∧ BeginsStatement 1 block ∧
      LineAt {} lines 3 ([a] ++ block ++ [b] ++ inner ++ [c]) outer [d] ∧
      BeginsStatement 3 outer ∧
      ∃ between, [a] ++ block ++ [b] ++ inner ++ [c] ++ outer = [a] ++ block ++ between ∧
        netDepth between = 0 := by
  intro lines a b c d block inner outer
  have hscan : scan {} lines = .ok ([a] ++ block ++ [b] ++ inner ++ [c] ++ outer ++ [d] ++
      [⟨.dedent, none, 4, 4⟩, ⟨.eof, none, 4, 4⟩]) := by cbv
  have hat : LineAt {} lines 1 [a] block [b] := ⟨by cbv, by cbv, by decide, by decide⟩
  have hat' : LineAt {} lines 3 ([a] ++ block ++ [b] ++ inner ++ [c]) outer [d] :=
    ⟨by cbv, by cbv, by decide, by decide⟩
  have hbegins : BeginsStatement 1 block := .inr ⟨_, List.mem_cons_self, rfl⟩
  have hbegins' : BeginsStatement 3 outer := .inr ⟨_, List.mem_cons_self, rfl⟩
  have hdepths := (equal_margins hscan (by decide) rfl rfl (by decide) (by decide) (by decide) hat
    hat' hbegins hbegins').2.1 (by decide)
  exact ⟨⟨_, hscan⟩, hat, hbegins, hat', hbegins', hdepths.2⟩

/-- Two lines that begin alike need not stand at the same depth. The first line below begins with
two spaces and has no depth, and the second stands one step deep. -/
theorem not_equal_margins_first_line :
    ¬ ∀ (settings : Settings) (lines : List (List Char)) (tokens : List Token),
      scan settings lines = .ok tokens →
      ∀ (i j : Nat) (line other : List Char), i < j → lines[i]? = some line →
      lines[j]? = some other → allBlank line = false → allBlank other = false →
      leadingBlanks line = leadingBlanks other →
      (∀ c ∈ leadingBlanks line, c = '\t' ∨ c = ' ') →
      ∀ before layout text before' layout' text' : List Token,
      LineAt settings lines i before layout text →
      LineAt settings lines j before' layout' text' →
      BeginsStatement i layout → BeginsStatement j layout' →
      netDepth (before ++ layout) = netDepth (before' ++ layout') := by
  intro hequal
  have hscan : scan {} ["  a".toList, "  b".toList] = .ok
      [⟨.identifier, some (.string "a"), 1, 3⟩, ⟨.newline, none, 1, 4⟩, ⟨.indent, none, 2, 1⟩,
        ⟨.identifier, some (.string "b"), 2, 3⟩, ⟨.dedent, none, 2, 4⟩, ⟨.eof, none, 2, 4⟩] := by
    cbv
  have hfirst : LineAt {} ["  a".toList, "  b".toList] 0 [] []
      [⟨.identifier, some (.string "a"), 1, 3⟩] := ⟨by cbv, by cbv, by decide, by decide⟩
  have hsecond : LineAt {} ["  a".toList, "  b".toList] 1
      [⟨.identifier, some (.string "a"), 1, 3⟩]
      [⟨.newline, none, 1, 4⟩, ⟨.indent, none, 2, 1⟩]
      [⟨.identifier, some (.string "b"), 2, 3⟩] := ⟨by cbv, by cbv, by decide, by decide⟩
  have hmargin : leadingBlanks "  a".toList = [' ', ' '] := by decide
  have hplain : ∀ c ∈ leadingBlanks "  a".toList, c = '\t' ∨ c = ' ' := by
    rw [hmargin]
    simp
  have hdepths := hequal {} _ _ hscan 0 1 _ _ (by decide) rfl rfl (by decide) (by decide)
    (by decide) hplain _ _ _ _ _ _ hfirst hsecond (.inl rfl) (.inr ⟨_, List.mem_cons_self, rfl⟩)
  exact absurd hdepths (by decide)

end Offside.Scan
