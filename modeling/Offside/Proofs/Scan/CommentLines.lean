import Offside.Proofs.Scan.CommentsAsBlanks
import Offside.Proofs.Scan.EqualMargins
import Offside.Proofs.Scan.JoinedLines

/-!
# `Offside.Proofs.Scan.CommentLines`: a line that holds nothing but a comment

A line with nothing on it but a comment to its end adds no tokens for text, but it is measured like
any line that holds more than blanks. So it is an empty line exactly where its margin says nothing
new.

* `Boundary.scanLine_silent`: a `Silent` line adds the layout before it and nothing else.
* `Layers` says what silent lines behind each other add: at each line a `NEWLINE` and the steps to
  its depth. `Resting.line` is the step and `Resting.layers` the run, by induction on the lines.
* `outline_of_inPlace` and `inPlace_of_same` are the two directions. For the second one it takes two
  programs to tell a comment from an empty line: an empty line behind it shows the depth, and a
  comment behind twice as many spaces shows whether the first one has decided the width of a step.
* `comment_line_as_empty` is the result for whole programs.
-/

set_option autoImplicit false

namespace Offside.Scan

open Offside.Text

/-! ### Lines that say nothing -/

/-- A line that consists of blanks and a comment to its end. -/
def IsCommentLine (line : List Char) : Prop := ['/', '/'] <+: line.dropWhile isBlank

instance (line : List Char) : Decidable (IsCommentLine line) :=
  inferInstanceAs (Decidable (_ <+: _))

/-- A line of code that says nothing, the marks of comments apart. -/
def Silent (isKeyword : String → Bool) (line : List Char) : Prop :=
  plainly (lexemes isKeyword .code line) = .ok ([], .code)

theorem lexemes_blanks (isKeyword : String → Bool) (mode : Mode) {blanks : List Char}
    (h : ∀ c ∈ blanks, isBlank c = true) (text : List Char) :
    lexemes isKeyword mode (blanks ++ text) = lexemes isKeyword mode text := by
  induction blanks with
  | nil => rfl
  | cons c blanks ih =>
    rw [List.cons_append, lexemes_blank isKeyword mode (h c List.mem_cons_self)]
    exact ih fun d hd => h d (List.mem_cons_of_mem c hd)

theorem silent_nil (isKeyword : String → Bool) : Silent isKeyword [] := by
  rw [Silent, lexemes]
  rfl

theorem IsCommentLine.silent {line : List Char} (h : IsCommentLine line)
    (isKeyword : String → Bool) : Silent isKeyword line := by
  obtain ⟨body, hbody⟩ := h
  have hline : leadingBlanks line ++ '/' :: '/' :: body = line := by
    have hsplit := List.takeWhile_append_dropWhile (p := isBlank) (l := line)
    rwa [← hbody] at hsplit
  have hblanks : ∀ c ∈ leadingBlanks line, isBlank c = true := fun c hc => all_of_mem_takeWhile c hc
  rw [Silent, ← hline, lexemes_blanks isKeyword .code hblanks, lexemes_lineComment]
  rfl

theorem IsCommentLine.not_allBlank {line : List Char} (h : IsCommentLine line) :
    allBlank line = false := by
  obtain ⟨body, hbody⟩ := h
  have hslash : '/' ∈ line := by
    refine (List.dropWhile_suffix isBlank).subset ?_
    rw [← hbody]
    exact List.mem_cons_self
  by_contra hblank
  rw [Bool.not_eq_false] at hblank
  exact absurd (List.all_eq_true.1 hblank '/' hslash) (by decide)

/-- A silent line adds the layout before it and nothing else. -/
theorem Boundary.scanLine_silent {settings : Settings} {s s₁ : State} {line : List Char}
    {layout : List Token} (h : Boundary settings s line s₁ layout)
    (hhidden : settings.emitComments = false) (houtside : s.inComment = false)
    (hsilent : Silent settings.isKeyword line) :
    scanLine settings s line = .ok
      ({ s₁ with lines := s.lines + 1, width := line.length, inComment := false }, layout) := by
  rw [Silent] at hsilent
  rw [h.scanLine_eq, houtside, readLine]
  simp only [Bool.false_eq_true, if_false]
  cases hread : lexemes settings.isKeyword .code line with
  | error fault =>
    rw [hread] at hsilent
    cases hsilent
  | ok p =>
    rw [hread] at hsilent
    obtain ⟨hfound, hmode⟩ := Prod.mk.inj (Except.ok.inj hsilent)
    have hshown : shown settings (lineTokens (s.lines + 1) line p.1) = [] := by
      rw [shown_lineTokens hhidden, hfound]
      rfl
    have hstate := s₁.seeAll_shown settings (lineTokens (s.lines + 1) line p.1)
    rw [hshown, State.seeAll_nil] at hstate
    simp only [Except.map, hshown, ← hstate, hmode, List.append_nil]
    rfl

/-- Two silent lines behind the same layout lead to the same. -/
theorem Boundary.sameRun_silent {settings : Settings} {s s₁ s₂ : State} {line other : List Char}
    {layout layout' : List Token} (h : Boundary settings s line s₁ layout)
    (h' : Boundary settings s other s₂ layout') (hhidden : settings.emitComments = false)
    (houtside : s.inComment = false) (hsilent : Silent settings.isKeyword line)
    (hsilent' : Silent settings.isKeyword other) (hstate : Alike s₁ s₂)
    (hlayout : layout.map lexemeOf = layout'.map lexemeOf) :
    SameRun (scanLine settings s line) (scanLine settings s other) := by
  have hnone : ([] : List Token).map lexemeOf = [].map lexemeOf := rfl
  rw [h.scanLine_silent hhidden houtside hsilent, h'.scanLine_silent hhidden houtside hsilent']
  exact .done (hstate.behind hnone _ _ _ _ false) hlayout

/-! ### Rows of silent lines -/

/-- Behind a `NEWLINE` and its steps, the last kind is one of theirs. -/
theorem Boundary.isLayout_last {settings : Settings} {s s' : State} {line : List Char}
    {layout : List Token} (h : Boundary settings s line s' layout) (hne : layout ≠ []) :
    ∀ kind ∈ s'.last, kind.isLayout = true := by
  have hkinds : ∀ t ∈ layout, t.kind.isLayout = true := fun t => h.isLayout_of_mem
  have hall : withoutMarks layout = layout :=
    withoutMarks_eq_self fun t ht => isComment_of_isLayout (hkinds t ht)
  have hlast : lastKind layout = some (layout.getLast hne).kind := by
    rw [lastKind, ← withoutMarks, hall, List.getLast?_eq_some_getLast hne]
    rfl
  rw [h.state_eq]
  show ∀ kind ∈ (s.seeAll layout).last, kind.isLayout = true
  rw [State.seeAll_last, hlast]
  rintro kind ⟨⟩
  exact hkinds _ (List.getLast_mem hne)

/-- The state between two statements, at a depth and with the width of a step that is known, if
any. -/
structure Resting (settings : Settings) (unit : Option Nat) (depth : Nat) (s : State) : Prop where
  begun : s.lines ≠ 0
  ended : s.joinsNext settings = false
  unit : s.unit = unit
  depth : s.depth = depth

/-- Behind a line that begins a statement, there is a depth and a width: those from before, if the
line is blank, and those that it is measured to have otherwise. -/
inductive Stands (unit : Option Nat) (depth : Nat) (line : List Char) : Nat → Option Nat → Prop
  | blank : allBlank line = true → Stands unit depth line depth unit
  | measured {deep : Nat} {next : Option Nat} :
      allBlank line = false → measure unit line = .ok (deep, next) →
      Stands unit depth line deep next

/-- What silent lines add at the end of a program, where each begins a statement. -/
inductive Layers (isKeyword : String → Bool) :
    Option Nat → Nat → List (List Char) → List Lexeme → Prop
  | close {unit : Option Nat} {depth : Nat} :
      Layers isKeyword unit depth []
        (List.replicate depth ⟨.dedent, none⟩ ++ [⟨.eof, none⟩])
  | line {unit next : Option Nat} {depth deep : Nat} {line : List Char}
      {lines : List (List Char)} {rest : List Lexeme} :
      Silent isKeyword line → Stands unit depth line deep next →
      Layers isKeyword next deep lines rest →
      Layers isKeyword unit depth (line :: lines)
        (⟨.newline, none⟩ :: (steps depth deep ++ rest))

section

variable {settings : Settings} {unit next : Option Nat} {depth deep : Nat} {s : State}

theorem Resting.outside (h : Resting settings unit depth s) : s.inComment = false :=
  (State.joinsNext_eq_false.1 h.ended).1

/-- What stands between two statements. -/
theorem Resting.boundary {line : List Char} (h : Resting settings unit depth s)
    (hstands : Stands unit depth line deep next) :
    ∃ s₁ layout, Boundary settings s line s₁ layout ∧ s₁.depth = deep ∧ s₁.unit = next ∧
      layout.map lexemeOf = ⟨.newline, none⟩ :: steps depth deep := by
  obtain ⟨hbegun, hended, rfl, rfl⟩ := h
  cases hstands with
  | blank hblank =>
    refine ⟨_, _, .blank hbegun hended hblank, rfl, rfl, ?_⟩
    simp [steps]
    rfl
  | measured hvisible hmeasure =>
    refine ⟨_, _, .measured hbegun hended hvisible hmeasure, rfl, rfl, ?_⟩
    rw [List.map_cons, lexemeOf_depthTokens]
    rfl

/-- A silent line leads from one pause between statements to another. -/
theorem Resting.line {line : List Char} (h : Resting settings unit depth s)
    (hhidden : settings.emitComments = false)
    (hlayout : ∀ kind, kind.isLayout = true → settings.continues kind = false)
    (hsilent : Silent settings.isKeyword line) (hstands : Stands unit depth line deep next) :
    ∃ s' own, scanLine settings s line = .ok (s', own) ∧ Resting settings next deep s' ∧
      own.map lexemeOf = ⟨.newline, none⟩ :: steps depth deep := by
  obtain ⟨s₁, layout, hboundary, hdepth, hunit, hown⟩ := h.boundary hstands
  have hline := hboundary.scanLine_silent hhidden h.outside hsilent
  have hne : layout ≠ [] := by
    rintro rfl
    cases hown
  -- Layout opens no parenthesis and ends a statement.
  have hparens := hboundary.parens_eq.trans (State.joinsNext_eq_false.1 h.ended).2.1
  have hlast : ∀ kind ∈ s₁.last, settings.continues kind = false :=
    fun kind hkind => hlayout kind (hboundary.isLayout_last hne kind hkind)
  refine ⟨_, layout, hline, ⟨Nat.succ_ne_zero _, ?_, hunit, hdepth⟩, hown⟩
  exact State.joinsNext_eq_false.2 ⟨rfl, hparens, hlast⟩

/-- Silent lines behind each other are gone through. -/
theorem Resting.layers {lines : List (List Char)} {lexemes : List Lexeme}
    (h : Resting settings unit depth s) (hhidden : settings.emitComments = false)
    (hlayout : ∀ kind, kind.isLayout = true → settings.continues kind = false)
    (hlayers : Layers settings.isKeyword unit depth lines lexemes) :
    ∃ s' own, scanLines settings s lines = .ok (s', own) ∧ s'.inComment = false ∧
      own.map lexemeOf ++ (List.replicate s'.depth ⟨.dedent, none⟩ ++ [⟨.eof, none⟩]) =
        lexemes := by
  induction hlayers generalizing s with
  | close => exact ⟨s, [], rfl, h.outside, by rw [h.depth]; rfl⟩
  | line hsilent hstands _ ih =>
    obtain ⟨s₁, own, hline, hresting, hown⟩ := h.line hhidden hlayout hsilent hstands
    obtain ⟨s', more, hlines, houtside, hmore⟩ := ih hresting
    refine ⟨s', own ++ more, ?_, houtside, ?_⟩
    · rw [scanLines, hline]
      simp only [hlines]
    · rw [List.map_append, List.append_assoc, hmore, hown, List.cons_append]

end

/-- Behind a `NEWLINE` the steps end at the next one, so they tell the depths apart. -/
theorem steps_newline_inj {before a b : Nat} {xs ys : List Lexeme}
    (h : steps before a ++ ⟨.newline, none⟩ :: xs = steps before b ++ ⟨.newline, none⟩ :: ys) :
    a = b ∧ xs = ys := by
  have hsteps (after : Nat) : ∀ l ∈ steps before after, (l.kind != .newline) = true := by
    intro l hl
    rcases List.mem_append.1 hl with hl | hl <;> rw [List.eq_of_mem_replicate hl] <;> rfl
  have hcut (after : Nat) (more : List Lexeme) :
      (steps before after ++ ⟨.newline, none⟩ :: more).takeWhile (fun l => l.kind != .newline) =
        steps before after := by
    rw [List.takeWhile_append_of_pos (hsteps after), List.takeWhile_cons_of_neg (by decide),
      List.append_nil]
  have hequal : steps before a = steps before b := by rw [← hcut a xs, h, hcut]
  rw [hequal, List.append_cancel_left_eq] at h
  refine ⟨?_, (List.cons.inj h).2⟩
  have hcount (after : Nat) : (steps before after).count ⟨.indent, none⟩ = after - before ∧
      (steps before after).count ⟨.dedent, none⟩ = before - after := by
    constructor <;> simp [steps, List.count_append, List.count_replicate]
  have hright := (hcount a).1.symm.trans (hequal ▸ (hcount b).1)
  have hleft := (hcount a).2.symm.trans (hequal ▸ (hcount b).2)
  omega

/-! ### A comment behind spaces -/

/-- A comment behind so many spaces. -/
def commentAt (count : Nat) : List Char := List.replicate count ' ' ++ ['/', '/']

theorem isBlank_of_mem_spaces {count : Nat} {c : Char} (h : c ∈ List.replicate count ' ') :
    isBlank c = true := by
  rw [List.eq_of_mem_replicate h]
  decide

theorem isCommentLine_commentAt (count : Nat) : IsCommentLine (commentAt count) := by
  rw [IsCommentLine, commentAt, List.dropWhile_append_of_pos fun _ => isBlank_of_mem_spaces]
  exact ⟨[], by decide⟩

theorem leadingBlanks_commentAt (count : Nat) :
    leadingBlanks (commentAt count) = List.replicate count ' ' :=
  takeWhile_append_of_stopsAt (fun _ => isBlank_of_mem_spaces) (stopsAt_cons.2 (by decide))

theorem spaces_commentAt (count : Nat) : spaces (commentAt count) = count := by
  rw [spaces, leadingBlanks_commentAt, List.count_replicate_self]

theorem hasDepth_commentAt {width count : Nat} (hwhole : width ∣ count) :
    HasDepth (some width) (commentAt count) (count / width) := by
  have htabs : tabs (commentAt count) = 0 := by
    rw [tabs, leadingBlanks_commentAt, List.count_replicate, if_neg (by decide)]
  refine ⟨?_, ?_, fun _ => Option.some_ne_none _, ?_⟩
  · rw [leadingBlanks_commentAt]
    exact fun c hc => .inr (List.eq_of_mem_replicate hc)
  · rintro w ⟨⟩
    rwa [spaces_commentAt]
  · rw [htabs, spaces_commentAt, Nat.zero_add, Option.getD_some]

/-- Whether a width was known before shows in the depth. -/
theorem measure_commentAt_double {count : Nat} (hpos : 0 < count) :
    measure none (commentAt (2 * count)) = .ok (1, some (2 * count)) ∧
      measure (some count) (commentAt (2 * count)) = .ok (2, some count) := by
  have hlearned := hasDepth_commentAt (Nat.dvd_refl (2 * count))
  have hknown := hasDepth_commentAt (Nat.dvd_mul_left count 2)
  rw [Nat.div_self (by omega)] at hlearned
  rw [Nat.mul_div_cancel 2 hpos] at hknown
  refine ⟨measure_of_hasDepth ?_ hlearned, hknown.measure_eq⟩
  have hne : 2 * count ≠ 0 := by omega
  simp [spaces_commentAt, hne]

/-! ### Programs -/

/-- A line stands where the lines before it have left off: it is indented to the depth of the block
that is open, in steps of a width that they have made known. -/
def InPlace (settings : Settings) (front : List (List Char)) (line : List Char) : Prop :=
  ∃ tokens, ∃ depth : Nat, emitted settings front = .ok tokens ∧ netDepth tokens = depth ∧
    HasDepth (stepWidth settings front) line depth

/-- A line is indented by whole steps and no deeper than the lines before it. -/
def NoDeeper (settings : Settings) (front : List (List Char)) (line : List Char) : Prop :=
  ∃ tokens, ∃ before depth : Nat, emitted settings front = .ok tokens ∧
    netDepth tokens = before ∧ HasDepth (stepWidth settings (front ++ [line])) line depth ∧
    depth ≤ before

section

variable {settings : Settings} {front : List (List Char)} {line : List Char} {s : State}
  {before : List Token}

theorem netDepth_of_run (h : scanLines settings (State.start settings) front = .ok (s, before)) :
    netDepth before = s.depth := by
  have hbalance := (run_climbs h).balance
  unfold netDepth
  omega

theorem depth_of_run {tokens : List Token} {depth : Nat}
    (h : scanLines settings (State.start settings) front = .ok (s, before))
    (hemitted : emitted settings front = .ok tokens) (hnet : netDepth tokens = depth) :
    depth = s.depth := by
  rw [emitted_eq_ok_iff.2 ⟨s, h⟩] at hemitted
  cases hemitted
  rw [netDepth_of_run h] at hnet
  exact_mod_cast hnet.symm

/-- The state of a run knows whether the next line stands in place. -/
theorem inPlace_iff_of_run
    (h : scanLines settings (State.start settings) front = .ok (s, before)) :
    InPlace settings front line ↔ HasDepth (stepWidth settings front) line s.depth := by
  constructor
  · rintro ⟨tokens, depth, hemitted, hnet, hdepth⟩
    exact depth_of_run h hemitted hnet ▸ hdepth
  · exact fun hdepth =>
      ⟨before, s.depth, emitted_eq_ok_iff.2 ⟨s, h⟩, netDepth_of_run h, hdepth⟩

/-- Before a measured line is a pause between statements. -/
theorem Measured.resting (h : Measured settings front line) :
    ∃ s before, scanLines settings (State.start settings) front = .ok (s, before) ∧
      Resting settings (stepWidth settings front) s.depth s := by
  obtain ⟨s, before, hrun⟩ := h.run
  obtain ⟨hlines, hended, -⟩ := (measured_iff_of_run line hrun).1 h
  exact ⟨s, before, hrun, hlines, hended, run_unit hrun, rfl⟩

/-- A program that ends in silent lines. -/
theorem outline_scan_layers {unit : Option Nat} {depth : Nat} {lines : List (List Char)}
    {lexemes : List Lexeme}
    (hrun : scanLines settings (State.start settings) front = .ok (s, before))
    (hresting : Resting settings unit depth s) (hhidden : settings.emitComments = false)
    (hlayout : ∀ kind, kind.isLayout = true → settings.continues kind = false)
    (hlayers : Layers settings.isKeyword unit depth lines lexemes) :
    outline (scan settings (front ++ lines)) = .ok (before.map lexemeOf ++ lexemes) := by
  obtain ⟨s', own, hlines, houtside, hown⟩ := hresting.layers hhidden hlayout hlayers
  have hall := scanLines_append_of_ok hrun lines
  rw [hlines] at hall
  rw [scan_of_run hall houtside, outline, List.map_append, lexemeOf_closing, List.map_append,
    List.append_assoc, hown]

/-- Lines that lead to the same can stand for each other. -/
theorem outline_scan_congr_line {other : List Char}
    (hrun : scanLines settings (State.start settings) front = .ok (s, before))
    (h : SameRun (scanLine settings s line) (scanLine settings s other))
    (rest : List (List Char)) :
    outline (scan settings (front ++ [line] ++ rest)) =
      outline (scan settings (front ++ [other] ++ rest)) := by
  rw [← scanLines_singleton, ← scanLines_singleton] at h
  rw [List.append_assoc, List.append_assoc]
  exact ((h.append rest).behind hrun).outline_scan

/-- A line that says nothing new is an empty one. -/
theorem outline_of_inPlace (hhidden : settings.emitComments = false)
    (houtside : ¬ LinesEnd settings.isKeyword front .comment) (hline : IsCommentLine line)
    (hplace : Measured settings front line → InPlace settings front line)
    (rest : List (List Char)) :
    outline (scan settings (front ++ [line] ++ rest)) =
      outline (scan settings (front ++ [[]] ++ rest)) := by
  cases hrun : scanLines settings (State.start settings) front with
  | error e =>
    have hfails (more : List (List Char)) : scan settings (front ++ more) = .error e :=
      scan_of_failed_run (scanLines_append_of_error hrun more)
    rw [List.append_assoc, List.append_assoc, hfails, hfails]
  | ok p =>
    obtain ⟨s, before⟩ := p
    have hinside : s.inComment = false := by
      rwa [← run_inComment_iff hrun, Bool.not_eq_true] at houtside
    have hsilent := hline.silent settings.isKeyword
    have hsilent' := silent_nil settings.isKeyword
    refine outline_scan_congr_line hrun ?_ rest
    by_cases hm : Measured settings front line
    -- The line is measured at the depth that is there anyway.
    · obtain ⟨hlines, hended, hvisible⟩ := (measured_iff_of_run line hrun).1 hm
      have hdepth := (inPlace_iff_of_run hrun).1 (hplace hm)
      rw [← run_unit hrun] at hdepth
      have hsteps : depthTokens (s.lines + 1) s.depth s.depth = [] := by simp [depthTokens]
      have hboundary := Boundary.measured hlines hended hvisible hdepth.measure_eq
      rw [hsteps] at hboundary
      have hempty : Boundary settings s [] _ _ := .blank hlines hended rfl
      exact hboundary.sameRun_silent hempty hhidden hinside hsilent hsilent' (.refl _) rfl
    · have hjoined : s.lines = 0 ∨ s.joinsNext settings = true := by
        rw [measured_iff_of_run line hrun] at hm
        by_contra hnot
        rw [not_or, Bool.not_eq_true] at hnot
        exact hm ⟨hnot.1, hnot.2, hline.not_allBlank⟩
      have hboundary : Boundary settings s line _ _ := .joined hjoined
      have hempty : Boundary settings s [] _ _ := .joined hjoined
      exact hboundary.sameRun_silent hempty hhidden hinside hsilent hsilent' (.refl s) rfl

/-- A measured line that is no deeper than the one before it only closes blocks, and at the end of a
program these are closed anyway. -/
theorem outline_of_noDeeper (hhidden : settings.emitComments = false)
    (hlayout : ∀ kind, kind.isLayout = true → settings.continues kind = false)
    (hline : IsCommentLine line) (hm : Measured settings front line)
    (hdeeper : NoDeeper settings front line) :
    outline (scan settings (front ++ [line])) = outline (scan settings (front ++ [[]])) := by
  obtain ⟨s, before, hrun, hresting⟩ := hm.resting
  obtain ⟨tokens, deep, depth, hemitted, hnet, hdepth, hle⟩ := hdeeper
  rw [depth_of_run hrun hemitted hnet] at hle
  have hmeasure : measure (stepWidth settings front) line = .ok (depth, _) :=
    measure_of_hasDepth (stepWidth_concat_of_measured hm) hdepth
  have hcomment := outline_scan_layers hrun hresting hhidden hlayout
    (.line (hline.silent _) (.measured hm.visible hmeasure) .close)
  have hempty := outline_scan_layers hrun hresting hhidden hlayout
    (.line (silent_nil _) (.blank rfl) .close)
  have hclose : steps s.depth depth ++ List.replicate depth ⟨.dedent, none⟩ =
      steps s.depth s.depth ++ List.replicate s.depth ⟨.dedent, none⟩ := by
    have hsum : s.depth - depth + depth = s.depth := by omega
    have hzero : depth - s.depth = 0 := by omega
    simp only [steps, hzero, Nat.sub_self, List.replicate_zero, List.nil_append,
      List.replicate_append_replicate, hsum]
  rw [hcomment, hempty, ← List.append_assoc (steps _ _), hclose, List.append_assoc]

/-- If a measured comment line cannot be told from an empty one, whatever lines follow, then it
stands in place. -/
theorem inPlace_of_same (hhidden : settings.emitComments = false)
    (hlayout : ∀ kind, kind.isLayout = true → settings.continues kind = false)
    (hline : IsCommentLine line) (hm : Measured settings front line)
    (hsame : ∀ rest, (outline (scan settings (front ++ [line] ++ rest))).toOption =
      (outline (scan settings (front ++ [[]] ++ rest))).toOption) :
    InPlace settings front line := by
  obtain ⟨s, before, hrun, hresting⟩ := hm.resting
  have hempty {lines : List (List Char)} {ls : List Lexeme}
      (hlayers : Layers settings.isKeyword (stepWidth settings front) s.depth lines ls) :
      outline (scan settings (front ++ [[]] ++ lines)) =
        .ok (before.map lexemeOf ++ ⟨.newline, none⟩ :: (steps s.depth s.depth ++ ls)) := by
    rw [List.append_assoc]
    exact outline_scan_layers hrun hresting hhidden hlayout
      (.line (silent_nil _) (.blank rfl) hlayers)
  cases hmeasure : measure (stepWidth settings front) line with
  | error fault =>
    have hnone := hsame []
    rw [hempty .close, List.append_assoc, List.singleton_append, hm.scan_eq_error hmeasure] at hnone
    cases hnone
  | ok p =>
    obtain ⟨deep, next⟩ := p
    -- Whatever silent lines follow, they add the same.
    have hequal {lines : List (List Char)} {xs ys : List Lexeme}
        (hxs : Layers settings.isKeyword next deep lines xs)
        (hys : Layers settings.isKeyword (stepWidth settings front) s.depth lines ys) :
        steps s.depth deep ++ xs = steps s.depth s.depth ++ ys := by
      have hcomment := outline_scan_layers hrun hresting hhidden hlayout
        (.line (hline.silent _) (.measured hm.visible hmeasure) hxs)
      have hboth := hsame lines
      rw [hempty hys, List.append_assoc, List.singleton_append, hcomment] at hboth
      have hlists := Option.some.inj hboth
      rw [List.append_cancel_left_eq] at hlists
      exact (List.cons.inj hlists).2
    -- An empty line behind shows the depth.
    have hdeep : deep = s.depth := (steps_newline_inj (hequal
      (.line (silent_nil _) (.blank rfl) .close) (.line (silent_nil _) (.blank rfl) .close))).1
    subst hdeep
    rcases measure_eq_ok_cases hmeasure with hdepth | ⟨hnone, rfl, hspaces⟩
    · exact (inPlace_iff_of_run hrun).2 hdepth
    -- The line has decided the width, and another comment shows that.
    · obtain ⟨hlearned, hknown⟩ := measure_commentAt_double (Nat.pos_of_ne_zero hspaces)
      rw [← hnone] at hlearned
      have hcomment := isCommentLine_commentAt (2 * spaces line)
      have hrest := (steps_newline_inj (hequal
        (.line (hcomment.silent _) (.measured hcomment.not_allBlank hknown)
          (.line (silent_nil _) (.blank rfl) .close))
        (.line (hcomment.silent _) (.measured hcomment.not_allBlank hlearned)
          (.line (silent_nil _) (.blank rfl) .close)))).2
      exact absurd (steps_newline_inj hrest).1 (by decide)

end

/-- A comment on a line of its own is as good as an empty line exactly where its margin says
nothing new. Let the marks of comments not be shown, and let signs of layout end a statement.

If the line is not measured, or is indented to the depth of the block that is open in steps of a
width known before, then whatever lines follow the scan gives the same kinds and literals, or it
fails for the same cause. At the end of a program, a comment may also stand less deep. In all other
cases, there are lines to follow behind which an empty line gives something else. -/
theorem comment_line_as_empty {settings : Settings} {front : List (List Char)} {line : List Char}
    (hhidden : settings.emitComments = false)
    (hlayout : ∀ kind, kind.isLayout = true → settings.continues kind = false)
    (houtside : ¬ LinesEnd settings.isKeyword front .comment) (hline : IsCommentLine line) :
    ((Measured settings front line → InPlace settings front line) → ∀ rest,
      outline (scan settings (front ++ [line] ++ rest)) =
        outline (scan settings (front ++ [[]] ++ rest))) ∧
    (NoDeeper settings front line →
      outline (scan settings (front ++ [line])) = outline (scan settings (front ++ [[]]))) ∧
    (Measured settings front line → ¬ InPlace settings front line → ∃ rest,
      (outline (scan settings (front ++ [line] ++ rest))).toOption ≠
        (outline (scan settings (front ++ [[]] ++ rest))).toOption) := by
  refine ⟨outline_of_inPlace hhidden houtside hline, fun hdeeper => ?_, fun hm hnot => ?_⟩
  · by_cases hm : Measured settings front line
    · exact outline_of_noDeeper hhidden hlayout hline hm hdeeper
    · have hsame := outline_of_inPlace hhidden houtside hline (fun h => absurd h hm) []
      rwa [List.append_nil, List.append_nil] at hsame
  · by_contra hsame
    exact hnot (inPlace_of_same hhidden hlayout hline hm fun rest =>
      by_contra fun hne => hsame ⟨rest, hne⟩)

/-- By default, signs of layout end a statement. -/
theorem continues_layout (kind : Kind) (h : kind.isLayout = true) :
    ({} : Settings).continues kind = false := by
  revert h
  cases kind <;> decide

/-- Behind a block of one step, a comment that is indented by one step is an empty line in front of
anything. At the end of the program it may be indented less. Indented by two steps, it is told from
an empty line. -/
theorem comment_line_as_empty_in_block :
    let front := ["a".toList, "  b".toList]
    (InPlace {} front "  // c".toList ∧
      outline (scan {} (front ++ ["  // c".toList] ++ ["    d".toList])) =
        .ok [⟨.identifier, some (.string "a")⟩, ⟨.newline, none⟩, ⟨.indent, none⟩,
          ⟨.identifier, some (.string "b")⟩, ⟨.newline, none⟩, ⟨.newline, none⟩, ⟨.indent, none⟩,
          ⟨.identifier, some (.string "d")⟩, ⟨.dedent, none⟩, ⟨.dedent, none⟩, ⟨.eof, none⟩]) ∧
      (NoDeeper {} front "// c".toList ∧
        outline (scan {} (front ++ ["// c".toList])) =
          .ok [⟨.identifier, some (.string "a")⟩, ⟨.newline, none⟩, ⟨.indent, none⟩,
            ⟨.identifier, some (.string "b")⟩, ⟨.newline, none⟩, ⟨.dedent, none⟩,
            ⟨.eof, none⟩]) ∧
      Measured {} front "\t\t// c".toList ∧ ¬ InPlace {} front "\t\t// c".toList ∧
        ∃ rest, (outline (scan {} (front ++ ["\t\t// c".toList] ++ rest))).toOption ≠
          (outline (scan {} (front ++ [[]] ++ rest))).toOption := by
  intro front
  have hemitted : emitted {} front = .ok
      [⟨.identifier, some (.string "a"), 1, 1⟩, ⟨.newline, none, 1, 2⟩, ⟨.indent, none, 2, 1⟩,
        ⟨.identifier, some (.string "b"), 2, 3⟩] := by cbv
  have hdeeper : Measured {} front "\t\t// c".toList := by decide +kernel
  have houtside : ¬ LinesEnd ({} : Settings).isKeyword front .comment := by
    obtain ⟨tokens, -, hends⟩ := hdeeper.ends
    exact hends.outside
  have hwidth : stepWidth {} front = some 2 := by decide +kernel
  have hwidth' : stepWidth {} (front ++ ["// c".toList]) = some 2 := by decide +kernel
  have hone : measure (some 2) "  // c".toList = .ok (1, some 2) := by cbv
  have hzero : measure (some 2) "// c".toList = .ok (0, some 2) := by cbv
  have hplace : InPlace {} front "  // c".toList :=
    ⟨_, 1, hemitted, by decide, hwidth ▸ (measure_eq_ok hone).2⟩
  have hless : NoDeeper {} front "// c".toList :=
    ⟨_, 1, 0, hemitted, by decide, hwidth' ▸ (measure_eq_ok hzero).2, by decide⟩
  have hnot : ¬ InPlace {} front "\t\t// c".toList := by
    rintro ⟨tokens, depth, hfound, hnet, hdepth⟩
    rw [hemitted] at hfound
    cases hfound
    have htwo : depth = 2 := by
      rw [hdepth.total, hwidth]
      decide
    rw [htwo] at hnet
    exact absurd hnet (by decide)
  refine ⟨⟨hplace, ?_⟩, ⟨hless, ?_⟩, hdeeper, hnot, ?_⟩
  · obtain ⟨hsame, -⟩ := comment_line_as_empty rfl continues_layout houtside
      (show IsCommentLine "  // c".toList by decide)
    refine (hsame (fun _ => hplace) _).trans ?_
    cbv
  · obtain ⟨-, hsame, -⟩ := comment_line_as_empty rfl continues_layout houtside
      (show IsCommentLine "// c".toList by decide)
    refine (hsame hless).trans ?_
    cbv
  · obtain ⟨-, -, htold⟩ := comment_line_as_empty rfl continues_layout houtside
      (show IsCommentLine "\t\t// c".toList by decide)
    exact htold hdeeper hnot

/-- A comment on a line of its own can open a block. The one below is indented by a step, so the
line behind it has a step to take back. -/
theorem not_comment_line_as_empty :
    ¬ ∀ (settings : Settings) (front : List (List Char)) (line : List Char)
      (rest : List (List Char)), settings.emitComments = false →
      (∀ kind, kind.isLayout = true → settings.continues kind = false) →
      ¬ LinesEnd settings.isKeyword front .comment → IsCommentLine line →
      (outline (scan settings (front ++ [line] ++ rest))).toOption =
        (outline (scan settings (front ++ [[]] ++ rest))).toOption := by
  intro hsame
  have hcomment : scan {} (["a".toList] ++ ["  // b".toList] ++ ["c".toList]) = .ok
      [⟨.identifier, some (.string "a"), 1, 1⟩, ⟨.newline, none, 1, 2⟩, ⟨.indent, none, 2, 1⟩,
        ⟨.newline, none, 2, 7⟩, ⟨.dedent, none, 3, 1⟩, ⟨.identifier, some (.string "c"), 3, 1⟩,
        ⟨.eof, none, 3, 2⟩] := by cbv
  have hempty : scan {} (["a".toList] ++ [[]] ++ ["c".toList]) = .ok
      [⟨.identifier, some (.string "a"), 1, 1⟩, ⟨.newline, none, 1, 2⟩, ⟨.newline, none, 2, 1⟩,
        ⟨.identifier, some (.string "c"), 3, 1⟩, ⟨.eof, none, 3, 2⟩] := by cbv
  have hm : Measured {} ["a".toList] "  // b".toList := by decide +kernel
  obtain ⟨tokens, -, hends⟩ := hm.ends
  have hboth := hsame {} ["a".toList] "  // b".toList ["c".toList] rfl continues_layout
    hends.outside (by decide)
  rw [hcomment, hempty] at hboth
  exact absurd hboth (by decide)

end Offside.Scan
