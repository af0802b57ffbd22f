import Offside.Proofs.Scan.CommentLines
import Offside.Proofs.Scan.Guarded.Lines

/-!
# `Offside.Proofs.Scan.Guarded.Safety`: a scan never slips

From lines to programs. In front of a line the machine breaks the last one and measures the margin,
which follows `boundary` (`lineBreak_follows`); the margin is passed by twice in the plain scan,
where `lexemes` reads its blanks again. Then come the rounds of the line. What has to be carried
from line to line is little: the state that the machine amounts to, which is that of the plain scan,
and that the unit of indentation is not zero.

`scan_never_slips` is the result. The guarded scan is the plain one, error for error and token for
token, and none of its guards ever refuses.
-/

set_option autoImplicit false

namespace Offside.Scan.Guarded

open Offside.Text

variable {settings : Settings} {m m₁ m₂ : Machine} {line : List Char} {tokens more : List Token}
  {kind : Kind}

/-! ### Tokens of the layout -/

/-- A machine has added tokens where it stands. -/
structure Added (tokens : List Token) (m m' : Machine) : Prop where
  row_eq : m'.row = m.row
  cursor_eq : m'.cursor = m.cursor
  comment_eq : m'.comment = m.comment
  tokens_eq : m'.tokens = m.tokens ++ tokens
  state_eq : m'.state = m.state.seeAll tokens

theorem Added.trans (h : Added tokens m m₁) (hmore : Added more m₁ m₂) :
    Added (tokens ++ more) m m₂ where
  row_eq := hmore.row_eq.trans h.row_eq
  cursor_eq := hmore.cursor_eq.trans h.cursor_eq
  comment_eq := hmore.comment_eq.trans h.comment_eq
  tokens_eq := by rw [hmore.tokens_eq, h.tokens_eq, List.append_assoc]
  state_eq := by rw [hmore.state_eq, h.state_eq, State.seeAll_append]

theorem Added.unit_eq (h : Added tokens m m₁) : m₁.unit = m.unit :=
  (congrArg State.unit h.state_eq).trans (seeAll_unit _ _)

theorem Added.depth_eq (h : Added tokens m m₁) : m₁.depth = m.depth :=
  (congrArg State.depth h.state_eq).trans (seeAll_depth _ _)

theorem added_pushAt (m : Machine) (hkind : isNeutral kind = true) (line column : Nat) :
    Added [⟨kind, none, line, column⟩] m (m.pushAt ⟨kind, none⟩ line column) where
  row_eq := rfl
  cursor_eq := rfl
  comment_eq := rfl
  tokens_eq := rfl
  state_eq := by
    have hparens := see_parens_of_isNeutral m.state hkind
    have hcomment := isComment_of_isNeutral hkind
    rw [State.seeAll_cons, State.seeAll_nil, State.see_eq, hparens]
    simp [Machine.state, Machine.pushAt, State.see, hcomment]

theorem added_pushRow (m : Machine) (hkind : isNeutral kind = true) (count line column : Nat) :
    Added (List.replicate count ⟨kind, none, line, column⟩) m
      (m.pushRow count kind line column) := by
  induction count with
  | zero => exact ⟨rfl, rfl, rfl, (List.append_nil _).symm, rfl⟩
  | succ count ih =>
    rw [List.replicate_succ']
    exact ih.trans (added_pushAt _ hkind line column)

/-- The steps of a change of depth all go the same way. -/
theorem depthTokens_eq (number before after : Nat) :
    depthTokens number before after =
      List.replicate ((after - before) + (before - after))
        ⟨if before < after then .indent else .dedent, none, number, 1⟩ := by
  unfold depthTokens
  by_cases h : before < after
  · rw [if_pos h, if_pos h, Nat.sub_eq_zero_of_le (Nat.le_of_lt h), Nat.add_zero]
  · rw [if_neg h, if_neg h, Nat.sub_eq_zero_of_le (Nat.le_of_not_lt h), Nat.zero_add]

/-- A line that holds more than blanks is measured where the machine stands in front of it. -/
theorem indentation_follows (hunit : ∀ u ∈ m.unit, 0 < u) (hcursor : m.cursor = 0)
    (hblank : allBlank m.row.chars = false) :
    Follows m.row.report
      (fun d m' => m'.row = m.row ∧ m'.comment = m.comment ∧ (∀ u ∈ m'.unit, 0 < u) ∧
        m'.tokens = m.tokens ++ depthTokens m.row.number m.depth d.1 ∧
        m'.state = { m.state.seeAll (depthTokens m.row.number m.depth d.1) with
          depth := d.1, unit := d.2 } ∧
        m.row.At m'.cursor (m.row.chars.dropWhile isMargin))
      (measure m.unit m.row.chars) m.indentation := by
  have hindent : m.indentation =
      (loop Row.Margin.cursor m.row.chars.length m.row.marginRound { cursor := 0 } >>= fun margin =>
        m.row.depthOf m.unit margin >>= fun d => .ok (d, margin.cursor)) >>= fun p =>
      .ok { ({ m with cursor := p.2 }.pushRow ((p.1.1 - m.depth) + (m.depth - p.1.1))
        (if m.depth < p.1.1 then Kind.indent else Kind.dedent) m.row.number 1) with
        depth := p.1.1, unit := p.1.2 } := by
    unfold Machine.indentation
    rw [if_neg (by simp [hblank]), hcursor]
    cases loop Row.Margin.cursor m.row.chars.length m.row.marginRound { cursor := 0 } with
    | error h => rfl
    | ok margin =>
      rw [ok_bind, ok_bind]
      cases m.row.depthOf m.unit margin <;> rfl
  rw [hindent]
  refine (Row.measure_follows m.row hunit).andThen ?_
  rintro d p ⟨rfl, hpos, hat⟩
  obtain ⟨⟨depth, unit⟩, cursor⟩ := p
  have hkind : isNeutral (if m.depth < depth then Kind.indent else Kind.dedent) = true := by
    split <;> rfl
  have hadded := added_pushRow { m with cursor } hkind ((depth - m.depth) + (m.depth - depth))
    m.row.number 1
  rw [← depthTokens_eq] at hadded
  refine ⟨_, rfl, hadded.row_eq, hadded.comment_eq, hpos, hadded.tokens_eq, ?_, ?_⟩
  · exact congrArg (fun s : State => { s with depth, unit }) hadded.state_eq
  · exact hadded.cursor_eq.symm ▸ hat

/-! ### Line breaks -/

/-- A machine stands in front of the first character that counts of one more line, behind the tokens
of the line break. -/
structure InFront (settings : Settings) (m : Machine) (line : List Char) (p : State × List Token)
    (next : Machine) : Prop where
  row_eq : next.row = ⟨m.row.number + 1, line⟩
  tokens_eq : next.tokens = m.tokens ++ p.2
  state_eq : next.state = { p.1 with lines := m.row.number + 1, width := line.length }
  comment_ne : next.comment ≠ .line
  unit_pos : ∀ u ∈ next.unit, 0 < u
  stands : ∃ rest, next.row.At next.cursor rest ∧
    lexemes settings.isKeyword (if p.1.inComment then .comment else .code) line =
      lexemes settings.isKeyword (if p.1.inComment then .comment else .code) rest

theorem nextLine_comment_ne (m : Machine) (line : List Char) :
    (m.nextLine line).comment ≠ .line := by
  unfold Machine.nextLine
  cases m.comment <;> simp

theorem nextLine_state (m : Machine) (line : List Char) :
    (m.nextLine line).state =
      { m.state with lines := m.row.number + 1, width := line.length } := by
  have hinside : ((m.nextLine line).comment == .block) = (m.comment == .block) := by
    unfold Machine.nextLine
    cases m.comment <;> rfl
  unfold Machine.state
  rw [hinside]
  rfl

theorem joinsNext_eq (settings : Settings) (m : Machine) :
    m.joinsNext settings = m.state.joinsNext settings := rfl

/-- Where the last line stands does not matter to the tokens behind it. -/
theorem seeAll_moved (s : State) (lines width : Nat) (tokens : List Token) :
    ({ s with lines, width } : State).seeAll tokens = { s.seeAll tokens with lines, width } := by
  have h := seeAll_behind s lines width s.inComment tokens
  rw [State.seeAll_eq s] at h ⊢
  exact h

theorem lineBreak_eq (settings : Settings) (m : Machine) (line : List Char) :
    (m.nextLine line).lineBreak settings m.row.chars.length =
      if 1 < m.row.number + 1 ∧ m.state.joinsNext settings = false then
        minus (m.row.number + 1) 1 >>= fun number =>
          ((m.nextLine line).pushAt ⟨.newline, none⟩ number (m.row.chars.length + 1)).indentation
      else .ok (m.nextLine line) := by
  have hjoins : (m.nextLine line).joinsNext settings = m.state.joinsNext settings := by
    rw [joinsNext_eq, nextLine_state]
    rfl
  unfold Machine.lineBreak
  rw [hjoins]
  rfl

/-- A line break that ends a statement, and a line behind it that is measured. -/
theorem boundary_of_measured {s : State} (hlines : s.lines ≠ 0)
    (hjoin : s.joinsNext settings = false) (hblank : allBlank line = false) :
    boundary settings s line = (measure s.unit line).map fun d =>
      ({ s.seeAll (s.newline :: depthTokens (s.lines + 1) s.depth d.1) with
        depth := d.1, unit := d.2 }, s.newline :: depthTokens (s.lines + 1) s.depth d.1) := by
  unfold boundary
  rw [if_neg (by simp [hlines, hjoin]), if_neg (by simp [hblank])]
  cases measure s.unit line <;> rfl

/-- In code the margin of a line holds no lexemes. -/
theorem lexemes_dropMargin (isKeyword : String → Bool) (line : List Char) :
    lexemes isKeyword .code line = lexemes isKeyword .code (line.dropWhile isMargin) := by
  have hmargin : ∀ c ∈ line.takeWhile isMargin, isBlank c = true := fun c hc =>
    isBlank_of_isMargin (all_of_mem_takeWhile c hc)
  conv_lhs => rw [← List.takeWhile_append_dropWhile (p := isMargin) (l := line)]
  exact lexemes_blanks _ _ hmargin _

/-- Behind the token of a line break the margin of the next line is measured, unless that line is
blank. -/
theorem Added.indentation_follows (hadded : Added [m.state.newline] (m.nextLine line) m₁)
    (hunit : ∀ u ∈ m.unit, 0 < u) (hlines : m.state.lines ≠ 0)
    (hopen : m.state.joinsNext settings = false) :
    Follows (m.nextLine line).row.report (InFront settings m line)
      (boundary settings m.state line) m₁.indentation := by
  have hstate := hadded.state_eq
  rw [nextLine_state, seeAll_moved] at hstate
  have hcomment : m₁.comment ≠ .line := by
    rw [hadded.comment_eq]
    exact nextLine_comment_ne m line
  have hunit₁ : ∀ u ∈ m₁.unit, 0 < u := by
    rw [hadded.unit_eq]
    exact hunit
  by_cases hblank : allBlank line = true
  · have hindent : m₁.indentation = .ok m₁ := by
      unfold Machine.indentation
      rw [hadded.row_eq]
      exact if_pos hblank
    rw [boundary, if_neg (by simp [hlines, hopen]), if_pos hblank, hindent]
    refine .ok ⟨hadded.row_eq, hadded.tokens_eq, hstate, hcomment, hunit₁, line, ?_, rfl⟩
    rw [hadded.row_eq, hadded.cursor_eq]
    exact Row.at_zero _
  · rw [Bool.not_eq_true] at hblank
    rw [boundary_of_measured hlines hopen hblank]
    have hindent := Guarded.indentation_follows hunit₁ hadded.cursor_eq
      (by rw [hadded.row_eq]; exact hblank)
    rw [hadded.row_eq, hadded.unit_eq, hadded.depth_eq] at hindent
    refine hindent.map ?_
    rintro ⟨depth, unit⟩ m' ⟨hrow, hcomment', hunit', htokens, hstate', hat⟩
    -- The line break is outside of comments, so the margin is code.
    have houtside : m.state.inComment = false := by
      simp only [State.joinsNext, Bool.or_eq_false_iff] at hopen
      exact hopen.1.1
    refine ⟨hrow, ?_, ?_, hcomment' ▸ hcomment, hunit', line.dropWhile isMargin, ?_, ?_⟩
    · rw [htokens, hadded.tokens_eq, List.append_assoc]
      rfl
    · rw [hstate', hstate, seeAll_moved]
      rfl
    · rw [hrow]
      exact hat
    · rw [seeAll_inComment, houtside]
      exact lexemes_dropMargin _ line

/-- The line break in front of a line follows the boundary between the lines. -/
theorem lineBreak_follows (hunit : ∀ u ∈ m.unit, 0 < u) (settings : Settings) (line : List Char) :
    Follows (m.nextLine line).row.report (InFront settings m line)
      (boundary settings m.state line)
      ((m.nextLine line).lineBreak settings m.row.chars.length) := by
  rw [lineBreak_eq]
  by_cases hjoin : m.state.lines = 0 ∨ m.state.joinsNext settings = true
  · have hsame : ¬(1 < m.row.number + 1 ∧ m.state.joinsNext settings = false) := by
      rintro ⟨hnumber, hopen⟩
      rcases hjoin with hlines | hjoin
      · have : m.row.number = 0 := hlines
        omega
      · rw [hjoin] at hopen
        cases hopen
    rw [boundary, if_pos hjoin, if_neg hsame]
    exact .ok ⟨rfl, (List.append_nil _).symm, nextLine_state m line, nextLine_comment_ne m line,
      hunit, line, Row.at_zero _, rfl⟩
  · rw [not_or, Bool.not_eq_true] at hjoin
    obtain ⟨hlines, hopen⟩ := hjoin
    have hbreaks : 1 < m.row.number + 1 ∧ m.state.joinsNext settings = false :=
      ⟨Nat.lt_succ_of_le (Nat.pos_of_ne_zero hlines), hopen⟩
    rw [if_pos hbreaks, minus_add, ok_bind]
    have hadded : Added [m.state.newline] (m.nextLine line) _ :=
      added_pushAt (m.nextLine line) (rfl : isNeutral .newline = true) m.row.number
        (m.row.chars.length + 1)
    exact hadded.indentation_follows hunit hlines hopen

/-! ### Lines -/

/-- The errors of a line are its faults. -/
theorem scanLine_eq_mapError (settings : Settings) (s : State) (line : List Char) :
    scanLine settings s line =
      (boundary settings s line >>= fun p =>
        (lexemes settings.isKeyword (if p.1.inComment then .comment else .code) line).map fun q =>
          ({ p.1.seeAll (lineTokens (s.lines + 1) line q.1) with
              lines := s.lines + 1, width := line.length, inComment := q.2 == .comment },
            p.2 ++ shown settings (lineTokens (s.lines + 1) line q.1))).mapError
        (fun f => f.error (s.lines + 1) line) := by
  unfold scanLine
  cases boundary settings s line with
  | error f => rfl
  | ok p =>
    simp only [ok_bind]
    cases lexemes settings.isKeyword (if p.1.inComment then .comment else .code) line <;> rfl

/-- In front of a line, the comment suits the mode that the line is read in. -/
theorem InFront.suits {p : State × List Token} {next : Machine}
    (h : InFront settings m line p next) (rest : List Char) :
    Suits next.comment (if p.1.inComment then .comment else .code) rest := by
  have hinside : (next.comment == .block) = p.1.inComment := congrArg State.inComment h.state_eq
  have hline := h.comment_ne
  rw [← hinside]
  revert hline
  cases next.comment with
  | normal => exact fun _ => .code
  | line => exact fun hline => absurd rfl hline
  | block => exact fun _ => .comment

/-- A guarded line follows the plain one. The tokens are the same, and so is the state behind
them. -/
theorem scanLine_follows (hunit : ∀ u ∈ m.unit, 0 < u) (settings : Settings) (line : List Char) :
    Follows id (fun p m' => m'.state = p.1 ∧ m'.tokens = m.tokens ++ p.2 ∧ ∀ u ∈ m'.unit, 0 < u)
      (scanLine settings m.state line) (m.scanLine settings line) := by
  rw [scanLine_eq_mapError]
  refine Follows.mapError (m.nextLine line).row.report ?_ (fun _ => rfl)
  refine (lineBreak_follows hunit settings line).bind ?_
  intro p next hfront
  obtain ⟨rest, hat, hlex⟩ := hfront.stands
  rw [hlex]
  refine (lineRounds_follow hat (hfront.suits rest) hfront.row_eq).map ?_
  intro q m' hread
  have htokens := hread.took.tokens_eq
  have hstate := hread.took.state_eq
  rw [hfront.row_eq] at htokens hstate
  rw [hfront.state_eq, seeAll_moved] at hstate
  have hinside : m'.state.inComment = (q.2 == .comment) := by
    rw [Bool.eq_iff_iff, beq_iff_eq, ← hread.comment_iff]
    exact beq_iff_eq
  refine ⟨?_, ?_, ?_⟩
  · rw [hstate, hinside]
    rfl
  · rw [htokens, hfront.tokens_eq, List.append_assoc]
    rfl
  · rw [hread.took.unit_eq]
    exact hfront.unit_pos

/-- Guarded lines follow the plain ones, from any line on. -/
theorem scanLines_follow (hunit : ∀ u ∈ m.unit, 0 < u) (settings : Settings)
    (lines : List (List Char)) :
    Follows id (fun p m' => m'.state = p.1 ∧ m'.tokens = m.tokens ++ p.2)
      (scanLines settings m.state lines) (lines.foldlM (Machine.scanLine settings) m) := by
  induction lines generalizing m with
  | nil => exact .ok ⟨rfl, (List.append_nil _).symm⟩
  | cons line lines ih =>
    have hlines : scanLines settings m.state (line :: lines) =
        scanLine settings m.state line >>= fun p =>
          (scanLines settings p.1 lines).map fun q => (q.1, p.2 ++ q.2) := by
      rw [scanLines]
      cases scanLine settings m.state line with
      | error e => rfl
      | ok p =>
        simp only [ok_bind]
        cases scanLines settings p.1 lines <;> rfl
    rw [hlines, List.foldlM_cons]
    refine (scanLine_follows hunit settings line).bind ?_
    rintro p m₁ ⟨hstate, htokens, hunit₁⟩
    rw [← hstate]
    refine (ih hunit₁).map ?_
    rintro q m' ⟨hstate', htokens'⟩
    refine ⟨hstate', ?_⟩
    rw [htokens', htokens, List.append_assoc]

/-! ### Programs -/

/-- The tokens that end a program are added without a slip. -/
theorem finish_follows (m : Machine) :
    Follows id (fun closing tokens => tokens = m.tokens ++ closing) m.state.close m.finish := by
  unfold State.close Machine.finish
  by_cases hcomment : m.comment = .block
  · have hinside : m.state.inComment = true := by
      rw [← beq_iff_eq] at hcomment
      exact hcomment
    rw [if_pos hinside, if_pos hcomment]
    exact .error _
  · have hinside : ¬ m.state.inComment = true := by
      rw [← beq_iff_eq] at hcomment
      exact hcomment
    rw [if_neg hinside, if_neg hcomment]
    have hrow := added_pushRow m (rfl : isNeutral .dedent = true) m.depth (max m.row.number 1)
      (m.row.chars.length + 1)
    have hclosed := hrow.trans (added_pushAt _ (rfl : isNeutral .eof = true) (max m.row.number 1)
      (m.row.chars.length + 1))
    exact .ok hclosed.tokens_eq

/-- In front of a program no unit is zero, whatever width is forced. -/
theorem start_unit_pos (settings : Settings) : ∀ u ∈ (Machine.start settings).unit, 0 < u := by
  intro u hu
  have hfilter : settings.indentWidth.filter (0 < ·) = some u := hu
  simpa using (Option.filter_eq_some_iff.1 hfilter).2

/-- The guarded scan of a program follows the plain one. -/
theorem scan_follows (settings : Settings) (lines : List (List Char)) :
    Follows id (fun tokens tokens' => tokens' = tokens) (Scan.scan settings lines)
      (Guarded.scan settings lines) := by
  have hscan : Scan.scan settings lines =
      scanLines settings (Machine.start settings).state lines >>= fun p =>
        p.1.close.map fun closing => p.2 ++ closing := by
    have hstart : State.start settings = (Machine.start settings).state := rfl
    unfold Scan.scan
    rw [hstart]
    cases scanLines settings (Machine.start settings).state lines with
    | error e => rfl
    | ok p =>
      simp only [ok_bind]
      cases p.1.close <;> rfl
  rw [hscan]
  refine (scanLines_follow (start_unit_pos settings) settings lines).bind ?_
  rintro ⟨s, tokens⟩ m ⟨rfl, htokens⟩
  refine (finish_follows m).map ?_
  intro closing tokens' hclosing
  rw [hclosing, htokens]
  rfl

/-- A guarded scan never slips. Whatever the settings are, a forced width of zero included, and
whatever the lines hold: the cursor never leaves its line, no piece is cut out whose ends do not
stand in order within the line, no number is taken from a smaller one or divided by zero, and every
round of every loop that does not end it moves the cursor on. So the scan ends with the tokens of
the program or with its first error, which are those of the plain scan. -/
theorem scan_never_slips (settings : Settings) (lines : List (List Char)) :
    Guarded.scan settings lines = (Scan.scan settings lines).mapError Halt.error ∧
      ∀ slip, Guarded.scan settings lines ≠ .error (.slip slip) := by
  have h := scan_follows settings lines
  generalize Scan.scan settings lines = x at h
  generalize Guarded.scan settings lines = y at h
  cases h with
  | error e => exact ⟨rfl, fun slip h => nomatch h⟩
  | ok htokens =>
    rw [htokens]
    exact ⟨rfl, fun slip h => nomatch h⟩

end Offside.Scan.Guarded
