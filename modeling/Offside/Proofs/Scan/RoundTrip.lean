import Offside.Proofs.Scan.Writing

/-!
# `Offside.Proofs.Scan.RoundTrip`: a program that is written down is read back

A program is written as statements (`Statement`), one on a line: a depth, a margin that stands
for that depth, and atoms with a blank between any two of them. Under a forced width of
indentation, `scan` reads it back (`scan_text`): the lexemes of the statements, a `NEWLINE`
between any two of them with a step for each change of depth by one, and at the end the steps
that close what is open.

`Ready` is the state between two statements. `scanLine_text` says what one statement adds to
it, and `scanLines_text` follows by induction on the statements.
-/

set_option autoImplicit false

namespace Offside.Scan

open Offside.Text

/-! ### Programs -/

/-- A statement on a line of its own. -/
structure Statement where
  depth : Nat
  margin : List Char
  atoms : List Atom

namespace Statement

/-- The line of a statement. -/
def text (st : Statement) : List Char := st.margin ++ code st.atoms

/-- The lexemes of a statement. -/
def lexemes (isKeyword : String → Bool) (st : Statement) : List Lexeme :=
  st.atoms.map (Atom.lexeme isKeyword)

/-- The kinds of a statement. -/
def kinds (isKeyword : String → Bool) (st : Statement) : List Kind :=
  (st.lexemes isKeyword).map Lexeme.kind

/-- A statement that stands on its line as it should. -/
structure IsWritten (settings : Settings) (unit : Nat) (st : Statement) : Prop where
  /-- The margin is made of spaces and tabs. -/
  margin : ∀ c ∈ st.margin, isMargin c = true
  /-- The spaces make up whole steps. -/
  whole : unit ∣ st.margin.count ' '
  /-- Together with the tabs they make up the depth. -/
  measured : st.margin.count '\t' + st.margin.count ' ' / unit = st.depth
  /-- The line is not empty. -/
  nonempty : st.atoms ≠ []
  /-- The statement does not run on behind its last lexeme. -/
  ends : ∀ kind ∈ (st.kinds settings.isKeyword).getLast?, settings.continues kind = false
  /-- It leaves no parenthesis open. -/
  closed : (st.kinds settings.isKeyword).foldl parenStep 0 = 0

end Statement

/-- A token without its place. -/
def lexemeOf (t : Token) : Lexeme := ⟨t.kind, t.literal⟩

/-- The steps from one depth to another. -/
def steps (before after : Nat) : List Lexeme :=
  List.replicate (after - before) ⟨.indent, none⟩ ++
    List.replicate (before - after) ⟨.dedent, none⟩

/-- What is read behind a statement of the given depth: each further statement, with a break
and the steps to its depth before it, and the end of the program. -/
def following (isKeyword : String → Bool) (depth : Nat) : List Statement → List Lexeme
  | [] => List.replicate depth ⟨.dedent, none⟩ ++ [⟨.eof, none⟩]
  | st :: rest =>
    ⟨.newline, none⟩ ::
      (steps depth st.depth ++ (st.lexemes isKeyword ++ following isKeyword st.depth rest))

/-- The state behind a statement of the given depth: the next line is one of its own. -/
structure Ready (settings : Settings) (unit depth : Nat) (s : State) : Prop where
  lines : s.lines ≠ 0
  outside : s.inComment = false
  parens : s.parens = 0
  ended : s.last.any settings.continues = false
  unit : s.unit = some unit
  depth : s.depth = depth

/-! ### One statement -/

namespace Statement

variable {settings : Settings} {unit : Nat} {st : Statement}

theorem IsWritten.not_allBlank (h : st.IsWritten settings unit) : allBlank st.text = false := by
  obtain ⟨c, rest, hcode, hblank⟩ := head_code h.nonempty
  rw [allBlank, text, List.all_append, hcode, List.all_cons, hblank, Bool.false_and,
    Bool.and_false]

/-- A statement is measured at its depth. -/
theorem IsWritten.measure_eq_ok (h : st.IsWritten settings unit) :
    measure (some unit) st.text = .ok (st.depth, some unit) := by
  obtain ⟨c, rest, hcode, hblank⟩ := head_code h.nonempty
  have hstop : StopsAt isMargin (code st.atoms) := by
    rw [hcode, stopsAt_cons]
    by_contra hmargin
    rw [isBlank_of_isMargin (by simpa using hmargin)] at hblank
    cases hblank
  have hbehind : (code st.atoms).head?.any isBlank = false := by
    rw [hcode]
    exact hblank
  have hdepth := h.measured
  unfold measure
  simp only [text, takeWhile_append_of_stopsAt h.margin hstop,
    dropWhile_append_of_stopsAt h.margin hstop, hbehind, Bool.false_eq_true, if_false,
    Option.getD_some, Nat.mod_eq_zero_of_dvd h.whole, if_true]
  split
  · rename_i hspaces
    rw [hspaces, Nat.zero_div, Nat.add_zero] at hdepth
    rw [hdepth]
  · rw [hdepth]

/-- A statement is read as its lexemes. -/
theorem IsWritten.lineReads (h : st.IsWritten settings unit) :
    ∃ found, LineReads settings.isKeyword [] .code st.text found .code ∧
      found.map Placed.lexeme = st.lexemes settings.isKeyword :=
  lineReads_margin_code settings.isKeyword st.atoms (by simp) h.margin

theorem isComment_kind {isKeyword : String → Bool} {kind : Kind}
    (h : kind ∈ st.kinds isKeyword) : kind.isComment = false := by
  obtain ⟨l, hl, rfl⟩ := List.mem_map.1 h
  obtain ⟨a, -, rfl⟩ := List.mem_map.1 hl
  have hspells : Spells isKeyword [] a.spelling [] (a.lexeme isKeyword) :=
    a.spells _ (by simp) (by simp)
  exact isComment_of_isContent hspells.isContent_kind

end Statement

theorem lexemeOf_lineTokens (number : Nat) (line : List Char) (found : List Placed) :
    (lineTokens number line found).map lexemeOf = found.map Placed.lexeme := by
  rw [lineTokens, List.map_map]
  rfl

/-- Where there is no mark of a comment, all tokens are shown and the last one is the last
that counts. -/
theorem shown_of_no_comment {tokens : List Token} (settings : Settings)
    (h : ∀ kind ∈ tokens.map Token.kind, kind.isComment = false) :
    shown settings tokens = tokens ∧ lastKind tokens = (tokens.map Token.kind).getLast? := by
  have hkind : ∀ t ∈ tokens, t.kind.isComment = false :=
    fun t ht => h t.kind (List.mem_map_of_mem ht)
  constructor
  · exact List.filter_eq_self.2 fun t ht => by rw [hkind t ht]; exact Bool.or_true _
  · rw [lastKind, List.filter_eq_self.2 fun t ht => by rw [hkind t ht]; rfl, List.getLast?_map]

/-- A statement behind a boundary that opens no parenthesis and ends at its depth. -/
theorem scanLine_of_boundary {settings : Settings} {unit : Nat} {st : Statement}
    {s s₁ : State} {layout : List Token} (h : st.IsWritten settings unit)
    (hboundary : Boundary settings s st.text s₁ layout) (houtside : s.inComment = false)
    (hparens : s₁.parens = 0) (hunit : s₁.unit = some unit) (hdepth : s₁.depth = st.depth) :
    ∃ s' tokens, scanLine settings s st.text = .ok (s', layout ++ tokens) ∧
      Ready settings unit st.depth s' ∧
      tokens.map lexemeOf = st.lexemes settings.isKeyword := by
  obtain ⟨found, hreads, hfound⟩ := h.lineReads
  have hlexemes : (lineTokens (s.lines + 1) st.text found).map lexemeOf =
      st.lexemes settings.isKeyword := by rw [lexemeOf_lineTokens, hfound]
  have hkinds : (lineTokens (s.lines + 1) st.text found).map Token.kind =
      st.kinds settings.isKeyword := by
    rw [Statement.kinds, ← hlexemes, List.map_map]
    rfl
  have hcomment : ∀ kind ∈ (lineTokens (s.lines + 1) st.text found).map Token.kind,
      kind.isComment = false := by
    rw [hkinds]
    exact fun kind hkind => Statement.isComment_kind hkind
  obtain ⟨hshown, hlast⟩ := shown_of_no_comment settings hcomment
  rw [hkinds] at hlast
  have hmode : LineReads settings.isKeyword [] (if s.inComment then .comment else .code) st.text
      found .code := by
    rw [houtside]
    exact hreads
  have hline := scanLine_of_reads hboundary hmode
  rw [hshown] at hline
  refine ⟨_, _, hline, ?_, hlexemes⟩
  -- The lexemes of the statement are all that the state behind the boundary still sees.
  have hstate := s₁.seeAll_eq (lineTokens (s.lines + 1) st.text found)
  refine
    { lines := Nat.succ_ne_zero _
      outside := rfl
      parens := ?_
      ended := ?_
      unit := ?_
      depth := ?_ }
  · show (s₁.seeAll _).parens = 0
    rw [State.seeAll_parens, hkinds, hparens, h.closed]
  · show (s₁.seeAll _).last.any _ = false
    rw [State.seeAll_last, hlast]
    have hne : st.kinds settings.isKeyword ≠ [] := by
      simpa [Statement.kinds, Statement.lexemes] using h.nonempty
    have hkind := List.getLast?_eq_some_getLast hne
    rw [hkind]
    exact h.ends _ hkind
  · show (s₁.seeAll _).unit = _
    rw [hstate, hunit]
  · show (s₁.seeAll _).depth = _
    rw [hstate, hdepth]

/-! ### Programs -/

theorem foldl_parenStep_of_isLayout {kinds : List Kind} (n : Nat)
    (h : ∀ kind ∈ kinds, kind.isLayout = true) : kinds.foldl parenStep n = n := by
  induction kinds with
  | nil => rfl
  | cons kind kinds ih =>
    have hstep : parenStep n kind = n := by
      have hkind := h kind (by simp)
      cases kind <;> first | rfl | cases hkind
    rw [List.foldl_cons, hstep]
    exact ih fun k hk => h k (by simp [hk])

/-- Layout opens and closes no parenthesis. -/
theorem Boundary.parens_eq {settings : Settings} {s s' : State} {line : List Char}
    {layout : List Token} (h : Boundary settings s line s' layout) : s'.parens = s.parens := by
  have hlayout : ∀ kind ∈ layout.map Token.kind, kind.isLayout = true := by
    intro kind hkind
    obtain ⟨t, ht, rfl⟩ := List.mem_map.1 hkind
    exact h.isLayout_of_mem ht
  rw [h.state_eq, State.seeAll_parens, foldl_parenStep_of_isLayout _ hlayout]

theorem lexemeOf_depthTokens (number before after : Nat) :
    (depthTokens number before after).map lexemeOf = steps before after := by
  unfold depthTokens steps
  split
  · rename_i hlt
    rw [Nat.sub_eq_zero_of_le (Nat.le_of_lt hlt), List.map_replicate, List.replicate_zero,
      List.append_nil]
    rfl
  · rename_i hge
    rw [Nat.sub_eq_zero_of_le (Nat.le_of_not_lt hge), List.map_replicate, List.replicate_zero,
      List.nil_append]
    rfl

/-- A statement behind another one. -/
theorem scanLine_text {settings : Settings} {unit depth : Nat} {st : Statement} {s : State}
    (hready : Ready settings unit depth s) (h : st.IsWritten settings unit) :
    ∃ s' tokens, scanLine settings s st.text = .ok (s', tokens) ∧
      Ready settings unit st.depth s' ∧
      tokens.map lexemeOf =
        ⟨.newline, none⟩ :: (steps depth st.depth ++ st.lexemes settings.isKeyword) := by
  have hjoins : s.joinsNext settings = false := by
    simp [State.joinsNext, hready.outside, hready.parens, hready.ended]
  have hmeasure : measure s.unit st.text = .ok (st.depth, some unit) := by
    rw [hready.unit]
    exact h.measure_eq_ok
  -- The line before has ended its statement, and this one is not blank.
  have hboundary := Boundary.measured hready.lines hjoins h.not_allBlank hmeasure
  have hparens := hboundary.parens_eq.trans hready.parens
  obtain ⟨s', tokens, hline, hready', htokens⟩ :=
    scanLine_of_boundary h hboundary hready.outside hparens rfl rfl
  refine ⟨s', _, hline, hready', ?_⟩
  rw [List.map_append, List.map_cons, lexemeOf_depthTokens, htokens, hready.depth]
  rfl

/-- The first statement of a program. -/
theorem scanLine_text_first {settings : Settings} {unit : Nat} {st : Statement}
    (hunit : settings.indentWidth = some unit) (hpos : 0 < unit) (hdepth : st.depth = 0)
    (h : st.IsWritten settings unit) :
    ∃ s' tokens, scanLine settings (State.start settings) st.text = .ok (s', tokens) ∧
      Ready settings unit 0 s' ∧ tokens.map lexemeOf = st.lexemes settings.isKeyword := by
  -- The forced width is known from the start, and the first line has no break before it.
  have hstart : (State.start settings).unit = some unit := by
    simp [State.start, hunit, hpos]
  have hboundary : Boundary settings (State.start settings) st.text (State.start settings) [] :=
    .joined (.inl rfl)
  have hline := scanLine_of_boundary h hboundary rfl rfl hstart hdepth.symm
  rwa [hdepth] at hline

theorem scanLines_text {settings : Settings} {unit depth : Nat} {statements : List Statement}
    {s : State} (hready : Ready settings unit depth s)
    (h : ∀ st ∈ statements, st.IsWritten settings unit) :
    ∃ s' tokens last,
      scanLines settings s (statements.map Statement.text) = .ok (s', tokens) ∧
        Ready settings unit last s' ∧
        ∀ line column, (tokens ++ closing last line column).map lexemeOf =
          following settings.isKeyword depth statements := by
  induction statements generalizing s depth with
  | nil =>
    refine ⟨s, [], depth, rfl, hready, fun line column => ?_⟩
    rw [List.nil_append, closing, List.map_append, List.map_replicate]
    rfl
  | cons st statements ih =>
    obtain ⟨s₁, own, hline, hready₁, hown⟩ := scanLine_text hready (h st (by simp))
    obtain ⟨s', tokens, last, hlines, hready', htokens⟩ :=
      ih hready₁ fun st' hst' => h st' (by simp [hst'])
    refine ⟨s', own ++ tokens, last, ?_, hready', fun line column => ?_⟩
    · rw [List.map_cons, scanLines, hline]
      simp only [hlines]
    · rw [List.append_assoc, List.map_append, hown, htokens, following, List.cons_append,
        List.append_assoc]

/-- A program that is written down is read back. -/
theorem scan_text {settings : Settings} {unit : Nat} {first : Statement}
    {rest : List Statement} (hunit : settings.indentWidth = some unit) (hpos : 0 < unit)
    (hdepth : first.depth = 0) (h : ∀ st ∈ first :: rest, st.IsWritten settings unit) :
    ∃ tokens, scan settings ((first :: rest).map Statement.text) = .ok tokens ∧
      tokens.map lexemeOf =
        first.lexemes settings.isKeyword ++ following settings.isKeyword 0 rest := by
  obtain ⟨s₁, own, hline, hready₁, hown⟩ :=
    scanLine_text_first hunit hpos hdepth (h first (by simp))
  have hrest : ∀ st ∈ rest, st.IsWritten settings unit := fun st hst => h st (by simp [hst])
  obtain ⟨s', tokens, last, hlines, hready, htokens⟩ := scanLines_text hready₁ hrest
  have hrun : scanLines settings (State.start settings) ((first :: rest).map Statement.text) =
      .ok (s', own ++ tokens) := by
    rw [List.map_cons, scanLines, hline]
    simp only [hlines]
  refine ⟨_, scan_of_run hrun hready.outside, ?_⟩
  rw [List.append_assoc, hready.depth, List.map_append, hown, htokens]

/-- Two statements, the second two steps deeper behind a tab and two spaces, with a literal
that needs escapes. -/
theorem scan_text_block :
    ∃ tokens,
      scan { indentWidth := some 2 } ["if x".toList, "\t  y = \"\\\"\"".toList] = .ok tokens ∧
        tokens.map lexemeOf =
          [⟨.keyword, some (.string "if")⟩, ⟨.identifier, some (.string "x")⟩,
            ⟨.newline, none⟩, ⟨.indent, none⟩, ⟨.indent, none⟩,
            ⟨.identifier, some (.string "y")⟩, ⟨.assign, none⟩, ⟨.string, some (.string "\"")⟩,
            ⟨.dedent, none⟩, ⟨.dedent, none⟩, ⟨.eof, none⟩] := by
  have first : Statement.IsWritten { indentWidth := some 2 } 2
      ⟨0, [], [.name ⟨['i', 'f'], List.all_eq_true.1 (by decide), ⟨'i', by decide⟩, by decide⟩,
        .name ⟨['x'], List.all_eq_true.1 (by decide), ⟨'x', by decide⟩, by decide⟩]⟩ :=
    ⟨List.all_eq_true.1 (by decide), by decide, by decide, by simp, by decide, by decide⟩
  have second : Statement.IsWritten { indentWidth := some 2 } 2
      ⟨2, ['\t', ' ', ' '],
        [.name ⟨['y'], List.all_eq_true.1 (by decide), ⟨'y', by decide⟩, by decide⟩,
          .sign (.bare ['='] .assign) (by decide), .string "\""]⟩ :=
    ⟨List.all_eq_true.1 (by decide), by decide, by decide, by simp, by decide, by decide⟩
  have written := List.forall_mem_cons.2 ⟨first, List.forall_mem_singleton.2 second⟩
  exact scan_text rfl (by decide) rfl written

end Offside.Scan
