import Offside.Proofs.Scan.Run

/-!
# `Offside.Proofs.Scan.LineBreaks`: where statements end

A line break becomes a `NEWLINE` exactly when the text and the tokens before it end a
statement: no block comment is open, the parentheses among the tokens are closed, and the
last token that is no mark of a comment does not ask for more. `EndsStatement` says so
without the state of a run, and `joinsNext_eq_false_iff` that the state of a run decides it.

`newline_placement` is the result for whole programs: every boundary has its `NEWLINE` in the
place it belongs or has no tokens at all, and there is no other `NEWLINE`.
-/

set_option autoImplicit false

namespace Offside.Scan

/-- The tokens that lines add before another line is begun. -/
def emitted (settings : Settings) (lines : List (List Char)) : Except Error (List Token) :=
  (scanLines settings (State.start settings) lines).map Prod.snd

/-- Lines and the tokens they have added end a statement. -/
structure EndsStatement (settings : Settings) (lines : List (List Char))
    (tokens : List Token) : Prop where
  /-- The lines do not end inside a block comment. -/
  outside : ¬ LinesEnd settings.isKeyword lines .comment
  /-- No parenthesis is open. -/
  closed : openParens tokens = 0
  /-- The last token, marks of comments apart, lets no statement run on. -/
  complete : ∀ kind ∈ lastKind tokens, settings.continues kind = false

theorem emitted_eq_ok_iff {settings : Settings} {lines : List (List Char)}
    {tokens : List Token} :
    emitted settings lines = .ok tokens ↔
      ∃ s, scanLines settings (State.start settings) lines = .ok (s, tokens) := by
  unfold emitted
  cases scanLines settings (State.start settings) lines with
  | error e => simp [Except.map]
  | ok p => simp [Except.map, Prod.ext_iff]

theorem State.joinsNext_eq_false {settings : Settings} {s : State} :
    s.joinsNext settings = false ↔
      s.inComment = false ∧ s.parens = 0 ∧ ∀ kind ∈ s.last, settings.continues kind = false := by
  simp [State.joinsNext, and_assoc, Option.any_eq_false]

/-- The state of a run knows whether a statement ends. -/
theorem joinsNext_eq_false_iff {settings : Settings} {lines : List (List Char)} {s : State}
    {tokens : List Token}
    (h : scanLines settings (State.start settings) lines = .ok (s, tokens)) :
    s.joinsNext settings = false ↔ EndsStatement settings lines tokens := by
  have hcomment := run_inComment_iff h
  rw [State.joinsNext_eq_false, run_parens h, run_last h]
  constructor
  · rintro ⟨hout, hparens, hlast⟩
    refine ⟨fun hend => ?_, hparens, hlast⟩
    rw [hcomment.2 hend] at hout
    cases hout
  · rintro ⟨hout, hparens, hlast⟩
    exact ⟨Bool.eq_false_iff.2 fun hc => hout (hcomment.1 hc), hparens, hlast⟩

/-- The tokens that a line adds behind others: those of its boundary, then those of its
text. -/
theorem tokens_of_line {settings : Settings} {lines : List (List Char)} {line : List Char}
    {s s' : State} {before more : List Token}
    (hrun : scanLines settings (State.start settings) lines = .ok (s, before))
    (hline : scanLine settings s line = .ok (s', more)) :
    ∃ layout content, more = layout ++ content ∧ (∀ t ∈ content, isText t.kind = true) ∧
      ((lines = [] ∨ ¬ EndsStatement settings lines before) ∧ layout = [] ∨
        lines ≠ [] ∧ EndsStatement settings lines before ∧
          ∃ steps, (∀ t ∈ steps, t.kind = .indent ∨ t.kind = .dedent) ∧
            layout = ⟨.newline, none, lines.length, (lines.getLast?.getD []).length + 1⟩ ::
              steps) := by
  obtain ⟨s₁, layout, found, mode, hboundary, hreads, -, rfl⟩ := scanLine_eq_ok hline
  refine ⟨layout, _, rfl, fun t ht => (hreads.of_mem_shown ht).1, ?_⟩
  obtain ⟨hcount, hwidth⟩ := run_lines hrun
  have hends := joinsNext_eq_false_iff hrun
  rcases hboundary.layout_cases with ⟨hjoin, hlayout⟩ | ⟨hlines, hjoin, n, kind, hkind, hlayout⟩
  · refine .inl ⟨hjoin.imp (fun h => ?_) (fun h => ?_), hlayout⟩
    · exact List.eq_nil_of_length_eq_zero (hcount ▸ h)
    · rw [← hends, h]
      decide
  · refine .inr ⟨?_, hends.1 hjoin, List.replicate n ⟨kind, none, s.lines + 1, 1⟩, ?_, ?_⟩
    · rintro rfl
      exact hlines hcount
    · intro t ht
      rw [List.eq_of_mem_replicate ht]
      exact hkind
    · rw [hlayout, State.newline, hcount, hwidth]

/-- Among the tokens of a line only the first can be a `NEWLINE`. -/
theorem eq_nil_of_newline {steps content before after : List Token} {first t : Token}
    (hsteps : ∀ u ∈ steps, u.kind = .indent ∨ u.kind = .dedent)
    (hcontent : ∀ u ∈ content, isText u.kind = true) (ht : t.kind = .newline)
    (h : first :: steps ++ content = before ++ t :: after) : before = [] := by
  cases before with
  | nil => rfl
  | cons u before =>
    obtain ⟨-, hrest⟩ := List.cons.inj h
    have hmem : t ∈ steps ++ content := by
      rw [show steps ++ content = before ++ t :: after from hrest]
      simp
    rcases List.mem_append.1 hmem with hmem | hmem
    · rcases hsteps t hmem with hk | hk <;> (rw [ht] at hk; cases hk)
    · exact absurd ht (isText_ne (hcontent t hmem)).1

/-- Where a `NEWLINE` stands in a run, the tokens before it are those of whole lines that end
a statement. -/
theorem run_newline {settings : Settings} {lines : List (List Char)} {s : State}
    {tokens before after : List Token} {t : Token}
    (h : scanLines settings (State.start settings) lines = .ok (s, tokens))
    (hsplit : tokens = before ++ t :: after) (ht : t.kind = .newline) :
    ∃ k, 0 < k ∧ k < lines.length ∧ emitted settings (lines.take k) = .ok before ∧
      EndsStatement settings (lines.take k) before := by
  refine scanLines_induction (motive := fun lines _ tokens => ∀ before after,
    tokens = before ++ t :: after →
      ∃ k, 0 < k ∧ k < lines.length ∧ emitted settings (lines.take k) = .ok before ∧
        EndsStatement settings (lines.take k) before) ?_ ?_ h before after hsplit
  · intro before after hnil
    simp at hnil
  · intro lines s tokens line s' more hrun ih hline before after hsplit
    rcases append_eq_append_cons hsplit with ⟨middle, hfront, -⟩ | ⟨middle, rfl, hmore⟩
    -- It stood there before the line.
    · obtain ⟨k, hpos, hk, hemitted, hends⟩ := ih before middle hfront
      have htake : (lines ++ [line]).take k = lines.take k :=
        List.take_append_of_le_length (Nat.le_of_lt hk)
      have hlen : k < (lines ++ [line]).length := by
        rw [List.length_append]
        omega
      exact ⟨k, hpos, hlen, htake ▸ hemitted, htake ▸ hends⟩
    -- It is the line's own, and so the first of its tokens.
    · obtain ⟨layout, content, rfl, hcontent, hcases⟩ := tokens_of_line hrun hline
      rcases hcases with ⟨-, rfl⟩ | ⟨hne, hends, steps, hsteps, rfl⟩
      · have hmem : t ∈ content := by
          rw [List.nil_append] at hmore
          rw [hmore]
          simp
        exact absurd ht (isText_ne (hcontent t hmem)).1
      · have hmiddle := eq_nil_of_newline hsteps hcontent ht hmore
        subst hmiddle
        have hlen := List.length_pos_iff.2 hne
        rw [List.append_nil]
        refine ⟨lines.length, hlen, by simp, ?_, ?_⟩
        · rw [List.take_left]
          exact emitted_eq_ok_iff.2 ⟨s, hrun⟩
        · rw [List.take_left]
          exact hends

/-- The `NEWLINE`s of a program stand exactly where its statements end. Between line `k` and
the next one there is one, directly behind the tokens of the first `k` lines, if those end a
statement, and there are no tokens otherwise. There is no `NEWLINE` anywhere else. -/
theorem newline_placement {settings : Settings} {lines : List (List Char)}
    {tokens : List Token} (h : scan settings lines = .ok tokens) :
    (∀ k line, 0 < k → k < lines.length → lines[k - 1]? = some line →
      ∃ before layout content,
        emitted settings (lines.take k) = .ok before ∧
        emitted settings (lines.take (k + 1)) = .ok (before ++ layout ++ content) ∧
        before ++ layout ++ content <+: tokens ∧
        (∀ t ∈ content, isText t.kind = true) ∧
        (EndsStatement settings (lines.take k) before →
          ∃ steps, layout = ⟨.newline, none, k, line.length + 1⟩ :: steps ∧
            ∀ t ∈ steps, t.kind = .indent ∨ t.kind = .dedent) ∧
        (¬ EndsStatement settings (lines.take k) before → layout = [])) ∧
    (∀ before t after, tokens = before ++ t :: after → t.kind = .newline →
      ∃ k, 0 < k ∧ k < lines.length ∧ emitted settings (lines.take k) = .ok before ∧
        EndsStatement settings (lines.take k) before) := by
  obtain ⟨s, front, hrun, -, rfl⟩ := scan_eq_ok h
  constructor
  · intro k line hpos hk hline
    have hsplit : lines = lines.take k ++ [lines[k]] ++ lines.drop (k + 1) := by
      rw [← List.take_succ_eq_append_getElem hk, List.take_append_drop]
    rw [hsplit] at hrun
    -- The run stops once behind line `k` and once behind the next one.
    obtain ⟨s₂, front₂, back, hfront, -, rfl⟩ := scanLines_append_eq_ok hrun
    obtain ⟨s₁, before, more, hbefore, hnext, rfl⟩ := scanLines_concat_eq_ok hfront
    obtain ⟨layout, content, rfl, hcontent, hcases⟩ := tokens_of_line hbefore hnext
    refine ⟨before, layout, content, emitted_eq_ok_iff.2 ⟨s₁, hbefore⟩, ?_, ?_, hcontent, ?_⟩
    · rw [List.take_succ_eq_append_getElem hk, List.append_assoc]
      exact emitted_eq_ok_iff.2 ⟨s₂, hfront⟩
    · rw [List.append_assoc, List.append_assoc]
      exact List.prefix_append _ _
    have hne : lines.take k ≠ [] := by
      intro hnil
      have := congrArg List.length hnil
      rw [List.length_take, List.length_nil] at this
      omega
    have hlen : (lines.take k).length = k := by
      rw [List.length_take]
      omega
    have hlast : (lines.take k).getLast? = some line := by
      rw [List.getLast?_take, if_neg (by omega), hline]
      rfl
    rcases hcases with ⟨hnot, hlayout⟩ | ⟨-, hends, steps, hsteps, hlayout⟩
    · exact ⟨fun hends => absurd hends (hnot.resolve_left hne), fun _ => hlayout⟩
    · refine ⟨fun _ => ⟨steps, ?_, hsteps⟩, fun hnot => absurd hends hnot⟩
      rw [hlayout, hlen, hlast]
      rfl
  · intro before t after hsplit ht
    rcases append_eq_append_cons hsplit with ⟨middle, hfront, -⟩ | ⟨middle, -, hclose⟩
    · exact run_newline hrun hfront ht
    -- No `NEWLINE` closes a program.
    · have hmem : t ∈ closing s.depth (max s.lines 1) (s.width + 1) := by
        rw [hclose]
        simp
      have hk := (of_mem_closing hmem).1
      rw [ht] at hk
      rcases hk with hk | hk <;> cases hk

/-- The first three lines below are one statement: the first break is inside parentheses, the
second inside a comment. The only `NEWLINE` stands behind the third. -/
theorem newline_placement_joined_lines :
    scan {} ["f(a,".toList, "  b) /* x".toList, "*/".toList, "c".toList] = .ok
        ([⟨.identifier, some (.string "f"), 1, 1⟩, ⟨.lParen, none, 1, 2⟩,
            ⟨.identifier, some (.string "a"), 1, 3⟩, ⟨.comma, none, 1, 4⟩,
            ⟨.identifier, some (.string "b"), 2, 3⟩, ⟨.rParen, none, 2, 4⟩] ++
          ⟨.newline, none, 3, 3⟩ ::
            [⟨.identifier, some (.string "c"), 4, 1⟩, ⟨.eof, none, 4, 2⟩]) ∧
      ∃ k, 0 < k ∧ k < 4 ∧
        emitted {} (["f(a,".toList, "  b) /* x".toList, "*/".toList, "c".toList].take k) = .ok
          [⟨.identifier, some (.string "f"), 1, 1⟩, ⟨.lParen, none, 1, 2⟩,
            ⟨.identifier, some (.string "a"), 1, 3⟩, ⟨.comma, none, 1, 4⟩,
            ⟨.identifier, some (.string "b"), 2, 3⟩, ⟨.rParen, none, 2, 4⟩] ∧
        EndsStatement {} (["f(a,".toList, "  b) /* x".toList, "*/".toList, "c".toList].take k)
          [⟨.identifier, some (.string "f"), 1, 1⟩, ⟨.lParen, none, 1, 2⟩,
            ⟨.identifier, some (.string "a"), 1, 3⟩, ⟨.comma, none, 1, 4⟩,
            ⟨.identifier, some (.string "b"), 2, 3⟩, ⟨.rParen, none, 2, 4⟩] := by
  have hscan : scan {} ["f(a,".toList, "  b) /* x".toList, "*/".toList, "c".toList] = .ok
      ([⟨.identifier, some (.string "f"), 1, 1⟩, ⟨.lParen, none, 1, 2⟩,
          ⟨.identifier, some (.string "a"), 1, 3⟩, ⟨.comma, none, 1, 4⟩,
          ⟨.identifier, some (.string "b"), 2, 3⟩, ⟨.rParen, none, 2, 4⟩] ++
        ⟨.newline, none, 3, 3⟩ ::
          [⟨.identifier, some (.string "c"), 4, 1⟩, ⟨.eof, none, 4, 2⟩]) := by cbv
  exact ⟨hscan, (newline_placement hscan).2 _ _ _ rfl rfl⟩

end Offside.Scan
