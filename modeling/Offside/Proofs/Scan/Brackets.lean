import Offside.Proofs.Scan.Run

/-!
# `Offside.Proofs.Scan.Brackets`: layout brackets the tokens

`INDENT` and `DEDENT` bracket a program the way parentheses would. `Climbs` says that a row of
tokens leads from one depth to another without ever falling below zero; it is composed by
`Climbs.append`, every line climbs from the depth before it to the depth behind it
(`scanLine_climbs`), and the closing tokens climb down to zero.

Where a step of indentation may stand is said by `FollowsBreak`, directly behind a `NEWLINE`
of the line before it and among its like, and by `ClosesProgram`, among the steps in the place
of `EOF` at the end. `layout_brackets` is the result for whole programs.
-/

set_option autoImplicit false

namespace Offside.Scan

/-! ### Depth -/

/-- The number of steps to the right among tokens. -/
def indents (tokens : List Token) : Nat := tokens.countP (fun t => t.kind == .indent)

/-- The number of steps to the left among tokens. -/
def dedents (tokens : List Token) : Nat := tokens.countP (fun t => t.kind == .dedent)

/-- A row of tokens that leads from one depth to another, and to none below zero on the
way. -/
structure Climbs (before : Nat) (tokens : List Token) (after : Nat) : Prop where
  /-- No beginning of the row falls below zero. -/
  nonneg : ∀ front, front <+: tokens → dedents front ≤ before + indents front
  /-- The whole row leads to the depth behind it. -/
  balance : before + indents tokens = after + dedents tokens

@[simp] theorem indents_append (xs ys : List Token) :
    indents (xs ++ ys) = indents xs + indents ys := List.countP_append

@[simp] theorem dedents_append (xs ys : List Token) :
    dedents (xs ++ ys) = dedents xs + dedents ys := List.countP_append

theorem Climbs.append {a b c : Nat} {xs ys : List Token} (hxs : Climbs a xs b)
    (hys : Climbs b ys c) : Climbs a (xs ++ ys) c where
  nonneg front hfront := by
    rcases List.prefix_or_prefix_of_prefix hfront (List.prefix_append xs ys) with h | h
    · exact hxs.nonneg front h
    · obtain ⟨more, rfl⟩ := h
      have := hxs.balance
      have := hys.nonneg more ((List.prefix_append_right_inj xs).1 hfront)
      simp only [indents_append, dedents_append]
      omega
  balance := by
    have := hxs.balance
    have := hys.balance
    simp only [indents_append, dedents_append]
    omega

theorem climbs_of_no_step {depth : Nat} {tokens : List Token}
    (h : ∀ t ∈ tokens, t.kind ≠ .indent ∧ t.kind ≠ .dedent) : Climbs depth tokens depth := by
  have hin : ∀ front, front <+: tokens → indents front = 0 ∧ dedents front = 0 := by
    intro front hfront
    constructor
    · exact List.countP_eq_zero.2 fun t ht => by simpa using (h t (hfront.subset ht)).1
    · exact List.countP_eq_zero.2 fun t ht => by simpa using (h t (hfront.subset ht)).2
  constructor
  · intro front hfront
    have := hin front hfront
    omega
  · have := hin tokens (List.prefix_refl tokens)
    omega

theorem climbs_up (depth count number column : Nat) :
    Climbs depth (List.replicate count ⟨.indent, none, number, column⟩) (depth + count) := by
  constructor
  · intro front hfront
    rw [(List.prefix_replicate_iff.1 hfront).2, dedents, List.countP_replicate]
    exact Nat.zero_le _
  · simp [indents, dedents, List.countP_replicate]

theorem climbs_down (depth count number column : Nat) :
    Climbs (depth + count) (List.replicate count ⟨.dedent, none, number, column⟩) depth := by
  constructor
  · intro front hfront
    obtain ⟨hlen, heq⟩ := List.prefix_replicate_iff.1 hfront
    rw [heq]
    simp only [dedents, indents, List.countP_replicate, beq_self_eq_true, if_true]
    omega
  · simp [indents, dedents, List.countP_replicate]

theorem depthTokens_climbs (number before after : Nat) :
    Climbs before (depthTokens number before after) after := by
  unfold depthTokens
  split
  · have h := climbs_up before (after - before) number 1
    rwa [show before + (after - before) = after by omega] at h
  · have h := climbs_down after (before - after) number 1
    rwa [show after + (before - after) = before by omega] at h

theorem Boundary.climbs {settings : Settings} {s s' : State} {line : List Char}
    {layout : List Token} (h : Boundary settings s line s' layout) :
    Climbs s.depth layout s'.depth := by
  cases h with
  | joined _ => exact climbs_of_no_step (by simp)
  | blank _ _ _ =>
    rw [State.see_eq]
    exact climbs_of_no_step (by simp [State.newline])
  | measured _ _ _ _ =>
    have hbreak : Climbs s.depth [s.newline] s.depth :=
      climbs_of_no_step (by simp [State.newline])
    exact hbreak.append (depthTokens_climbs _ _ _)

theorem scanLine_climbs {settings : Settings} {s s' : State} {line : List Char}
    {tokens : List Token} (h : scanLine settings s line = .ok (s', tokens)) :
    Climbs s.depth tokens s'.depth := by
  obtain ⟨s₁, layout, found, mode, hboundary, hreads, rfl, rfl⟩ := scanLine_eq_ok h
  rw [State.seeAll_eq]
  refine hboundary.climbs.append (climbs_of_no_step fun t ht => ?_)
  -- What a line is read as has no steps.
  obtain ⟨-, hindent, hdedent, -⟩ := isText_ne (hreads.of_mem_shown ht).1
  exact ⟨hindent, hdedent⟩

/-- A run leads from no depth to the depth of its state. -/
theorem run_climbs {settings : Settings} {lines : List (List Char)} {s : State}
    {tokens : List Token}
    (h : scanLines settings (State.start settings) lines = .ok (s, tokens)) :
    Climbs 0 tokens s.depth := by
  refine scanLines_induction (motive := fun _ s tokens => Climbs 0 tokens s.depth)
    (climbs_of_no_step (by simp)) ?_ h
  intro lines s tokens line s' more _ ih hline
  exact ih.append (scanLine_climbs hline)

/-! ### Places -/

/-- A step stands directly behind a `NEWLINE` of the line before it, with nothing but its
like between them, in the first column of its line. -/
def FollowsBreak (before : List Token) (t : Token) : Prop :=
  ∃ front newline group, before = front ++ newline :: group ∧ (∀ u ∈ group, u = t) ∧
    newline.kind = .newline ∧ newline.line + 1 = t.line ∧ t.column = 1

/-- A step to the left stands at the place of `EOF`, with nothing but its like between
them. -/
def ClosesProgram (t : Token) (after : List Token) : Prop :=
  t.kind = .dedent ∧ ∃ group eof, after = group ++ [eof] ∧ (∀ u ∈ group, u = t) ∧
    eof.kind = .eof ∧ t.line = eof.line ∧ t.column = eof.column

theorem FollowsBreak.append {before : List Token} {t : Token} (h : FollowsBreak before t)
    (xs : List Token) : FollowsBreak (xs ++ before) t := by
  obtain ⟨front, newline, group, rfl, hrest⟩ := h
  exact ⟨xs ++ front, newline, group, by simp, hrest⟩

theorem replicate_eq_append_cons {n : Nat} {u t : Token} {before after : List Token}
    (h : List.replicate n u = before ++ t :: after) :
    t = u ∧ (∀ v ∈ before, v = t) ∧ ∀ v ∈ after, v = t := by
  have hmem : ∀ v ∈ before ++ t :: after, v = u := by
    rw [← h]
    exact fun v hv => List.eq_of_mem_replicate hv
  have ht : t = u := hmem t (by simp)
  subst ht
  exact ⟨rfl, fun v hv => hmem v (by simp [hv]), fun v hv => hmem v (by simp [hv])⟩

theorem scanLine_followsBreak {settings : Settings} {s s' : State} {line : List Char}
    {tokens before after : List Token} {t : Token}
    (h : scanLine settings s line = .ok (s', tokens)) (hsplit : tokens = before ++ t :: after)
    (ht : t.kind = .indent ∨ t.kind = .dedent) : FollowsBreak before t := by
  obtain ⟨s₁, layout, found, mode, hboundary, hreads, -, rfl⟩ := scanLine_eq_ok h
  rcases append_eq_append_cons hsplit with ⟨middle, hlayout, -⟩ | ⟨middle, -, hcontent⟩
  · rcases hboundary.layout_cases with ⟨-, rfl⟩ | ⟨-, -, n, kind, -, rfl⟩
    · simp at hlayout
    -- The first token is the break, and all others are equal steps.
    · cases before with
      | nil =>
        obtain ⟨rfl, -⟩ := List.cons.inj hlayout
        rcases ht with ht | ht <;> cases ht
      | cons u before =>
        obtain ⟨rfl, hsteps⟩ := List.cons.inj hlayout
        obtain ⟨rfl, hbefore, -⟩ := replicate_eq_append_cons hsteps
        exact ⟨[], s.newline, before, rfl, hbefore, rfl, rfl, rfl⟩
  -- Text has no steps.
  · obtain ⟨-, hindent, hdedent, -⟩ :=
      isText_ne (hreads.of_mem_shown (t := t) (by rw [hcontent]; simp)).1
    rcases ht with ht | ht
    · exact absurd ht hindent
    · exact absurd ht hdedent

/-- The steps of a run follow breaks. -/
theorem run_followsBreak {settings : Settings} {lines : List (List Char)} {s : State}
    {tokens before after : List Token} {t : Token}
    (h : scanLines settings (State.start settings) lines = .ok (s, tokens))
    (hsplit : tokens = before ++ t :: after) (ht : t.kind = .indent ∨ t.kind = .dedent) :
    FollowsBreak before t := by
  refine scanLines_induction (motive := fun _ _ tokens => ∀ before after,
    tokens = before ++ t :: after → FollowsBreak before t) ?_ ?_ h before after hsplit
  · intro before after hnil
    simp at hnil
  · intro lines s tokens line s' more _ ih hline before after hsplit
    rcases append_eq_append_cons hsplit with ⟨middle, hfront, -⟩ | ⟨middle, rfl, hmore⟩
    · exact ih before middle hfront
    · exact (scanLine_followsBreak hline hmore ht).append tokens

theorem run_ne_eof {settings : Settings} {lines : List (List Char)} {s : State}
    {tokens : List Token}
    (h : scanLines settings (State.start settings) lines = .ok (s, tokens)) :
    ∀ t ∈ tokens, t.kind ≠ .eof := by
  refine scanLines_induction (motive := fun _ _ tokens => ∀ t ∈ tokens, t.kind ≠ .eof)
    (by simp) ?_ h
  intro lines s tokens line s' more _ ih hline t ht
  rcases List.mem_append.1 ht with ht | ht
  · exact ih t ht
  obtain ⟨s₁, layout, found, mode, hboundary, hreads, -, rfl⟩ := scanLine_eq_ok hline
  rcases List.mem_append.1 ht with ht | ht
  · intro heof
    have hlayout := hboundary.isLayout_of_mem ht
    rw [heof] at hlayout
    cases hlayout
  · exact (isText_ne (hreads.of_mem_shown ht).1).2.2.2

theorem closing_climbs (depth line column : Nat) : Climbs depth (closing depth line column) 0 := by
  have hdown := climbs_down 0 depth line column
  rw [Nat.zero_add] at hdown
  exact hdown.append (climbs_of_no_step (by simp))

theorem closing_closesProgram {depth line column : Nat} {before after : List Token} {t : Token}
    (hsplit : closing depth line column = before ++ t :: after)
    (ht : t.kind = .indent ∨ t.kind = .dedent) : ClosesProgram t after := by
  rcases append_eq_append_cons hsplit with ⟨group, hsteps, rfl⟩ | ⟨middle, -, heof⟩
  · obtain ⟨rfl, -, hgroup⟩ := replicate_eq_append_cons hsteps
    exact ⟨rfl, group, _, rfl, hgroup, rfl, rfl, rfl⟩
  · have hmem : t ∈ [(⟨.eof, none, line, column⟩ : Token)] := by
      rw [heof]
      simp
    rw [List.mem_singleton.1 hmem] at ht
    rcases ht with ht | ht <;> cases ht

/-- The layout of a program brackets it. There is one `EOF`, at the end; steps to the left
never outnumber steps to the right in a beginning of the program, and equal them in the whole;
and every step either follows the break before its line or closes the program. -/
theorem layout_brackets {settings : Settings} {lines : List (List Char)} {tokens : List Token}
    (h : scan settings lines = .ok tokens) :
    (∃ front eof, tokens = front ++ [eof] ∧ eof.kind = .eof ∧ ∀ t ∈ front, t.kind ≠ .eof) ∧
    (∀ front, front <+: tokens → dedents front ≤ indents front) ∧
    dedents tokens = indents tokens ∧
    ∀ before t after, tokens = before ++ t :: after → t.kind = .indent ∨ t.kind = .dedent →
      FollowsBreak before t ∨ ClosesProgram t after := by
  obtain ⟨s, front, hrun, -, rfl⟩ := scan_eq_ok h
  have hclimbs := (run_climbs hrun).append
    (closing_climbs s.depth (max s.lines 1) (s.width + 1))
  refine ⟨⟨front ++ List.replicate s.depth _, _, (List.append_assoc _ _ _).symm, rfl, ?_⟩,
    ?_, ?_, ?_⟩
  -- Neither a line nor a step to the left is the end.
  · intro t ht
    rcases List.mem_append.1 ht with ht | ht
    · exact run_ne_eof hrun t ht
    · rw [List.eq_of_mem_replicate ht]
      simp
  -- The whole program climbs from no depth to no depth.
  · intro p hp
    have := hclimbs.nonneg p hp
    omega
  · have := hclimbs.balance
    omega
  -- A step stands among the lines or among the tokens that close the program.
  · intro before t after hsplit ht
    rcases append_eq_append_cons hsplit with ⟨middle, hfront, -⟩ | ⟨middle, -, hclose⟩
    · exact .inl (run_followsBreak hrun hfront ht)
    · exact .inr (closing_closesProgram hclose ht)

/-- A program that falls back by two steps at once and ends inside a block: three steps to the
right and three to the left, the last of which closes the program. -/
theorem layout_brackets_blocks :
    ∃ front, scan {} ["a".toList, "  b".toList, "    c".toList, "d".toList, "\te".toList] =
        .ok (front ++ ⟨.dedent, none, 5, 3⟩ :: [⟨.eof, none, 5, 3⟩]) ∧
      indents front = 3 ∧ dedents front = 2 ∧
      (∀ p, p <+: front ++ ⟨.dedent, none, 5, 3⟩ :: [⟨.eof, none, 5, 3⟩] →
        dedents p ≤ indents p) ∧
      (FollowsBreak front ⟨.dedent, none, 5, 3⟩ ∨
        ClosesProgram ⟨.dedent, none, 5, 3⟩ [⟨.eof, none, 5, 3⟩]) := by
  have hscan : scan {} ["a".toList, "  b".toList, "    c".toList, "d".toList, "\te".toList] =
      .ok ([⟨.identifier, some (.string "a"), 1, 1⟩, ⟨.newline, none, 1, 2⟩,
        ⟨.indent, none, 2, 1⟩, ⟨.identifier, some (.string "b"), 2, 3⟩,
        ⟨.newline, none, 2, 4⟩, ⟨.indent, none, 3, 1⟩,
        ⟨.identifier, some (.string "c"), 3, 5⟩, ⟨.newline, none, 3, 6⟩,
        ⟨.dedent, none, 4, 1⟩, ⟨.dedent, none, 4, 1⟩,
        ⟨.identifier, some (.string "d"), 4, 1⟩, ⟨.newline, none, 4, 2⟩,
        ⟨.indent, none, 5, 1⟩, ⟨.identifier, some (.string "e"), 5, 2⟩] ++
        ⟨.dedent, none, 5, 3⟩ :: [⟨.eof, none, 5, 3⟩]) := by cbv
  obtain ⟨-, hprefix, -, hplace⟩ := layout_brackets hscan
  exact ⟨_, hscan, by decide, by decide, hprefix, hplace _ _ _ rfl (.inr rfl)⟩

end Offside.Scan
