import Offside.Proofs.Scan.Continuing
import Offside.Proofs.Scan.RoundTrip

/-!
# `Offside.Proofs.Scan.JoinedLines`: a line break inside a statement

A line break that ends no statement is as good as a space. The two programs have different lines,
so all places behind the break differ, but nothing else does. `Alike` says that two states
differ in places only, and `SameRun` the same of what two runs lead to. `scanLine_alike` is the
step, one more line behind states that are alike, and `scanLines_alike` the run.

The break itself is `GoesOn.joined`. The next line is not measured, so it is read in the mode that
the line before it has ended in, and that is how it is read behind a space on the same line.

`line_break_as_space` is the result for whole programs.
-/

set_option autoImplicit false

namespace Offside.Scan

open Offside.Text

/-! ### States that differ in places -/

/-- Two states that mean the same for the next line, places apart. It matters whether there was a
line before, but not how many there were or how long the last one was. -/
structure Alike (s t : State) : Prop where
  /-- Both are before the first line, or neither is. -/
  begun : s.lines = 0 ↔ t.lines = 0
  unit : s.unit = t.unit
  depth : s.depth = t.depth
  inComment : s.inComment = t.inComment
  parens : s.parens = t.parens
  last : s.last = t.last

/-- What two runs lead to is the same but for places: states that are alike and tokens that say the
same, or errors for the same cause. -/
inductive SameRun : Except Error (State × List Token) → Except Error (State × List Token) → Prop
  | done {s t : State} {xs ys : List Token} :
      Alike s t → xs.map lexemeOf = ys.map lexemeOf → SameRun (.ok (s, xs)) (.ok (t, ys))
  | failed {e e' : Error} : e.cause = e'.cause → SameRun (.error e) (.error e')

theorem Alike.refl (s : State) : Alike s s := ⟨.rfl, rfl, rfl, rfl, rfl, rfl⟩

theorem Alike.see {s t : State} (h : Alike s t) (kind : Kind) :
    Alike (s.see kind) (t.see kind) := by
  unfold State.see
  split
  · exact h
  · refine ⟨h.begun, h.unit, h.depth, h.inComment, ?_, rfl⟩
    simp only [h.parens]

/-- States that are alike stay so behind tokens that say the same. -/
theorem Alike.seeAll {s t : State} (h : Alike s t) {xs ys : List Token}
    (hsame : xs.map lexemeOf = ys.map lexemeOf) : Alike (s.seeAll xs) (t.seeAll ys) := by
  induction xs generalizing s t ys with
  | nil =>
    rw [List.map_nil, eq_comm, List.map_eq_nil_iff] at hsame
    rw [hsame]
    exact h
  | cons x xs ih =>
    cases ys with
    | nil => cases hsame
    | cons y ys =>
      obtain ⟨hfirst, hrest⟩ := List.cons.inj hsame
      have hkind : x.kind = y.kind := congrArg Lexeme.kind hfirst
      rw [State.seeAll_cons, State.seeAll_cons, hkind]
      exact ih (h.see y.kind) hrest

/-- Behind a line its number and its length do not matter. -/
theorem Alike.behind {s t : State} (h : Alike s t) {xs ys : List Token}
    (hsame : xs.map lexemeOf = ys.map lexemeOf) (n m width width' : Nat) (inside : Bool) :
    Alike { s.seeAll xs with lines := n + 1, width := width, inComment := inside }
      { t.seeAll ys with lines := m + 1, width := width', inComment := inside } := by
  have hseen := h.seeAll hsame
  have hbegun : n + 1 = 0 ↔ m + 1 = 0 := by omega
  exact ⟨hbegun, hseen.unit, hseen.depth, rfl, hseen.parens, hseen.last⟩

theorem Alike.joinsNext {s t : State} (h : Alike s t) (settings : Settings) :
    s.joinsNext settings = t.joinsNext settings := by
  unfold State.joinsNext
  rw [h.inComment, h.parens, h.last]

/-! ### One line behind states that are alike -/

/-- Of tokens that say the same, the same are shown. -/
theorem lexemeOf_shown_congr (settings : Settings) {xs ys : List Token}
    (hsame : xs.map lexemeOf = ys.map lexemeOf) :
    (shown settings xs).map lexemeOf = (shown settings ys).map lexemeOf := by
  have hshown (tokens : List Token) : (shown settings tokens).map lexemeOf =
      (tokens.map lexemeOf).filter
        (fun l => settings.emitComments || !l.kind.isComment) := by
    rw [List.filter_map]
    rfl
  rw [hshown, hshown, hsame]

theorem lexemeOf_lineTokens_congr (number number' : Nat) (line line' : List Char)
    (found : List Placed) :
    (lineTokens number line found).map lexemeOf =
      (lineTokens number' line' found).map lexemeOf := by
  rw [lexemeOf_lineTokens, lexemeOf_lineTokens]

/-- Behind states that are alike, a line has the same fault at its margin or the same layout before
it. -/
theorem boundary_alike {s t : State} (h : Alike s t) (settings : Settings) (line : List Char) :
    (∃ fault, boundary settings s line = .error fault ∧
      boundary settings t line = .error fault) ∨
    ∃ s₁ t₁ xs ys, Boundary settings s line s₁ xs ∧ Boundary settings t line t₁ ys ∧
      Alike s₁ t₁ ∧ xs.map lexemeOf = ys.map lexemeOf := by
  have hjoin := h.joinsNext settings
  by_cases hjoined : s.lines = 0 ∨ s.joinsNext settings = true
  · have hjoined' : t.lines = 0 ∨ t.joinsNext settings = true := by
      rwa [hjoin, h.begun] at hjoined
    exact .inr ⟨s, t, [], [], .joined hjoined, .joined hjoined', h, rfl⟩
  rw [not_or, Bool.not_eq_true] at hjoined
  obtain ⟨hlines, hends⟩ := hjoined
  have hlines' : t.lines ≠ 0 := fun hzero => hlines (h.begun.2 hzero)
  have hends' : t.joinsNext settings = false := hjoin ▸ hends
  have hnewline : [s.newline].map lexemeOf = [t.newline].map lexemeOf := rfl
  cases hblank : allBlank line with
  | true =>
    exact .inr ⟨_, _, _, _, .blank hlines hends hblank, .blank hlines' hends' hblank,
      h.see .newline, hnewline⟩
  | false =>
    cases hmeasure : measure s.unit line with
    | error fault =>
      have hmeasure' : measure t.unit line = .error fault := h.unit ▸ hmeasure
      exact .inl ⟨fault, boundary_eq_error_iff.2 ⟨hlines, hends, hblank, hmeasure⟩,
        boundary_eq_error_iff.2 ⟨hlines', hends', hblank, hmeasure'⟩⟩
    | ok p =>
      obtain ⟨depth, unit⟩ := p
      have hmeasure' : measure t.unit line = .ok (depth, unit) := h.unit ▸ hmeasure
      have hsame : (s.newline :: depthTokens (s.lines + 1) s.depth depth).map lexemeOf =
          (t.newline :: depthTokens (t.lines + 1) t.depth depth).map lexemeOf := by
        rw [List.map_cons, List.map_cons, lexemeOf_depthTokens, lexemeOf_depthTokens, h.depth]
        rfl
      have hseen := h.seeAll hsame
      exact .inr ⟨_, _, _, _, .measured hlines hends hblank hmeasure,
        .measured hlines' hends' hblank hmeasure',
        ⟨hseen.begun, rfl, rfl, hseen.inComment, hseen.parens, hseen.last⟩, hsame⟩

/-- One line more keeps states alike. -/
theorem scanLine_alike {s t : State} (h : Alike s t) (settings : Settings) (line : List Char) :
    SameRun (scanLine settings s line) (scanLine settings t line) := by
  rcases boundary_alike h settings line with
    ⟨fault, hs, ht⟩ | ⟨s₁, t₁, xs, ys, hs, ht, hstate, hlayout⟩
  · unfold scanLine
    simp only [hs, ht]
    exact .failed rfl
  · rw [hs.scanLine_eq, ht.scanLine_eq, h.inComment]
    unfold readLine
    cases lexemes settings.isKeyword (if t.inComment then .comment else .code) line with
    | error fault => exact .failed rfl
    | ok p =>
      have hown := lexemeOf_lineTokens_congr (s.lines + 1) (t.lines + 1) line line p.1
      refine .done (hstate.behind hown s.lines t.lines line.length line.length _) ?_
      rw [List.map_append, List.map_append, hlayout, lexemeOf_shown_congr settings hown]

/-! ### Runs -/

/-- A run, and another one from the state behind it. -/
def andThen (r : Except Error (State × List Token))
    (next : State → Except Error (State × List Token)) : Except Error (State × List Token) :=
  match r with
  | .error e => .error e
  | .ok (s, tokens) =>
    match next s with
    | .error e => .error e
    | .ok (s, more) => .ok (s, tokens ++ more)

/-- Runs that are the same go on alike. -/
theorem SameRun.andThen {r r' : Except Error (State × List Token)}
    {next : State → Except Error (State × List Token)} (h : SameRun r r')
    (hnext : ∀ s t, Alike s t → SameRun (next s) (next t)) :
    SameRun (andThen r next) (andThen r' next) := by
  cases h with
  | failed hcause => exact .failed hcause
  | @done s t xs ys hstate hsame =>
    have hmore := hnext s t hstate
    unfold Scan.andThen
    simp only
    generalize next s = q, next t = q' at hmore
    cases hmore with
    | failed hcause => exact .failed hcause
    | done hstate' hsame' =>
      refine .done hstate' ?_
      rw [List.map_append, List.map_append, hsame, hsame']

/-- Lines keep states alike. -/
theorem scanLines_alike {s t : State} (h : Alike s t) (settings : Settings)
    (lines : List (List Char)) :
    SameRun (scanLines settings s lines) (scanLines settings t lines) := by
  induction lines generalizing s t with
  | nil => exact .done h rfl
  | cons line lines ih =>
    exact (scanLine_alike h settings line).andThen fun s t hst => ih hst

/-- Runs that are the same stay so with more lines behind them. -/
theorem SameRun.append {settings : Settings} {s t : State} {xs ys : List (List Char)}
    (h : SameRun (scanLines settings s xs) (scanLines settings t ys))
    (rest : List (List Char)) :
    SameRun (scanLines settings s (xs ++ rest)) (scanLines settings t (ys ++ rest)) := by
  rw [scanLines_append, scanLines_append]
  exact h.andThen fun s t hst => scanLines_alike hst settings rest

theorem SameRun.behind {settings : Settings} {s s' : State} {front : List (List Char)}
    {before : List Token} {xs ys : List (List Char)}
    (hfront : scanLines settings s front = .ok (s', before))
    (h : SameRun (scanLines settings s' xs) (scanLines settings s' ys)) :
    SameRun (scanLines settings s (front ++ xs)) (scanLines settings s (front ++ ys)) := by
  rw [scanLines_append_of_ok hfront, scanLines_append_of_ok hfront]
  generalize scanLines settings s' xs = r, scanLines settings s' ys = r' at h
  cases h with
  | failed hcause => exact .failed hcause
  | done hstate hsame =>
    refine .done hstate ?_
    rw [List.map_append, List.map_append, hsame]

/-! ### A joined line -/

/-- The place of the last line does not matter to the tokens behind it. -/
theorem seeAll_behind (s : State) (lines width : Nat) (inside : Bool) (tokens : List Token) :
    ({ s with lines := lines, width := width, inComment := inside } : State).seeAll tokens =
      { s.seeAll tokens with lines := lines, width := width, inComment := inside } := by
  induction tokens generalizing s with
  | nil => rfl
  | cons t tokens ih =>
    rw [State.seeAll_cons, State.seeAll_cons, ← ih]
    congr 1
    unfold State.see
    split <;> rfl

theorem scanLines_singleton (settings : Settings) (s : State) (line : List Char) :
    scanLines settings s [line] = scanLine settings s line := by
  rw [scanLines]
  cases scanLine settings s line with
  | error e => rfl
  | ok p => simp [scanLines]

/-- A line that goes on ends in code or in a block comment, and there the next one begins. -/
theorem GoesOn.mode_eq {settings : Settings} {s s₁ : State} {line : List Char}
    {layout : List Token} {found : List Placed} {last : Mode}
    (h : GoesOn settings s line s₁ layout found last) :
    (if last == .comment then Mode.comment else .code) = last := by
  have hne : last ≠ .header := h.last_ne_header
  cases last with
  | code => rfl
  | comment => rfl
  | header => exact absurd rfl hne

/-- Behind a line that ends no statement, the next one may as well stand on the same line behind a
space. -/
theorem GoesOn.joined {settings : Settings} {s s₁ s' : State} {line : List Char}
    {layout own : List Token} {found : List Placed} {last : Mode}
    (h : GoesOn settings s line s₁ layout found last)
    (hline : scanLine settings s line = .ok (s', own))
    (hjoins : s'.joinsNext settings = true) (next : List Char) :
    SameRun (scanLines settings s [line, next])
      (scanLines settings s [line ++ ' ' :: next]) := by
  have hspace : ∀ c ∈ (' ' :: next).head?, isBlank c = true := isBlank_of_head_space rfl
  have hown := h.scanLine_eq
  rw [hline] at hown
  obtain ⟨rfl, rfl⟩ := Prod.mk.inj (Except.ok.inj hown)
  have hboundary : Boundary settings _ next _ [] := .joined (.inr hjoins)
  -- Both ways, `next` is read in the mode that `line` ends in.
  have hfirst := (scanLines_singleton settings s line).trans hline
  rw [← List.singleton_append, scanLines_append_of_ok hfirst, scanLines_singleton,
    scanLines_singleton, hboundary.scanLine_eq, h.scanLine_append hspace, lexemes_space]
  simp only [h.mode_eq, readLine]
  cases lexemes settings.isKeyword last next with
  | error fault => exact .failed rfl
  | ok p =>
    obtain ⟨added, mode⟩ := p
    have hadded := lexemeOf_lineTokens_congr (s.lines + 1 + 1) (s.lines + 1) next
      (line ++ ' ' :: next) added
    simp only [Except.map, seeAll_behind, ← State.seeAll_append, List.nil_append]
    refine .done ((Alike.refl s₁).behind ?_ (s.lines + 1) s.lines _ _ _) ?_
    · rw [List.map_append, List.map_append, hadded]
    · rw [List.append_assoc, shown_append, List.map_append, List.map_append, List.map_append,
        List.map_append, lexemeOf_shown_congr settings hadded]

/-! ### Programs -/

/-- What a scan says without any places: its lexemes, or what is wrong. -/
def outline : Except Error (List Token) → Except Cause (List Lexeme)
  | .ok tokens => .ok (tokens.map lexemeOf)
  | .error e => .error e.cause

theorem lexemeOf_closing (depth line column : Nat) :
    (closing depth line column).map lexemeOf =
      List.replicate depth ⟨.dedent, none⟩ ++ [⟨.eof, none⟩] := by
  rw [closing, List.map_append, List.map_replicate]
  rfl

/-- What a run comes to at the end of its program: its tokens, and those that close it. -/
def closed (r : Except Error (State × List Token)) : Except Error (List Token) :=
  match r with
  | .error e => .error e
  | .ok (s, tokens) =>
    match s.close with
    | .error e => .error e
    | .ok closing => .ok (tokens ++ closing)

theorem scan_eq_closed (settings : Settings) (lines : List (List Char)) :
    scan settings lines = closed (scanLines settings (State.start settings) lines) := rfl

/-- Runs that are the same end alike. -/
theorem SameRun.outline_closed {r r' : Except Error (State × List Token)} (h : SameRun r r') :
    outline (closed r) = outline (closed r') := by
  cases h with
  | failed hcause => exact congrArg Except.error hcause
  | @done s t xs ys hstate hsame =>
    unfold closed State.close
    simp only [hstate.inComment]
    cases t.inComment with
    | true => rfl
    | false =>
      show Except.ok ((xs ++ closing s.depth (max s.lines 1) (s.width + 1)).map lexemeOf) =
        .ok ((ys ++ closing t.depth (max t.lines 1) (t.width + 1)).map lexemeOf)
      rw [List.map_append, List.map_append, hsame, lexemeOf_closing, lexemeOf_closing,
        hstate.depth]

/-- Runs that are the same make programs that say the same. -/
theorem SameRun.outline_scan {settings : Settings} {xs ys : List (List Char)}
    (h : SameRun (scanLines settings (State.start settings) xs)
      (scanLines settings (State.start settings) ys)) :
    outline (scan settings xs) = outline (scan settings ys) := h.outline_closed

/-- Behind lines without fault, a program says what they say and then what the other lines say. -/
theorem outline_scan_append {settings : Settings} {front : List (List Char)} {s : State}
    {before : List Token}
    (h : scanLines settings (State.start settings) front = .ok (s, before))
    (rest : List (List Char)) :
    outline (scan settings (front ++ rest)) =
      (outline (closed (scanLines settings s rest))).map (before.map lexemeOf ++ ·) := by
  rw [scan_eq_closed, scanLines_append_of_ok h]
  cases scanLines settings s rest with
  | error e => rfl
  | ok p =>
    unfold closed State.close
    simp only [Except.map]
    cases p.1.inComment with
    | true => rfl
    | false => simp [outline]

/-- A line break that ends no statement is exactly a space. Let lines without fault end in one that
can go on, and let no statement end behind it: it may end inside a block comment or inside
parentheses or behind a token that wants more. Then the next line may as well stand behind a space
on that line. Whatever lines follow, the scan gives the same kinds and literals, or it fails for the
same cause. -/
theorem line_break_as_space {settings : Settings} {front : List (List Char)} {line : List Char}
    {tokens : List Token} (hline : Continuable settings front line)
    (hemitted : emitted settings (front ++ [line]) = .ok tokens)
    (hjoins : ¬ EndsStatement settings (front ++ [line]) tokens) (next : List Char)
    (rest : List (List Char)) :
    outline (scan settings (front ++ [line, next] ++ rest)) =
      outline (scan settings (front ++ [line ++ ' ' :: next] ++ rest)) := by
  obtain ⟨s, before, s₁, layout, found, last, hfront, hgoes⟩ := hline.goesOn
  obtain ⟨s', hrun⟩ := emitted_eq_ok_iff.1 hemitted
  have hends : s'.joinsNext settings = true := by
    rw [← joinsNext_eq_false_iff hrun] at hjoins
    simpa using hjoins
  obtain ⟨s₂, before', own, hfront', hown, rfl⟩ := scanLines_concat_eq_ok hrun
  rw [hfront] at hfront'
  cases hfront'
  rw [List.append_assoc, List.append_assoc]
  exact (((hgoes.joined hown hends next).append rest).behind hfront).outline_scan

/-- The second line below is indented and leaves a parenthesis open, so the margin of the third says
nothing. On one line or on two, they say the same, and the last line has the same depth, too. -/
theorem line_break_as_space_indented :
    Continuable {} ["a".toList] "  b = (".toList ∧
      emitted {} (["a".toList] ++ ["  b = (".toList]) = .ok
        [⟨.identifier, some (.string "a"), 1, 1⟩, ⟨.newline, none, 1, 2⟩, ⟨.indent, none, 2, 1⟩,
          ⟨.identifier, some (.string "b"), 2, 3⟩, ⟨.assign, none, 2, 5⟩,
          ⟨.lParen, none, 2, 7⟩] ∧
      outline (scan {} (["a".toList] ++ ["  b = (".toList, "   1) // one".toList] ++
          ["c".toList])) =
        .ok [⟨.identifier, some (.string "a")⟩, ⟨.newline, none⟩, ⟨.indent, none⟩,
          ⟨.identifier, some (.string "b")⟩, ⟨.assign, none⟩, ⟨.lParen, none⟩,
          ⟨.integer, some (.integer 1)⟩, ⟨.rParen, none⟩, ⟨.newline, none⟩, ⟨.dedent, none⟩,
          ⟨.identifier, some (.string "c")⟩, ⟨.eof, none⟩] := by
  have hemitted : emitted {} (["a".toList] ++ ["  b = (".toList]) = .ok
      [⟨.identifier, some (.string "a"), 1, 1⟩, ⟨.newline, none, 1, 2⟩, ⟨.indent, none, 2, 1⟩,
        ⟨.identifier, some (.string "b"), 2, 3⟩, ⟨.assign, none, 2, 5⟩,
        ⟨.lParen, none, 2, 7⟩] := by cbv
  have hshowing : emitted { emitComments := true } (["a".toList] ++ ["  b = (".toList]) = .ok
      [⟨.identifier, some (.string "a"), 1, 1⟩, ⟨.newline, none, 1, 2⟩, ⟨.indent, none, 2, 1⟩,
        ⟨.identifier, some (.string "b"), 2, 3⟩, ⟨.assign, none, 2, 5⟩,
        ⟨.lParen, none, 2, 7⟩] := by cbv
  have hline : Continuable {} ["a".toList] "  b = (".toList := ⟨by decide, _, hshowing, by decide⟩
  have hspace := line_break_as_space hline hemitted (fun h => absurd h.closed (by decide))
    "   1) // one".toList ["c".toList]
  refine ⟨hline, hemitted, hspace.trans ?_⟩
  cbv

end Offside.Scan
