import Offside.Proofs.Scan.Guarded.Machine
import Offside.Proofs.Scan.Guarded.Readers
import Offside.Proofs.Scan.JoinedLines

/-!
# `Offside.Proofs.Scan.Guarded.Rounds`: one round over a line of code

What a machine does to its tokens and its state in a round is said once, by `Took`: it has taken
lexemes of its line. Rows of such steps are put together by `Took.trans`, and there is one lemma for
each way to add a token, `took_nil`, `took_push`, `Took.push` and `Took.mark`.

Behind them `codeRound_lands` says that a round in code follows one step of `stepCode`, a header
apart, which takes the rest of its line and is read in `Lines`. Most of the work is in the signs.
The machine decides them by one character and the next, the plain reader by a table in which the
longest sign counts. `isSign_pair` and `isSign_single` say when two characters or one are the
longest sign: two always are, unless they are a mark of a comment, and one is where it
`StandsAlone`.
-/

set_option autoImplicit false

namespace Offside.Scan.Guarded

open Offside.Text

variable {settings : Settings} {m m₁ m₂ : Machine} {c : Char} {text rest place : List Char}
  {start : Nat} {l : Lexeme} {found more : List Placed}

/-! ### What a machine has taken -/

/-- What the lines that a machine has read mean for the next one. -/
def Machine.state (m : Machine) : State where
  lines := m.row.number
  width := m.row.chars.length
  unit := m.unit
  depth := m.depth
  inComment := m.comment == .block
  parens := m.parens
  last := m.last

/-- A machine has taken lexemes of its line: their tokens are added, and tell in its state. -/
structure Took (settings : Settings) (found : List Placed) (m m' : Machine) : Prop where
  row_eq : m'.row = m.row
  tokens_eq : m'.tokens = m.tokens ++ shown settings (lineTokens m.row.number m.row.chars found)
  state_eq : m'.state =
    { m.state.seeAll (lineTokens m.row.number m.row.chars found) with
      inComment := m'.state.inComment }

/-- Where no token is added, the cursor and the comment may change. -/
theorem took_nil (settings : Settings) (m : Machine) (cursor : Nat) (comment : CommentMode) :
    Took settings [] m { m with cursor, comment } :=
  ⟨rfl, (List.append_nil _).symm, rfl⟩

theorem seeAll_unit (s : State) (tokens : List Token) : (s.seeAll tokens).unit = s.unit := by
  rw [State.seeAll_eq]

theorem seeAll_depth (s : State) (tokens : List Token) : (s.seeAll tokens).depth = s.depth := by
  rw [State.seeAll_eq]

theorem seeAll_inComment (s : State) (tokens : List Token) :
    (s.seeAll tokens).inComment = s.inComment := by
  rw [State.seeAll_eq]

theorem seeAll_inside (s : State) (inside : Bool) (tokens : List Token) :
    ({ s with inComment := inside } : State).seeAll tokens =
      { s.seeAll tokens with inComment := inside } := by
  have h := seeAll_behind s s.lines s.width inside tokens
  rw [h, State.seeAll_eq]

theorem Took.trans (h : Took settings found m m₁) (hmore : Took settings more m₁ m₂) :
    Took settings (found ++ more) m m₂ where
  row_eq := hmore.row_eq.trans h.row_eq
  tokens_eq := by
    rw [hmore.tokens_eq, h.tokens_eq, h.row_eq, lineTokens, lineTokens, lineTokens,
      List.map_append, shown_append, List.append_assoc]
  state_eq := by
    rw [hmore.state_eq, h.state_eq, h.row_eq, seeAll_inside, lineTokens, lineTokens,
      lineTokens, List.map_append, State.seeAll_append]

theorem Took.unit_eq (h : Took settings found m m₁) : m₁.unit = m.unit :=
  (congrArg State.unit h.state_eq).trans (seeAll_unit _ _)

/-- The token of a lexeme at a place of the line. -/
theorem lineTokens_singleton (hat : m.row.At start place) :
    lineTokens m.row.number m.row.chars [⟨l, place⟩] =
      [⟨l.kind, l.literal, m.row.number, start + 1⟩] := by
  rw [← hat.column_eq]
  rfl

/-- A token that is no mark of a comment is added with what it does to the parentheses. -/
theorem took_push (settings : Settings) (hat : m.row.At start place)
    (hkind : l.kind.isComment = false) {parens : Nat}
    (hparens : (m.state.see l.kind).parens = parens) :
    Took settings [⟨l, place⟩] m ({ m with parens }.push l start) where
  row_eq := rfl
  tokens_eq := by
    rw [lineTokens_singleton hat]
    simp [shown, hkind, Machine.push, Machine.pushAt]
  state_eq := by
    rw [lineTokens_singleton hat, ← hparens]
    simp [Machine.state, Machine.push, Machine.pushAt, State.see, hkind]

/-- Whether a token of a kind changes nothing but what is last. -/
def isNeutral (kind : Kind) : Bool :=
  !kind.isComment && kind != .lParen && kind != .rParen

theorem isComment_of_isNeutral {kind : Kind} (h : isNeutral kind = true) :
    kind.isComment = false := by
  unfold isNeutral at h
  simp only [Bool.and_eq_true, Bool.not_eq_true'] at h
  exact h.1.1

theorem see_parens_of_isNeutral (s : State) {kind : Kind} (h : isNeutral kind = true) :
    (s.see kind).parens = s.parens := by
  revert h
  cases kind <;> first | exact fun _ => rfl | exact fun h => nomatch h

theorem Took.push (h : Took settings found m m₁) (hat : m.row.At start place)
    (hkind : isNeutral l.kind = true) :
    Took settings (found ++ [⟨l, place⟩]) m (m₁.push l start) := by
  rw [← h.row_eq] at hat
  exact h.trans (took_push settings hat (isComment_of_isNeutral hkind)
    (see_parens_of_isNeutral _ hkind))

@[simp] theorem Machine.mark_cursor (settings : Settings) (m : Machine) (kind : Kind)
    (start : Nat) : (m.mark settings kind start).cursor = m.cursor := by
  unfold Machine.mark
  split <;> rfl

@[simp] theorem Machine.mark_comment (settings : Settings) (m : Machine) (kind : Kind)
    (start : Nat) : (m.mark settings kind start).comment = m.comment := by
  unfold Machine.mark
  split <;> rfl

/-- A mark of a comment tells nothing, shown or not. -/
theorem Took.mark (h : Took settings found m m₁) (hat : m.row.At start place) {kind : Kind}
    (hkind : kind.isComment = true) :
    Took settings (found ++ [⟨⟨kind, none⟩, place⟩]) m (m₁.mark settings kind start) := by
  rw [← h.row_eq] at hat
  refine h.trans ⟨?_, ?_, ?_⟩
  · unfold Machine.mark
    split <;> rfl
  · rw [lineTokens_singleton hat]
    unfold Machine.mark
    cases hemit : settings.emitComments <;>
      simp [shown, hemit, hkind, Machine.push, Machine.pushAt]
  · rw [lineTokens_singleton hat]
    unfold Machine.mark
    split <;> simp [Machine.state, Machine.push, Machine.pushAt, State.see, hkind]

/-! ### Literals, words and blanks -/

/-- A machine has followed a step that changes neither the mode nor the comment: it has taken the
lexeme of the step and stands in front of what the step leaves. -/
structure Keeps (settings : Settings) (m : Machine) (mode : Mode) (place : List Char) (s : Step)
    (m' : Machine) : Prop where
  took : Took settings (placeFirst s.lexeme place []) m m'
  stands : m.row.At m'.cursor s.rest
  mode_eq : s.mode = mode
  comment_eq : m'.comment = m.comment

theorem Machine.advance_eq {piece : List Char} (h : m.row.At m.cursor (piece ++ rest)) :
    m.advance piece.length = .ok { m with cursor := m.cursor + piece.length } := by
  unfold Machine.advance
  rw [h.advance_eq, ok_bind]
  rfl

theorem Machine.advance_one (h : m.row.At m.cursor (c :: rest)) :
    m.advance 1 = .ok { m with cursor := m.cursor + 1 } :=
  Machine.advance_eq (show m.row.At m.cursor ([c] ++ rest) from h)

theorem Machine.advance_two {a b : Char} (h : m.row.At m.cursor (a :: b :: rest)) :
    m.advance 2 = .ok { m with cursor := m.cursor + 2 } :=
  Machine.advance_eq (show m.row.At m.cursor ([a, b] ++ rest) from h)

theorem Machine.advance_behind {a b : Char} (h : m.row.At m.cursor (a :: b :: rest)) :
    ({ m with cursor := m.cursor + 1 } : Machine).advance 1 =
      .ok { m with cursor := m.cursor + 2 } :=
  Machine.advance_one (show ({ m with cursor := m.cursor + 1 } : Machine).row.At
    (m.cursor + 1) (b :: rest) from h.tail)

/-- A blank is passed by. -/
theorem advance_keeps (settings : Settings) (mode : Mode) (h : m.row.At m.cursor (c :: text)) :
    Follows m.row.report (Keeps settings m mode (c :: text)) (.ok { mode, rest := text })
      (m.advance 1) := by
  rw [Machine.advance_one h]
  exact .ok ⟨took_nil settings m _ _, h.tail, rfl, rfl⟩

/-- What a reader reads is added as a token. -/
theorem stepQuote_keeps {α : Type} {mode : Mode} (lexeme : α → Lexeme)
    {x : Except Fault (α × List Char)} {y : Except Halt (α × Nat)}
    (h : m.row.At m.cursor place) (hxy : Follows m.row.report m.row.Leaves x y)
    (hkind : ∀ a rest, x = .ok (a, rest) → isNeutral (lexeme a).kind = true) :
    Follows m.row.report (Keeps settings m mode place) (stepQuote mode lexeme x)
      (y >>= fun p => .ok ({ m with cursor := p.2 }.push (lexeme p.1) m.cursor)) := by
  cases hxy with
  | error f => exact .error f
  | @ok a b hab =>
    obtain ⟨a, rest⟩ := a
    obtain ⟨rfl, hstands⟩ := hab
    exact .ok ⟨(took_nil settings m b.2 m.comment).push h (hkind _ _ rfl), hstands, rfl, rfl⟩

theorem isNeutral_of_spellsWord {isKeyword : String → Bool} {before text after : List Char}
    {l : Lexeme} (h : SpellsWord isKeyword before text after l) : isNeutral l.kind = true := by
  cases h <;> rfl

theorem word_keeps (h : m.row.At m.cursor (c :: text)) (hc : isWordChar c = true) :
    Follows m.row.report (Keeps settings m .code (c :: text))
      (stepCode settings.isKeyword c text) (m.word settings) := by
  rw [stepCode_of_isWordChar hc]
  refine stepQuote_keeps id h (Row.wordLiteral_follows h hc) ?_
  intro l rest hl
  have hleft : ∀ d ∈ ([] : List Char).getLast?, isWordChar d = false := by simp
  obtain ⟨taken, -, hspells⟩ := spellsWord_of_word hc hleft hl
  exact isNeutral_of_spellsWord hspells

/-! ### Signs -/

/-- A text that begins with two characters. -/
theorem pair_of_prefix {a x y : Char} (h : [x, y] <+: a :: text) : x = a ∧ text.head? = some y := by
  obtain ⟨rest, hrest⟩ := h
  cases hrest
  exact ⟨rfl, rfl⟩

theorem length_of_mem_commentMarks {mark : List Char} (h : mark ∈ commentMarks) :
    ∃ x y, mark = [x, y] := by
  have hlen : ∀ mark ∈ commentMarks, mark.length = 2 := by decide
  exact List.length_eq_two.1 (hlen mark h)

/-- A sign of two characters is the longest one at its place. -/
theorem isSign_pair {a b : Char} {s : Sign} (hs : s ∈ signs) (hspelling : s.spelling = [a, b])
    (hmark : [a, b] ∉ commentMarks) (after : List Char) : IsSign after [a, b] s where
  mem := hs
  spelling := hspelling
  longest := by
    have hlen : ∀ t ∈ signs, t.spelling.length ≤ 2 := by decide
    exact fun t ht _ => hlen t ht
  unmarked := by
    intro mark hm hpre
    obtain ⟨x, y, rfl⟩ := length_of_mem_commentMarks hm
    obtain ⟨rfl, hb⟩ := pair_of_prefix hpre
    cases hb
    exact hmark hm

/-- A character makes no mark of a comment and no sign with the one behind it. -/
def StandsAlone (a : Char) (after : List Char) : Prop :=
  ∀ b ∈ after.head?, [a, b] ∉ commentMarks ∧ ∀ s ∈ signs, s.spelling ≠ [a, b]

/-- A sign of one character is the longest one where it stands alone. -/
theorem isSign_single {a : Char} {s : Sign} {after : List Char} (hs : s ∈ signs)
    (hspelling : s.spelling = [a]) (halone : StandsAlone a after) : IsSign after [a] s where
  mem := hs
  spelling := hspelling
  longest := by
    intro t ht hpre
    have hlen : ∀ t ∈ signs, t.spelling.length ≤ 2 := by decide
    by_contra hlong
    have htwo : t.spelling.length = 2 := by
      have := hlen t ht
      simp only [List.length_singleton] at hlong
      omega
    obtain ⟨x, y, hxy⟩ := List.length_eq_two.1 htwo
    rw [hxy] at hpre
    obtain ⟨rfl, hy⟩ := pair_of_prefix hpre
    exact (halone y hy).2 t ht hxy
  unmarked := by
    intro mark hm hpre
    obtain ⟨x, y, rfl⟩ := length_of_mem_commentMarks hm
    obtain ⟨rfl, hy⟩ := pair_of_prefix hpre
    exact (halone y hy).1 hm

theorem stepCode_pair {isKeyword : String → Bool} {a b : Char} {s : Sign} (hs : s ∈ signs)
    (hspelling : s.spelling = [a, b]) (hmark : [a, b] ∉ commentMarks) (after : List Char) :
    stepCode isKeyword a (b :: after) = .ok ⟨some s.lexeme, .code, after⟩ := by
  obtain ⟨c, tail, htext, hstep⟩ : ∃ c tail, [a, b] = c :: tail ∧
      stepCode isKeyword c (tail ++ after) = .ok ⟨some s.lexeme, .code, after⟩ :=
    stepCode_of_isSign (isSign_pair hs hspelling hmark after)
  cases htext
  exact hstep

theorem stepCode_single {isKeyword : String → Bool} {a : Char} {s : Sign} {after : List Char}
    (hs : s ∈ signs) (hspelling : s.spelling = [a]) (halone : StandsAlone a after) :
    stepCode isKeyword a after = .ok ⟨some s.lexeme, .code, after⟩ := by
  obtain ⟨c, tail, htext, hstep⟩ : ∃ c tail, [a] = c :: tail ∧
      stepCode isKeyword c (tail ++ after) = .ok ⟨some s.lexeme, .code, after⟩ :=
    stepCode_of_isSign (isSign_single hs hspelling halone)
  cases htext
  exact hstep

/-- The comment at the cursor, the mode that the rest of the line is read in, and the rest. Nothing
is left behind the beginning of a comment to the end of the line, nor behind a header. -/
inductive Suits : CommentMode → Mode → List Char → Prop
  | code {rest : List Char} : Suits .normal .code rest
  | comment {rest : List Char} : Suits .block .comment rest
  | line : Suits .line .code []
  | header : Suits .normal .header []

theorem Suits.block_iff {comment : CommentMode} {mode : Mode} (h : Suits comment mode rest) :
    comment = .block ↔ mode = .comment := by
  cases h <;> simp

/-- A machine has followed a step in code. -/
structure Lands (settings : Settings) (m : Machine) (place : List Char) (s : Step) (m' : Machine) :
    Prop where
  took : Took settings (placeFirst s.lexeme place []) m m'
  stands : m.row.At m'.cursor s.rest
  suits : Suits m'.comment s.mode s.rest

theorem Keeps.lands {s : Step} (h : Keeps settings m .code place s m₁)
    (hcomment : m.comment = .normal) : Lands settings m place s m₁ where
  took := h.took
  stands := h.stands
  suits := by
    rw [h.mode_eq, h.comment_eq, hcomment]
    exact .code

/-- A sign of two characters is passed by in two moves. -/
theorem pair_keeps {a b : Char} {s : Sign} {after : List Char}
    (h : m.row.At m.cursor (a :: b :: after)) (hs : s ∈ signs) (hspelling : s.spelling = [a, b])
    (hmark : [a, b] ∉ commentMarks) (hkind : isNeutral s.lexeme.kind = true) :
    Follows m.row.report (Keeps settings m .code (a :: b :: after))
      (stepCode settings.isKeyword a (b :: after))
      ({ m with cursor := m.cursor + 1 }.advance 1 >>= fun m₁ =>
        .ok (m₁.push s.lexeme m.cursor)) := by
  rw [stepCode_pair hs hspelling hmark, Machine.advance_behind h, ok_bind]
  exact .ok ⟨(took_nil settings m _ _).push h hkind, h.tail.tail, rfl, rfl⟩

/-- The step that a piece of the grammar takes. -/
theorem step_of_reads {isKeyword : String → Bool} {mode next : Mode} {l : Option Lexeme}
    {tail after : List Char} (h : Reads isKeyword [] mode (c :: tail) after l next) :
    step isKeyword mode c (tail ++ after) = .ok ⟨l, next, after⟩ := by
  obtain ⟨d, more, htext, hstep⟩ := h.step_eq_ok
  cases htext
  exact hstep

/-- A sign of two characters ends in an equals sign, or doubles its first character. -/
theorem pair_cases {a b : Char} {s : Sign} (hs : s ∈ signs) (hspelling : s.spelling = [a, b]) :
    (b = '=' ∧ (a ∈ operatorChars ∨ a ∈ ['!', '=', '<', '>'])) ∨ (a = '&' ∧ b = '&') ∨
      (a = '|' ∧ b = '|') := by
  have all : ∀ s ∈ signs, s.spelling.head?.all (fun a => s.spelling.tail.head?.all fun b =>
      (b == '=' && (operatorChars.contains a || ['!', '=', '<', '>'].contains a)) ||
        (a == '&' && b == '&') || (a == '|' && b == '|')) = true := by decide
  have h := all s hs
  rw [hspelling] at h
  simpa only [List.head?_cons, List.tail_cons, Option.all_some, Bool.or_eq_true,
    Bool.and_eq_true, beq_iff_eq, List.contains_iff_mem, or_assoc] using h

theorem setOperator_mem (hc : c ∈ operatorChars) : Sign.setOperator c ∈ signs :=
  List.mem_append_left _ (List.mem_append_left _ (List.mem_append_left _ (List.mem_map_of_mem hc)))

theorem operator_mem (hc : c ∈ operatorChars) : Sign.operator c ∈ signs :=
  List.mem_append_left _ (List.mem_append_right _ (List.mem_map_of_mem hc))

theorem stepCode_lineComment (isKeyword : String → Bool) (text : List Char) :
    stepCode isKeyword '/' ('/' :: text) = .ok ⟨some ⟨.singleComment, none⟩, .code, []⟩ := by
  have hstep := step_of_reads
    (.lineComment : Reads isKeyword [] .code ('/' :: '/' :: text) [] _ _)
  rw [List.append_nil] at hstep
  exact hstep

theorem stepCode_blockOpen (isKeyword : String → Bool) (text : List Char) :
    stepCode isKeyword '/' ('*' :: text) = .ok ⟨some ⟨.flexCommentStart, none⟩, .comment, text⟩ :=
  step_of_reads (.blockOpen : Reads isKeyword [] .code ['/', '*'] text _ _)

/-- A comment to the end of the line leaves nothing of it. -/
theorem lineComment_lands (h : m.row.At m.cursor ('/' :: '/' :: text)) :
    Follows m.row.report (Lands settings m ('/' :: '/' :: text))
      (stepCode settings.isKeyword '/' ('/' :: text))
      (.ok ({ m with cursor := m.row.chars.length, comment := .line }.mark settings .singleComment
        m.cursor)) := by
  rw [stepCode_lineComment]
  refine .ok ⟨(took_nil settings m _ _).mark h rfl, ?_, ?_⟩
  · rw [Machine.mark_cursor]
    exact ⟨Nat.le_refl _, List.drop_length⟩
  · rw [Machine.mark_comment]
    exact .line

/-- The beginning of a block comment is passed by in two moves. -/
theorem blockOpen_lands (h : m.row.At m.cursor ('/' :: '*' :: text)) :
    Follows m.row.report (Lands settings m ('/' :: '*' :: text))
      (stepCode settings.isKeyword '/' ('*' :: text))
      ({ m with cursor := m.cursor + 1 }.advance 1 >>= fun m₁ =>
        .ok ({ m₁ with comment := .block }.mark settings .flexCommentStart m.cursor)) := by
  rw [stepCode_blockOpen, Machine.advance_behind h, ok_bind]
  refine .ok ⟨(took_nil settings m _ _).mark h rfl, ?_, ?_⟩
  · rw [Machine.mark_cursor]
    exact h.tail.tail
  · rw [Machine.mark_comment]
    exact .comment

theorem stepCode_blockClose (isKeyword : String → Bool) (text : List Char) :
    stepCode isKeyword '*' ('/' :: text) = .error ⟨.rogueTerminator, '*' :: '/' :: text⟩ := by
  simp [stepCode, (by decide : isBlank '*' = false)]

/-- A character stands alone where it makes neither a sign nor a mark of two characters. -/
theorem standsAlone_of_not_pair (hassign : text.head? ≠ some '=')
    (hand : ¬(c = '&' ∧ text.head? = some '&')) (hor : ¬(c = '|' ∧ text.head? = some '|'))
    (hline : ¬(c = '/' ∧ text.head? = some '/')) (hopen : ¬(c = '/' ∧ text.head? = some '*'))
    (hclose : ¬(c = '*' ∧ text.head? = some '/')) : StandsAlone c text := by
  intro b hb
  have hb' : text.head? = some b := hb
  simp only [hb', ne_eq, Option.some.injEq] at hassign hand hor hline hopen hclose
  constructor
  · intro hmark
    simp only [commentMarks, List.mem_cons, List.cons.injEq, and_true, List.not_mem_nil,
      or_false] at hmark
    rcases hmark with hmark | hmark | hmark
    · exact hline hmark
    · exact hopen hmark
    · exact hclose hmark
  · intro s hs hspelling
    rcases pair_cases hs hspelling with ⟨hb, -⟩ | hpair | hpair
    · exact hassign hb
    · exact hand hpair
    · exact hor hpair

/-- One of the signs that can be an operator, with what belongs to it. -/
theorem operator_lands (h : m.row.At m.cursor (c :: text)) (hcomment : m.comment = .normal)
    (hc : c ∈ operatorChars) :
    Follows m.row.report (Lands settings m (c :: text)) (stepCode settings.isKeyword c text)
      (m.operator settings c) := by
  have hlands : ∀ s m', Keeps settings m .code (c :: text) s m' →
      Lands settings m (c :: text) s m' := fun _ _ hkeeps => hkeeps.lands hcomment
  unfold Machine.operator
  simp only [h.tail.peek_eq, Machine.advance_one h, ok_bind]
  by_cases hassign : text.head? = some '='
  · rw [if_pos hassign]
    obtain ⟨more, rfl⟩ := List.head?_eq_some_iff.1 hassign
    exact (pair_keeps h (setOperator_mem hc) rfl (by simp [commentMarks]) rfl).imp hlands
  rw [if_neg hassign]
  by_cases hand : c = '&' ∧ text.head? = some '&'
  · rw [if_pos hand]
    obtain ⟨rfl, hnext⟩ := hand
    obtain ⟨more, rfl⟩ := List.head?_eq_some_iff.1 hnext
    exact (pair_keeps (s := .bare ['&', '&'] .and) h (by decide) rfl (by decide) rfl).imp hlands
  rw [if_neg hand]
  by_cases hor : c = '|' ∧ text.head? = some '|'
  · rw [if_pos hor]
    obtain ⟨rfl, hnext⟩ := hor
    obtain ⟨more, rfl⟩ := List.head?_eq_some_iff.1 hnext
    exact (pair_keeps (s := .bare ['|', '|'] .or) h (by decide) rfl (by decide) rfl).imp hlands
  rw [if_neg hor]
  by_cases hline : c = '/' ∧ text.head? = some '/'
  · rw [if_pos hline]
    obtain ⟨rfl, hnext⟩ := hline
    obtain ⟨body, rfl⟩ := List.head?_eq_some_iff.1 hnext
    exact lineComment_lands h
  rw [if_neg hline]
  by_cases hopen : c = '/' ∧ text.head? = some '*'
  · rw [if_pos hopen]
    obtain ⟨rfl, hnext⟩ := hopen
    obtain ⟨body, rfl⟩ := List.head?_eq_some_iff.1 hnext
    exact blockOpen_lands h
  rw [if_neg hopen]
  by_cases hclose : c = '*' ∧ text.head? = some '/'
  · rw [if_pos hclose]
    obtain ⟨rfl, hnext⟩ := hclose
    obtain ⟨body, rfl⟩ := List.head?_eq_some_iff.1 hnext
    rw [stepCode_blockClose]
    exact h.follows_fail _
  rw [if_neg hclose]
  -- Nothing belongs to the character, so it is an operator of its own.
  have halone := standsAlone_of_not_pair hassign hand hor hline hopen hclose
  rw [stepCode_single (operator_mem hc) rfl halone]
  exact .ok (hlands _ _ ⟨(took_nil settings m _ _).push h rfl, h.tail, rfl, rfl⟩)

/-- What a character stands for alone is a sign of the table. -/
theorem plainSign?_mem (h : Machine.plainSign? c = some l) : ⟨[c], l⟩ ∈ signs := by
  unfold Machine.plainSign? at h
  split at h <;> cases h <;> simp [signs, Sign.bare, Sign.comparator]

/-- The parentheses are the only signs that are counted. -/
theorem plainSign?_see (h : Machine.plainSign? c = some l) (s : State) :
    l.kind.isComment = false ∧
      (s.see l.kind).parens =
        if c = '(' then s.parens + 1 else if c = ')' then s.parens - 1 else s.parens := by
  unfold Machine.plainSign? at h
  split at h <;> cases h <;> exact ⟨rfl, rfl⟩

theorem comparator_mem (hc : c ∈ ['!', '=', '<', '>']) : Sign.comparator [c, '='] ∈ signs := by
  simp only [List.mem_cons, List.not_mem_nil, or_false] at hc
  rcases hc with rfl | rfl | rfl | rfl <;> simp [signs]

/-- Every sign begins with an operator's character or with one that stands for something alone. -/
theorem sign?_eq_none (hc : c ∉ operatorChars) (hplain : Machine.plainSign? c = none)
    (text : List Char) : sign? (c :: text) = none := by
  have all : ∀ s ∈ signs, s.spelling.head?.any (fun c =>
      operatorChars.contains c || (Machine.plainSign? c).isSome) = true := by decide
  unfold sign?
  rw [List.find?_eq_none]
  intro s hs hpre
  obtain ⟨d, hd, hclass⟩ := (Option.any_eq_true _ _).1 (all s hs)
  obtain ⟨tail, htail⟩ := List.head?_eq_some_iff.1 hd
  rw [htail, List.isPrefixOf_iff_prefix, List.cons_prefix_cons] at hpre
  rw [hpre.1, hplain] at hclass
  simp [hc] at hclass

theorem stepCode_illegal {isKeyword : String → Bool} (hblank : isBlank c = false)
    (hquote : c ≠ '\'' ∧ c ≠ '"' ∧ c ≠ '#') (hc : c ∉ operatorChars) (hword : isWordChar c = false)
    (hplain : Machine.plainSign? c = none) (text : List Char) :
    stepCode isKeyword c text = .error ⟨.illegalCharacter c, c :: text⟩ := by
  have hslash : '/' ≠ c := by
    rintro rfl
    exact hc (by decide)
  have hstar : '*' ≠ c := by
    rintro rfl
    exact hc (by decide)
  simp [stepCode, hblank, hquote, hslash, hstar, hword, sign?_eq_none hc hplain]

/-- Among the other signs only an equals sign behind one of four makes two characters a sign. -/
theorem standsAlone_of_not_operator (hc : c ∉ operatorChars)
    (hpair : ¬(c ∈ ['!', '=', '<', '>'] ∧ text.head? = some '=')) : StandsAlone c text := by
  intro b hb
  constructor
  · intro hmark
    have hfirst : ∀ mark ∈ commentMarks, mark.head?.any operatorChars.contains = true := by decide
    exact hc (List.contains_iff_mem.1 (hfirst _ hmark))
  · intro s hs hspelling
    rcases pair_cases hs hspelling with ⟨rfl, hoperator | hcompare⟩ | ⟨rfl, -⟩ | ⟨rfl, -⟩
    · exact hc hoperator
    · exact hpair ⟨hcompare, hb⟩
    · exact hc (by decide)
    · exact hc (by decide)

/-- A sign that is no operator, or a character that begins nothing. -/
theorem punctuation_keeps (h : m.row.At m.cursor (c :: text)) (hblank : isBlank c = false)
    (hquote : c ≠ '\'' ∧ c ≠ '"' ∧ c ≠ '#') (hc : c ∉ operatorChars)
    (hword : isWordChar c = false) :
    Follows m.row.report (Keeps settings m .code (c :: text))
      (stepCode settings.isKeyword c text) (m.punctuation c) := by
  unfold Machine.punctuation
  rw [h.tail.peek_eq]
  by_cases hpair : ['!', '=', '<', '>'].contains c ∧ text.head? = some '='
  · rw [if_pos hpair]
    obtain ⟨more, rfl⟩ := List.head?_eq_some_iff.1 hpair.2
    have hmem := comparator_mem (List.contains_iff_mem.1 hpair.1)
    rw [stepCode_pair hmem rfl (by simp [commentMarks]),
      Machine.advance_two h, ok_bind]
    exact .ok ⟨(took_nil settings m _ _).push h rfl, h.tail.tail, rfl, rfl⟩
  rw [if_neg hpair]
  cases hplain : Machine.plainSign? c with
  | none =>
    rw [stepCode_illegal hblank hquote hc hword hplain]
    exact h.follows_fail _
  | some l =>
    rw [List.contains_iff_mem] at hpair
    have halone := standsAlone_of_not_operator hc hpair
    obtain ⟨hkind, hparens⟩ := plainSign?_see hplain m.state
    rw [stepCode_single (plainSign?_mem hplain) rfl halone]
    show Follows _ _ _ (m.advance 1 >>= _)
    rw [Machine.advance_one h, ok_bind]
    have hpush := took_push (m := { m with cursor := m.cursor + 1 }) settings h hkind hparens
    exact .ok ⟨(took_nil settings m _ _).trans hpush, h.tail, rfl, rfl⟩

/-! ### One round -/

/-- Everything that a round in code can find, a header apart. -/
theorem codeRound_lands (h : m.row.At m.cursor (c :: text)) (hcomment : m.comment = .normal)
    (hhash : c ≠ '#') :
    Follows m.row.report (Lands settings m (c :: text)) (stepCode settings.isKeyword c text)
      (m.codeRound settings c) := by
  have hlands : ∀ s m', Keeps settings m .code (c :: text) s m' →
      Lands settings m (c :: text) s m' := fun _ _ hkeeps => hkeeps.lands hcomment
  unfold Machine.codeRound
  by_cases hblank : isBlank c = true
  · rw [if_pos hblank, stepCode, if_pos hblank]
    exact (advance_keeps settings .code h).imp hlands
  rw [if_neg hblank]
  by_cases hsingle : c = '\''
  · subst hsingle
    rw [if_pos rfl, stepCode, if_neg hblank, if_pos rfl]
    exact (stepQuote_keeps _ h (Row.characterLiteral_follows h) fun _ _ _ => rfl).imp hlands
  rw [if_neg hsingle]
  by_cases hdouble : c = '"'
  · subst hdouble
    rw [if_pos rfl, stepCode, if_neg hblank, if_neg hsingle, if_pos rfl]
    exact (stepQuote_keeps _ h (Row.stringLiteral_follows h) fun _ _ _ => rfl).imp hlands
  rw [if_neg hdouble, if_neg hhash]
  by_cases hoperator : operatorChars.contains c = true
  · rw [if_pos hoperator]
    exact operator_lands h hcomment (List.contains_iff_mem.1 hoperator)
  rw [if_neg hoperator]
  by_cases hword : isWordChar c = true
  · rw [if_pos hword]
    exact (word_keeps h hword).imp hlands
  rw [if_neg hword]
  rw [List.contains_iff_mem] at hoperator
  exact (punctuation_keeps h (by simpa using hblank) ⟨hsingle, hdouble, hhash⟩ hoperator
    (by simpa using hword)).imp hlands

end Offside.Scan.Guarded
