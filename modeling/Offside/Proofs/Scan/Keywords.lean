import Offside.Proofs.Scan.PlainReading

/-!
# `Offside.Proofs.Scan.Keywords`: reserving further words

To reserve words is to rename tokens. A scan asks for keywords in one place only, when it has read a
word with a letter in it that is no word for a value. Nothing else that a line says depends on the
answer (`step_reserve`, `lexemes_reserve`), so its lexemes are the same but for the kind of
these words.

A kind has an influence on what follows by one thing, whether it lets a statement run on.
`Renamed` relates two runs whose tokens differ in that way and whose states differ in the last kind
alone, the two last kinds being continuations together. It is kept by every line
(`scanLine_reserve`), and `keywords_rename` is the result for whole programs.
-/

set_option autoImplicit false

namespace Offside

/-- Reserve words one after another. -/
def Settings.reserve (s : Settings) (words : List String) : Settings :=
  words.foldl (fun s word => (s.addKeyword word).1) s

/-- The kind that a token of the given kind and payload has when some words are reserved: an
identifier among them becomes a keyword. -/
def reservedKind (words : List String) (kind : Kind) (literal : Option Literal) : Kind :=
  match kind, literal with
  | .identifier, some (.string word) => if words.contains word then .keyword else .identifier
  | kind, _ => kind

/-- A token as it is with some words reserved. -/
def Token.reserve (words : List String) (t : Token) : Token :=
  { t with kind := reservedKind words t.kind t.literal }

namespace Scan

/-! ### The settings -/

/-- Reserving words changes nothing about settings but the words that they reserve. -/
theorem reserve_eq (s : Settings) (words : List String) :
    s.reserve words = { s with extraKeywords := (s.reserve words).extraKeywords } := by
  unfold Settings.reserve
  induction words generalizing s with
  | nil => rfl
  | cons word words ih =>
    rw [List.foldl_cons, ih]
    unfold Settings.addKeyword
    split <;> rfl

theorem isKeyword_reserve (s : Settings) (words : List String) (word : String) :
    (s.reserve words).isKeyword word = (words.contains word || s.isKeyword word) := by
  unfold Settings.reserve
  induction words generalizing s with
  | nil => rfl
  | cons w words ih =>
    rw [List.foldl_cons, ih, Settings.isKeyword_addKeyword, List.contains_cons]
    cases words.contains word <;> simp

/-! ### Kinds -/

theorem reservedKind_of_ne {kind : Kind} (h : kind ≠ .identifier) (words : List String)
    (literal : Option Literal) : reservedKind words kind literal = kind := by
  unfold reservedKind
  split
  · exact absurd rfl h
  · rfl

theorem reservedKind_cases (words : List String) (kind : Kind) (literal : Option Literal) :
    reservedKind words kind literal = kind ∨
      kind = .identifier ∧ reservedKind words kind literal = .keyword := by
  unfold reservedKind
  split
  · split
    · exact .inr ⟨rfl, rfl⟩
    · exact .inl rfl
  · exact .inl rfl

theorem isComment_reservedKind (words : List String) (kind : Kind) (literal : Option Literal) :
    (reservedKind words kind literal).isComment = kind.isComment := by
  rcases reservedKind_cases words kind literal with h | ⟨rfl, h⟩
  · rw [h]
  · rw [h]
    rfl

/-! ### Lexemes -/

/-- A lexeme as it is with some words reserved. -/
def Lexeme.reserve (words : List String) (l : Lexeme) : Lexeme :=
  { l with kind := reservedKind words l.kind l.literal }

theorem Lexeme.reserve_of_ne {l : Lexeme} (h : l.kind ≠ .identifier) (words : List String) :
    l.reserve words = l := by
  unfold Lexeme.reserve
  rw [reservedKind_of_ne h]

variable (words : List String) {isKeyword reserved : String → Bool}

/-- A word is a keyword if it is among the reserved words or was one before. -/
theorem wordLexeme_reserve (hreserved : ∀ w, reserved w = (words.contains w || isKeyword w))
    (word : String) :
    wordLexeme reserved word = (wordLexeme isKeyword word).reserve words := by
  unfold wordLexeme
  rw [hreserved]
  split_ifs <;> simp_all [Lexeme.reserve, reservedKind]

theorem word_reserve (hreserved : ∀ w, reserved w = (words.contains w || isKeyword w))
    (text : List Char) :
    word reserved text = (word isKeyword text).map (fun p => (p.1.reserve words, p.2)) := by
  unfold word
  simp only
  split
  · rw [wordLexeme_reserve words hreserved]
    rfl
  -- Numbers are no identifiers, and the faults of numbers say nothing of keywords.
  split
  · split
    · rfl
    · split <;> rfl
  · split <;> rfl

/-- What a step finds, with some words reserved. -/
def Step.reserve (words : List String) (s : Step) : Step :=
  { s with lexeme := s.lexeme.map (Lexeme.reserve words) }

/-- A quoted lexeme is no identifier. -/
theorem stepQuote_reserve {α : Type} (mode : Mode) {kind : Kind} (hkind : kind ≠ .identifier)
    (literal : α → Option Literal) (r : Except Fault (α × List Char)) :
    stepQuote mode (fun a => ⟨kind, literal a⟩) r =
      (stepQuote mode (fun a => ⟨kind, literal a⟩) r).map (Step.reserve words) := by
  unfold stepQuote
  cases r with
  | error fault => rfl
  | ok p =>
    have hlexeme : (⟨kind, literal p.1⟩ : Lexeme).reserve words = ⟨kind, literal p.1⟩ :=
      Lexeme.reserve_of_ne hkind words
    simp [Except.map, Step.reserve, hlexeme]

theorem stepCode_reserve (hreserved : ∀ w, reserved w = (words.contains w || isKeyword w))
    (c : Char) (text : List Char) :
    stepCode reserved c text = (stepCode isKeyword c text).map (Step.reserve words) := by
  have hsigns : ∀ s ∈ signs, s.lexeme.kind ≠ .identifier := by decide
  unfold stepCode
  split
  · rfl
  split
  · exact stepQuote_reserve words _ (by decide) _ _
  split
  · exact stepQuote_reserve words _ (by decide) _ _
  -- Headers and comments.
  split
  · simp only
    split <;> rfl
  split
  · rfl
  split
  · rfl
  split
  · rfl
  split
  · rw [word_reserve words hreserved]
    cases word isKeyword (c :: text) <;> rfl
  · split
    · rename_i sign hsign
      have hkind : sign.lexeme.reserve words = sign.lexeme :=
        Lexeme.reserve_of_ne (hsigns sign (sign?_mem hsign).1) words
      simp [Except.map, Step.reserve, hkind]
    · rfl

theorem stepHeader_reserve (c : Char) (text : List Char) :
    stepHeader c text = (stepHeader c text).map (Step.reserve words) := by
  unfold stepHeader
  split
  · rfl
  split
  · exact stepQuote_reserve words _ (by decide) _ _
  split
  · exact stepQuote_reserve words _ (by decide) _ _
  · rfl

theorem stepComment_reserve (c : Char) (text : List Char) :
    stepComment c text = (stepComment c text).reserve words := by
  unfold stepComment
  split <;> rfl

/-- A step finds the same with words reserved, but for the kind of a word among them. -/
theorem step_reserve (hreserved : ∀ w, reserved w = (words.contains w || isKeyword w))
    (mode : Mode) (c : Char) (text : List Char) :
    step reserved mode c text = (step isKeyword mode c text).map (Step.reserve words) := by
  cases mode with
  | code => exact stepCode_reserve words hreserved c text
  | header => exact stepHeader_reserve words c text
  | comment => exact congrArg Except.ok (stepComment_reserve words c text)

/-- A lexeme in its place, with some words reserved. -/
def Placed.reserve (words : List String) (p : Placed) : Placed :=
  { p with lexeme := p.lexeme.reserve words }

theorem placeFirst_reserve (l : Option Lexeme) (place : List Char) (found : List Placed) :
    placeFirst (l.map (Lexeme.reserve words)) place (found.map (Placed.reserve words)) =
      (placeFirst l place found).map (Placed.reserve words) := by
  cases l <;> rfl

/-- A line says the same with words reserved, but for the kind of the words among them. -/
theorem lexemes_reserve (hreserved : ∀ w, reserved w = (words.contains w || isKeyword w))
    (mode : Mode) (text : List Char) :
    lexemes reserved mode text =
      (lexemes isKeyword mode text).map (fun p => (p.1.map (Placed.reserve words), p.2)) := by
  induction mode, text using step_induction isKeyword with
  | nil mode =>
    rw [lexemes, lexemes]
    rfl
  | cons mode c text ih =>
    rw [lexemes_cons, lexemes_cons, step_reserve words hreserved]
    cases hstep : step isKeyword mode c text with
    | error fault => rfl
    | ok s =>
      have hrest := ih s hstep
      simp only [Except.map, Step.reserve, hrest]
      cases lexemes isKeyword s.mode s.rest with
      | error fault => rfl
      | ok p => simp only [placeFirst_reserve]

/-! ### One line -/

/-- Where there are no identifiers, reserving words has no effect. -/
theorem map_reserve_of_ne {tokens : List Token} (h : ∀ t ∈ tokens, t.kind ≠ .identifier) :
    tokens.map (Token.reserve words) = tokens := by
  refine (List.map_congr_left fun t ht => ?_).trans (List.map_id' tokens)
  unfold Token.reserve
  rw [reservedKind_of_ne (h t ht)]

theorem lineTokens_reserve (number : Nat) (line : List Char) (found : List Placed) :
    lineTokens number line (found.map (Placed.reserve words)) =
      (lineTokens number line found).map (Token.reserve words) := by
  unfold lineTokens
  rw [List.map_map, List.map_map]
  rfl

theorem readLine_reserve (hreserved : ∀ w, reserved w = (words.contains w || isKeyword w))
    (number : Nat) (mode : Mode) (line : List Char) :
    readLine reserved number mode line =
      (readLine isKeyword number mode line).map
        (fun p => (p.1.map (Token.reserve words), p.2)) := by
  unfold readLine
  rw [lexemes_reserve words hreserved]
  cases lexemes isKeyword mode line with
  | error fault => rfl
  | ok p => simp only [Except.map, lineTokens_reserve]

theorem shown_reserve (settings : Settings) (tokens : List Token) :
    shown (settings.reserve words) (tokens.map (Token.reserve words)) =
      (shown settings tokens).map (Token.reserve words) := by
  unfold shown
  rw [List.filter_map, reserve_eq]
  congr 1
  refine List.filter_congr fun t _ => ?_
  show (settings.emitComments || !(reservedKind words t.kind t.literal).isComment) = _
  rw [isComment_reservedKind]

section
variable {settings : Settings}
  (hboth : settings.continues .identifier = settings.continues .keyword)
include hboth

theorem continues_reservedKind (kind : Kind) (literal : Option Literal) :
    settings.continues (reservedKind words kind literal) = settings.continues kind := by
  rcases reservedKind_cases words kind literal with h | ⟨rfl, h⟩
  · rw [h]
  · rw [h, hboth]

omit hboth in
/-- What a token that is no mark of a comment does to the state. -/
theorem see_of_not_isComment (s : State) {kind : Kind} (h : kind.isComment = false) :
    s.see kind = { s with parens := parenStep s.parens kind, last := some kind } := by
  simp only [State.see, h, Bool.false_eq_true, if_false]
  cases kind <;> rfl

omit hboth in
/-- Neither an identifier nor a keyword is a parenthesis. -/
theorem parenStep_reservedKind (parens : Nat) (kind : Kind) (literal : Option Literal) :
    parenStep parens (reservedKind words kind literal) = parenStep parens kind := by
  rcases reservedKind_cases words kind literal with h | ⟨rfl, h⟩
  · rw [h]
  · rw [h]
    rfl

/-- Behind a token and its renamed form, two states still differ in a last kind that lets a
statement run on in both or in none. -/
theorem see_reserve {s : State} {last : Option Kind}
    (hlast : last.any settings.continues = s.last.any settings.continues) (t : Token) :
    ∃ last', ({ s with last := last } : State).see (t.reserve words).kind =
        { s.see t.kind with last := last' } ∧
      last'.any settings.continues = (s.see t.kind).last.any settings.continues := by
  have hcomment : (t.reserve words).kind.isComment = t.kind.isComment :=
    isComment_reservedKind words t.kind t.literal
  cases hmark : t.kind.isComment with
  | true =>
    rw [hmark] at hcomment
    exact ⟨last, by simp [State.see, hmark, hcomment], by simpa [State.see, hmark] using hlast⟩
  | false =>
    rw [hmark] at hcomment
    have hparens : parenStep s.parens (t.reserve words).kind = parenStep s.parens t.kind :=
      parenStep_reservedKind words s.parens t.kind t.literal
    rw [see_of_not_isComment _ hcomment, see_of_not_isComment _ hmark]
    exact ⟨some (t.reserve words).kind, by simp only [hparens],
      continues_reservedKind words hboth t.kind t.literal⟩

theorem seeAll_reserve {s : State} {last : Option Kind}
    (hlast : last.any settings.continues = s.last.any settings.continues) (tokens : List Token) :
    ∃ last', ({ s with last := last } : State).seeAll (tokens.map (Token.reserve words)) =
        { s.seeAll tokens with last := last' } ∧
      last'.any settings.continues = (s.seeAll tokens).last.any settings.continues := by
  induction tokens generalizing s last with
  | nil => exact ⟨last, rfl, hlast⟩
  | cons t tokens ih =>
    obtain ⟨middle, hsee, hmiddle⟩ := see_reserve words hboth hlast t
    rw [List.map_cons, State.seeAll_cons, State.seeAll_cons, hsee]
    exact ih hmiddle

omit hboth in
/-- A line break between two lines does not ask for keywords. -/
theorem boundary_reserve {s : State} {last : Option Kind}
    (hlast : last.any settings.continues = s.last.any settings.continues) (line : List Char) :
    (∃ fault, boundary settings s line = .error fault ∧
      boundary (settings.reserve words) { s with last := last } line = .error fault) ∨
    ∃ s₁ layout last₁, boundary settings s line = .ok (s₁, layout) ∧
      boundary (settings.reserve words) { s with last := last } line =
        .ok ({ s₁ with last := last₁ }, layout) ∧
      last₁.any settings.continues = s₁.last.any settings.continues := by
  have hjoin : ({ s with last := last } : State).joinsNext (settings.reserve words) =
      s.joinsNext settings := by
    rw [reserve_eq]
    show (s.inComment || decide (0 < s.parens) || last.any settings.continues) = _
    rw [hlast]
    rfl
  by_cases hjoined : s.lines = 0 ∨ s.joinsNext settings = true
  · refine .inr ⟨s, [], last, if_pos hjoined, if_pos ?_, hlast⟩
    rwa [hjoin]
  · -- The `NEWLINE` is the last token for both.
    have hsame : boundary (settings.reserve words) { s with last := last } line =
        boundary settings s line := by
      unfold boundary
      rw [hjoin]
      exact (if_neg hjoined).trans (if_neg hjoined).symm
    rw [hsame]
    cases hboundary : boundary settings s line with
    | error fault => exact .inl ⟨fault, rfl, rfl⟩
    | ok p => exact .inr ⟨p.1, p.2, p.1.last, rfl, rfl, rfl⟩

/-- Two runs of which the second has renamed tokens, and a state with another last kind that lets a
statement run on if the first one does. -/
inductive Renamed (settings : Settings) (words : List String) :
    Except Error (State × List Token) → Except Error (State × List Token) → Prop
  | failed (e : Error) : Renamed settings words (.error e) (.error e)
  | done {s : State} {tokens : List Token} {last : Option Kind} :
      last.any settings.continues = s.last.any settings.continues →
      Renamed settings words (.ok (s, tokens))
        (.ok ({ s with last := last }, tokens.map (Token.reserve words)))

/-- One more line keeps it so. -/
theorem scanLine_reserve {s : State} {last : Option Kind}
    (hlast : last.any settings.continues = s.last.any settings.continues) (line : List Char) :
    Renamed settings words (scanLine settings s line)
      (scanLine (settings.reserve words) { s with last := last } line) := by
  rcases boundary_reserve words hlast line with
    ⟨fault, hs, ht⟩ | ⟨s₁, layout, last₁, hs, ht, hlast₁⟩
  · unfold scanLine
    simp only [hs, ht]
    exact .failed _
  · have hrules := boundary_eq_ok_iff.1 hs
    have hlayout : layout.map (Token.reserve words) = layout := by
      refine map_reserve_of_ne words fun t ht hk => ?_
      have hsign := hrules.isLayout_of_mem ht
      rw [hk] at hsign
      cases hsign
    rw [hrules.scanLine_eq, (boundary_eq_ok_iff.1 ht).scanLine_eq,
      readLine_reserve words (isKeyword_reserve settings words)]
    show Renamed settings words _ (((readLine settings.isKeyword (s.lines + 1)
      (if s.inComment then .comment else .code) line).map _).map _)
    cases readLine settings.isKeyword (s.lines + 1) (if s.inComment then .comment else .code)
      line with
    | error e => exact .failed e
    | ok p =>
      obtain ⟨last₂, hseen, hlast₂⟩ := seeAll_reserve words hboth hlast₁ p.1
      have htokens : layout ++ shown (settings.reserve words) (p.1.map (Token.reserve words)) =
          (layout ++ shown settings p.1).map (Token.reserve words) := by
        rw [List.map_append, hlayout, shown_reserve]
      simp only [Except.map, hseen, htokens]
      exact .done hlast₂

/-- Lines keep it so. -/
theorem scanLines_reserve {s : State} {last : Option Kind}
    (hlast : last.any settings.continues = s.last.any settings.continues)
    (lines : List (List Char)) :
    Renamed settings words (scanLines settings s lines)
      (scanLines (settings.reserve words) { s with last := last } lines) := by
  induction lines generalizing s last with
  | nil => exact .done hlast
  | cons line lines ih =>
    have hline := scanLine_reserve words hboth hlast line
    rw [scanLines, scanLines]
    generalize scanLine settings s line = r,
      scanLine (settings.reserve words) { s with last := last } line = r' at hline
    cases hline with
    | failed e => exact .failed e
    | @done s₁ own last₁ hlast₁ =>
      have hmore := ih hlast₁
      simp only
      generalize scanLines settings s₁ lines = q,
        scanLines (settings.reserve words) { s₁ with last := last₁ } lines = q' at hmore
      cases hmore with
      | failed e => exact .failed e
      | @done s₂ more last₂ hlast₂ =>
        simp only [← List.map_append]
        exact .done hlast₂

end

/-! ### Programs -/

theorem closing_reserve (depth line column : Nat) :
    (closing depth line column).map (Token.reserve words) = closing depth line column := by
  refine map_reserve_of_ne words fun t ht hk => ?_
  rcases (of_mem_closing ht).1 with h | h
  · rw [h] at hk
    cases hk
  · rw [h] at hk
    cases hk

/-- Reserving words renames tokens and does nothing else. Let an identifier and a keyword at the end
of a line let a statement run on both or neither. Then the scan with further words reserved is the
scan without, where every identifier among these words has become a keyword with the same literal in
the same place; and it fails with the same error where the scan without them does. -/
theorem keywords_rename {settings : Settings}
    (hboth : settings.continues .identifier = settings.continues .keyword) (words : List String)
    (lines : List (List Char)) :
    scan (settings.reserve words) lines =
      (scan settings lines).map (List.map (Token.reserve words)) := by
  have hstart : State.start (settings.reserve words) = State.start settings := by
    rw [reserve_eq]
    rfl
  have hlast : (none : Option Kind).any settings.continues =
      (State.start settings).last.any settings.continues := rfl
  have hrun : Renamed settings words (scanLines settings (State.start settings) lines)
      (scanLines (settings.reserve words) (State.start settings) lines) :=
    scanLines_reserve words hboth hlast lines
  unfold scan
  rw [hstart]
  generalize scanLines settings (State.start settings) lines = r,
    scanLines (settings.reserve words) (State.start settings) lines = r' at hrun
  cases hrun with
  | failed e => rfl
  | @done s tokens last _ =>
    unfold State.close
    simp only
    cases s.inComment with
    | true => rfl
    | false =>
      show Except.ok (tokens.map _ ++ closing s.depth (max s.lines 1) (s.width + 1)) =
        .ok ((tokens ++ closing s.depth (max s.lines 1) (s.width + 1)).map _)
      rw [List.map_append, closing_reserve]

/-- Words of any shape are reserved here: one for a value, one of digits, one with a point in it,
the empty one and one that is a keyword already. Only `b` changes, and since identifiers and
keywords both let a statement run on, the last line still has no layout before it. -/
theorem keywords_rename_run_on :
    let settings : Settings := { extraContinuations := [.identifier, .keyword] }
    let words := ["b", "true", "12", "b.c", "", "if"]
    let lines := ["#b b".toList, "true 12".toList, "  a.b".toList, " b".toList]
    let before : List Token := [⟨.header, some (.string "b"), 1, 1⟩,
      ⟨.string, some (.string "b"), 1, 4⟩, ⟨.newline, none, 1, 5⟩,
      ⟨.boolean, some (.boolean true), 2, 1⟩, ⟨.integer, some (.integer 12), 2, 6⟩,
      ⟨.newline, none, 2, 8⟩, ⟨.indent, none, 3, 1⟩, ⟨.identifier, some (.string "a"), 3, 3⟩,
      ⟨.dot, none, 3, 4⟩]
    let after : List Token := [⟨.dedent, none, 4, 3⟩, ⟨.eof, none, 4, 3⟩]
    settings.continues .identifier = settings.continues .keyword ∧
      scan settings lines = .ok (before ++ [⟨.identifier, some (.string "b"), 3, 5⟩,
        ⟨.identifier, some (.string "b"), 4, 2⟩] ++ after) ∧
      scan (settings.reserve words) lines = .ok (before ++ [⟨.keyword, some (.string "b"), 3, 5⟩,
        ⟨.keyword, some (.string "b"), 4, 2⟩] ++ after) := by
  intro settings words lines before after
  have hboth : settings.continues .identifier = settings.continues .keyword := by decide
  have hscan : scan settings lines = .ok (before ++ [⟨.identifier, some (.string "b"), 3, 5⟩,
      ⟨.identifier, some (.string "b"), 4, 2⟩] ++ after) := by cbv
  refine ⟨hboth, hscan, ?_⟩
  rw [keywords_rename hboth words, hscan]
  rfl

end Scan

end Offside
