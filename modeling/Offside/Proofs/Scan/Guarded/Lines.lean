import Offside.Proofs.Scan.Guarded.Rounds

/-!
# `Offside.Proofs.Scan.Guarded.Lines`: the rounds over a whole line

A round of the main loop is not always one step of the plain reading. A header takes all of its
arguments with it, and a block comment everything up to its end. `RoundReads` is wide enough for all
of them: a round halts with the fault of the rest of the line, or it takes lexemes that this begins
with, leaves a shorter rest and goes on in a mode that suits the comment. From it
`lineRounds_follow` is an induction on the length of the rest.

Among the arguments of a header the machine remembers where an unquoted word began and cuts it out
when the word has ended. `Pending` is that word: it stands in front of what is left, so
`arguments_follow` reads the word and the rest as one text, and the place where it is cut out is in
order.
-/

set_option autoImplicit false

namespace Offside.Scan.Guarded

open Offside.Text

variable {settings : Settings} {m m₁ m' : Machine} {c : Char} {text rest pending : List Char}
  {word : Option Nat} {found : List Placed}

/-- A line is read by one step and then from what that leaves. -/
theorem lexemes_cons_bind (isKeyword : String → Bool) (mode : Mode) (c : Char) (text : List Char) :
    lexemes isKeyword mode (c :: text) = step isKeyword mode c text >>= fun s =>
      (lexemes isKeyword s.mode s.rest).map
        (fun p => (placeFirst s.lexeme (c :: text) p.1, p.2)) := by
  rw [lexemes_cons]
  cases step isKeyword mode c text <;> rfl

/-! ### Headers -/

/-- The unquoted word of a header that is read: it stands in front of the rest of the line, unless
there is none. -/
inductive Pending (m : Machine) (rest : List Char) : Option Nat → List Char → Prop
  | none : Pending m rest none []
  | some {start : Nat} {pending : List Char} :
      m.row.At start (pending ++ rest) → pending ≠ [] → (∀ c ∈ pending, isHeaderChar c = true) →
      Pending m rest (some start) pending

/-- The word goes on as long as the characters can be in it. -/
theorem Pending.concat (hpending : Pending m (c :: text) word pending)
    (h : m.row.At m.cursor (c :: text)) (hc : isHeaderChar c = true) :
    Pending { m with cursor := m.cursor + 1 } text (.some (word.getD m.cursor))
      (pending ++ [c]) := by
  cases hpending with
  | none => exact .some h (by simp) (by simpa using hc)
  | some hat hne hall =>
    refine .some (by simpa using hat) (by simp) ?_
    intro d hd
    rcases List.mem_append.1 hd with hd | hd
    · exact hall d hd
    · rw [List.mem_singleton.1 hd]
      exact hc

/-- Where the word stops it is taken as an argument. -/
theorem Pending.endArgument (settings : Settings) (hpending : Pending m rest word pending)
    (h : m.row.At m.cursor rest) (hstop : StopsAt isHeaderChar rest) :
    ∃ found m₁, m.endArgument word = .ok m₁ ∧ Took settings found m m₁ ∧
      m₁.cursor = m.cursor ∧ m₁.comment = m.comment ∧
      lexemes settings.isKeyword .header (pending ++ rest) =
        (lexemes settings.isKeyword .header rest).map (fun p => (found ++ p.1, p.2)) := by
  cases hpending with
  | none =>
    refine ⟨[], m, rfl, took_nil settings m _ _, rfl, rfl, ?_⟩
    show lexemes settings.isKeyword .header rest = _
    cases lexemes settings.isKeyword .header rest <;> rfl
  | @some start pending hat hne hall =>
    have hrun : MaximalRun isHeaderChar [] pending rest := ⟨hne, hall, by simp, hstop⟩
    refine ⟨_, _, ?_, (took_nil settings m m.cursor m.comment).push hat
      (l := ⟨.string, .some (.string (String.ofList pending))⟩) rfl, rfl, rfl, ?_⟩
    · show (m.row.slice start m.cursor >>= _) = _
      rw [hat.slice_eq h]
      rfl
    · exact lexemes_append (.argument (.bare hrun))

/-- A machine has followed the rest of a header, up to the end of the line. -/
structure HeaderRead (settings : Settings) (m : Machine) (p : List Placed × Mode) (m' : Machine) :
    Prop where
  took : Took settings p.1 m m'
  mode_eq : p.2 = .header
  stands : m.row.At m'.cursor []
  comment_eq : m'.comment = m.comment

theorem HeaderRead.behind {p : List Placed × Mode} (htook : Took settings found m m₁)
    (hcomment : m₁.comment = m.comment) (h : HeaderRead settings m₁ p m') :
    HeaderRead settings m (found ++ p.1, p.2) m' where
  took := htook.trans h.took
  mode_eq := h.mode_eq
  stands := htook.row_eq ▸ h.stands
  comment_eq := h.comment_eq.trans hcomment

/-- A quoted argument becomes a string, whichever quotes it has. -/
theorem quotedArgument_keeps (h : m.row.At m.cursor (c :: text)) (hc : c = '"' ∨ c = '\'') :
    Follows m.row.report (Keeps settings m .header (c :: text)) (stepHeader c text)
      (m.quotedArgument c) := by
  rcases hc with rfl | rfl
  · have hquoted : m.quotedArgument '"' = m.row.stringLiteral m.cursor >>= fun p =>
        .ok ({ m with cursor := p.2 }.push ⟨.string, some (.string p.1)⟩ m.cursor) := rfl
    rw [hquoted, stepHeader, if_neg (by decide), if_neg (by decide), if_pos rfl]
    exact stepQuote_keeps _ h (Row.stringLiteral_follows h) fun _ _ _ => rfl
  · have hquoted : m.quotedArgument '\'' = m.row.characterLiteral m.cursor >>= fun p =>
        .ok ({ m with cursor := p.2 }.push ⟨.string, some (.string p.1.toString)⟩ m.cursor) := by
      show (m.row.characterLiteral m.cursor >>= fun p => _) >>= _ = _
      cases m.row.characterLiteral m.cursor <;> rfl
    rw [hquoted, stepHeader, if_neg (by decide), if_pos rfl]
    exact stepQuote_keeps _ h (Row.characterLiteral_follows h) fun _ _ _ => rfl

/-- One round over the arguments of a header, where a character is at the cursor. -/
theorem argumentRound_eq (h : m.row.At m.cursor (c :: text)) (word : Option Nat) :
    Machine.argumentRound (m, word) =
      if c = '"' ∨ c = '\'' then
        m.endArgument word >>= fun m => m.quotedArgument c >>= fun m => .ok (.again (m, none))
      else if isBlank c then
        m.endArgument word >>= fun m => m.advance 1 >>= fun m => .ok (.again (m, none))
      else m.advance 1 >>= fun m₁ => .ok (.again (m₁, some (word.getD m.cursor))) := by
  unfold Machine.argumentRound
  rw [h.peek_eq]
  rfl

/-- A character that can be in an unquoted word is one more of the pending word. -/
theorem argumentRound_of_isHeaderChar (h : m.row.At m.cursor (c :: text))
    (hc : isHeaderChar c = true) (word : Option Nat) :
    Machine.argumentRound (m, word) =
      .ok (.again ({ m with cursor := m.cursor + 1 }, some (word.getD m.cursor))) := by
  simp only [isHeaderChar, Bool.and_eq_true, Bool.not_eq_true', bne_iff_ne] at hc
  obtain ⟨⟨hblank, hdouble⟩, hsingle⟩ := hc
  rw [argumentRound_eq h, if_neg (by tauto), if_neg (by simp [hblank]), Machine.advance_one h]
  rfl

/-- Any other character ends the pending word and is read itself, alone or with what it quotes. -/
theorem argumentRound_of_stop (settings : Settings) (h : m.row.At m.cursor (c :: text))
    (hc : isHeaderChar c = false) (hend : m.endArgument word = .ok m₁)
    (hat : m₁.row.At m₁.cursor (c :: text)) :
    ∃ y, Machine.argumentRound (m, word) = (y >>= fun m => .ok (.again (m, none))) ∧
      Follows m₁.row.report (Keeps settings m₁ .header (c :: text)) (stepHeader c text) y := by
  rw [argumentRound_eq h, hend, ok_bind, ok_bind]
  by_cases hquote : c = '"' ∨ c = '\''
  · rw [if_pos hquote]
    exact ⟨_, rfl, quotedArgument_keeps hat hquote⟩
  · have hblank : isBlank c = true := by
      rw [not_or] at hquote
      simpa [isHeaderChar, hquote] using hc
    rw [if_neg hquote, if_pos hblank, stepHeader, if_pos hblank]
    exact ⟨_, rfl, advance_keeps settings .header hat⟩

/-- What the loop over the arguments leaves: a machine that has followed the header once the word
that is pending there is added. -/
def ArgumentsRead (settings : Settings) (m : Machine) (p : List Placed × Mode)
    (s : Machine × Option Nat) : Prop :=
  ∃ m', s.1.endArgument s.2 = .ok m' ∧ HeaderRead settings m p m'

theorem ArgumentsRead.behind {p : List Placed × Mode} {s : Machine × Option Nat}
    (htook : Took settings found m m₁) (hcomment : m₁.comment = m.comment)
    (h : ArgumentsRead settings m₁ p s) : ArgumentsRead settings m (found ++ p.1, p.2) s := by
  obtain ⟨m', hend, hread⟩ := h
  exact ⟨m', hend, hread.behind htook hcomment⟩

/-- The arguments of a header are read to the end of the line. -/
theorem arguments_follow (settings : Settings) (hpending : Pending m text word pending)
    (h : m.row.At m.cursor text) {r : Row} (hrow : m.row = r) :
    Follows r.report (ArgumentsRead settings m)
      (lexemes settings.isKeyword .header (pending ++ text))
      (loop (fun s => s.1.cursor) r.chars.length Machine.argumentRound (m, word)) := by
  -- A quoted argument takes many characters at once, so the induction is on the length.
  induction hn : text.length using Nat.strongRecOn generalizing m word pending text with
  | _ n ih =>
    by_cases hchar : ∃ c rest, text = c :: rest ∧ isHeaderChar c = true
    · -- The character moves from the rest to the word, and the text of both is the same.
      obtain ⟨c, text, rfl, hc⟩ := hchar
      have hround := argumentRound_of_isHeaderChar h hc word
      have hmore := ih text.length (by rw [← hn]; exact Nat.lt_succ_self _)
        (hpending.concat h hc) h.tail hrow rfl
      rw [List.append_assoc, List.singleton_append] at hmore
      rw [loop_of_again hround (Nat.lt_succ_self _) (hrow ▸ h.tail.le)]
      exact hmore.imp fun _ _ hread =>
        hread.behind (took_nil settings m (m.cursor + 1) m.comment) rfl
    have hstop : StopsAt isHeaderChar text := by
      cases text with
      | nil => simp
      | cons c text => simpa using hchar
    obtain ⟨found, m₁, hend, htook, hcursor, hcomment, hlex⟩ :=
      hpending.endArgument settings h hstop
    have hat : m₁.row.At m₁.cursor text := by
      rw [htook.row_eq, hcursor]
      exact h
    rw [hlex]
    cases text with
    | nil =>
      have hround : Machine.argumentRound (m, word) = .ok (.leave (m, word)) := by
        unfold Machine.argumentRound
        rw [h.peek_eq]
        rfl
      have hread : HeaderRead settings m₁ ([], .header) m₁ :=
        ⟨took_nil settings m₁ _ _, rfl, hat, rfl⟩
      rw [loop_of_leave hround, lexemes]
      exact .ok ⟨m₁, hend, hread.behind htook hcomment⟩
    | cons c text =>
      have hc : isHeaderChar c = false := by simpa using hstop
      obtain ⟨y, hround, hkeeps⟩ := argumentRound_of_stop settings h hc hend hat
      rw [htook.row_eq, hrow] at hkeeps
      refine Follows.map ?_ fun _ _ hread => ArgumentsRead.behind htook hcomment hread
      rw [lexemes_cons_bind]
      refine Follows.loop (fun m => (m, none)) hround hkeeps ?_
      intro s m₂ hs hkeeps
      have hrow₂ : m₂.row = r := (hkeeps.took.row_eq.trans htook.row_eq).trans hrow
      have hstands : m₂.row.At m₂.cursor s.rest := by
        rw [hkeeps.took.row_eq]
        exact hkeeps.stands
      have hsuffix := stepHeader_suffix hs
      have hlt : m.cursor < m₂.cursor := by
        rw [← hcursor]
        exact hat.lt_of_suffix hkeeps.stands hsuffix
      have hless : s.rest.length < n := by
        have := hsuffix.length_le
        rw [← hn, List.length_cons]
        omega
      have hmore := ih s.rest.length hless .none hstands hrow₂ rfl
      rw [List.nil_append, ← hkeeps.mode_eq] at hmore
      refine ⟨hlt, hrow₂ ▸ hstands.le, hmore.map fun p t hread => ?_⟩
      rw [placeFirst_append]
      exact hread.behind hkeeps.took hkeeps.comment_eq

theorem arguments_none_follow (settings : Settings) (h : m.row.At m.cursor text) :
    Follows m.row.report (HeaderRead settings m) (lexemes settings.isKeyword .header text)
      (m.arguments none) := by
  have hloop := arguments_follow settings .none h rfl
  rw [List.nil_append] at hloop
  exact hloop.andThen fun _ _ hread => hread

theorem stepCode_hash (isKeyword : String → Bool) (text : List Char) :
    stepCode isKeyword '#' text =
      if (text.takeWhile isHeaderChar).isEmpty then .error ⟨.emptyHeader, '#' :: text⟩
      else .ok ⟨some ⟨.header, some (.string (String.ofList (text.takeWhile isHeaderChar)))⟩,
        .header, text.dropWhile isHeaderChar⟩ := by
  rw [stepCode, if_neg (by decide), if_neg (by decide), if_neg (by decide), if_pos rfl]

/-- A header takes the rest of its line. -/
theorem header_follows (settings : Settings) (h : m.row.At m.cursor ('#' :: text)) :
    Follows m.row.report (HeaderRead settings m)
      (lexemes settings.isKeyword .code ('#' :: text)) m.header := by
  obtain ⟨next, hloop, hnext, hat⟩ := Row.nameRounds h.tail
  have hstep : step settings.isKeyword .code '#' text = _ := stepCode_hash _ text
  rw [lexemes_cons_bind, hstep]
  unfold Machine.header
  rw [h.advance_one, ok_bind, hloop, ok_bind]
  have hsplit := List.takeWhile_append_dropWhile (p := isHeaderChar) (l := text)
  generalize text.takeWhile isHeaderChar = name at hnext hsplit
  generalize text.dropWhile isHeaderChar = rest at hat hsplit
  subst hsplit
  cases name with
  | nil =>
    rw [if_pos (List.isEmpty_nil), if_pos (by simpa using hnext)]
    exact h.follows_fail _
  | cons c name =>
    have hmoved : next ≠ m.cursor + 1 := by
      simp only [List.length_cons] at hnext
      omega
    rw [if_neg (by simp), if_neg hmoved, ok_bind, h.tail.slice_eq hat, ok_bind]
    let l : Lexeme := ⟨.header, some (.string (String.ofList (c :: name)))⟩
    have htook := (took_nil settings m next m.comment).push h (l := l) rfl
    refine (arguments_none_follow settings (m := { m with cursor := next }.push l m.cursor)
      hat).map ?_
    intro p m' hread
    rw [placeFirst_append]
    exact hread.behind htook rfl

/-! ### One round over a line -/

/-- What a round comes to, in front of a text that is read in a mode. It halts with the fault of the
text, or it takes lexemes that the text begins with and moves on. -/
inductive RoundReads (settings : Settings) (m : Machine) (mode : Mode) (text : List Char) :
    Except Halt Machine → Prop
  | fault {f : Fault} :
      lexemes settings.isKeyword mode text = .error f →
      RoundReads settings m mode text (.error (.error (m.row.report f)))
  | took {found : List Placed} {next : Mode} {rest : List Char} {m' : Machine} :
      lexemes settings.isKeyword mode text =
        (lexemes settings.isKeyword next rest).map (fun p => (found ++ p.1, p.2)) →
      Took settings found m m' → m.row.At m'.cursor rest → Suits m'.comment next rest →
      rest.length < text.length → RoundReads settings m mode text (.ok m')

/-- A round that follows one step. -/
theorem RoundReads.of_lands {mode : Mode} {y : Except Halt Machine}
    (h : Follows m.row.report (Lands settings m (c :: text))
      (step settings.isKeyword mode c text) y) : RoundReads settings m mode (c :: text) y := by
  have hlex := lexemes_cons_bind settings.isKeyword mode c text
  cases hstep : step settings.isKeyword mode c text with
  | error f =>
    rw [hstep] at h hlex
    cases h
    exact .fault hlex
  | ok s =>
    rw [hstep] at h hlex
    cases h with
    | ok hlands =>
      rw [ok_bind] at hlex
      simp only [placeFirst_append s.lexeme _ (Prod.fst _)] at hlex
      refine .took hlex hlands.took hlands.stands hlands.suits ?_
      exact Nat.lt_succ_of_le (step_suffix hstep).length_le

/-- A round that reads a header. -/
theorem RoundReads.of_header {y : Except Halt Machine} (hcomment : m.comment = .normal)
    (h : Follows m.row.report (HeaderRead settings m)
      (lexemes settings.isKeyword .code (c :: text)) y) :
    RoundReads settings m .code (c :: text) y := by
  cases hlex : lexemes settings.isKeyword .code (c :: text) with
  | error f =>
    rw [hlex] at h
    cases h
    exact .fault hlex
  | ok p =>
    rw [hlex] at h
    cases h with
    | ok hread =>
      have hmore : lexemes settings.isKeyword .code (c :: text) =
          (lexemes settings.isKeyword .header []).map (fun q => (p.1 ++ q.1, q.2)) := by
        rw [hlex, lexemes, ← hread.mode_eq]
        show _ = Except.ok (p.1 ++ [], p.2)
        rw [List.append_nil]
      refine .took hmore hread.took hread.stands ?_ ?_
      · rw [hread.comment_eq, hcomment]
        exact .header
      · exact Nat.succ_pos _

theorem codeRound_reads (h : m.row.At m.cursor (c :: text)) (hcomment : m.comment = .normal) :
    RoundReads settings m .code (c :: text) (m.codeRound settings c) := by
  by_cases hc : c = '#'
  · subst hc
    exact .of_header hcomment (header_follows settings h)
  · exact .of_lands (codeRound_lands h hcomment hc)

/-! ### Block comments -/

theorem minus_add (a b : Nat) : minus (a + b) b = .ok a := by
  unfold minus
  rw [if_pos (Nat.le_add_left b a), Nat.add_sub_cancel]

/-- The end of a block comment leaves its loop, anything else is passed by. -/
theorem blockRound_eq (settings : Settings) (h : m.row.At m.cursor (c :: text)) :
    Machine.blockRound settings m =
      if c = '*' ∧ text.head? = some '/' then
        .ok (.leave ({ m with cursor := m.cursor + 2, comment := .normal }.mark settings
          .flexCommentEnd m.cursor))
      else .ok (.again { m with cursor := m.cursor + 1 }) := by
  unfold Machine.blockRound
  rw [h.peek_eq, List.head?_cons]
  simp only [Machine.advance_one h, ok_bind, h.tail.peek_eq]
  by_cases hclose : c = '*' ∧ text.head? = some '/'
  · obtain ⟨rest, rfl⟩ := List.head?_eq_some_iff.1 hclose.2
    rw [if_pos hclose, if_pos hclose, Machine.advance_behind h, ok_bind]
    unfold Machine.mark
    split
    · rw [minus_add m.cursor 2]
      rfl
    · rfl
  · rw [if_neg hclose, if_neg hclose]
    rfl

/-- A character of a block comment that does not begin its end says nothing. -/
theorem lexemes_commentChar (isKeyword : String → Bool)
    (hclose : ¬(c = '*' ∧ text.head? = some '/')) :
    lexemes isKeyword .comment (c :: text) = lexemes isKeyword .comment text := by
  have hmark : ¬ ['*', '/'] <+: c :: text := by
    intro hpre
    obtain ⟨hc, hnext⟩ := pair_of_prefix hpre
    exact hclose ⟨hc.symm, hnext⟩
  have hfirst := lexemes_append (.blockBody hmark : Reads isKeyword [] .comment [c] text none _)
  rw [List.singleton_append] at hfirst
  rw [hfirst]
  cases lexemes isKeyword .comment text <;> rfl

/-- A round that goes on behind a character that says nothing. -/
theorem RoundReads.behind {mode : Mode} {y : Except Halt Machine} (htook : Took settings [] m m₁)
    (hlex : lexemes settings.isKeyword mode (c :: text) = lexemes settings.isKeyword mode text)
    (h : RoundReads settings m₁ mode text y) : RoundReads settings m mode (c :: text) y := by
  cases h with
  | fault hfault =>
    rw [htook.row_eq]
    exact .fault (hlex.trans hfault)
  | took hmore htook₂ hstands hsuits hless =>
    rw [htook.row_eq] at hstands
    exact .took (hlex.trans hmore) (htook.trans htook₂) hstands hsuits (Nat.lt_succ_of_lt hless)

/-- A block comment is read to its end, or to the end of the line. -/
theorem blockComment_reads (h : m.row.At m.cursor (c :: text)) (hcomment : m.comment = .block) :
    RoundReads settings m .comment (c :: text) (m.blockComment settings) := by
  unfold Machine.blockComment
  induction text generalizing c m with
  | nil =>
    have hround := blockRound_eq settings h
    rw [if_neg (by simp)] at hround
    have hend : Machine.blockRound settings { m with cursor := m.cursor + 1 } =
        .ok (.leave { m with cursor := m.cursor + 1 }) := by
      unfold Machine.blockRound
      rw [h.tail.peek_eq]
      rfl
    rw [loop_of_again hround (Nat.lt_succ_self _) h.tail.le, loop_of_leave hend]
    have hmore : lexemes settings.isKeyword .comment [c] =
        (lexemes settings.isKeyword .comment []).map (fun p => ([] ++ p.1, p.2)) := by
      rw [lexemes_commentChar _ (by simp), lexemes]
      rfl
    refine .took hmore (took_nil settings m _ _) h.tail ?_ (Nat.succ_pos _)
    rw [hcomment]
    exact .comment
  | cons d text ih =>
    have hround := blockRound_eq settings h
    by_cases hclose : c = '*' ∧ (d :: text).head? = some '/'
    · rw [if_pos hclose] at hround
      obtain ⟨rfl, hd⟩ := hclose
      cases hd
      rw [loop_of_leave hround]
      have hmore : lexemes settings.isKeyword .comment ('*' :: '/' :: text) =
          (lexemes settings.isKeyword .code text).map
            (fun p => ([⟨⟨.flexCommentEnd, none⟩, '*' :: '/' :: text⟩] ++ p.1, p.2)) :=
        lexemes_append (.blockClose : Reads settings.isKeyword [] .comment ['*', '/'] text _ _)
      refine .took hmore ((took_nil settings m _ _).mark h rfl) ?_ ?_ ?_
      · rw [Machine.mark_cursor]
        exact h.tail.tail
      · rw [Machine.mark_comment]
        exact .code
      · simp only [List.length_cons]
        omega
    · rw [if_neg hclose] at hround
      rw [loop_of_again hround (Nat.lt_succ_self _) h.tail.le]
      exact (ih (m := { m with cursor := m.cursor + 1 }) h.tail hcomment).behind
        (took_nil settings m _ _) (lexemes_commentChar _ hclose)

/-! ### The main loop -/

/-- One round over a line, where a character is at the cursor. -/
theorem lineRound_reads (settings : Settings) {mode : Mode} (h : m.row.At m.cursor (c :: text))
    (hsuits : Suits m.comment mode (c :: text)) :
    ∃ y, Machine.lineRound settings m = (y >>= fun m => .ok (.again m)) ∧
      RoundReads settings m mode (c :: text) y := by
  have hpeek : m.row.peek m.cursor = some c := h.peek_eq
  unfold Machine.lineRound
  rw [hpeek]
  generalize hcomment : m.comment = comment at hsuits
  cases hsuits with
  | code => exact ⟨_, rfl, codeRound_reads h hcomment⟩
  | comment => exact ⟨_, rfl, blockComment_reads h hcomment⟩

/-- A machine has followed the rest of a line. -/
structure LineRead (settings : Settings) (m : Machine) (p : List Placed × Mode) (m' : Machine) :
    Prop where
  took : Took settings p.1 m m'
  comment_iff : m'.comment = .block ↔ p.2 = .comment

/-- The rounds over the rest of a line follow its lexemes. -/
theorem lineRounds_follow {mode : Mode} (h : m.row.At m.cursor text)
    (hsuits : Suits m.comment mode text) {r : Row} (hrow : m.row = r) :
    Follows r.report (LineRead settings m) (lexemes settings.isKeyword mode text)
      (loop Machine.cursor r.chars.length (Machine.lineRound settings) m) := by
  -- A round takes as much as a whole header or comment, so the induction is on the length.
  induction hn : text.length using Nat.strongRecOn generalizing m mode text with
  | _ n ih =>
    cases text with
    | nil =>
      have hround : Machine.lineRound settings m = .ok (.leave m) := by
        unfold Machine.lineRound
        rw [h.peek_eq]
        rfl
      rw [loop_of_leave hround, lexemes]
      exact .ok ⟨took_nil settings m _ _, hsuits.block_iff⟩
    | cons c text =>
      obtain ⟨y, hround, hreads⟩ := lineRound_reads settings h hsuits
      cases hreads with
      | fault hfault =>
        rw [loop_of_error hround, hfault, hrow]
        exact .error _
      | @took found next rest m₁ hmore htook hstands hsuits₁ hless =>
        have hrow₁ : m₁.row = r := htook.row_eq.trans hrow
        have hat : m₁.row.At m₁.cursor rest := htook.row_eq ▸ hstands
        have hlt : m.cursor < m₁.cursor := by
          have hlen := h.length_eq
          have hlen₁ := hstands.length_eq
          omega
        rw [loop_of_again hround hlt (hrow₁ ▸ hat.le), hmore]
        refine (ih rest.length (hn ▸ hless) hat hsuits₁ hrow₁ rfl).map ?_
        intro p m' hread
        exact ⟨htook.trans hread.took, hread.comment_iff⟩

end Offside.Scan.Guarded
