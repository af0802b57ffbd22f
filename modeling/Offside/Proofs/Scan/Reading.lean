import Offside.Proofs.Scan.Literals
import Offside.Proofs.Scan.Words

/-!
# `Offside.Proofs.Scan.Reading`: lines are read by the grammar

`step` and `lexemes` read a line from left to right; `Reads` and `LineReads` say what it
looks like. They agree:

* `reads_of_step`: what a step takes is a piece of the grammar, as long as the text before it
  does not end in the middle of a run (`Apart`). `Reads.apart` says that no piece ends there.
* `Reads.step_eq_ok`: every piece of the grammar is taken by one step.
* `lexemes_eq_ok_iff`: a line is read exactly as `LineReads` describes it.
* `linesEnd_unique`: the mode at the end of a row of lines is determined by its text.
-/

set_option autoImplicit false

namespace Offside.Scan

open Offside.Text

/-! ### Runs that are not cut -/

/-- The characters that make runs in a mode: those of words in code, and those of bare
arguments behind a header. -/
def Mode.isRunChar : Mode → Char → Bool
  | .code => isWordChar
  | .header => isHeaderChar
  | .comment => fun _ => false

/-- No run goes on across the place between two texts. -/
def Apart (mode : Mode) (before after : List Char) : Prop :=
  ∀ c ∈ before.getLast?, ∀ d ∈ after.head?, mode.isRunChar c = true → mode.isRunChar d = false

theorem apart_nil (mode : Mode) (after : List Char) : Apart mode [] after := by simp [Apart]

/-- Where a run begins, the character before is none of it. -/
theorem Apart.left {mode : Mode} {before text : List Char} {c : Char}
    (h : Apart mode before (c :: text)) (hc : mode.isRunChar c = true) :
    ∀ d ∈ before.getLast?, mode.isRunChar d = false := by
  intro d hd
  cases hr : mode.isRunChar d with
  | false => rfl
  | true =>
    have := h d hd c rfl hr
    rw [hc] at this
    cases this

/-- A piece that ends in a character of no run is apart from what follows. -/
theorem apart_of_getLast? {mode : Mode} {before text after : List Char} {c : Char}
    (hlast : text.getLast? = some c) (hc : mode.isRunChar c = false) :
    Apart mode (before ++ text) after := by
  intro d hd _ _ hr
  rw [List.getLast?_append, hlast] at hd
  cases hd
  rw [hc] at hr
  cases hr

theorem apart_of_stopsAt {mode : Mode} {before after : List Char}
    (h : StopsAt mode.isRunChar after) : Apart mode before after :=
  fun _ _ d hd _ => h d hd

/-- No sign begins or ends with a character of words, and none opens a header. -/
theorem sign_ends {s : Sign} (h : s ∈ signs) :
    (∃ c, s.spelling.getLast? = some c ∧ isWordChar c = false) ∧
      s.lexeme.modeBehind = .code := by
  have all : ∀ t ∈ signs, t.spelling.getLast?.any (!isWordChar ·) = true ∧
      t.lexeme.modeBehind = .code := by decide
  obtain ⟨hlast, hmode⟩ := all s h
  obtain ⟨c, hc, hword⟩ := (Option.any_eq_true _ _).1 hlast
  exact ⟨⟨c, hc, by simpa using hword⟩, hmode⟩

theorem SpellsWord.ends {isKeyword : String → Bool} {before text after : List Char}
    {l : Lexeme} (h : SpellsWord isKeyword before text after l) :
    StopsAt isWordChar after ∧ l.modeBehind = .code := by
  cases h with
  | boolean _ hrun _ => exact ⟨hrun.right, rfl⟩
  | null hrun _ => exact ⟨hrun.right, rfl⟩
  | keyword hrun _ _ _ => exact ⟨hrun.right, rfl⟩
  | identifier hrun _ _ _ => exact ⟨hrun.right, rfl⟩
  | integer hrun _ _ _ => exact ⟨hrun.right, rfl⟩
  | decimal _ _ _ _ hstop _ => exact ⟨hstop, rfl⟩

theorem Spells.apart {isKeyword : String → Bool} {before text after : List Char}
    {l : Lexeme} (h : Spells isKeyword before text after l) :
    Apart l.modeBehind (before ++ text) after := by
  cases h with
  | word hw =>
    obtain ⟨hstop, hmode⟩ := hw.ends
    rw [hmode]
    exact apart_of_stopsAt hstop
  | character hx =>
    obtain ⟨-, hstop⟩ := hx
    exact apart_of_stopsAt hstop
  | string hs =>
    obtain ⟨-, hstop⟩ := hs
    exact apart_of_stopsAt hstop
  | sign hs =>
    obtain ⟨⟨c, hlast, hc⟩, hmode⟩ := sign_ends hs.mem
    rw [hmode]
    exact apart_of_getLast? (hs.spelling ▸ hlast) hc
  | header _ _ _ hstop => exact apart_of_stopsAt hstop

theorem IsCharacter.getLast? {after text : List Char} {x : Char}
    (h : IsCharacter after text x) : text.getLast? = some '\'' := by
  cases h with
  | mk _ _ =>
    rw [← List.cons_append]
    exact List.getLast?_concat

theorem IsString.getLast? {after text : List Char} {s : String}
    (h : IsString after text s) : text.getLast? = some '"' := by
  cases h with
  | mk _ _ =>
    rw [← List.cons_append]
    exact List.getLast?_concat

theorem SpellsArgument.apart {before text after : List Char} {l : Lexeme}
    (h : SpellsArgument before text after l) : Apart .header (before ++ text) after := by
  cases h with
  | bare hrun => exact apart_of_stopsAt hrun.right
  | character hx => exact apart_of_getLast? hx.getLast? (by decide)
  | string hs => exact apart_of_getLast? hs.getLast? (by decide)

/-- Behind every piece of a line no run goes on. -/
theorem Reads.apart {isKeyword : String → Bool} {before text after : List Char}
    {mode next : Mode} {l : Option Lexeme} (h : Reads isKeyword before mode text after l next) :
    Apart next (before ++ text) after := by
  cases h with
  | blank hc => exact apart_of_getLast? rfl (isWordChar_of_isBlank hc)
  | lexeme hl => exact hl.apart
  | lineComment => exact apart_of_stopsAt (stopsAt_nil _)
  | blockOpen => exact fun _ _ _ _ h => by cases h
  | blockBody _ => exact fun _ _ _ _ h => by cases h
  | blockClose => exact apart_of_getLast? rfl (by decide)
  | argumentBlank hc =>
    exact apart_of_getLast? rfl (by simp [Mode.isRunChar, isHeaderChar, hc])
  | argument hl => exact hl.apart

/-! ### What a step takes is a piece of the grammar -/

theorem stepQuote_eq_ok {α : Type} {mode : Mode} {lexeme : α → Lexeme}
    {r : Except Fault (α × List Char)} {s : Step} (h : stepQuote mode lexeme r = .ok s) :
    ∃ a rest, r = .ok (a, rest) ∧ s = ⟨some (lexeme a), mode, rest⟩ := by
  cases r with
  | error f => simp [stepQuote, Except.map] at h
  | ok p =>
    cases Except.ok.inj h
    exact ⟨p.1, p.2, rfl, rfl⟩

theorem stepQuote_eq_error {α : Type} {mode : Mode} {lexeme : α → Lexeme}
    {r : Except Fault (α × List Char)} {fault : Fault}
    (h : stepQuote mode lexeme r = .error fault) : r = .error fault := by
  cases r with
  | error f =>
    cases h
    rfl
  | ok p => cases h

/-- What the reader of words and numbers takes is a piece of code. -/
theorem reads_of_word {isKeyword : String → Bool} {before text rest : List Char} {c : Char}
    {l : Lexeme} (hapart : Apart .code before (c :: text)) (hc : isWordChar c = true)
    (h : word isKeyword (c :: text) = .ok (l, rest)) :
    ∃ taken, c :: text = taken ++ rest ∧
      Reads isKeyword before .code taken rest (some l) .code := by
  obtain ⟨taken, htext, hspells⟩ := spellsWord_of_word hc (hapart.left hc) h
  have hreads : Reads isKeyword before .code taken rest (some l) l.modeBehind :=
    .lexeme (.word hspells)
  rw [hspells.ends.2] at hreads
  exact ⟨taken, htext, hreads⟩

/-- What the table of signs finds is a piece of code, where no mark of a comment stands. -/
theorem reads_of_sign? {isKeyword : String → Bool} {before text : List Char} {s : Sign}
    (hmarks : ∀ mark ∈ commentMarks, ¬ mark <+: text) (h : sign? text = some s) :
    ∃ taken, text = taken ++ text.drop s.spelling.length ∧
      Reads isKeyword before .code taken (text.drop s.spelling.length) (some s.lexeme) .code := by
  obtain ⟨htext, hsign⟩ := isSign_of_sign? h hmarks
  have hreads : Reads isKeyword before .code s.spelling (text.drop s.spelling.length)
      (some s.lexeme) s.lexeme.modeBehind := .lexeme (.sign hsign)
  rw [(sign_ends hsign.mem).2] at hreads
  exact ⟨s.spelling, htext, hreads⟩

/-- A step in code takes a piece of code. -/
theorem reads_of_stepCode {isKeyword : String → Bool} {before text : List Char} {c : Char}
    {s : Step} (hapart : Apart .code before (c :: text))
    (h : stepCode isKeyword c text = .ok s) :
    ∃ taken, c :: text = taken ++ s.rest ∧
      Reads isKeyword before .code taken s.rest s.lexeme s.mode := by
  unfold stepCode at h
  split at h
  · rename_i hc
    cases h
    exact ⟨[c], rfl, .blank hc⟩
  -- The two kinds of literals.
  split at h
  · rename_i hc
    subst hc
    obtain ⟨x, rest, hr, rfl⟩ := stepQuote_eq_ok h
    obtain ⟨taken, htext, hx⟩ := character_eq_ok_iff.1 hr
    exact ⟨taken, htext, .lexeme (.character hx)⟩
  split at h
  · rename_i hc
    subst hc
    obtain ⟨x, rest, hr, rfl⟩ := stepQuote_eq_ok h
    obtain ⟨taken, htext, hx⟩ := string_eq_ok_iff.1 hr
    exact ⟨taken, htext, .lexeme (.string hx)⟩
  -- A header's name is what stands behind the `#`.
  split at h
  · rename_i hc
    subst hc
    simp only at h
    split at h
    · simp at h
    · rename_i hname
      cases h
      refine ⟨'#' :: text.takeWhile isHeaderChar, ?_, .lexeme (.header rfl ?_ ?_ ?_)⟩
      · rw [List.cons_append, List.takeWhile_append_dropWhile]
      · simpa using hname
      · exact all_of_mem_takeWhile
      · exact stopsAt_dropWhile _ _
  -- The marks of comments, of which the closing one is a fault here.
  split at h
  · rename_i hmark
    cases h
    obtain ⟨body, hbody⟩ := List.isPrefixOf_iff_prefix.1 hmark
    exact ⟨'/' :: '/' :: body, by simpa using hbody.symm, .lineComment⟩
  rename_i hline
  split at h
  · rename_i hmark
    cases h
    obtain ⟨body, hbody⟩ := List.isPrefixOf_iff_prefix.1 hmark
    obtain ⟨rfl, rfl⟩ := List.cons.inj hbody
    exact ⟨['/', '*'], rfl, .blockOpen⟩
  rename_i hopen
  split at h
  · simp at h
  rename_i hclose
  split at h
  · rename_i hc
    cases hw : word isKeyword (c :: text) with
    | error f => simp [hw, Except.map] at h
    | ok p =>
      rw [hw] at h
      cases Except.ok.inj h
      exact reads_of_word hapart hc hw
  · split at h
    · rename_i sign hs
      cases h
      have hmarks : ∀ mark ∈ commentMarks, ¬ mark <+: c :: text := by
        simp only [commentMarks, List.mem_cons, List.not_mem_nil, or_false,
          ← List.isPrefixOf_iff_prefix]
        rintro mark (rfl | rfl | rfl)
        · exact hline
        · exact hopen
        · exact hclose
      exact reads_of_sign? hmarks hs
    · simp at h

theorem reads_of_stepHeader {isKeyword : String → Bool} {before text : List Char} {c : Char}
    {s : Step} (hapart : Apart .header before (c :: text)) (h : stepHeader c text = .ok s) :
    ∃ taken, c :: text = taken ++ s.rest ∧
      Reads isKeyword before .header taken s.rest s.lexeme s.mode := by
  unfold stepHeader at h
  split at h
  · rename_i hc
    cases h
    exact ⟨[c], rfl, .argumentBlank hc⟩
  rename_i hblank
  split at h
  · rename_i hc
    subst hc
    obtain ⟨x, rest, hr, rfl⟩ := stepQuote_eq_ok h
    obtain ⟨taken, htext, hx⟩ := character_eq_ok_iff.1 hr
    exact ⟨taken, htext, .argument (.character hx)⟩
  rename_i hsingle
  split at h
  · rename_i hc
    subst hc
    obtain ⟨x, rest, hr, rfl⟩ := stepQuote_eq_ok h
    obtain ⟨taken, htext, hx⟩ := string_eq_ok_iff.1 hr
    exact ⟨taken, htext, .argument (.string hx)⟩
  rename_i hdouble
  cases h
  have hc : isHeaderChar c = true := by simp [isHeaderChar, hblank, hsingle, hdouble]
  have hrun := maximalRun_takeWhile text hc (hapart.left hc)
  rw [List.takeWhile_cons_of_pos hc, List.dropWhile_cons_of_pos hc] at hrun
  refine ⟨c :: text.takeWhile isHeaderChar, ?_, .argument (.bare hrun)⟩
  rw [List.cons_append, List.takeWhile_append_dropWhile]

theorem reads_of_stepComment {isKeyword : String → Bool} {before text : List Char} {c : Char} :
    ∃ taken, c :: text = taken ++ (stepComment c text).rest ∧
      Reads isKeyword before .comment taken (stepComment c text).rest
        (stepComment c text).lexeme (stepComment c text).mode := by
  unfold stepComment
  split
  · rename_i hmark
    obtain ⟨body, hbody⟩ := List.isPrefixOf_iff_prefix.1 hmark
    obtain ⟨rfl, rfl⟩ := List.cons.inj hbody
    exact ⟨['*', '/'], rfl, .blockClose⟩
  · rename_i hmark
    exact ⟨[c], rfl, .blockBody fun hpre => hmark (List.isPrefixOf_iff_prefix.2 hpre)⟩

theorem reads_of_step {isKeyword : String → Bool} {before text : List Char} {mode : Mode}
    {c : Char} {s : Step} (hapart : Apart mode before (c :: text))
    (h : step isKeyword mode c text = .ok s) :
    ∃ taken, c :: text = taken ++ s.rest ∧
      Reads isKeyword before mode taken s.rest s.lexeme s.mode := by
  cases mode with
  | code => exact reads_of_stepCode hapart h
  | header => exact reads_of_stepHeader hapart h
  | comment =>
    cases Except.ok.inj h
    exact reads_of_stepComment

/-! ### Every piece of the grammar is what a step takes -/

/-- A character of words begins nothing but a word. -/
theorem stepCode_of_isWordChar {isKeyword : String → Bool} {c : Char} {text : List Char}
    (hc : isWordChar c = true) :
    stepCode isKeyword c text = (word isKeyword (c :: text)).map
      (fun p => { lexeme := some p.1, mode := .code, rest := p.2 }) := by
  have hblank := isBlank_of_isWordChar hc
  have hne {d : Char} (hd : isWordChar d = false) : c ≠ d := by
    rintro rfl
    rw [hc] at hd
    cases hd
  have hsingle : c ≠ '\'' := hne (by decide)
  have hdouble : c ≠ '"' := hne (by decide)
  have hhash : c ≠ '#' := hne (by decide)
  have hslash : c ≠ '/' := hne (by decide)
  have hstar : c ≠ '*' := hne (by decide)
  simp [stepCode, hblank, hsingle, hdouble, hhash, hslash.symm, hstar.symm, hc]

/-- The first character of a sign begins neither a blank nor a literal, a header or a word. -/
theorem sign_head {s : Sign} (h : s ∈ signs) :
    ∃ c tail, s.spelling = c :: tail ∧ isBlank c = false ∧ c ≠ '\'' ∧ c ≠ '"' ∧ c ≠ '#' ∧
      isWordChar c = false := by
  have all : ∀ t ∈ signs, t.spelling.head?.any (fun c => !isBlank c && c != '\'' && c != '"' &&
      c != '#' && !isWordChar c) = true := by decide
  obtain ⟨c, hc, hclass⟩ := (Option.any_eq_true _ _).1 (all s h)
  obtain ⟨tail, htail⟩ := List.head?_eq_some_iff.1 hc
  simp only [Bool.and_eq_true, Bool.not_eq_true', bne_iff_ne] at hclass
  obtain ⟨⟨⟨⟨hblank, hsingle⟩, hdouble⟩, hhash⟩, hword⟩ := hclass
  exact ⟨c, tail, htail, hblank, hsingle, hdouble, hhash, hword⟩

/-- A sign is taken where no mark of a comment stands. -/
theorem stepCode_of_isSign {isKeyword : String → Bool} {text after : List Char} {s : Sign}
    (h : IsSign after text s) :
    ∃ c tail, text = c :: tail ∧
      stepCode isKeyword c (tail ++ after) = .ok ⟨some s.lexeme, .code, after⟩ := by
  obtain ⟨c, tail, hspelling, hblank, hsingle, hdouble, hhash, hword⟩ := sign_head h.mem
  have htext : text = c :: tail := h.spelling ▸ hspelling
  have hfound := sign?_eq_some h
  have hmark (mark : List Char) (hm : mark ∈ commentMarks) :
      mark.isPrefixOf (c :: (tail ++ after)) = false := by
    have := h.unmarked mark hm
    rw [htext, ← List.isPrefixOf_iff_prefix] at this
    exact Bool.eq_false_iff.2 this
  refine ⟨c, tail, htext, ?_⟩
  rw [htext, List.cons_append] at hfound
  simp [stepCode, hblank, hsingle, hdouble, hhash, hword, hfound, hspelling,
    hmark ['/', '/'] (by decide), hmark ['/', '*'] (by decide), hmark ['*', '/'] (by decide)]

theorem SpellsWord.head {isKeyword : String → Bool} {before text after : List Char}
    {l : Lexeme} (h : SpellsWord isKeyword before text after l) :
    ∃ c tail, text = c :: tail ∧ isWordChar c = true := by
  have first (hrun : MaximalRun isWordChar before text after) :
      ∃ c tail, text = c :: tail ∧ isWordChar c = true := by
    obtain ⟨c, tail, rfl⟩ := List.exists_cons_of_ne_nil hrun.ne_nil
    exact ⟨c, tail, rfl, hrun.all c (by simp)⟩
  cases h with
  | boolean _ hrun _ => exact first hrun
  | null hrun _ => exact first hrun
  | keyword hrun _ _ _ => exact first hrun
  | identifier hrun _ _ _ => exact first hrun
  | integer hrun _ _ _ => exact first hrun
  | decimal htext hne hdigit _ _ _ =>
    obtain ⟨c, tail, rfl⟩ := List.exists_cons_of_ne_nil hne
    exact ⟨c, _, htext, isWordChar_of_isDigit (hdigit c (by simp))⟩

theorem IsCharacter.reads {after text : List Char} {x : Char} (h : IsCharacter after text x) :
    ∃ tail, text = '\'' :: tail ∧ character ('\'' :: (tail ++ after)) = .ok (x, after) := by
  cases h with
  | @mk body _ hbody hstop =>
    exact ⟨_, rfl, character_eq_ok_iff.2 ⟨'\'' :: (body ++ ['\'']), rfl, .mk hbody hstop⟩⟩

theorem IsString.reads {after text : List Char} {s : String} (h : IsString after text s) :
    ∃ tail, text = '"' :: tail ∧ string ('"' :: (tail ++ after)) = .ok (s, after) := by
  cases h with
  | @mk body _ hbody hstop =>
    exact ⟨_, rfl, string_eq_ok_iff.2 ⟨'"' :: (body ++ ['"']), rfl, .mk hbody hstop⟩⟩

theorem Spells.step_eq_ok {isKeyword : String → Bool} {before text after : List Char}
    {l : Lexeme} (h : Spells isKeyword before text after l) :
    ∃ c tail, text = c :: tail ∧
      stepCode isKeyword c (tail ++ after) = .ok ⟨some l, l.modeBehind, after⟩ := by
  cases h with
  | word hw =>
    obtain ⟨c, tail, rfl, hc⟩ := hw.head
    have hread := word_eq_ok hw
    rw [List.cons_append] at hread
    refine ⟨c, tail, rfl, ?_⟩
    rw [stepCode_of_isWordChar hc, hread, hw.ends.2]
    rfl
  | character hx =>
    obtain ⟨tail, rfl, hread⟩ := hx.reads
    refine ⟨'\'', tail, rfl, ?_⟩
    simp [stepCode, (by decide : isBlank '\'' = false), hread]
    rfl
  | string hs =>
    obtain ⟨tail, rfl, hread⟩ := hs.reads
    refine ⟨'"', tail, rfl, ?_⟩
    simp [stepCode, (by decide : isBlank '"' = false), hread]
    rfl
  | sign hs =>
    rw [(sign_ends hs.mem).2]
    exact stepCode_of_isSign hs
  | header htext hne hall hstop =>
    refine ⟨_, _, htext, ?_⟩
    simp [stepCode, (by decide : isBlank '#' = false), takeWhile_append_of_stopsAt hall hstop,
      dropWhile_append_of_stopsAt hall hstop, hne]
    rfl

theorem SpellsArgument.step_eq_ok {before text after : List Char} {l : Lexeme}
    (h : SpellsArgument before text after l) :
    ∃ c tail, text = c :: tail ∧
      stepHeader c (tail ++ after) = .ok ⟨some l, .header, after⟩ := by
  cases h with
  | bare hrun =>
    obtain ⟨c, tail, rfl⟩ := List.exists_cons_of_ne_nil hrun.ne_nil
    have hc := hrun.all c (by simp)
    have hall : ∀ d ∈ tail, isHeaderChar d = true := fun d hd => hrun.all d (by simp [hd])
    have hclass := hc
    simp only [isHeaderChar, Bool.and_eq_true, Bool.not_eq_true', bne_iff_ne] at hclass
    obtain ⟨⟨hblank, hdouble⟩, hsingle⟩ := hclass
    refine ⟨c, tail, rfl, ?_⟩
    simp [stepHeader, hblank, hdouble, hsingle, takeWhile_append_of_stopsAt hall hrun.right,
      dropWhile_append_of_stopsAt hall hrun.right]
  | character hx =>
    obtain ⟨tail, rfl, hread⟩ := hx.reads
    refine ⟨'\'', tail, rfl, ?_⟩
    simp [stepHeader, (by decide : isBlank '\'' = false), hread]
    rfl
  | string hs =>
    obtain ⟨tail, rfl, hread⟩ := hs.reads
    refine ⟨'"', tail, rfl, ?_⟩
    simp [stepHeader, (by decide : isBlank '"' = false), hread]
    rfl

/-- A piece of the grammar is taken by one step. -/
theorem Reads.step_eq_ok {isKeyword : String → Bool} {before text after : List Char}
    {mode next : Mode} {l : Option Lexeme} (h : Reads isKeyword before mode text after l next) :
    ∃ c tail, text = c :: tail ∧
      step isKeyword mode c (tail ++ after) = .ok ⟨l, next, after⟩ := by
  cases h with
  | blank hc => exact ⟨_, [], rfl, by simp [step, stepCode, hc]⟩
  | lexeme hl => exact hl.step_eq_ok
  | @lineComment body =>
    exact ⟨'/', '/' :: body, rfl, by simp [step, stepCode, (by decide : isBlank '/' = false)]⟩
  | blockOpen =>
    exact ⟨'/', ['*'], rfl, by simp [step, stepCode, (by decide : isBlank '/' = false)]⟩
  | blockBody hmark =>
    refine ⟨_, [], rfl, ?_⟩
    rw [← List.isPrefixOf_iff_prefix] at hmark
    simp only [List.nil_append, step, stepComment, if_neg hmark]
  | blockClose => exact ⟨'*', ['/'], rfl, by simp [step, stepComment]⟩
  | argumentBlank hc => exact ⟨_, [], rfl, by simp [step, stepHeader, hc]⟩
  | argument hl => exact hl.step_eq_ok

/-! ### Whole lines -/

/-- What holds of an empty text, and of a text if it holds of what the first step leaves, holds of
every text. A step always leaves less. -/
theorem step_induction (isKeyword : String → Bool) {motive : Mode → List Char → Prop}
    (nil : ∀ mode, motive mode [])
    (cons : ∀ mode c text, (∀ s, step isKeyword mode c text = .ok s → motive s.mode s.rest) →
      motive mode (c :: text)) (mode : Mode) (text : List Char) : motive mode text := by
  induction hn : text.length using Nat.strongRecOn generalizing mode text with
  | _ n ih =>
    cases text with
    | nil => exact nil mode
    | cons c text =>
      refine cons mode c text fun s hs => ?_
      have hlen : s.rest.length < n := by
        have := (step_suffix hs).length_le
        simp only [List.length_cons] at hn
        omega
      exact ih s.rest.length hlen s.mode s.rest rfl

/-- A line is read by one step and then from what that leaves. -/
theorem lexemes_cons (isKeyword : String → Bool) (mode : Mode) (c : Char) (text : List Char) :
    lexemes isKeyword mode (c :: text) =
      match step isKeyword mode c text with
      | .error fault => .error fault
      | .ok s => (lexemes isKeyword s.mode s.rest).map
          (fun p => (placeFirst s.lexeme (c :: text) p.1, p.2)) := by
  rw [lexemes]
  split
  · rename_i fault hs
    rw [hs]
  · rename_i s hs
    rw [hs]
    simp only
    cases lexemes isKeyword s.mode s.rest with
    | error fault => rfl
    | ok p => cases s.lexeme <;> rfl

/-- A line fails at its first step or in what that leaves. -/
theorem lexemes_cons_eq_error {isKeyword : String → Bool} {mode : Mode} {c : Char}
    {text : List Char} {fault : Fault} (h : lexemes isKeyword mode (c :: text) = .error fault) :
    step isKeyword mode c text = .error fault ∨
      ∃ s, step isKeyword mode c text = .ok s ∧ lexemes isKeyword s.mode s.rest = .error fault := by
  rw [lexemes_cons] at h
  cases hs : step isKeyword mode c text with
  | error f =>
    rw [hs] at h
    cases h
    exact .inl rfl
  | ok s =>
    rw [hs] at h
    simp only at h
    cases hrest : lexemes isKeyword s.mode s.rest with
    | error f =>
      rw [hrest] at h
      cases h
      exact .inr ⟨s, rfl, hrest⟩
    | ok p =>
      rw [hrest] at h
      cases h

/-- One piece in front of a text. -/
theorem lexemes_append {isKeyword : String → Bool} {before text after : List Char}
    {mode next : Mode} {l : Option Lexeme} (h : Reads isKeyword before mode text after l next) :
    lexemes isKeyword mode (text ++ after) =
      (lexemes isKeyword next after).map
        (fun p => (placeFirst l (text ++ after) p.1, p.2)) := by
  obtain ⟨c, tail, rfl, hstep⟩ := h.step_eq_ok
  rw [List.cons_append, lexemes_cons, hstep]

theorem lineReads_of_lexemes {isKeyword : String → Bool} {before text : List Char}
    {mode last : Mode} {found : List Placed} (hapart : Apart mode before text)
    (h : lexemes isKeyword mode text = .ok (found, last)) :
    LineReads isKeyword before mode text found last := by
  induction mode, text using step_induction isKeyword generalizing before found with
  | nil mode =>
    rw [lexemes] at h
    cases h
    exact .nil
  | cons mode c text ih =>
    rw [lexemes_cons] at h
    cases hs : step isKeyword mode c text with
    | error fault =>
      rw [hs] at h
      cases h
    | ok s =>
      obtain ⟨taken, htext, hreads⟩ := reads_of_step hapart hs
      rw [hs] at h
      simp only at h
      cases hmore : lexemes isKeyword s.mode s.rest with
      | error fault =>
        rw [hmore] at h
        cases h
      | ok p =>
        rw [hmore] at h
        cases h
        rw [htext]
        exact .cons hreads (ih s hs hreads.apart hmore)

theorem LineReads.lexemes_eq_ok {isKeyword : String → Bool} {before text : List Char}
    {mode last : Mode} {found : List Placed}
    (h : LineReads isKeyword before mode text found last) :
    lexemes isKeyword mode text = .ok (found, last) := by
  induction h with
  | nil => rw [lexemes]
  | cons hreads _ ih => rw [lexemes_append hreads, ih]; rfl

/-- A line is read exactly as the grammar describes it. -/
theorem lexemes_eq_ok_iff {isKeyword : String → Bool} {mode last : Mode} {text : List Char}
    {found : List Placed} :
    lexemes isKeyword mode text = .ok (found, last) ↔
      LineReads isKeyword [] mode text found last :=
  ⟨lineReads_of_lexemes (apart_nil mode text), LineReads.lexemes_eq_ok⟩

/-- The text of a row of lines determines the mode at its end. -/
theorem linesEnd_unique {isKeyword : String → Bool} {lines : List (List Char)}
    {m₁ m₂ : Mode} (h₁ : LinesEnd isKeyword lines m₁) (h₂ : LinesEnd isKeyword lines m₂) :
    m₁ = m₂ := by
  induction h₁ generalizing m₂ with
  | nil =>
    generalize hlines : ([] : List (List Char)) = lines at h₂
    cases h₂ with
    | nil => rfl
    | concat _ _ => simp at hlines
  | @concat lines line mode last found hbefore hline ih =>
    generalize hlines : lines ++ [line] = all at h₂
    cases h₂ with
    | nil => simp at hlines
    | concat hbefore' hline' =>
      obtain ⟨rfl, hl⟩ := List.append_inj' hlines rfl
      cases hl
      rw [← ih hbefore'] at hline'
      have h := hline.lexemes_eq_ok.symm.trans hline'.lexemes_eq_ok
      exact (Prod.mk.inj (Except.ok.inj h)).2

end Offside.Scan
