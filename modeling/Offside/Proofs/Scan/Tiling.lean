import Offside.Proofs.Scan.Run

/-!
# `Offside.Proofs.Scan.Tiling`: tokens and comments tile the source

Every character of a program belongs to one token, to one comment, or is a blank. The file
says this with places (`Place`), a line and an offset, both counted from zero:

* `IsToken` and `IsComment`: a stretch of the source that spells a token, or is a comment.
  A block comment runs to the first end behind its beginning, over any number of lines.
* `Tiles`: a walk through the source that steps over blanks, the ends of lines, tokens and
  comments, and keeps what it has stepped over.
* `Tiling`: what such a walk amounts to when it has reached the end, said without the walk:
  the stretches are in order and apart, each is what it stands for, and no character between
  them is anything but a blank. `Tiles.tiling` derives it.

Reading a line walks on. `Standing` is the position of a reader in a mode: in a comment, the
walk has stopped at the comment's beginning and no end has been seen since. `Standing.reads`
takes it over one piece of the grammar, `Standing.lineReads` over a line, and `run_standing`
over a run. `scan_tiles` is the result for programs.
-/

set_option autoImplicit false

namespace Offside.Scan

open Offside.Text

/-! ### Places -/

/-- A place in a source: the lines before it and the characters before it on its line. -/
structure Place where
  line : Nat
  offset : Nat
deriving DecidableEq, Repr

namespace Place

/-- Places are ordered as they are read. -/
instance : LE Place := ⟨fun p q => p.line < q.line ∨ p.line = q.line ∧ p.offset ≤ q.offset⟩

instance : LT Place := ⟨fun p q => p.line < q.line ∨ p.line = q.line ∧ p.offset < q.offset⟩

theorem le_def {p q : Place} :
    p ≤ q ↔ p.line < q.line ∨ p.line = q.line ∧ p.offset ≤ q.offset := Iff.rfl

theorem lt_def {p q : Place} :
    p < q ↔ p.line < q.line ∨ p.line = q.line ∧ p.offset < q.offset := Iff.rfl

theorem le_trans {p q r : Place} (hpq : p ≤ q) (hqr : q ≤ r) : p ≤ r := by
  rw [le_def] at *
  omega

theorem le_of_lt {p q : Place} (h : p < q) : p ≤ q := by
  rw [le_def]
  rw [lt_def] at h
  omega

theorem lt_or_le (p q : Place) : p < q ∨ q ≤ p := by
  rw [le_def, lt_def]
  omega

/-- The place a number of characters further on the same line. -/
def skip (p : Place) (n : Nat) : Place := ⟨p.line, p.offset + n⟩

theorem eq_of_le_of_lt_skip {p q : Place} (hle : q ≤ p) (hlt : p < q.skip 1) : p = q := by
  obtain ⟨line, offset⟩ := p
  obtain ⟨line', offset'⟩ := q
  rw [lt_def] at hlt
  rw [le_def] at hle
  simp only [skip] at hlt hle
  rw [mk.injEq]
  omega

end Place

/-- The text from a place to the end of its line. -/
def textAt (lines : List (List Char)) (p : Place) : List Char :=
  (lines[p.line]?.getD []).drop p.offset

theorem textAt_append {lines : List (List Char)} {n : Nat} {before text : List Char}
    (h : lines[n]? = some (before ++ text)) : textAt lines ⟨n, before.length⟩ = text := by
  simp [textAt, h]

/-- Behind the end of a line nothing stands on it. -/
theorem textAt_eq_nil_of_le {lines : List (List Char)} {here p : Place}
    (hend : textAt lines here = []) (hle : here ≤ p) (hlt : p < ⟨here.line + 1, 0⟩) :
    textAt lines p = [] := by
  rw [Place.le_def] at hle
  rw [Place.lt_def] at hlt
  have hline : p.line = here.line := by
    simp only at hlt
    omega
  unfold textAt at hend ⊢
  rw [List.drop_eq_nil_iff] at hend
  rw [hline, List.drop_eq_nil_iff]
  omega

/-! ### Stretches -/

/-- The text from `start` to `stop` spells a token that begins there. Behind a header it is
an argument of it. -/
inductive IsToken (isKeyword : String → Bool) (lines : List (List Char)) (header : Prop)
    (t : Token) : Place → Place → Prop
  | mk {n : Nat} {before text after : List Char} :
      lines[n]? = some (before ++ text ++ after) →
      t.line = n + 1 → t.column = before.length + 1 →
      (header → SpellsArgument before text after ⟨t.kind, t.literal⟩) →
      (¬ header → Spells isKeyword before text after ⟨t.kind, t.literal⟩) →
      IsToken isKeyword lines header t ⟨n, before.length⟩ ⟨n, before.length + text.length⟩

/-- A block comment is open from `start` to `here`: no end of it begins in between. -/
structure OpenComment (lines : List (List Char)) (start here : Place) : Prop where
  /-- It is opened. -/
  opening : ['/', '*'] <+: textAt lines start
  /-- The mark that opens it is behind. -/
  inside : start.skip 2 ≤ here
  /-- Nothing closes it. -/
  unclosed : ∀ p, start.skip 2 ≤ p → p < here → ¬ ['*', '/'] <+: textAt lines p

/-- The text from `start` to `stop` is a comment: the rest of a line, or everything to the
first mark that closes a block. -/
inductive IsComment (lines : List (List Char)) (start : Place) : Place → Prop
  | line {body : List Char} :
      textAt lines start = '/' :: '/' :: body →
      IsComment lines start (start.skip (body.length + 2))
  | block {last : Place} :
      OpenComment lines start last → ['*', '/'] <+: textAt lines last →
      IsComment lines start (last.skip 2)

/-- A stretch of the source: a token, or a comment if there is none. -/
structure Tile where
  token : Option Token
  start : Place
  stop : Place
deriving DecidableEq, Repr

/-- One of the tiles is a header on the given line. -/
def BehindHeader (tiles : List Tile) (line : Nat) : Prop :=
  ∃ tile ∈ tiles, tile.start.line = line ∧ ∃ t ∈ tile.token, t.kind = .header

/-- Tiles that fill a source. -/
structure Tiling (isKeyword : String → Bool) (lines : List (List Char)) (tiles : List Tile) :
    Prop where
  /-- They stand in order and do not overlap. -/
  sorted : tiles.Pairwise (fun a b => a.stop ≤ b.start)
  /-- None is empty. -/
  nonempty : ∀ tile ∈ tiles, tile.start < tile.stop
  /-- A tile with a token spells it, as code or as an argument of a header before it. -/
  token : ∀ front tile back t, tiles = front ++ tile :: back → tile.token = some t →
    IsToken isKeyword lines (BehindHeader front tile.start.line) t tile.start tile.stop
  /-- A tile without a token is a comment. -/
  comment : ∀ tile ∈ tiles, tile.token = none → IsComment lines tile.start tile.stop
  /-- A character that is no blank is in a tile. -/
  filled : ∀ p c, (textAt lines p).head? = some c →
    isBlank c = true ∨ ∃ tile ∈ tiles, tile.start ≤ p ∧ p < tile.stop

/-! ### The walk -/

/-- The tiles that a walk from the beginning of the source to a place has stepped over. -/
inductive Tiles (isKeyword : String → Bool) (lines : List (List Char)) :
    Place → List Tile → Prop
  | start : Tiles isKeyword lines ⟨0, 0⟩ []
  | blank {here : Place} {tiles : List Tile} {c : Char} :
      Tiles isKeyword lines here tiles → (textAt lines here).head? = some c →
      isBlank c = true → Tiles isKeyword lines (here.skip 1) tiles
  | lineEnd {here : Place} {tiles : List Tile} :
      Tiles isKeyword lines here tiles → textAt lines here = [] →
      Tiles isKeyword lines ⟨here.line + 1, 0⟩ tiles
  | token {here stop : Place} {tiles : List Tile} {t : Token} :
      Tiles isKeyword lines here tiles →
      IsToken isKeyword lines (BehindHeader tiles here.line) t here stop →
      Tiles isKeyword lines stop (tiles ++ [⟨some t, here, stop⟩])
  | comment {here stop : Place} {tiles : List Tile} :
      Tiles isKeyword lines here tiles → IsComment lines here stop →
      Tiles isKeyword lines stop (tiles ++ [⟨none, here, stop⟩])

theorem Spells.length_pos {isKeyword : String → Bool} {before text after : List Char}
    {l : Lexeme} (h : Spells isKeyword before text after l) : 0 < text.length := by
  obtain ⟨c, tail, rfl, -⟩ := h.step_eq_ok
  exact Nat.succ_pos _

theorem SpellsArgument.length_pos {before text after : List Char} {l : Lexeme}
    (h : SpellsArgument before text after l) : 0 < text.length := by
  obtain ⟨c, tail, rfl, -⟩ := h.step_eq_ok
  exact Nat.succ_pos _

theorem IsToken.lt {isKeyword : String → Bool} {lines : List (List Char)} {header : Prop}
    {t : Token} {start stop : Place} (h : IsToken isKeyword lines header t start stop) :
    start < stop := by
  cases h with
  | @mk n before text after _ _ _ hargument hcode =>
    have hpos : 0 < text.length := by
      by_cases hheader : header
      · exact (hargument hheader).length_pos
      · exact (hcode hheader).length_pos
    exact .inr ⟨rfl, by show before.length < before.length + text.length; omega⟩

theorem IsComment.lt {lines : List (List Char)} {start stop : Place}
    (h : IsComment lines start stop) : start < stop := by
  cases h with
  | line _ => exact .inr ⟨rfl, by show start.offset < start.offset + _; omega⟩
  | block hopen _ =>
    have hinside := Place.le_def.1 hopen.inside
    simp only [Place.skip] at hinside
    rw [Place.lt_def]
    simp only [Place.skip]
    omega

theorem singleton_eq_append_cons {α : Type} {x t : α} {before after : List α}
    (h : [x] = before ++ t :: after) : before = [] ∧ t = x := by
  cases before with
  | nil => exact ⟨rfl, (List.cons.inj h).1.symm⟩
  | cons u before =>
    have := (List.cons.inj h).2
    simp at this

/-- All that a walk has stepped over is behind it, in order. -/
theorem Tiles.sorted {isKeyword : String → Bool} {lines : List (List Char)} {here : Place}
    {tiles : List Tile} (h : Tiles isKeyword lines here tiles) :
    (∀ tile ∈ tiles, tile.stop ≤ here) ∧ tiles.Pairwise (fun a b => a.stop ≤ b.start) := by
  -- One more tile, that begins where the walk has come to.
  have extend {here stop : Place} {tiles : List Tile} {t : Option Token}
      (ih : (∀ tile ∈ tiles, tile.stop ≤ here) ∧
        tiles.Pairwise (fun a b => a.stop ≤ b.start)) (hlt : here < stop) :
      (∀ tile ∈ tiles ++ [(⟨t, here, stop⟩ : Tile)], tile.stop ≤ stop) ∧
        (tiles ++ [(⟨t, here, stop⟩ : Tile)]).Pairwise (fun a b => a.stop ≤ b.start) := by
    constructor
    · intro tile htile
      rcases List.mem_append.1 htile with htile | htile
      · exact Place.le_trans (ih.1 tile htile) (Place.le_of_lt hlt)
      · rw [List.mem_singleton.1 htile]
        exact .inr ⟨rfl, Nat.le_refl _⟩
    · refine List.pairwise_append.2 ⟨ih.2, List.pairwise_singleton _ _, ?_⟩
      intro a ha b hb
      rw [List.mem_singleton.1 hb]
      exact ih.1 a ha
  induction h with
  | start => exact ⟨by simp, List.Pairwise.nil⟩
  | blank _ _ _ ih =>
    refine ⟨fun tile htile => Place.le_trans (ih.1 tile htile) ?_, ih.2⟩
    exact .inr ⟨rfl, Nat.le_add_right _ _⟩
  | lineEnd _ _ ih =>
    refine ⟨fun tile htile => Place.le_trans (ih.1 tile htile) ?_, ih.2⟩
    exact .inl (Nat.lt_succ_self _)
  | token _ htoken ih => exact extend ih htoken.lt
  | comment _ hcomment ih => exact extend ih hcomment.lt

/-- A walk has left out nothing but blanks. -/
theorem Tiles.filled {isKeyword : String → Bool} {lines : List (List Char)} {here p : Place}
    {tiles : List Tile} {c : Char} (h : Tiles isKeyword lines here tiles) (hp : p < here)
    (hc : (textAt lines p).head? = some c) :
    isBlank c = true ∨ ∃ tile ∈ tiles, tile.start ≤ p ∧ p < tile.stop := by
  -- What is not behind a new tile is in it.
  have extend {here stop : Place} {tiles : List Tile} {t : Option Token} (hp : p < stop)
      (ih : p < here → isBlank c = true ∨ ∃ tile ∈ tiles, tile.start ≤ p ∧ p < tile.stop) :
      isBlank c = true ∨
        ∃ tile ∈ tiles ++ [⟨t, here, stop⟩], tile.start ≤ p ∧ p < tile.stop := by
    rcases Place.lt_or_le p here with hlt | hle
    · rcases ih hlt with hblank | ⟨tile, htile, hin⟩
      · exact .inl hblank
      · exact .inr ⟨tile, List.mem_append_left _ htile, hin⟩
    · exact .inr ⟨_, List.mem_append_right _ (List.mem_singleton.2 rfl), hle, hp⟩
  induction h with
  | start => simp [Place.lt_def] at hp
  | @blank here tiles d _ hd hblank ih =>
    rcases Place.lt_or_le p here with hlt | hle
    · exact ih hlt
    -- Only the blank itself is between.
    · rw [Place.eq_of_le_of_lt_skip hle hp, hd] at hc
      cases hc
      exact .inl hblank
  | @lineEnd here tiles _ hend ih =>
    rcases Place.lt_or_le p here with hlt | hle
    · exact ih hlt
    -- Nothing is behind the end of a line.
    · rw [textAt_eq_nil_of_le hend hle hp] at hc
      cases hc
  | token _ _ ih => exact extend hp ih
  | comment _ _ ih => exact extend hp ih

/-- What a walk has stepped over is what it stands for. -/
theorem Tiles.valid {isKeyword : String → Bool} {lines : List (List Char)} {here : Place}
    {tiles front back : List Tile} {tile : Tile} (h : Tiles isKeyword lines here tiles)
    (hsplit : tiles = front ++ tile :: back) :
    (∀ t, tile.token = some t →
      IsToken isKeyword lines (BehindHeader front tile.start.line) t tile.start tile.stop) ∧
      (tile.token = none → IsComment lines tile.start tile.stop) := by
  induction h generalizing back with
  | start => simp at hsplit
  | blank _ _ _ ih => exact ih hsplit
  | lineEnd _ _ ih => exact ih hsplit
  | token _ htoken ih =>
    rcases append_eq_append_cons hsplit with ⟨middle, hfront, -⟩ | ⟨middle, rfl, hlast⟩
    · exact ih hfront
    · obtain ⟨rfl, rfl⟩ := singleton_eq_append_cons hlast
      rw [List.append_nil]
      refine ⟨fun t ht => ?_, fun ht => by cases ht⟩
      cases ht
      exact htoken
  | comment _ hcomment ih =>
    rcases append_eq_append_cons hsplit with ⟨middle, hfront, -⟩ | ⟨middle, -, hlast⟩
    · exact ih hfront
    · obtain ⟨-, rfl⟩ := singleton_eq_append_cons hlast
      exact ⟨fun t ht => (by cases ht), fun _ => hcomment⟩

/-- A walk to the end of a source has tiled it. -/
theorem Tiles.tiling {isKeyword : String → Bool} {lines : List (List Char)}
    {tiles : List Tile} (h : Tiles isKeyword lines ⟨lines.length, 0⟩ tiles) :
    Tiling isKeyword lines tiles where
  sorted := h.sorted.2
  nonempty tile htile := by
    obtain ⟨front, back, hsplit⟩ := List.append_of_mem htile
    obtain ⟨htoken, hcomment⟩ := h.valid hsplit
    cases ht : tile.token with
    | none => exact (hcomment ht).lt
    | some t => exact (htoken t ht).lt
  token front tile back t hsplit ht := (h.valid hsplit).1 t ht
  comment tile htile ht := by
    obtain ⟨front, back, hsplit⟩ := List.append_of_mem htile
    exact (h.valid hsplit).2 ht
  filled p c hc := by
    refine h.filled (.inl ?_) hc
    show p.line < lines.length
    by_contra hline
    have hnone : textAt lines p = [] := by
      unfold textAt
      rw [List.getElem?_eq_none (Nat.le_of_not_lt hline)]
      simp
    rw [hnone] at hc
    cases hc

/-! ### Reading walks on -/

/-- Where a reader stands. In code and behind a header it has tiled all that it has read, and
it is behind a header on its line in the one mode and not in the other. In a comment it has
tiled all in front of the comment. -/
inductive Standing (isKeyword : String → Bool) (lines : List (List Char)) :
    Mode → Place → List Tile → Prop
  | code {here : Place} {tiles : List Tile} :
      Tiles isKeyword lines here tiles → (∀ n, here.line ≤ n → ¬ BehindHeader tiles n) →
      Standing isKeyword lines .code here tiles
  | header {here : Place} {tiles : List Tile} :
      Tiles isKeyword lines here tiles → BehindHeader tiles here.line →
      (∀ n, here.line < n → ¬ BehindHeader tiles n) →
      Standing isKeyword lines .header here tiles
  | comment {start here : Place} {tiles : List Tile} :
      Tiles isKeyword lines start tiles → (∀ n, start.line ≤ n → ¬ BehindHeader tiles n) →
      OpenComment lines start here → Standing isKeyword lines .comment here tiles

theorem behindHeader_concat {tiles : List Tile} {tile : Tile} {n : Nat} :
    BehindHeader (tiles ++ [tile]) n ↔
      BehindHeader tiles n ∨ tile.start.line = n ∧ ∃ t ∈ tile.token, t.kind = .header := by
  constructor
  · rintro ⟨u, hu, hline, ht⟩
    rcases List.mem_append.1 hu with hu | hu
    · exact .inl ⟨u, hu, hline, ht⟩
    · exact .inr (List.mem_singleton.1 hu ▸ ⟨hline, ht⟩)
  · rintro (⟨u, hu, h⟩ | h)
    · exact ⟨u, List.mem_append_left _ hu, h⟩
    · exact ⟨tile, List.mem_append_right _ (List.mem_singleton.2 rfl), h⟩

/-- One character further in an open comment, if it does not close the comment. -/
theorem OpenComment.skip {lines : List (List Char)} {start here : Place}
    (h : OpenComment lines start here) (hmark : ¬ ['*', '/'] <+: textAt lines here) :
    OpenComment lines start (here.skip 1) where
  opening := h.opening
  inside := Place.le_trans h.inside (.inr ⟨rfl, Nat.le_add_right _ _⟩)
  unclosed p hp hlt := by
    rcases Place.lt_or_le p here with hbefore | hle
    · exact h.unclosed p hp hbefore
    · rw [Place.eq_of_le_of_lt_skip hle hlt]
      exact hmark

theorem OpenComment.nextLine {lines : List (List Char)} {start here : Place}
    (h : OpenComment lines start here) (hend : textAt lines here = []) :
    OpenComment lines start ⟨here.line + 1, 0⟩ where
  opening := h.opening
  inside := Place.le_trans h.inside (.inl (Nat.lt_succ_self _))
  unclosed p hp hlt := by
    rcases Place.lt_or_le p here with hbefore | hle
    · exact h.unclosed p hp hbefore
    · rw [textAt_eq_nil_of_le hend hle hlt]
      simp

/-- A reader of code that has read a lexeme has tiled its token. -/
theorem Tiles.lexeme {isKeyword : String → Bool} {lines : List (List Char)} {n : Nat}
    {before text after : List Char} {tiles : List Tile} {l : Lexeme}
    (h : Tiles isKeyword lines ⟨n, before.length⟩ tiles)
    (hline : lines[n]? = some (before ++ text ++ after))
    (hargument : BehindHeader tiles n → SpellsArgument before text after l)
    (hcode : ¬ BehindHeader tiles n → Spells isKeyword before text after l) :
    Tiles isKeyword lines ⟨n, (before ++ text).length⟩
      (tiles ++ [⟨some ⟨l.kind, l.literal, n + 1, before.length + 1⟩, ⟨n, before.length⟩,
        ⟨n, (before ++ text).length⟩⟩]) := by
  rw [List.length_append]
  exact h.token (.mk hline rfl rfl hargument hcode)

/-- The tokens of a line that are no comments. -/
def content (tokens : List Token) : List Token := tokens.filter (fun t => isContent t.kind)

theorem content_singleton {t : Token} (h : isContent t.kind = true) : content [t] = [t] := by
  simp [content, h]

theorem content_append (xs ys : List Token) : content (xs ++ ys) = content xs ++ content ys :=
  List.filter_append ..

/-- The tokens of tiles. -/
def tileTokens (tiles : List Tile) : List Token := tiles.filterMap Tile.token

/-- The token of a piece's lexeme, where the piece stands. -/
theorem lineTokens_placeFirst {n : Nat} {before text after : List Char} {l : Option Lexeme}
    {found : List Placed} :
    lineTokens n (before ++ (text ++ after)) (placeFirst l (text ++ after) found) =
      (l.map (fun l => ⟨l.kind, l.literal, n, before.length + 1⟩)).toList ++
        lineTokens n (before ++ (text ++ after)) found := by
  cases l with
  | none => rfl
  | some l =>
    have hcolumn : column (before ++ (text ++ after)) (text ++ after) = before.length + 1 := by
      rw [column, List.length_append]
      omega
    simp [placeFirst, lineTokens, Placed.token, hcolumn]

/-- A reader of code that has read a lexeme is behind a header from then on if that is what
it has read. -/
theorem Standing.lexeme {isKeyword : String → Bool} {lines : List (List Char)} {n : Nat}
    {before text after : List Char} {tiles : List Tile} {l : Lexeme}
    (htiles : Tiles isKeyword lines ⟨n, before.length⟩ tiles)
    (hno : ∀ m, n ≤ m → ¬ BehindHeader tiles m)
    (hline : lines[n]? = some (before ++ text ++ after))
    (hl : Spells isKeyword before text after l) :
    Standing isKeyword lines l.modeBehind ⟨n, (before ++ text).length⟩
      (tiles ++ [⟨some ⟨l.kind, l.literal, n + 1, before.length + 1⟩, ⟨n, before.length⟩,
        ⟨n, (before ++ text).length⟩⟩]) := by
  have htiles' := htiles.lexeme hline (fun hb => absurd hb (hno n (Nat.le_refl n)))
    (fun _ => hl)
  unfold Lexeme.modeBehind
  split
  · rename_i hkind
    refine .header htiles' (behindHeader_concat.2 (.inr ⟨rfl, _, rfl, hkind⟩)) ?_
    intro m hm
    rw [behindHeader_concat, not_or]
    exact ⟨hno m (Nat.le_of_lt hm), fun hb => Nat.ne_of_lt hm hb.1⟩
  · rename_i hkind
    refine .code htiles' fun m hm => ?_
    rw [behindHeader_concat, not_or]
    refine ⟨hno m hm, ?_⟩
    rintro ⟨-, t, ht, hheader⟩
    cases ht
    exact hkind hheader

/-- A reader that has read a piece of its line stands behind it, and has tiled its token if
the piece has one that is no comment. -/
theorem Standing.reads {isKeyword : String → Bool} {lines : List (List Char)} {n : Nat}
    {before text after : List Char} {mode next : Mode} {l : Option Lexeme}
    {tiles : List Tile} (h : Standing isKeyword lines mode ⟨n, before.length⟩ tiles)
    (hline : lines[n]? = some (before ++ (text ++ after)))
    (hreads : Reads isKeyword before mode text after l next) :
    ∃ more, Standing isKeyword lines next ⟨n, (before ++ text).length⟩ (tiles ++ more) ∧
      tileTokens more =
        content (l.map (fun l => ⟨l.kind, l.literal, n + 1, before.length + 1⟩)).toList := by
  have htext := textAt_append hline
  have hlength : (before ++ text).length = before.length + text.length := List.length_append
  have hpiece : lines[n]? = some (before ++ text ++ after) := by
    rw [List.append_assoc]
    exact hline
  cases hreads with
  | blank hc =>
    cases h with
    | code htiles hno =>
      refine ⟨[], ?_, rfl⟩
      rw [List.append_nil, hlength]
      exact .code (htiles.blank (by rw [htext]; rfl) hc) hno
  | lexeme hl =>
    cases h with
    | code htiles hno =>
      exact ⟨_, .lexeme htiles hno hpiece hl, (content_singleton hl.isContent_kind).symm⟩
  | @lineComment body =>
    cases h with
    | code htiles hno =>
      have hcomment : IsComment lines ⟨n, before.length⟩
          ⟨n, before.length + (body.length + 2)⟩ := .line (by rw [htext, List.append_nil])
      refine ⟨[⟨none, ⟨n, before.length⟩, ⟨n, before.length + (body.length + 2)⟩⟩], ?_, rfl⟩
      rw [hlength]
      refine .code (htiles.comment hcomment) fun m hm => ?_
      rw [behindHeader_concat, not_or]
      exact ⟨hno m hm, by simp⟩
  -- The mark that opens a block comment becomes a tile only when the comment is closed.
  | blockOpen =>
    cases h with
    | code htiles hno =>
      refine ⟨[], ?_, rfl⟩
      rw [List.append_nil, hlength]
      refine .comment htiles hno ⟨?_, .inr ⟨rfl, Nat.le_refl _⟩, ?_⟩
      · rw [htext]
        exact List.prefix_append _ _
      · intro p hp hlt
        rw [Place.le_def] at hp
        rw [Place.lt_def] at hlt
        simp only [Place.skip, List.length_cons, List.length_nil] at hp hlt
        omega
  | blockBody hmark =>
    cases h with
    | comment htiles hno hopen =>
      refine ⟨[], ?_, rfl⟩
      rw [List.append_nil, hlength]
      refine .comment htiles hno (hopen.skip ?_)
      rw [htext]
      exact hmark
  | blockClose =>
    cases h with
    | @comment start _ _ htiles hno hopen =>
      have hcomment : IsComment lines start ⟨n, before.length + 2⟩ :=
        .block hopen (by rw [htext]; exact List.prefix_append _ _)
      refine ⟨[⟨none, start, ⟨n, before.length + 2⟩⟩], ?_, rfl⟩
      rw [hlength]
      refine .code (htiles.comment hcomment) fun m hm => ?_
      have hinside := Place.le_def.1 hopen.inside
      simp only [Place.skip] at hinside hm
      rw [behindHeader_concat, not_or]
      exact ⟨hno m (by omega), by simp⟩
  | argumentBlank hc =>
    cases h with
    | header htiles hyes hno =>
      refine ⟨[], ?_, rfl⟩
      rw [List.append_nil, hlength]
      exact .header (htiles.blank (by rw [htext]; rfl) hc) hyes hno
  -- An argument is no header itself, so the line stays behind the header it has.
  | argument hl =>
    cases h with
    | header htiles hyes hno =>
      have htiles' := htiles.lexeme hpiece (fun _ => hl) (fun hb => absurd hyes hb)
      refine ⟨_, .header htiles' (behindHeader_concat.2 (.inl hyes)) ?_,
        (content_singleton hl.isContent_kind).symm⟩
      intro m hm
      rw [behindHeader_concat, not_or]
      exact ⟨hno m hm, fun hb => Nat.ne_of_lt hm hb.1⟩

theorem tileTokens_append (xs ys : List Tile) :
    tileTokens (xs ++ ys) = tileTokens xs ++ tileTokens ys := List.filterMap_append

/-- A reader that has read the rest of its line has tiled the content of it. -/
theorem Standing.lineReads {isKeyword : String → Bool} {lines : List (List Char)} {n : Nat}
    {before text : List Char} {mode last : Mode} {found : List Placed} {tiles : List Tile}
    (hreads : LineReads isKeyword before mode text found last)
    (hline : lines[n]? = some (before ++ text))
    (h : Standing isKeyword lines mode ⟨n, before.length⟩ tiles) :
    ∃ more, Standing isKeyword lines last ⟨n, (before ++ text).length⟩ (tiles ++ more) ∧
      tileTokens more = content (lineTokens (n + 1) (before ++ text) found) := by
  induction hreads generalizing tiles with
  | nil =>
    rw [List.append_nil]
    exact ⟨[], by rwa [List.append_nil], rfl⟩
  | @cons before text after mode next last l found hpiece _ ih =>
    obtain ⟨first, hfirst, hfirstTokens⟩ := h.reads hline hpiece
    have hrest : lines[n]? = some (before ++ text ++ after) := by
      rw [List.append_assoc]
      exact hline
    obtain ⟨more, hmore, hmoreTokens⟩ := ih hrest hfirst
    refine ⟨first ++ more, ?_, ?_⟩
    · rw [← List.append_assoc, ← List.append_assoc]
      exact hmore
    · rw [lineTokens_placeFirst, content_append, tileTokens_append, hfirstTokens, hmoreTokens,
        List.append_assoc]

/-- A reader at the end of a line stands at the beginning of the next. -/
theorem Standing.nextLine {isKeyword : String → Bool} {lines : List (List Char)} {n : Nat}
    {line : List Char} {mode : Mode} {tiles : List Tile}
    (h : Standing isKeyword lines mode ⟨n, line.length⟩ tiles) (hline : lines[n]? = some line) :
    Standing isKeyword lines mode.carried ⟨n + 1, 0⟩ tiles := by
  have hend : textAt lines ⟨n, line.length⟩ = [] := by simp [textAt, hline]
  cases h with
  | code htiles hno =>
    exact .code (htiles.lineEnd hend) fun m hm => hno m (Nat.le_of_succ_le hm)
  | header htiles _ hno => exact .code (htiles.lineEnd hend) fun m hm => hno m hm
  | comment htiles hno hopen => exact .comment htiles hno (hopen.nextLine hend)

theorem Boundary.content_eq_nil {settings : Settings} {s s' : State} {line : List Char}
    {layout : List Token} (h : Boundary settings s line s' layout) : content layout = [] := by
  refine List.filter_eq_nil_iff.2 fun t ht => ?_
  rw [isContent_of_isLayout (h.isLayout_of_mem ht)]
  exact Bool.false_ne_true

theorem content_shown (settings : Settings) (tokens : List Token) :
    content (shown settings tokens) = content tokens := by
  rw [content, shown, List.filter_filter]
  refine List.filter_congr fun t _ => ?_
  cases hc : isContent t.kind with
  | false => rfl
  | true =>
    rw [isComment_of_isContent hc, Bool.not_false, Bool.or_true, Bool.and_true]

/-- A run over the first lines of a source has tiled them. -/
theorem run_standing {settings : Settings} {lines : List (List Char)} {s : State}
    {tokens : List Token}
    (h : scanLines settings (State.start settings) lines = .ok (s, tokens))
    (rest : List (List Char)) :
    ∃ tiles, Standing settings.isKeyword (lines ++ rest)
        (if s.inComment then .comment else .code) ⟨lines.length, 0⟩ tiles ∧
      tileTokens tiles = content tokens := by
  -- A place is found in the whole source, so the lines that follow have to be any at all.
  refine scanLines_induction (motive := fun lines s tokens => ∀ rest,
    ∃ tiles, Standing settings.isKeyword (lines ++ rest)
        (if s.inComment then .comment else .code) ⟨lines.length, 0⟩ tiles ∧
      tileTokens tiles = content tokens) ?_ ?_ h rest
  · exact fun rest => ⟨[], .code .start (by simp [BehindHeader]), rfl⟩
  · intro lines s tokens line s' more hrun ih hline rest
    obtain ⟨s₁, layout, found, mode, hboundary, hreads, rfl, rfl⟩ := scanLine_eq_ok hline
    obtain ⟨tiles, hstand, htiles⟩ := ih (line :: rest)
    have hget : (lines ++ line :: rest)[lines.length]? = some line := by simp
    obtain ⟨own, hown, hownTokens⟩ := hstand.lineReads hreads hget
    refine ⟨tiles ++ own, ?_, ?_⟩
    · have hcarried : (if mode == .comment then Mode.comment else .code) = mode.carried := by
        cases mode <;> rfl
      show Standing _ _ (if mode == .comment then Mode.comment else .code) _ _
      rw [List.append_assoc, List.length_append, hcarried]
      exact hown.nextLine hget
    · rw [tileTokens_append, htiles, hownTokens, content_append, content_append,
        hboundary.content_eq_nil, content_shown, (run_lines hrun).1]
      rfl

/-- The tokens of a program that are no layout and no marks of comments tile its source:
together with its comments they leave out nothing but blanks. -/
theorem scan_tiles {settings : Settings} {lines : List (List Char)} {tokens : List Token}
    (h : scan settings lines = .ok tokens) :
    ∃ tiles, Tiling settings.isKeyword lines tiles ∧ tileTokens tiles = content tokens := by
  obtain ⟨s, front, hrun, hcomment, rfl⟩ := scan_eq_ok h
  obtain ⟨tiles, hstand, htiles⟩ := run_standing hrun []
  rw [hcomment, List.append_nil] at hstand
  have hclosing : content (closing s.depth (max s.lines 1) (s.width + 1)) = [] := by
    refine List.filter_eq_nil_iff.2 fun t ht => ?_
    rcases (of_mem_closing ht).1 with hkind | hkind
    · rw [hkind]
      decide
    · rw [hkind]
      decide
  refine ⟨tiles, ?_, ?_⟩
  · cases hstand with
    | code hall _ => exact hall.tiling
  · rw [htiles, content_append, hclosing, List.append_nil]

/-- A header with two arguments, a comment over two lines and a literal that needs an escape:
nine tiles, two of them comments. -/
theorem scan_tiles_comments :
    scan {} ["#load 'a' c".toList, "x<=true /* y".toList, "*/ '\\n'// z".toList] = .ok
        [⟨.header, some (.string "load"), 1, 1⟩, ⟨.string, some (.string "a"), 1, 7⟩,
          ⟨.string, some (.string "c"), 1, 11⟩, ⟨.newline, none, 1, 12⟩,
          ⟨.identifier, some (.string "x"), 2, 1⟩, ⟨.comparator, some (.string "<="), 2, 2⟩,
          ⟨.boolean, some (.boolean true), 2, 4⟩, ⟨.character, some (.character '\n'), 3, 4⟩,
          ⟨.eof, none, 3, 12⟩] ∧
      ∃ tiles,
        Tiling (Settings.isKeyword {})
          ["#load 'a' c".toList, "x<=true /* y".toList, "*/ '\\n'// z".toList] tiles ∧
        tileTokens tiles =
          [⟨.header, some (.string "load"), 1, 1⟩, ⟨.string, some (.string "a"), 1, 7⟩,
            ⟨.string, some (.string "c"), 1, 11⟩, ⟨.identifier, some (.string "x"), 2, 1⟩,
            ⟨.comparator, some (.string "<="), 2, 2⟩, ⟨.boolean, some (.boolean true), 2, 4⟩,
            ⟨.character, some (.character '\n'), 3, 4⟩] := by
  have hscan : scan {} ["#load 'a' c".toList, "x<=true /* y".toList, "*/ '\\n'// z".toList] = .ok
      [⟨.header, some (.string "load"), 1, 1⟩, ⟨.string, some (.string "a"), 1, 7⟩,
        ⟨.string, some (.string "c"), 1, 11⟩, ⟨.newline, none, 1, 12⟩,
        ⟨.identifier, some (.string "x"), 2, 1⟩, ⟨.comparator, some (.string "<="), 2, 2⟩,
        ⟨.boolean, some (.boolean true), 2, 4⟩, ⟨.character, some (.character '\n'), 3, 4⟩,
        ⟨.eof, none, 3, 12⟩] := by cbv
  exact ⟨hscan, scan_tiles hscan⟩

end Offside.Scan
