import Offside.Proofs.Scan.Guarded.Cursor
import Offside.Proofs.Scan.Words

/-!
# `Offside.Proofs.Scan.Guarded.Following`: a cursor follows a reader

A reader takes a text apart and answers what is left of it; a guarded computation counts a cursor
up. `Row.At` ties the two: the cursor stands in front of what is left. `Follows` compares their
answers. Where the reader reports a fault the guarded computation halts with that error, and where
it answers something the guarded computation answers something related. There is no third case, so
whatever follows a reader does not slip, and this is how slips are ruled out: never by a bound on a
cursor alone, always by the text that is in front of it.

The rules for `>>=` and for loops let the proof of a reader go step by step. `Follows.loop` is the
one that needs progress: a round that follows a reader leaves its loop to the next rounds because
what the reader leaves is shorter (`Row.At.lt_of_suffix`).
-/

set_option autoImplicit false

namespace Offside.Scan.Guarded

open Offside.Text

/-! ### Following -/

/-- A guarded computation follows a plain one: it halts with the error that the plain one reports,
or answers something that is related to the plain answer. It makes no slip. -/
inductive Follows {ε α β : Type} (report : ε → Error) (R : α → β → Prop) :
    Except ε α → Except Halt β → Prop
  | error (e : ε) : Follows report R (.error e) (.error (.error (report e)))
  | ok {a : α} {b : β} : R a b → Follows report R (.ok a) (.ok b)

theorem ok_bind {ε α β : Type} (a : α) (f : α → Except ε β) : (Except.ok a >>= f) = f a := rfl

section
variable {ε α β γ δ : Type} {report : ε → Error} {R : α → β → Prop} {S : γ → δ → Prop}

/-- What is done next follows if it follows from every pair of related answers. -/
theorem Follows.bind {x : Except ε α} {y : Except Halt β} {f : α → Except ε γ}
    {g : β → Except Halt δ} (h : Follows report R x y)
    (hnext : ∀ a b, R a b → Follows report S (f a) (g b)) :
    Follows report S (x >>= f) (y >>= g) := by
  cases h with
  | error e => exact .error e
  | ok hab => exact hnext _ _ hab

theorem Follows.imp {R' : α → β → Prop} {x : Except ε α} {y : Except Halt β}
    (h : Follows report R x y) (hR : ∀ a b, R a b → R' a b) : Follows report R' x y := by
  cases h with
  | error e => exact .error e
  | ok hab => exact .ok (hR _ _ hab)

/-- What the guarded computation makes of its answer afterwards follows if it goes well. -/
theorem Follows.andThen {x : Except ε α} {y : Except Halt β} {g : β → Except Halt δ}
    {S : α → δ → Prop} (h : Follows report R x y)
    (hS : ∀ a b, R a b → ∃ d, g b = .ok d ∧ S a d) : Follows report S x (y >>= g) := by
  cases h with
  | error e => exact .error e
  | ok hab =>
    obtain ⟨d, hd, hS⟩ := hS _ _ hab
    rw [ok_bind, hd]
    exact .ok hS

/-- The errors may be reported before. -/
theorem Follows.mapError {ε' : Type} (report : ε → Error) {report' : ε' → Error} {f : ε → ε'}
    {x : Except ε α} {y : Except Halt β} (h : Follows report R x y)
    (hf : ∀ e, report' (f e) = report e) :
    Follows report' R (x.mapError f) y := by
  cases h with
  | error e =>
    rw [← hf e]
    exact .error (f e)
  | ok hab => exact .ok hab

/-- What is made of a plain answer afterwards does not matter to the guarded computation. -/
theorem Follows.map {x : Except ε α} {y : Except Halt β} {f : α → γ} {S : γ → β → Prop}
    (h : Follows report R x y) (hS : ∀ a b, R a b → S (f a) b) : Follows report S (x.map f) y := by
  cases h with
  | error e => exact .error e
  | ok hab => exact .ok (hS _ _ hab)

end

/-! ### Rounds of a loop -/

section
variable {σ β : Type} {cursor : σ → Nat} {bound : Nat} {round : σ → Except Halt (Round σ β)}
  {s t : σ}

theorem loop_of_error {h : Halt} (hround : round s = .error h) :
    loop cursor bound round s = .error h := by
  rw [loop, hround]

theorem loop_of_leave {b : β} (hround : round s = .ok (.leave b)) :
    loop cursor bound round s = .ok b := by
  rw [loop, hround]

/-- A round that moves on within the line leaves its loop to the rounds that follow. -/
theorem loop_of_again (hround : round s = .ok (.again t)) (hlt : cursor s < cursor t)
    (hle : cursor t ≤ bound) : loop cursor bound round s = loop cursor bound round t := by
  rw [loop, hround]
  show (if cursor t ≤ cursor s then _ else if bound < cursor t then _ else _) = _
  rw [if_neg (by omega), if_neg (by omega)]

/-- Where a round follows a plain computation and moves on, the loop follows what the plain one does
next if the rounds behind it do. -/
theorem Follows.loop {ε α γ τ : Type} {report : ε → Error} {R : α → τ → Prop} {S : γ → β → Prop}
    {x : Except ε α} {y : Except Halt τ} (next : τ → σ) {f : α → Except ε γ}
    (hround : round s = y >>= fun b => .ok (.again (next b))) (h : Follows report R x y)
    (hnext : ∀ a b, x = .ok a → R a b → cursor s < cursor (next b) ∧ cursor (next b) ≤ bound ∧
      Follows report S (f a) (loop cursor bound round (next b))) :
    Follows report S (x >>= f) (loop cursor bound round s) := by
  cases h with
  | error e =>
    rw [loop_of_error hround]
    exact .error e
  | @ok a b hab =>
    obtain ⟨hlt, hle, hmore⟩ := hnext a b rfl hab
    rw [loop_of_again hround hlt hle]
    exact hmore

end

/-! ### The rest of a line -/

namespace Row

/-- The cursor stands within the line, in front of the given rest of it. -/
structure At (r : Row) (cursor : Nat) (rest : List Char) : Prop where
  le : cursor ≤ r.chars.length
  drop_eq : r.chars.drop cursor = rest

/-- The error that a fault in the line amounts to. -/
def report (r : Row) (f : Fault) : Error := f.error r.number r.chars

/-- An answer with the rest of the line, and the same answer with the place where that begins. -/
def Leaves {α : Type} (r : Row) (a : α × List Char) (b : α × Nat) : Prop :=
  a.1 = b.1 ∧ r.At b.2 a.2

variable {r : Row} {cursor place : Nat} {c : Char} {rest piece text : List Char}

theorem at_zero (r : Row) : r.At 0 r.chars := ⟨Nat.zero_le _, rfl⟩

theorem At.length_eq (h : r.At cursor rest) : cursor + rest.length = r.chars.length := by
  have hlen := congrArg List.length h.drop_eq
  rw [List.length_drop] at hlen
  have := h.le
  omega

theorem At.peek_eq (h : r.At cursor rest) : r.peek cursor = rest.head? := by
  show r.chars[cursor]? = _
  rw [← h.drop_eq, List.head?_drop]

/-- Behind a piece of the line stands what follows it. -/
theorem At.behind (h : r.At cursor (piece ++ rest)) : r.At (cursor + piece.length) rest where
  le := by
    have := h.length_eq
    simp only [List.length_append] at this
    omega
  drop_eq := by
    rw [← List.drop_drop, h.drop_eq]
    simp

theorem At.tail (h : r.At cursor (c :: rest)) : r.At (cursor + 1) rest := by
  have hpiece : r.At cursor ([c] ++ rest) := h
  exact hpiece.behind

theorem At.advance_eq (h : r.At cursor (piece ++ rest)) :
    r.advance cursor piece.length = .ok (cursor + piece.length) := if_pos h.behind.le

theorem At.advance_one (h : r.At cursor (c :: rest)) : r.advance cursor 1 = .ok (cursor + 1) :=
  if_pos h.tail.le

/-- What is cut out between two places is the piece that stands there. -/
theorem At.slice_eq (hstart : r.At place (piece ++ rest)) (hcursor : r.At cursor rest) :
    r.slice place cursor = .ok piece := by
  have hlen := hstart.length_eq
  have hlen' := hcursor.length_eq
  simp only [List.length_append] at hlen
  have hcut : cursor - place = piece.length := by omega
  unfold slice
  rw [if_pos ⟨by omega, hcursor.le⟩, List.drop_take, hstart.drop_eq, hcut, List.take_left]

/-- A place is known by what is left from there on. -/
theorem At.column_eq (h : r.At place text) : column r.chars text = place + 1 := by
  have := h.length_eq
  unfold column
  omega

theorem At.fail_eq {α : Type} (h : r.At place text) (cause : Cause) :
    r.fail (α := α) place cause = .error (.error (r.report ⟨cause, text⟩)) := by
  unfold report Fault.error
  rw [h.column_eq]
  rfl

theorem At.follows_fail {α β : Type} {R : α → β → Prop} (h : r.At place text) (cause : Cause) :
    Follows r.report R (.error ⟨cause, text⟩) (r.fail place cause) := by
  rw [h.fail_eq]
  exact .error _

/-- Moving on takes something off what is left. -/
theorem At.lt_of_suffix {next : Nat} (h : r.At cursor (c :: text)) (hnext : r.At next rest)
    (hsuffix : rest <:+ text) : cursor < next := by
  have hlen := h.length_eq
  have hlen' := hnext.length_eq
  have := hsuffix.length_le
  simp only [List.length_cons] at hlen
  omega

end Row

end Offside.Scan.Guarded
