import Offside.Proofs.Scan.Run

/-!
# `Offside.Proofs.Scan.Failure`: where a scan fails

A scan fails for one of three reasons, and each of them has its line:

* `scanLine_eq_error`: a line fails at its margin, if it is measured, or else in its text.
  Either way the error names the line itself.
* `scanLines_eq_error`: a run fails where its first bad line does, behind lines without fault, so
  the error lies on one of its lines (`line_of_scanLines_eq_error`).
* `scan_eq_error_cases`: what is left is the end of the input, inside a block comment.
-/

set_option autoImplicit false

namespace Offside.Scan

open Offside.Text

/-! ### One line -/

/-- Between two lines nothing can fail but the measuring of the second. -/
theorem boundary_eq_error_iff {settings : Settings} {s : State} {line : List Char}
    {fault : Fault} :
    boundary settings s line = .error fault ↔
      s.lines ≠ 0 ∧ s.joinsNext settings = false ∧ allBlank line = false ∧
        measure s.unit line = .error fault := by
  constructor
  · intro h
    unfold boundary at h
    split at h
    · cases h
    rename_i hjoin
    simp only [not_or, Bool.not_eq_true] at hjoin
    split at h
    · cases h
    rename_i hblank
    split at h
    · rename_i found hmeasure
      cases h
      exact ⟨hjoin.1, hjoin.2, by simpa using hblank, hmeasure⟩
    · cases h
  · rintro ⟨hlines, hjoin, hblank, hmeasure⟩
    simp [boundary, hlines, hjoin, hblank, hmeasure]

/-- A line fails at its margin or in its text. -/
theorem scanLine_eq_error {settings : Settings} {s : State} {line : List Char} {e : Error}
    (h : scanLine settings s line = .error e) :
    ∃ fault, e = fault.error (s.lines + 1) line ∧
      (boundary settings s line = .error fault ∨
        (∃ s₁ layout, Boundary settings s line s₁ layout) ∧
          lexemes settings.isKeyword (if s.inComment then .comment else .code) line =
            .error fault) := by
  unfold scanLine at h
  simp only at h
  split at h
  · rename_i fault hboundary
    cases h
    exact ⟨fault, rfl, .inl hboundary⟩
  · rename_i s₁ layout hboundary
    have hrules := boundary_eq_ok_iff.1 hboundary
    split at h
    · rename_i fault hfault
      cases h
      rw [hrules.inComment_eq] at hfault
      exact ⟨fault, rfl, .inr ⟨⟨s₁, layout, hrules⟩, hfault⟩⟩
    · cases h

theorem line_of_scanLine_eq_error {settings : Settings} {s : State} {line : List Char}
    {e : Error} (h : scanLine settings s line = .error e) : e.line = s.lines + 1 := by
  obtain ⟨fault, rfl, -⟩ := scanLine_eq_error h
  rfl

theorem scanLine_lines {settings : Settings} {s s' : State} {line : List Char}
    {tokens : List Token} (h : scanLine settings s line = .ok (s', tokens)) :
    s'.lines = s.lines + 1 := by
  obtain ⟨s₁, layout, found, mode, -, -, rfl, -⟩ := scanLine_eq_ok h
  rfl

/-! ### Runs of lines -/

theorem scanLines_cons_eq_ok {settings : Settings} {s s' : State} {line : List Char}
    {lines : List (List Char)} {tokens : List Token}
    (h : scanLines settings s (line :: lines) = .ok (s', tokens)) :
    ∃ s₁ own more, scanLine settings s line = .ok (s₁, own) ∧
      scanLines settings s₁ lines = .ok (s', more) ∧ tokens = own ++ more := by
  rw [scanLines] at h
  split at h
  · cases h
  · rename_i s₁ own hline
    split at h
    · cases h
    · rename_i s₂ more hmore
      cases h
      exact ⟨s₁, own, more, hline, hmore, rfl⟩

/-- Behind lines without fault a run goes on from their state. -/
theorem scanLines_append_of_ok {settings : Settings} {s s₁ : State} {xs : List (List Char)}
    {front : List Token} (h : scanLines settings s xs = .ok (s₁, front))
    (ys : List (List Char)) :
    scanLines settings s (xs ++ ys) =
      (scanLines settings s₁ ys).map (fun p => (p.1, front ++ p.2)) := by
  rw [scanLines_append, h]
  simp only
  cases scanLines settings s₁ ys <;> rfl

theorem scanLines_append_of_error {settings : Settings} {s : State} {xs : List (List Char)}
    {e : Error} (h : scanLines settings s xs = .error e) (ys : List (List Char)) :
    scanLines settings s (xs ++ ys) = .error e := by
  rw [scanLines_append, h]

theorem scanLines_lines {settings : Settings} {s s' : State} {lines : List (List Char)}
    {tokens : List Token} (h : scanLines settings s lines = .ok (s', tokens)) :
    s'.lines = s.lines + lines.length := by
  induction lines generalizing s tokens with
  | nil =>
    cases h
    rfl
  | cons line lines ih =>
    obtain ⟨s₁, own, more, hline, hmore, rfl⟩ := scanLines_cons_eq_ok h
    rw [ih hmore, scanLine_lines hline, List.length_cons]
    omega

/-- A run fails where its first line with a fault does. -/
theorem scanLines_eq_error {settings : Settings} {s : State} {lines : List (List Char)}
    {e : Error} (h : scanLines settings s lines = .error e) :
    ∃ front line rest s₁ tokens, lines = front ++ line :: rest ∧
      scanLines settings s front = .ok (s₁, tokens) ∧ scanLine settings s₁ line = .error e := by
  induction lines generalizing s with
  | nil => cases h
  | cons line lines ih =>
    rw [scanLines] at h
    split at h
    · rename_i e' hline
      cases h
      exact ⟨[], line, lines, s, [], rfl, rfl, hline⟩
    · rename_i s₁ own hline
      split at h
      · rename_i e' hlines
        cases h
        obtain ⟨front, bad, rest, s₂, tokens, rfl, hfront, hbad⟩ := ih hlines
        refine ⟨line :: front, bad, rest, s₂, own ++ tokens, rfl, ?_, hbad⟩
        rw [scanLines, hline]
        simp only [hfront]
      · cases h

/-- The error of a run lies on one of its lines. -/
theorem line_of_scanLines_eq_error {settings : Settings} {s : State}
    {lines : List (List Char)} {e : Error} (h : scanLines settings s lines = .error e) :
    s.lines < e.line ∧ e.line ≤ s.lines + lines.length := by
  obtain ⟨front, line, rest, s₁, tokens, rfl, hfront, hline⟩ := scanLines_eq_error h
  rw [line_of_scanLine_eq_error hline, scanLines_lines hfront, List.length_append,
    List.length_cons]
  omega

/-! ### Programs -/

/-- A program closes unless it ends inside a block comment. -/
theorem close_eq_error {s : State} {e : Error} (h : s.close = .error e) :
    s.inComment = true ∧ e = ⟨s.lines, none, .unterminatedComment⟩ := by
  unfold State.close at h
  split at h
  · rename_i hinside
    cases h
    exact ⟨hinside, rfl⟩
  · cases h

/-- A program fails at a line, or at its end inside a block comment. -/
theorem scan_eq_error_cases {settings : Settings} {lines : List (List Char)} {e : Error}
    (h : scan settings lines = .error e) :
    scanLines settings (State.start settings) lines = .error e ∨
      ∃ s tokens, scanLines settings (State.start settings) lines = .ok (s, tokens) ∧
        s.inComment = true ∧ e = ⟨lines.length, none, .unterminatedComment⟩ := by
  unfold scan at h
  split at h
  · rename_i e' hrun
    cases h
    exact .inl hrun
  · rename_i s tokens hrun
    split at h
    · rename_i e' hclose
      cases h
      obtain ⟨hinside, rfl⟩ := close_eq_error hclose
      exact .inr ⟨s, tokens, hrun, hinside, by rw [(run_lines hrun).1]⟩
    · cases h

theorem scan_of_failed_run {settings : Settings} {lines : List (List Char)} {e : Error}
    (h : scanLines settings (State.start settings) lines = .error e) :
    scan settings lines = .error e := by
  unfold scan
  rw [h]

end Offside.Scan
