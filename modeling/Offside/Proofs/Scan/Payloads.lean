import Offside.Proofs.Scan.Run
import Offside.Proofs.Token.Printing

/-!
# `Offside.Proofs.Scan.Payloads`: what the tokens of a scan carry

Every rule of the grammar gives a lexeme the sort of payload that its kind calls for
(`Spells.fits`, `SpellsArgument.fits`), and the tokens between lines and at the end of a program
carry nothing and are called to carry nothing. So all tokens of a scan fit (`scan_fits`).
-/

set_option autoImplicit false

namespace Offside.Scan

/-- The lexeme carries what its kind calls for. -/
def Lexeme.Fits (l : Lexeme) : Prop := l.literal.map Literal.shape = l.kind.payload

instance (l : Lexeme) : Decidable l.Fits := inferInstanceAs (Decidable (_ = _))

variable {isKeyword : String → Bool} {before text after : List Char} {l : Lexeme}

theorem Spells.fits (h : Spells isKeyword before text after l) : l.Fits := by
  have hsigns : ∀ s ∈ signs, s.lexeme.Fits := by decide
  cases h with
  | word hw => cases hw <;> rfl
  | character _ => rfl
  | string _ => rfl
  | sign hs => exact hsigns _ hs.mem
  | header _ _ _ _ => rfl

theorem SpellsArgument.fits (h : SpellsArgument before text after l) : l.Fits := by
  cases h <;> rfl

theorem Reads.fits {mode next : Mode}
    (h : Reads isKeyword before mode text after (some l) next) : l.Fits := by
  cases h with
  | lexeme hl => exact hl.fits
  | lineComment => rfl
  | blockOpen => rfl
  | blockClose => rfl
  | argument hl => exact hl.fits

/-- The tokens that a line adds carry what their kinds call for. -/
theorem scanLine_fits {settings : Settings} {s s' : State} {line : List Char}
    {tokens : List Token} (h : scanLine settings s line = .ok (s', tokens)) :
    ∀ t ∈ tokens, t.Fits := by
  obtain ⟨s₁, layout, found, mode, hboundary, hreads, -, rfl⟩ := scanLine_eq_ok h
  intro t ht
  rcases List.mem_append.1 ht with ht | ht
  · rcases hboundary.layout_cases with ⟨-, rfl⟩ | ⟨-, -, count, kind, hkind, rfl⟩
    · cases ht
    rcases List.mem_cons.1 ht with rfl | ht
    · rfl
    · rw [List.eq_of_mem_replicate ht]
      rcases hkind with rfl | rfl <;> rfl
  · obtain ⟨p, hp, rfl⟩ := List.mem_map.1 (List.mem_filter.1 ht).1
    exact hreads.forall_lexeme (fun hread => hread.fits) p hp

/-- All tokens of a scan carry what their kinds call for. -/
theorem scan_fits {settings : Settings} {lines : List (List Char)} {tokens : List Token}
    (h : scan settings lines = .ok tokens) : ∀ t ∈ tokens, t.Fits := by
  obtain ⟨s, front, hfront, -, rfl⟩ := scan_eq_ok h
  have hrun : ∀ t ∈ front, t.Fits := by
    refine scanLines_induction (motive := fun _ _ tokens => ∀ t ∈ tokens, t.Fits)
      (by simp) ?_ hfront
    intro lines s tokens line s' more _ ih hline
    exact List.forall_mem_append.2 ⟨ih, scanLine_fits hline⟩
  refine List.forall_mem_append.2 ⟨hrun, List.forall_mem_append.2 ⟨fun t ht => ?_, ?_⟩⟩
  · rw [List.eq_of_mem_replicate ht]
    rfl
  · exact List.forall_mem_singleton.2 rfl

end Offside.Scan
