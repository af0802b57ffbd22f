import Offside.Proofs.Command.FileMode
import Offside.Proofs.Scan.Payloads

/-!
# `Offside.Proofs.Command.Listings`: listings are unambiguous

A listing has the text of one token on each line. Neither a text nor an escaped character in it
holds a line break, so the lines of a listing are the texts of its tokens, and a text says which
token it is of, if that is no decimal. `listing_unambiguous` is the result for scans: whatever the
settings and the lines, what is listed is known by the listing.
-/

set_option autoImplicit false

namespace Offside.Command

/-- Tokens that carry what their kinds call for, other than decimals, are known by their texts. -/
theorem eq_of_map_text_eq {tokens tokens' : List Token} (hfits : ∀ t ∈ tokens, t.Fits)
    (hfits' : ∀ t ∈ tokens', t.Fits) (hne : ∀ t ∈ tokens, t.kind ≠ .decimal)
    (h : tokens.map (fun t => t.text.toList) = tokens'.map (fun t => t.text.toList)) :
    tokens = tokens' := by
  induction tokens generalizing tokens' with
  | nil => exact (List.map_eq_nil_iff.1 h.symm).symm
  | cons t tokens ih =>
    cases tokens' with
    | nil => cases h
    | cons t' tokens' =>
      obtain ⟨ht, hfits⟩ := List.forall_mem_cons.1 hfits
      obtain ⟨ht', hfits'⟩ := List.forall_mem_cons.1 hfits'
      obtain ⟨hkind, hne⟩ := List.forall_mem_cons.1 hne
      obtain ⟨htext, hrest⟩ := List.cons.inj h
      rw [Token.eq_of_text_eq ht ht' hkind (String.toList_inj.1 htext), ih hfits hfits' hne hrest]

/-- The text of a token of a scan holds no line feed, so the lines of a listing are the texts of its
tokens, one for each. Two scans that are listed in the same way, without decimals, have the same
tokens, with everything that they carry and where they stand, whatever the settings and the lines of
either. -/
theorem listing_unambiguous {settings settings' : Settings} {lines lines' : List (List Char)}
    {tokens tokens' : List Token} (h : Scan.scan settings lines = .ok tokens)
    (h' : Scan.scan settings' lines' = .ok tokens') :
    (∀ t ∈ tokens, '\n' ∉ t.text.toList) ∧
      Text.linesOf (listing tokens) = tokens.map (fun t => t.text.toList) ∧
      ((∀ t ∈ tokens, t.kind ≠ .decimal) → listing tokens = listing tokens' →
        tokens = tokens') := by
  refine ⟨fun t _ => t.oneLine_text.feed_not_mem, linesOf_listing tokens, fun hne hlisting => ?_⟩
  have htexts := congrArg Text.linesOf hlisting
  rw [linesOf_listing, linesOf_listing] at htexts
  exact eq_of_map_text_eq (Scan.scan_fits h) (Scan.scan_fits h') hne htexts

/-- A line feed and a quote, which are written with escapes by letter and by number. Both lines are
listed in the same way, and hold the same characters in the same places. -/
theorem listing_unambiguous_escapes :
    let lines := ["'\\n' '\\''    ".toList]
    let lines' := ["'\\n' '\\u0027'".toList]
    let tokens : List Token := [⟨.character, some (.character '\n'), 1, 1⟩,
      ⟨.character, some (.character '\''), 1, 6⟩, ⟨.eof, none, 1, 14⟩]
    Scan.scan {} lines = .ok tokens ∧ Scan.scan {} lines' = .ok tokens ∧
      Text.linesOf (listing tokens) = ["1:1 CHARACTER('\\n')".toList,
        "1:6 CHARACTER('\\'')".toList, "1:14 EOF".toList] ∧
      ∀ tokens', Scan.scan {} lines' = .ok tokens' → listing tokens = listing tokens' →
        tokens = tokens' := by
  intro lines lines' tokens
  have h : Scan.scan {} lines = .ok tokens := by
    simp only [lines, tokens]
    cbv
  have h' : Scan.scan {} lines' = .ok tokens := by
    simp only [lines', tokens]
    cbv
  refine ⟨h, h', ?_, fun tokens' hscan => (listing_unambiguous h hscan).2.2 (by decide)⟩
  rw [(listing_unambiguous h h').2.1]
  simp only [tokens]
  cbv

end Offside.Command
