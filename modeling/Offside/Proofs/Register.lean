import Mathlib.Data.List.Nodup
import Offside.Register

/-!
# `Offside.Proofs.Register`: registers in order

A register that is built by inserting and erasing lists its keys in increasing order, so that no
key occurs twice.

* `Ordered` is that property, kept by `Ordered.insert` and `Ordered.erase`;
  `Ordered.nodup_keys` is what it is for.
* `eraseAll` erases several keys, in whatever order they are given (`eraseAll_comm`).
* `find?_eq_some_iff` says that all entries of such a register are found; `mem_keys_iff`,
  `erase_insert`, `erase_eq_self` and `eq_empty_of_find?` need no order.
-/

set_option autoImplicit false

namespace Offside

namespace Register

variable {κ α : Type} [DecidableEq κ]

/-! ### Looking up in the entries -/

theorem lookup_isSome_iff {k : κ} {entries : List (κ × α)} :
    (lookup k entries).isSome = true ↔ k ∈ entries.map Prod.fst := by
  induction entries with
  | nil => simp [lookup]
  | cons e rest ih =>
    obtain ⟨j, b⟩ := e
    rw [lookup, List.map_cons, List.mem_cons]
    split
    · rename_i hj
      simp [hj]
    · rename_i hj
      rw [ih]
      exact ⟨.inr, fun h => h.resolve_left fun hk => hj hk.symm⟩

/-- A key has an entry exactly if it is listed. -/
theorem mem_keys_iff {r : Register κ α} {k : κ} : k ∈ r.keys ↔ (r.find? k).isSome = true :=
  lookup_isSome_iff.symm

theorem eq_empty_of_find? {r : Register κ α} (h : ∀ k, r.find? k = none) : r = {} := by
  have hkeys : r.keys = [] := by
    rw [List.eq_nil_iff_forall_not_mem]
    intro k hk
    rw [mem_keys_iff, h k] at hk
    cases hk
  obtain ⟨entries⟩ := r
  rw [keys, List.map_eq_nil_iff] at hkeys
  exact congrArg Register.mk hkeys

theorem mem_of_lookup {k : κ} {a : α} {entries : List (κ × α)} (h : lookup k entries = some a) :
    (k, a) ∈ entries := by
  induction entries with
  | nil => cases h
  | cons e rest ih =>
    rw [lookup] at h
    split at h
    · rename_i hk
      cases h
      exact hk ▸ List.mem_cons_self
    · exact List.mem_cons_of_mem e (ih h)

/-- An entry is found under its key, if no key occurs twice. -/
theorem find?_eq_some_iff {r : Register κ α} (hnodup : r.keys.Nodup) {k : κ} {a : α} :
    r.find? k = some a ↔ (k, a) ∈ r.entries := by
  constructor
  · exact mem_of_lookup
  · intro hmem
    obtain ⟨b, hb⟩ := Option.isSome_iff_exists.1 (mem_keys_iff.1 (List.mem_map_of_mem hmem))
    have hsame : (k, b) = (k, a) := List.inj_on_of_nodup_map hnodup (mem_of_lookup hb) hmem rfl
    cases hsame
    exact hb

/-- Erasing a key without an entry changes nothing. -/
theorem erase_eq_self {r : Register κ α} {k : κ} (h : r.find? k = none) : r.erase k = r := by
  obtain ⟨entries⟩ := r
  rw [erase]
  congr 1
  rw [List.filter_eq_self]
  intro e he
  have hk : k ∉ entries.map Prod.fst := by
    rw [← lookup_isSome_iff, show lookup k entries = none from h]
    simp
  have hne : e.1 ≠ k := fun hek => hk (hek ▸ List.mem_map_of_mem he)
  simpa using hne

/-! ### Erasing several keys -/

/-- The register without the entries under some keys. -/
def eraseAll (r : Register κ α) (ks : List κ) : Register κ α :=
  ⟨r.entries.filter (fun e => e.1 ∉ ks)⟩

theorem eraseAll_nil (r : Register κ α) : r.eraseAll [] = r := by
  obtain ⟨entries⟩ := r
  rw [eraseAll]
  congr 1
  exact List.filter_eq_self.2 fun e _ => decide_eq_true List.not_mem_nil

theorem eraseAll_cons (r : Register κ α) (k : κ) (ks : List κ) :
    r.eraseAll (k :: ks) = (r.erase k).eraseAll ks := by
  simp only [eraseAll, erase, List.filter_filter]
  congr 2
  funext e
  rw [← Bool.decide_and]
  simp only [List.mem_cons, not_or, and_comm]

theorem eraseAll_comm (r : Register κ α) (ks ls : List κ) :
    (r.eraseAll ks).eraseAll ls = (r.eraseAll ls).eraseAll ks := by
  simp only [eraseAll, List.filter_filter, Bool.and_comm]

variable [LT κ] [DecidableRel (α := κ) (· < ·)]

/-- Erasing what was inserted is erasing what was there. -/
theorem erase_insert (r : Register κ α) (k : κ) (a : α) : (r.insert k a).erase k = r.erase k := by
  obtain ⟨entries⟩ := r
  simp only [insert, erase]
  congr 1
  induction entries with
  | nil => simp [place]
  | cons e rest ih =>
    obtain ⟨j, b⟩ := e
    rw [place]
    split
    · rename_i hj
      simp [hj]
    split
    · simp
    · rename_i hj _
      rw [List.filter_cons_of_pos (by simpa using hj), ih,
        List.filter_cons_of_pos (by simpa using hj)]

theorem mem_place {k : κ} {a : α} {e : κ × α} {entries : List (κ × α)}
    (h : e ∈ place k a entries) : e = (k, a) ∨ e ∈ entries := by
  induction entries with
  | nil => exact .inl (List.mem_singleton.1 h)
  | cons d rest ih =>
    obtain ⟨j, b⟩ := d
    rw [place] at h
    split at h
    · exact (List.mem_cons.1 h).imp_right (List.mem_cons_of_mem _)
    split at h
    · exact List.mem_cons.1 h
    · rcases List.mem_cons.1 h with h | h
      · exact .inr (h ▸ List.mem_cons_self)
      · exact (ih h).imp_right (List.mem_cons_of_mem _)

/-! ### Order -/

omit [DecidableEq κ] [DecidableRel (α := κ) (· < ·)] in
/-- The keys increase. -/
def Ordered (r : Register κ α) : Prop := r.entries.Pairwise (fun d e => d.1 < e.1)

omit [DecidableEq κ] [DecidableRel (α := κ) (· < ·)] in
theorem ordered_empty : (({} : Register κ α)).Ordered := List.Pairwise.nil

omit [DecidableRel (α := κ) (· < ·)] in
theorem Ordered.erase {r : Register κ α} (h : r.Ordered) (k : κ) : (r.erase k).Ordered :=
  List.Pairwise.sublist List.filter_sublist h

omit [DecidableRel (α := κ) (· < ·)] in
theorem Ordered.eraseAll {r : Register κ α} (h : r.Ordered) (ks : List κ) :
    (r.eraseAll ks).Ordered :=
  List.Pairwise.sublist List.filter_sublist h

theorem Ordered.insert [Trans (α := κ) (· < ·) (· < ·) (· < ·)]
    [Std.Trichotomous (α := κ) (· < ·)] {r : Register κ α} (h : r.Ordered) (k : κ) (a : α) :
    (r.insert k a).Ordered := by
  obtain ⟨entries⟩ := r
  simp only [Ordered, Register.insert] at h ⊢
  induction entries with
  | nil => exact List.pairwise_singleton _ _
  | cons e rest ih =>
    obtain ⟨j, b⟩ := e
    obtain ⟨hj, hrest⟩ := List.pairwise_cons.1 h
    rw [place]
    split
    -- The entry takes the place of the one under its key.
    · rename_i hjk
      exact List.pairwise_cons.2 ⟨fun d hd => hjk ▸ hj d hd, hrest⟩
    split
    · rename_i hkj
      refine List.pairwise_cons.2 ⟨fun d hd => ?_, h⟩
      rcases List.mem_cons.1 hd with rfl | hd
      · exact hkj
      · exact Trans.trans hkj (hj d hd)
    · rename_i hne hkj
      have hjk : j < k := by
        by_contra hjk
        exact hne (Std.Trichotomous.trichotomous j k hjk hkj)
      refine List.pairwise_cons.2 ⟨fun d hd => ?_, ih hrest⟩
      rcases mem_place hd with rfl | hd
      · exact hjk
      · exact hj d hd

omit [DecidableEq κ] [DecidableRel (α := κ) (· < ·)] in
/-- No key occurs twice. -/
theorem Ordered.nodup_keys [Std.Irrefl (α := κ) (· < ·)] {r : Register κ α} (h : r.Ordered) :
    r.keys.Nodup := by
  rw [keys, List.Nodup, List.pairwise_map]
  refine h.imp fun {d e} hlt heq => ?_
  rw [heq] at hlt
  exact Std.Irrefl.irrefl _ hlt

end Register

end Offside
